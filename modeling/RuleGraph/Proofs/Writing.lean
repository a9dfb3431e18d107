import Mathlib.Data.List.Basic
import RuleGraph.Conversion

/-!
# Writing piece by piece

A sink takes the pieces of a text as it would take them all at once: what it has taken at the end,
and whether it has failed, depends on the bytes only and not on where one piece ends and the next
begins (`Intake.foldlM_put`). So the outcome of writing a graph document is told by the length of
its text and the room of the sink (`GraphDocument.writeTo_eq`).
-/

namespace RuleGraph

/-! ## Bytes of a text -/

theorem toList_loop_eq_drop (bytes : ByteArray) (i : Nat) (taken : List UInt8) :
    ByteArray.toList.loop bytes i taken = taken.reverse ++ bytes.data.toList.drop i := by
  fun_induction ByteArray.toList.loop bytes i taken with
  | case1 i taken h ih =>
    have hi : i < bytes.data.toList.length := by simpa using h
    rw [ih, List.drop_eq_getElem_cons hi, List.reverse_cons, List.append_assoc]
    simp [ByteArray.get!, h]
  | case2 i taken h =>
    have hi : bytes.data.toList.length ≤ i := by simpa using h
    rw [List.drop_eq_nil_of_le hi, List.append_nil]

/-- The bytes of a text are those of its characters. -/
theorem toUTF8_ofList_toList (cs : List Char) :
    (String.ofList cs).toUTF8.toList = (cs.map String.utf8EncodeChar).flatten := by
  rw [String.toUTF8_eq_toByteArray, String.toByteArray_ofList, ByteArray.toList,
    toList_loop_eq_drop, List.utf8Encode, List.toList_data_toByteArray]
  rfl

/-! ## Pieces -/

namespace Intake

variable {s : Intake} {bytes : List UInt8}

theorem put_nil (s : Intake) : s.put [] = .ok s := by
  obtain ⟨written, _ | room⟩ := s <;> simp [put]

theorem put_of_unlimited (h : s.room = none) :
    s.put bytes = .ok ⟨s.written ++ bytes, none⟩ := by
  rw [put, h]

theorem put_of_le {room : Nat} (h : s.room = some room) (hle : bytes.length ≤ room) :
    s.put bytes = .ok ⟨s.written ++ bytes, some (room - bytes.length)⟩ := by
  simp only [put, h, if_pos hle, List.take_of_length_le hle]

theorem put_of_lt {room : Nat} (h : s.room = some room) (hlt : room < bytes.length) :
    s.put bytes = .error ⟨s.written ++ bytes.take room, some 0⟩ := by
  simp only [put, h, if_neg (Nat.not_le.mpr hlt), Nat.sub_eq_zero_of_le (Nat.le_of_lt hlt)]

theorem array_append_append (xs : Array UInt8) (a b : List UInt8) :
    xs ++ (a ++ b) = xs ++ a ++ b := by
  apply Array.toList_inj.mp
  simp

/-- Two pieces, one after the other, are taken as one piece. -/
theorem put_append (s : Intake) (a b : List UInt8) :
    s.put (a ++ b) = (s.put a).bind (·.put b) := by
  cases hroom : s.room with
  | none =>
    rw [put_of_unlimited hroom, put_of_unlimited hroom, Except.bind, put_of_unlimited rfl,
      array_append_append]
  | some room =>
    have hlength : (a ++ b).length = a.length + b.length := List.length_append
    rcases Nat.lt_or_ge room a.length with ha | ha
    · -- the failure is in the first piece
      rw [put_of_lt hroom ha, put_of_lt hroom (by omega),
        List.take_append_of_le_length (Nat.le_of_lt ha)]
      rfl
    · rw [put_of_le hroom ha, Except.bind]
      rcases Nat.lt_or_ge (room - a.length) b.length with hb | hb
      · rw [put_of_lt rfl hb, put_of_lt hroom (by omega), List.take_append,
          List.take_of_length_le ha, array_append_append]
      · rw [put_of_le rfl hb, put_of_le hroom (by omega), hlength, Nat.sub_sub,
          array_append_append]

/-- Pieces are taken as all their bytes at once. -/
theorem foldlM_put (s : Intake) (pieces : List (List UInt8)) :
    pieces.foldlM put s = s.put pieces.flatten := by
  induction pieces generalizing s with
  | nil => exact (put_nil s).symm
  | cons piece pieces ih =>
    rw [List.foldlM_cons, List.flatten_cons, put_append]
    show (s.put piece).bind _ = _
    congr 1
    exact funext ih

end Intake

/-! ## A graph document -/

/-- The outcome of writing a text, where the error is another one if only its last byte is lost. -/
def Sink.outcome (sink : Sink) (text : String) : Outcome :=
  let bytes := text.toUTF8.toList
  match sink.room with
  | none => ⟨bytes, none⟩
  | some room =>
    ⟨bytes.take room,
      if bytes.length ≤ room then none
      else if bytes.length = room + 1 then some (.unwritableEnd sink.failure)
      else some (.unwritableGraph sink.failure)⟩

namespace GraphDocument

theorem text_toUTF8 (g : GraphDocument) :
    g.text.toUTF8.toList = g.pieces.flatten ++ String.utf8EncodeChar '\n' := by
  have htext : g.text = String.ofList (g.toValue.pretty 0 ++ ['\n']) := by
    rw [text, Json.Value.prettyText, String.ofList_append]
  rw [htext, toUTF8_ofList_toList, List.map_append, List.flatten_append, pieces]
  simp

/-- What a sink has taken of a graph document, and the error, is told by the room it had. -/
theorem writeTo_eq (g : GraphDocument) (sink : Sink) : g.writeTo sink = sink.outcome g.text := by
  have hbreak : (String.utf8EncodeChar '\n').length = 1 := rfl
  rw [writeTo, Intake.foldlM_put, Sink.outcome, text_toUTF8]
  generalize g.pieces.flatten = bytes
  cases hroom : sink.room with
  | none => simp [Intake.put_of_unlimited]
  | some room =>
    have hlength : (bytes ++ String.utf8EncodeChar '\n').length = bytes.length + 1 := by
      rw [List.length_append, hbreak]
    rcases Nat.lt_trichotomy room bytes.length with hlt | heq | hgt
    · -- the room ends within the text over lines
      rw [Intake.put_of_lt rfl hlt]
      simp only [hlength, List.take_append_of_le_length (Nat.le_of_lt hlt)]
      rw [if_neg (by omega), if_neg (by omega)]
      simp
    · -- there is room for all but the line break
      subst heq
      rw [Intake.put_of_le rfl (Nat.le_refl _)]
      simp only [hlength, List.take_left]
      rw [Intake.put_of_lt rfl (by rw [hbreak]; omega), if_neg (by omega)]
      simp
    · rw [Intake.put_of_le rfl (Nat.le_of_lt hgt)]
      simp only [hlength]
      rw [Intake.put_of_le rfl (by rw [hbreak]; omega), if_pos (by omega),
        List.take_of_length_le (by omega)]
      simp

end GraphDocument

end RuleGraph
