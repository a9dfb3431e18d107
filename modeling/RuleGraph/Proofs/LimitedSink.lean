import RuleGraph.Proofs.GraphRoundTrip

/-!
# A sink with little room

What a conversion writes to a sink that takes only so many bytes is a prefix of what it writes to
one that takes all (`Outcome.CutsOff`). The error tells how much is lost: the line break at the end,
or more. A conversion that writes nothing fails in the same way at every sink (`run_limited`).
-/

namespace RuleGraph

/-- A conversion ended in an error of some category, with a reason behind it. -/
def Outcome.FailsWith (o : Outcome) (category : ErrorCategory) (reason : String) : Prop :=
  ∃ e, o.error = some e ∧ e.category = category ∧ ∀ place, e.reason? place = some reason

/-- What becomes of bytes that are written to a sink with some room, where writing fails for a
reason behind it. -/
structure Outcome.CutsOff (o : Outcome) (bytes : List UInt8) (room : Nat) (reason : String) :
    Prop where
  written : o.written = bytes.take (min room bytes.length)
  complete : bytes.length ≤ room → o.error = none
  lineBreak : room + 1 = bytes.length → o.FailsWith .io reason
  graph : room + 1 < bytes.length → o.FailsWith .serialization reason

theorem Sink.cutsOff_outcome (text : String) (room : Nat) (reason : String) :
    (outcome ⟨some room, reason⟩ text).CutsOff text.toUTF8.toList room reason where
  written := List.take_eq_take_min
  complete h := if_pos h
  lineBreak h := by
    refine ⟨.unwritableEnd reason, ?_, rfl, fun _ => rfl⟩
    rw [outcome]
    simp only [if_neg (show ¬ text.toUTF8.toList.length ≤ room by omega), if_pos h.symm]
  graph h := by
    refine ⟨.unwritableGraph reason, ?_, rfl, fun _ => rfl⟩
    rw [outcome]
    simp only [if_neg (show ¬ text.toUTF8.toList.length ≤ room by omega),
      if_neg (show ¬ text.toUTF8.toList.length = room + 1 by omega)]

theorem GraphDocument.one_lt_length_text (g : GraphDocument) :
    1 < g.text.toUTF8.toList.length := by
  have hbrace : g.toValue.pretty 0 = '\x7b' :: (g.toValue.pretty 0).tail := rfl
  rw [text_toUTF8, pieces, hbrace, List.map_cons, List.flatten_cons]
  simp only [List.length_append, String.length_utf8EncodeChar]
  have hline : Char.utf8Size '\n' = 1 := rfl
  have hopen : Char.utf8Size '\x7b' = 1 := rfl
  omega

/-- A conversion that succeeds at a sink without limit writes the text of a graph there, and at any
other sink as much of it as there is room for. One that fails there writes nothing, and fails in the
same way at any other sink. -/
theorem run_limited (source : Source) (ignored : String) :
    ((run source ⟨none, ignored⟩).error = none →
      (∃ text d g, source.Holds text ∧ Document.ofText text = .ok d ∧ d.graph = .ok g ∧
        (run source ⟨none, ignored⟩).written = (g.toValue.prettyText ++ "\n").toUTF8.toList) ∧
      ∀ room reason, (run source ⟨some room, reason⟩).CutsOff
        (run source ⟨none, ignored⟩).written room reason) ∧
    ∀ e, (run source ⟨none, ignored⟩).error = some e →
      (run source ⟨none, ignored⟩).written = [] ∧
        ∀ room reason, run source ⟨some room, reason⟩ = ⟨[], some e⟩ := by
  rcases run_cases source with ⟨e, hrun⟩ | ⟨text, d, g, ht, hd, hg, hrun⟩
  · refine ⟨fun h => ?_, fun e' h => ?_⟩
    · rw [hrun] at h
      cases h
    · rw [hrun] at h ⊢
      cases h
      exact ⟨rfl, fun room reason => hrun ⟨some room, reason⟩⟩
  · refine ⟨fun _ => ⟨⟨text, d, g, ht, hd, hg, ?_⟩, fun room reason => ?_⟩, fun e h => ?_⟩
    · rw [hrun]
      rfl
    · rw [hrun, hrun]
      exact Sink.cutsOff_outcome g.text room reason
    · rw [hrun] at h
      cases h

/-- The number text at sinks with no room and with room for all but the line break, and a source
that fails. -/
theorem run_limited_numberText :
    (∃ bytes, run ⟨numberText.toUTF8, none⟩ ⟨none, ""⟩ = ⟨bytes, none⟩ ∧
      (run ⟨numberText.toUTF8, none⟩ ⟨some 0, "full"⟩).FailsWith .serialization "full" ∧
      (run ⟨numberText.toUTF8, none⟩ ⟨some (bytes.length - 1), "full"⟩).FailsWith .io "full") ∧
    run ⟨.empty, some "gone"⟩ ⟨some 0, "full"⟩ = ⟨[], some (.unreadable "gone")⟩ := by
  obtain ⟨g, hrun⟩ := run_numberText
  have hg := hrun ⟨none, ""⟩
  have hlength := g.one_lt_length_text
  have hcut := ((run_limited ⟨numberText.toUTF8, none⟩ "").1 (by rw [hg]; rfl)).2
  have hfails := (run_limited ⟨.empty, some "gone"⟩ "").2 _ rfl
  rw [hg] at hcut
  refine ⟨⟨g.text.toUTF8.toList, hg, (hcut 0 "full").graph hlength, ?_⟩, hfails.2 0 "full"⟩
  exact (hcut _ "full").lineBreak (Nat.sub_add_cancel (Nat.le_of_lt hlength))

end RuleGraph
