import RuleGraph.Build.Label
import RuleGraph.Proofs.ShortestText

/-!
# Numbers in titles

A title shows a value as its text, on its own or as a segment of a path. Numbers are meant to be
printed as JavaScript prints them, as the text of the nearest binary64; the title of an integer has
its exact digits. `title?_integer` says where the two are the same: where the integer is the
shortest of those with the same nearest number, so everywhere up to `2 ^ 53`.
-/

namespace RuleGraph.Entity

open Json Binary64

/-- A value that the title of an entity shows, and the title around the text of this value. -/
inductive Shows (v : Value) : Entity → (String → String) → Prop
  | number {e : Entity} (hkind : e.kind = .number) (hfield : e.field? "value" = some v) :
      Shows v e fun s => s
  | operator {e : Entity} (hkind : e.kind = .arithmeticOperator ∨ e.kind = .periodOperator)
      (hfield : e.field? "operator" = some v) : Shows v e fun s => s
  | segment {e : Entity} {before after : List Value} {lead trail : List String}
      (hkind : e.kind = .parameter)
      (hfield : e.field? "path" = some (.array (before ++ v :: after)))
      (hlead : before.mapM Value.scalarText? = some lead)
      (htrail : after.mapM Value.scalarText? = some trail) :
      Shows v e fun s => ".".intercalate (lead ++ s :: trail)

theorem intercalate_segment_injective (sep : String) (lead trail : List String) :
    Function.Injective fun s => sep.intercalate (lead ++ s :: trail) := by
  intro s s' h
  simp only at h
  induction lead with
  | nil =>
    cases trail with
    | nil => simpa using h
    | cons t trail => simpa using h
  | cons t lead ih =>
    rw [List.cons_append, List.cons_append, String.intercalate_cons_of_ne_nil (by simp),
      String.intercalate_cons_of_ne_nil (by simp), String.append_right_inj] at h
    exact ih h

namespace Shows

variable {e : Entity} {v : Value} {frame : String → String} {s : String}

theorem title?_eq (h : Shows v e frame) (hv : v.scalarText? = some s) :
    e.title? = some (frame s) := by
  cases h with
  | number hkind hfield =>
    simp [title?, hkind, titleField?, hfield, titleOf?, hv]
  | operator hkind hfield =>
    rcases hkind with hkind | hkind <;>
      simp [title?, hkind, titleField?, hfield, titleOf?, hv]
  | segment hkind hfield hlead htrail =>
    simp [title?, hkind, titleField?, hfield, titleOf?, pathTitle?, hv, hlead, htrail]

/-- Different texts of the value make different titles. -/
theorem injective (h : Shows v e frame) : Function.Injective frame := by
  cases h with
  | number | operator => exact Function.injective_id
  | segment => exact intercalate_segment_injective _ _ _

end Shows

/-- The title shows the exact digits of an integer. They are the JavaScript text of the nearest
number just if the integer is the shortest one with this nearest number. So it is up to `2 ^ 53`;
beyond that an integer that does not end in a zero has to be a number itself. -/
theorem title?_integer {e : Entity} {n : Integer} {frame : String → String}
    (h : Shows (.number (.integer n)) e frame) :
    ∃ x t, (∀ y : Binary64, y.IsNearest n.val ↔ y = x) ∧ (∀ s, x.PrintsAs s ↔ s = t) ∧
      e.title? = some (frame (String.ofList (integerText n.val))) ∧
      (e.title? = some (frame (String.ofList t)) ↔ IsShortestNatural n.val.natAbs) ∧
      (n.val.natAbs ≤ 2 ^ 53 → e.title? = some (frame (String.ofList t))) ∧
      (¬ 10 ∣ n.val → e.title? = some (frame (String.ofList t)) →
        x.units = n.val.natAbs * unitsPerOne) := by
  have hn : n.val.natAbs ≤ 2 ^ 64 := by
    have := n.lower
    have := n.upper
    omega
  obtain ⟨t, ht, hunique⟩ := existsUnique_printsAs hn
  have hprints : ∀ s, (ofInt n.val).PrintsAs s ↔ s = t :=
    fun s => ⟨hunique s, fun hs => hs ▸ ht⟩
  have htitle : e.title? = some (frame (String.ofList (integerText n.val))) := h.title?_eq rfl
  have hiff : e.title? = some (frame (String.ofList t)) ↔ IsShortestNatural n.val.natAbs := by
    rw [htitle, Option.some_inj, h.injective.eq_iff, String.ofList_inj, ← hprints,
      printsAs_integerText_iff hn]
  refine ⟨ofInt n.val, t, fun y => isNearest_iff hn, hprints, htitle, hiff, ?_, ?_⟩
  · exact fun hle => hiff.mpr (.of_le hle)
  · intro hdvd htext
    have hround := (hiff.mp htext).roundNat_eq (by omega)
    rw [ofInt, units_ofNat, hround]

/-- A path with a number among its segments. -/
def numberedPath : Entity :=
  ⟨.parameter, 3, false,
    [("path", .array [.string "rates", .number (.integer ⟨2 ^ 53, by decide, by decide⟩),
      .bool true])]⟩

theorem title?_integer_numberedPath :
    ∃ x : Binary64, x.IsNearest (2 ^ 53 : ℤ) ∧ x.PrintsAs "9007199254740992".toList ∧
      numberedPath.title? = some "rates.9007199254740992.true" := by
  have hshows : Shows (.number (.integer ⟨2 ^ 53, by decide, by decide⟩)) numberedPath
      fun s => ".".intercalate (["rates"] ++ s :: ["true"]) :=
    @Shows.segment _ _ [.string "rates"] [.bool true] _ _ rfl rfl rfl rfl
  obtain ⟨x, t, hx, ht, htitle, -, hprinted, -⟩ := title?_integer hshows
  have htext : integerText (2 ^ 53) = t := by
    have heq := htitle.symm.trans (hprinted (by decide))
    exact String.ofList_inj.mp (hshows.injective (Option.some_inj.mp heq))
  refine ⟨x, (hx x).mpr rfl, (ht _).mpr ?_, htitle.trans ?_⟩
  · rw [← htext]
    decide
  · decide

/-- An integer that no binary64 is. -/
def oddLiteral : Entity :=
  ⟨.number, 0, false, [("value", .number (.integer ⟨2 ^ 53 + 1, by decide, by decide⟩))]⟩

/-- The title has the digits of the integer, not those of the nearest number. -/
theorem title?_ne_oddLiteral :
    oddLiteral.title? = some "9007199254740993" ∧
      ∃ x : Binary64, x.IsNearest (2 ^ 53 + 1 : ℤ) ∧ x.PrintsAs "9007199254740992".toList ∧
        ∀ t, x.PrintsAs t → oddLiteral.title? ≠ some (String.ofList t) := by
  have htitle : oddLiteral.title? = some "9007199254740993" := by decide
  have hround : roundNat (2 ^ 53) = roundNat (2 ^ 53 + 1) := by decide +kernel
  have hprints : (ofInt (2 ^ 53 + 1)).PrintsAs "9007199254740992".toList :=
    (printsAs_ofInt_iff (by decide)).mpr ⟨2 ^ 53, hround, .of_le (Nat.le_refl _), by decide⟩
  refine ⟨htitle, ofInt (2 ^ 53 + 1), (isNearest_iff (by decide)).mpr rfl, hprints, fun t ht => ?_⟩
  rw [(existsUnique_printsAs (by decide)).unique ht hprints, htitle]
  decide

end RuleGraph.Entity
