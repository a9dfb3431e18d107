import RuleGraph.Build.Reference
import RuleGraph.Proofs.Lists

/-!
# Usable references

`Refers v id` says that the value `v` refers to the entity `id`, `Usable r v` that `v` can stand in
a field of the relation `r`. What `References.ofValue?` computes is tied to both: it fails exactly
on the values that are not usable (`ofValue?_eq_none_iff`), and on the others each reference is the
`target` of its value.
-/

namespace RuleGraph

open Json

/-! ## One reference -/

/-- A value refers to an entity: it is the entity's id, or an object whose `id` is that id. -/
inductive Refers : Value → EntityId → Prop
  | number {i : Integer} {id : EntityId} (h : i.val = id.toNat) : Refers (.number (.integer i)) id
  | object {members : List (String × Value)} {i : Integer} {id : EntityId}
      (hm : OrderedMap.find? "id" members = some (.number (.integer i))) (h : i.val = id.toNat) :
      Refers (.object members) id

/-- A value refers to some entity. -/
def IsReference (v : Value) : Prop := ∃ id, Refers v id

/-- The id in a value that refers to an entity; of no meaning for other values. -/
def Json.Value.target : Value → EntityId
  | .number (.integer i) => UInt64.ofNat i.val.toNat
  | .object members =>
    match OrderedMap.find? "id" members with
    | some (.number (.integer i)) => UInt64.ofNat i.val.toNat
    | _ => 0
  | _ => 0

theorem ofNat_toNat_of_eq {i : Int} {id : EntityId} (h : i = id.toNat) :
    UInt64.ofNat i.toNat = id := by
  rw [h, Int.toNat_natCast, UInt64.ofNat_toNat]

theorem Refers.target_eq {v : Value} {id : EntityId} (h : Refers v id) : v.target = id := by
  cases h with
  | number h => exact ofNat_toNat_of_eq h
  | object hm h =>
    rw [Value.target, hm]
    exact ofNat_toNat_of_eq h

theorem Integer.eq_toNat_iff (i : Integer) (id : EntityId) :
    i.val = id.toNat ↔ 0 ≤ i.val ∧ UInt64.ofNat i.val.toNat = id := by
  constructor
  · intro h
    exact ⟨by omega, ofNat_toNat_of_eq h⟩
  · rintro ⟨hnonneg, rfl⟩
    have hlt := i.upper
    rw [UInt64.toNat_ofNat']
    omega

/-- A value is a natural of 64 bits exactly if it is an integer in their range. -/
theorem natural?_eq_some_iff {v : Value} {id : EntityId} :
    v.natural? = some id ↔ ∃ i : Integer, v = .number (.integer i) ∧ i.val = id.toNat := by
  cases v with
  | number n =>
    cases n with
    | integer i =>
      simp only [Value.natural?, Number.natural?, Value.number.injEq, Number.integer.injEq,
        exists_eq_left', Integer.eq_toNat_iff]
      by_cases h : 0 ≤ i.val <;> simp [h]
    | float x => simp [Value.natural?, Number.natural?]
  | _ => simp [Value.natural?]

namespace References

theorem id?_eq_some_iff {v : Value} {id : EntityId} : id? v = some id ↔ Refers v id := by
  constructor
  · intro h
    cases v with
    | number n =>
      have hn : (Value.number n).natural? = some id := h
      obtain ⟨i, hv, hi⟩ := natural?_eq_some_iff.mp hn
      rw [hv]
      exact .number hi
    | object members =>
      obtain ⟨v, hm, hv⟩ := Option.bind_eq_some_iff.mp h
      obtain ⟨i, rfl, hi⟩ := natural?_eq_some_iff.mp hv
      exact .object hm hi
    | _ => simp [id?] at h
  · intro h
    cases h with
    | number h => exact natural?_eq_some_iff.mpr ⟨_, rfl, h⟩
    | object hm h =>
      rw [id?, hm]
      exact natural?_eq_some_iff.mpr ⟨_, rfl, h⟩

theorem id?_eq_none_iff {v : Value} : id? v = none ↔ ¬ IsReference v := by
  rw [Option.eq_none_iff_forall_ne_some, IsReference, not_exists]
  simp only [ne_eq, id?_eq_some_iff]

theorem id?_of_isReference {v : Value} (h : IsReference v) : id? v = some v.target := by
  obtain ⟨id, h⟩ := h
  rw [h.target_eq, id?_eq_some_iff]
  exact h

end References

/-! ## All references of a field -/

/-- A value can stand in a field of a relation. -/
inductive Usable : Relation → Value → Prop
  | single {k : Kind} {v : Value} (h : IsReference v) : Usable (.single k) v
  | union {g : Grouping} {v : Value} (h : IsReference v) : Usable (.union g) v
  | array {t : Target} {items : List Value} (h : ∀ v ∈ items, IsReference v) :
      Usable (.sequence t) (.array items)
  | object {t : Target} {members : List (String × Value)} (h : ∀ m ∈ members, IsReference m.2) :
      Usable (.sequence t) (.object members)

namespace References

theorem ofValue?_single {k : Kind} {v : Value} (h : IsReference v) :
    ofValue? (.single k) v = some (.one v.target) := by
  rw [ofValue?, id?_of_isReference h, Option.map_some]

theorem ofValue?_union {g : Grouping} {v : Value} (h : IsReference v) :
    ofValue? (.union g) v = some (.one v.target) := by
  rw [ofValue?, id?_of_isReference h, Option.map_some]

theorem ofValue?_array {t : Target} {items : List Value} (h : ∀ v ∈ items, IsReference v) :
    ofValue? (.sequence t) (.array items) = some (.ordered (items.map Value.target)) := by
  simp [ofValue?, sequence?, mapM_eq_some_map fun v hv => id?_of_isReference (h v hv)]

theorem ofValue?_object {t : Target} {members : List (String × Value)}
    (h : ∀ m ∈ members, IsReference m.2) :
    ofValue? (.sequence t) (.object members) =
      some (.keyed (members.map fun m => (m.1, m.2.target))) := by
  have hm : ∀ m ∈ members, (id? m.2).map (Prod.mk m.1) = some (m.1, m.2.target) := by
    intro m hm
    rw [id?_of_isReference (h m hm), Option.map_some]
  simp [ofValue?, sequence?, mapM_eq_some_map hm]

theorem ofValue?_eq_none_iff {r : Relation} {v : Value} : ofValue? r v = none ↔ ¬ Usable r v := by
  constructor
  · intro hn hu
    cases hu with
    | single h => simp [ofValue?_single h] at hn
    | union h => simp [ofValue?_union h] at hn
    | array h => simp [ofValue?_array h] at hn
    | object h => simp [ofValue?_object h] at hn
  · intro hu
    cases r with
    | single k =>
      have h : ¬ IsReference v := fun h => hu (.single h)
      simp [ofValue?, id?_eq_none_iff.mpr h]
    | union g =>
      have h : ¬ IsReference v := fun h => hu (.union h)
      simp [ofValue?, id?_eq_none_iff.mpr h]
    | sequence t =>
      cases v with
      | array items =>
        have h : ¬ ∀ v ∈ items, IsReference v := fun h => hu (.array h)
        simpa [ofValue?, sequence?, mapM_eq_none_iff, id?_eq_none_iff] using h
      | object members =>
        have h : ¬ ∀ m ∈ members, IsReference m.2 := fun h => hu (.object h)
        simpa [ofValue?, sequence?, mapM_eq_none_iff, id?_eq_none_iff] using h
      | _ => rfl

end References

end RuleGraph
