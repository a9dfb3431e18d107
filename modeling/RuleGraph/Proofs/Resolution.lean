import RuleGraph.Proofs.Depiction

/-!
# What a field resolves to

A value in a field of a relation stands for references (`StandsFor`): for one, for a list of them
by position, or for a list by name. Every reference field of an entity is absent, misused, or
resolves to references (`Entity.field_cases`), and this decides what the walk makes of it.
-/

namespace RuleGraph

open Json

/-! ## The names of reference fields -/

/-- The name of a reference field tells its kind and the field. -/
theorem Kind.eq_of_name_eq {k l : Kind} {f g : ReferenceField} (hf : f ∈ k.references)
    (hg : g ∈ l.references) (h : f.name = g.name) : k = l ∧ f = g := by
  have hall : ∀ k ∈ Kind.all, ∀ l ∈ Kind.all, ∀ f ∈ k.references, ∀ g ∈ l.references,
      f.name = g.name → k = l ∧ f = g := by
    decide
  exact hall k k.mem_all l l.mem_all f hf g hg h

/-! ## Values in fields -/

/-- The references that a value in a field of a relation stands for. -/
inductive StandsFor : Relation → Value → References → Prop
  | single {k : Kind} {v : Value} {id : EntityId} (h : Refers v id) :
      StandsFor (.single k) v (.one id)
  | union {g : Grouping} {v : Value} {id : EntityId} (h : Refers v id) :
      StandsFor (.union g) v (.one id)
  | array {t : Target} {items : List Value} {ids : List EntityId}
      (h : List.Forall₂ Refers items ids) : StandsFor (.sequence t) (.array items) (.ordered ids)
  | object {t : Target} {members : List (String × Value)} {slots : List (String × EntityId)}
      (h : List.Forall₂ (fun m slot => m.1 = slot.1 ∧ Refers m.2 slot.2) members slots) :
      StandsFor (.sequence t) (.object members) (.keyed slots)

namespace References

theorem sequence?_array_eq_some_iff {items : List Value} {refs : References} :
    sequence? (.array items) = some refs ↔
      ∃ ids, List.Forall₂ Refers items ids ∧ ordered ids = refs := by
  rw [sequence?, Option.map_eq_some_iff]
  simp only [mapM_eq_some_iff fun _ _ => id?_eq_some_iff]

theorem sequence?_object_eq_some_iff {members : List (String × Value)} {refs : References} :
    sequence? (.object members) = some refs ↔
      ∃ slots, List.Forall₂ (fun m slot => m.1 = slot.1 ∧ Refers m.2 slot.2) members slots ∧
        keyed slots = refs := by
  have hslot (m : String × Value) (slot : String × EntityId) :
      (id? m.2).map (Prod.mk m.1) = some slot ↔ m.1 = slot.1 ∧ Refers m.2 slot.2 := by
    obtain ⟨key, id⟩ := slot
    simp only [Option.map_eq_some_iff, id?_eq_some_iff, Prod.mk.injEq]
    constructor
    · rintro ⟨id', h, hkey, rfl⟩
      exact ⟨hkey, h⟩
    · rintro ⟨hkey, h⟩
      exact ⟨id, h, hkey, rfl⟩
  rw [sequence?, Option.map_eq_some_iff]
  simp only [mapM_eq_some_iff hslot]

/-- The references of a field are read off its value exactly where the value stands for them. -/
theorem ofValue?_eq_some_iff {r : Relation} {v : Value} {refs : References} :
    ofValue? r v = some refs ↔ StandsFor r v refs := by
  constructor
  · intro h
    cases r with
    | single k =>
      obtain ⟨id, hid, rfl⟩ := Option.map_eq_some_iff.mp h
      exact .single (id?_eq_some_iff.mp hid)
    | union g =>
      obtain ⟨id, hid, rfl⟩ := Option.map_eq_some_iff.mp h
      exact .union (id?_eq_some_iff.mp hid)
    | sequence t =>
      have hs : sequence? v = some refs := h
      cases v with
      | array items =>
        obtain ⟨ids, hids, rfl⟩ := sequence?_array_eq_some_iff.mp hs
        exact .array hids
      | object members =>
        obtain ⟨slots, hslots, rfl⟩ := sequence?_object_eq_some_iff.mp hs
        exact .object hslots
      | _ => cases hs
  · intro h
    cases h with
    | single h => exact Option.map_eq_some_iff.mpr ⟨_, id?_eq_some_iff.mpr h, rfl⟩
    | union h => exact Option.map_eq_some_iff.mpr ⟨_, id?_eq_some_iff.mpr h, rfl⟩
    | array h => exact sequence?_array_eq_some_iff.mpr ⟨_, h, rfl⟩
    | object h => exact sequence?_object_eq_some_iff.mpr ⟨_, h, rfl⟩

end References

/-! ## Fields of entities -/

namespace Entity

variable {e : Entity} {f : ReferenceField}

/-- A field is absent or `null`. -/
def Lacks (e : Entity) (f : ReferenceField) : Prop := ∀ v, ¬ e.Carries f.name v

/-- A reference field is present and stands for references. -/
def Resolves (e : Entity) (f : ReferenceField) (refs : References) : Prop :=
  ∃ v, e.Carries f.name v ∧ StandsFor f.relation v refs

/-- What a reference field holds: nothing, or a value with the references it stands for, if any. -/
def resolution (e : Entity) (f : ReferenceField) : Option (Option References) :=
  (e.field? f.name).map (References.ofValue? f.relation)

theorem lacks_iff : e.Lacks f ↔ e.resolution f = none := by
  rw [resolution, Option.map_eq_none_iff, Option.eq_none_iff_forall_ne_some]
  simp only [Lacks, ne_eq, field?_eq_some_iff]

theorem misuses_iff : e.Misuses f ↔ e.resolution f = some none := by
  simp only [Misuses, resolution, Option.map_eq_some_iff, field?_eq_some_iff,
    References.ofValue?_eq_none_iff]

theorem resolves_iff {refs : References} :
    e.Resolves f refs ↔ e.resolution f = some (some refs) := by
  simp only [Resolves, resolution, Option.map_eq_some_iff, field?_eq_some_iff,
    References.ofValue?_eq_some_iff]

theorem Resolves.unique {refs refs' : References} (h : e.Resolves f refs)
    (h' : e.Resolves f refs') : refs = refs' := by
  rw [resolves_iff] at h h'
  exact Option.some.inj (Option.some.inj (h.symm.trans h'))

/-- A reference field is absent, misused, or resolves to references. -/
theorem field_cases (e : Entity) (f : ReferenceField) :
    e.Lacks f ∨ e.Misuses f ∨ ∃ refs, e.Resolves f refs := by
  simp only [lacks_iff, misuses_iff, resolves_iff]
  rcases e.resolution f with _ | _ | refs
  · exact .inl rfl
  · exact .inr (.inl rfl)
  · exact .inr (.inr ⟨refs, rfl⟩)

end Entity

namespace Walk

variable {e : Entity} {f : ReferenceField}

theorem ofField_of_lacks (h : e.Lacks f) : ofField e f = done [] := by
  rw [ofField, Option.map_eq_none_iff.mp (Entity.lacks_iff.mp h)]

theorem ofField_of_misuses (h : e.Misuses f) :
    ofField e f = failed (.malformedReference e.kind e.id f.name) := by
  obtain ⟨v, hv, hu⟩ := h
  rw [ofField, Entity.field?_eq_some_iff.mpr hv]
  simp only [References.ofValue?_eq_none_iff.mpr hu]

theorem ofField_of_resolves {refs : References} (h : e.Resolves f refs) :
    ofField e f = done (ofReferences e.id f.name refs) := by
  obtain ⟨v, hv, hs⟩ := h
  exact ofField_of_holds (Entity.field?_eq_some_iff.mpr hv)
    (References.ofValue?_eq_some_iff.mpr hs)

end Walk

end RuleGraph
