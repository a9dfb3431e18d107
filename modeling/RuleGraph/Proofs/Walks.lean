import Mathlib.Data.List.Basic
import RuleGraph.Build.Walk
import RuleGraph.Proofs.References

/-!
# What a walk pushes and where it ends

A walk through a list fails where its first failing element does (`forEach_failure`), and without a
failure it pushes what its elements push, one after the other (`forEach_pushes`). For a document
this gives `Document.failure?`, the first failure among all fields in the order of the walk, and
`Document.graph_of_no_failure`, the graph as two concatenations. Which edges a field has in it is
told by the shape of its references (`References.edges`).
-/

namespace RuleGraph

open Json

namespace Walk

/-! ## Walks through lists -/

@[simp] theorem failure_done (pushes : List Push) : (done pushes).failure = none := rfl

@[simp] theorem pushes_done (pushes : List Push) : (done pushes).pushes = pushes := rfl

@[simp] theorem failure_failed (e : BuildError) : (failed e).failure = some e := rfl

theorem andThen_failure (a b : Walk) : (a.andThen b).failure = a.failure.or b.failure := by
  unfold andThen
  cases h : a.failure <;> simp [h]

theorem andThen_pushes {a : Walk} (h : a.failure = none) (b : Walk) :
    (a.andThen b).pushes = a.pushes ++ b.pushes := by
  rw [andThen, h]

section ForEach

variable {α : Type} {f : α → Walk}

/-- A walk through a list fails as its first failing element does. -/
theorem forEach_failure (as : List α) :
    (forEach f as).failure = as.findSome? fun a => (f a).failure := by
  induction as with
  | nil => rfl
  | cons a as ih =>
    rw [forEach, andThen_failure, ih, List.findSome?_cons]
    cases (f a).failure <;> rfl

/-- Without a failure, a walk through a list pushes what its elements push. -/
theorem forEach_pushes {as : List α} (h : ∀ a ∈ as, (f a).failure = none) :
    (forEach f as).pushes = as.flatMap fun a => (f a).pushes := by
  induction as with
  | nil => rfl
  | cons a as ih =>
    rw [List.forall_mem_cons] at h
    rw [forEach, andThen_pushes h.1, ih h.2, List.flatMap_cons]

end ForEach

/-! ## Entities -/

/-- An entity fails as its first failing field does. -/
theorem ofEntity_failure (bucket : Kind) (e : Entity) :
    (ofEntity bucket e).failure = bucket.references.findSome? fun f => (ofField e f).failure := by
  rw [ofEntity, andThen_failure, forEach_failure, failure_done, Option.none_or]

theorem ofEntity_pushes {bucket : Kind} {e : Entity}
    (h : ∀ f ∈ bucket.references, (ofField e f).failure = none) :
    (ofEntity bucket e).pushes =
      .node (entityNode bucket e) :: bucket.references.flatMap fun f => (ofField e f).pushes := by
  rw [ofEntity, andThen_pushes (failure_done _), forEach_pushes h, pushes_done,
    List.singleton_append]

end Walk

/-! ## The edges of a field -/

namespace References

/-- The edges of a field's references. -/
def edges (owner : EntityId) (field : String) (refs : References) : List Edge :=
  (Walk.ofReferences owner field refs).filterMap Push.edge?

section Edges

variable (owner : EntityId) (field : String)

theorem edges_one (target : EntityId) :
    edges owner field (.one target) = [.labeled (.entity owner) (.entity target) field] := rfl

theorem edges_ordered (targets : List EntityId) :
    edges owner field (.ordered targets) = targets.mapIdx fun i target =>
      .labeled (.entity owner) (.entity target) (Walk.placeName field i) := by
  simp [edges, Walk.ofReferences, List.mapIdx_eq_zipIdx_map, List.filterMap_map,
    Function.comp_def, Push.edge?]

theorem edges_keyed (slots : List (String × EntityId)) :
    edges owner field (.keyed slots) = slots.flatMap fun slot =>
      [ .greyed (.entity owner) (.slot slot.2 slot.1),
        .greyed (.slot slot.2 slot.1) (.entity slot.2) ] := by
  rw [edges, Walk.ofReferences, List.filterMap_flatMap]
  rfl

end Edges

end References

/-! ## Documents -/

namespace Document

/-- A document has a truthy result and entities. -/
structure IsNormalized (d : Document) : Prop where
  result : ∃ v, d.result = some v ∧ v.isTruthy
  entities : d.entities.isSome

theorem IsNormalized.of_result_eq {d d' : Document} (h : d.IsNormalized)
    (hresult : d'.result = d.result) (hentities : d'.entities.isSome) : d'.IsNormalized :=
  ⟨hresult ▸ h.result, hentities⟩

theorem buildable?_of_isNormalized {d : Document} (h : d.IsNormalized) :
    d.buildable? = some d.buckets := by
  obtain ⟨v, hv, htruthy⟩ := h.result
  obtain ⟨bs, hbs⟩ := Option.isSome_iff_exists.mp h.entities
  simp [buildable?, buckets, hv, hbs, htruthy]

theorem buildable?_of_not_isNormalized {d : Document} (h : ¬ d.IsNormalized) :
    d.buildable? = none := by
  unfold buildable?
  split
  · rename_i v bs hv hbs
    rw [if_neg]
    exact fun htruthy => h ⟨⟨v, hv, htruthy⟩, by rw [hbs]; rfl⟩
  · rfl

/-- The fields that a walk through a document looks into, in order, with their entities. -/
def referenceFields (d : Document) : List (Entity × ReferenceField) :=
  d.placed.flatMap fun p => p.1.references.map fun f => (p.2, f)

theorem forall_mem_referenceFields {d : Document} {P : Entity → ReferenceField → Prop} :
    (∀ q ∈ d.referenceFields, P q.1 q.2) ↔
      ∀ p ∈ d.placed, ∀ f ∈ p.1.references, P p.2 f := by
  simp only [referenceFields, List.mem_flatMap, List.mem_map]
  constructor
  · intro h p hp f hf
    exact h (p.2, f) ⟨p, hp, f, hf, rfl⟩
  · rintro h _ ⟨p, hp, f, hf, rfl⟩
    exact h p hp f hf

/-- The first failure of a walk through a document. -/
def failure? (d : Document) : Option BuildError :=
  d.referenceFields.findSome? fun q => (Walk.ofField q.1 q.2).failure

theorem failure?_eq (d : Document) :
    d.failure? = d.placed.findSome? fun p => (Walk.ofEntity p.1 p.2).failure := by
  simp only [failure?, referenceFields, findSome?_flatMap, List.findSome?_map,
    Function.comp_def, Walk.ofEntity_failure]

theorem ofBuckets_failure (d : Document) : (Walk.ofBuckets d.buckets).failure = d.failure? := by
  rw [failure?_eq, placed, findSome?_flatMap, Walk.ofBuckets, Walk.forEach_failure]
  simp only [Walk.ofBucket, Walk.forEach_failure, List.findSome?_map, Function.comp_def]

theorem ofBuckets_pushes {d : Document} (h : d.failure? = none) :
    (Walk.ofBuckets d.buckets).pushes =
      d.placed.flatMap fun p => (Walk.ofEntity p.1 p.2).pushes := by
  rw [failure?_eq, List.findSome?_eq_none_iff] at h
  -- a walk pushes all that its parts push only if none of them fails, at either depth
  have hentity : ∀ b ∈ d.buckets, ∀ e ∈ b.2, (Walk.ofEntity b.1 e.2).failure = none := by
    intro b hb e he
    refine h (b.1, e.2) ?_
    exact List.mem_flatMap.mpr ⟨b, hb, List.mem_map.mpr ⟨e, he, rfl⟩⟩
  have hbucket : ∀ b ∈ d.buckets, (Walk.ofBucket b).failure = none := by
    intro b hb
    rw [Walk.ofBucket, Walk.forEach_failure, List.findSome?_eq_none_iff]
    exact hentity b hb
  rw [Walk.ofBuckets, Walk.forEach_pushes hbucket, placed, List.flatMap_assoc]
  refine List.flatMap_congr fun b hb => ?_
  rw [Walk.ofBucket, Walk.forEach_pushes (hentity b hb), List.flatMap_map]

/-- A document that is not normalized is refused as such. -/
theorem graph_of_not_isNormalized {d : Document} (h : ¬ d.IsNormalized) :
    d.graph = .error .notNormalized := by
  rw [graph, buildable?_of_not_isNormalized h]

/-- A normalized document is refused with the first failure of its walk. -/
theorem graph_of_failure {d : Document} (h : d.IsNormalized) {e : BuildError}
    (he : d.failure? = some e) : d.graph = .error e := by
  simp only [graph, buildable?_of_isNormalized h, ofBuckets_failure, he]

/-- A normalized document without a failure has the nodes and the edges that its entities push. -/
theorem graph_of_no_failure {d : Document} (h : d.IsNormalized) (he : d.failure? = none) :
    d.graph = .ok ⟨true,
      d.placed.flatMap fun p => (Walk.ofEntity p.1 p.2).pushes.filterMap Push.node?,
      d.placed.flatMap fun p => (Walk.ofEntity p.1 p.2).pushes.filterMap Push.edge?⟩ := by
  simp only [graph, buildable?_of_isNormalized h, ofBuckets_failure, he, Walk.graph,
    ofBuckets_pushes he, List.filterMap_flatMap]

end Document

end RuleGraph
