import RuleGraph.Document.Edit
import RuleGraph.Proofs.Walks

/-!
# A document without one of its entities

A `Vacancy` is a document with a place for one more entity. Every entity of a document fills one, at
each of its places in the order of the walk (`Document.exists_vacancy`), and so does an entity that
is found under a key: to put another entity there is to fill the same vacancy, and to remove the
entity is to leave it empty (`Document.exists_vacancy_of_find?`).
-/

namespace RuleGraph

/-! ## Cuts -/

/-- A map with a key is cut at its first entry of that key, where it is changed and removed. -/
theorem OrderedMap.exists_cut {κ α : Type} [DecidableEq κ] {m : OrderedMap κ α} {key : κ} {a : α}
    (h : find? key m = some a) :
    ∃ before after, m = before ++ (key, a) :: after ∧
      (∀ b, put key b m = before ++ (key, b) :: after) ∧ remove key m = before ++ after := by
  induction m with
  | nil => cases h
  | cons entry m ih =>
    obtain ⟨k, a'⟩ := entry
    rw [find?_cons] at h
    by_cases hk : k = key
    · subst hk
      rw [if_pos rfl] at h
      cases h
      exact ⟨[], m, rfl, fun b => if_pos rfl, if_pos rfl⟩
    · rw [if_neg hk] at h
      obtain ⟨before, after, hm, hput, hremove⟩ := ih h
      refine ⟨(k, a') :: before, after, by rw [hm, List.cons_append], fun b => ?_, ?_⟩
      · rw [put, if_neg hk, hput, List.cons_append]
      · rw [remove, if_neg hk, hremove, List.cons_append]

/-! ## Places for an entity -/

/-- A document with a place for an entity: under a key of a bucket, between others. -/
structure Vacancy where
  result : Option Json.Value
  before : Buckets
  bucket : Kind
  first : Bucket
  key : String
  last : Bucket
  after : Buckets

namespace Vacancy

/-- The document with an entity in the place. -/
def fill (v : Vacancy) (e : Entity) : Document where
  result := v.result
  entities := some (v.before ++ (v.bucket, v.first ++ (v.key, e) :: v.last) :: v.after)

/-- The document with nothing in the place. -/
def emptied (v : Vacancy) : Document where
  result := v.result
  entities := some (v.before ++ (v.bucket, v.first ++ v.last) :: v.after)

/-- The entities that come before the place in a walk. -/
def earlier (v : Vacancy) : List (Kind × Entity) :=
  (v.before.flatMap fun b => b.2.map fun x => (b.1, x.2)) ++ v.first.map fun x => (v.bucket, x.2)

/-- The entities that come behind the place in a walk. -/
def later (v : Vacancy) : List (Kind × Entity) :=
  (v.last.map fun x => (v.bucket, x.2)) ++ v.after.flatMap fun b => b.2.map fun x => (b.1, x.2)

theorem placed_fill (v : Vacancy) (e : Entity) :
    (v.fill e).placed = v.earlier ++ (v.bucket, e) :: v.later := by
  simp [Document.placed, Document.buckets, fill, earlier, later]

theorem placed_emptied (v : Vacancy) : v.emptied.placed = v.earlier ++ v.later := by
  simp [Document.placed, Document.buckets, emptied, earlier, later]

theorem isNormalized_fill_iff (v : Vacancy) (e e' : Entity) :
    (v.fill e).IsNormalized ↔ (v.fill e').IsNormalized :=
  ⟨fun h => h.of_result_eq rfl rfl, fun h => h.of_result_eq rfl rfl⟩

end Vacancy

namespace Document

variable {d : Document}

/-- Every entity of a document fills a vacancy, at each of its places in the order of the walk. -/
theorem exists_vacancy {earlier later : List (Kind × Entity)} {p : Kind × Entity}
    (h : d.placed = earlier ++ p :: later) :
    ∃ v : Vacancy, v.bucket = p.1 ∧ v.earlier = earlier ∧ v.later = later ∧ v.fill p.2 = d := by
  obtain ⟨result, _ | bs⟩ := d
  · simp [placed, buckets] at h
  · obtain ⟨before, ⟨bucket, b⟩, after, first, last, hbs, hb, rfl, rfl⟩ :=
      exists_cut_of_flatMap_eq h
    obtain ⟨first, rest, rfl, rfl, hrest⟩ := List.map_eq_append_iff.mp hb
    obtain ⟨⟨key, e⟩, last, rfl, rfl, rfl⟩ := List.map_eq_cons_iff.mp hrest
    refine ⟨⟨result, before, bucket, first, key, last, after⟩, rfl, rfl, rfl, ?_⟩
    rw [Vacancy.fill, ← hbs]
    rfl

/-- The entity under a key fills a vacancy, which is filled or emptied by edits at that key. -/
theorem exists_vacancy_of_find? {bucket : Kind} {key : String} {e : Entity}
    (h : d.find? bucket key = some e) :
    ∃ v : Vacancy, v.bucket = bucket ∧ v.fill e = d ∧
      (∀ e', v.fill e' = d.put bucket key e') ∧ v.emptied = d.remove bucket key := by
  obtain ⟨result, _ | bs⟩ := d
  · cases h
  · obtain ⟨b, hb, he⟩ := Option.bind_eq_some_iff.mp h
    have hfind : OrderedMap.find? bucket bs = some b := hb
    obtain ⟨before, after, hbs, hput, -⟩ := OrderedMap.exists_cut hfind
    obtain ⟨first, last, hcut, hput', hremove⟩ := OrderedMap.exists_cut he
    refine ⟨⟨result, before, bucket, first, key, last, after⟩, rfl, ?_, fun e' => ?_, ?_⟩
    · rw [Vacancy.fill, ← hcut, ← hbs]
    · simp only [put, buckets, Option.getD_some, hfind, hput, hput']
      rfl
    · simp only [remove, Option.map_some, hfind, hput, hremove]
      rfl

end Document

end RuleGraph
