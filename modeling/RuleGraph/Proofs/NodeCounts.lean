import RuleGraph.Proofs.DocumentRoundTrip
import RuleGraph.Proofs.Recovery

/-!
# How many nodes have an id

An entity id is the id of as many nodes as there are entities with it, and a slot id that of as many
nodes as there are entities with an entry of the slot's key and target: an entity has one keyed
field at most and, as in all documents that are read (`Document.ReadWithin.wellFormed`), no key of
it twice. No node has another id (`Document.count_nodes`). So nodes share an id only where two
entities share their id, or where two entities have an entry in common.
-/

namespace RuleGraph

open Json

/-! ## Counting in lists -/

section Counting

variable {α β : Type}

/-- Two elements of a list, at different places, have a property. -/
def Twice (P : α → Prop) (as : List α) : Prop := ∃ a b, [a, b].Sublist as ∧ P a ∧ P b

theorem two_le_countP_iff {P : α → Prop} [DecidablePred P] {as : List α} :
    2 ≤ as.countP P ↔ Twice P as := by
  constructor
  · intro h
    rw [List.countP_eq_length_filter] at h
    have hsublist : (as.filter P).Sublist as := List.filter_sublist
    have hfilter : ∀ a ∈ as.filter P, P a := by
      intro a ha
      exact of_decide_eq_true (List.mem_filter.mp ha).2
    match heq : as.filter P with
    | [] => simp [heq] at h
    | [_] => simp [heq] at h
    | a :: b :: rest =>
      rw [heq] at hsublist hfilter
      have htwo : [a, b].Sublist (a :: b :: rest) := (List.prefix_append [a, b] rest).sublist
      exact ⟨a, b, htwo.trans hsublist, hfilter a (by simp), hfilter b (by simp)⟩
  · rintro ⟨a, b, hsublist, ha, hb⟩
    have hcount := hsublist.countP_le (p := P)
    simpa [ha, hb] using hcount

/-- If no part of a concatenation repeats an element, it occurs as often as parts have it. -/
theorem countP_flatMap_of_nodup [DecidableEq β] {f : α → List β} {b : β} {P : α → Prop}
    [DecidablePred P] {as : List α} (hf : ∀ a ∈ as, (f a).Nodup) (hP : ∀ a ∈ as, P a ↔ b ∈ f a) :
    (as.flatMap f).countP (· = b) = as.countP P := by
  induction as with
  | nil => rfl
  | cons a as ih =>
    rw [List.forall_mem_cons] at hf hP
    have hpart : (f a).countP (· = b) = if P a then 1 else 0 := by
      simp only [hP.1]
      exact hf.1.count
    rw [List.flatMap_cons, List.countP_append, hpart, ih hf.2 hP.2, List.countP_cons,
      Nat.add_comm]
    simp only [decide_eq_true_eq]

end Counting

/-! ## Entries of keyed fields -/

namespace Entity

variable {e : Entity} {f : ReferenceField}

/-- An entity in a bucket has a keyed reference field with an entry of a key that leads to a
target. -/
def HasEntry (bucket : Kind) (e : Entity) (key : String) (target : EntityId) : Prop :=
  ∃ f ∈ bucket.references, ∃ slots, e.Resolves f (.keyed slots) ∧ (key, target) ∈ slots

/-- The references of a field by name; none if the field is not keyed. -/
def namedReferences (e : Entity) (f : ReferenceField) : List (String × EntityId) :=
  match e.resolution f with
  | some (some (.keyed slots)) => slots
  | _ => []

theorem mem_namedReferences_iff {slot : String × EntityId} :
    slot ∈ e.namedReferences f ↔ ∃ slots, e.Resolves f (.keyed slots) ∧ slot ∈ slots := by
  simp only [namedReferences, resolves_iff]
  match e.resolution f with
  | none => simp
  | some none => simp
  | some (some (.one _)) => simp
  | some (some (.ordered _)) => simp
  | some (some (.keyed slots)) => simp

theorem hasEntry_iff {bucket : Kind} {key : String} {target : EntityId} :
    HasEntry bucket e key target ↔
      ∃ f ∈ bucket.references, (key, target) ∈ e.namedReferences f := by
  simp only [HasEntry, mem_namedReferences_iff]

instance (bucket : Kind) (e : Entity) (key : String) (target : EntityId) :
    Decidable (HasEntry bucket e key target) := decidable_of_iff _ hasEntry_iff.symm

/-- A field that is not misused refers by name as its entries say. -/
theorem namedReferences_eq (h : ¬ e.Misuses f) :
    e.namedReferences f = (Depiction.entries e f).map fun entry => (entry.1, entry.2.target) := by
  unfold namedReferences resolution Depiction.entries
  cases hv : e.field? f.name with
  | none => cases f.relation <;> rfl
  | some v =>
    have hu := not_misuses_iff.mp h v (field?_eq_some_iff.mp hv)
    obtain ⟨name, relation⟩ := f
    cases hu with
    | single hid => rw [Option.map_some, References.ofValue?_single hid]; rfl
    | union hid => rw [Option.map_some, References.ofValue?_union hid]; rfl
    | array hids => rw [Option.map_some, References.ofValue?_array hids]; rfl
    | object hids => rw [Option.map_some, References.ofValue?_object hids]

end Entity

namespace Depiction

variable {p : Kind × Entity}

theorem hasEntry_iff_mem (h : ∀ f ∈ p.1.references, ¬ p.2.Misuses f) {key : String}
    {target : EntityId} :
    p.2.HasEntry p.1 key target ↔
      (target, key) ∈ (allEntries p).map fun entry => (entry.2.target, entry.1) := by
  rw [Entity.hasEntry_iff, allEntries, List.map_flatMap, List.mem_flatMap]
  refine exists_congr fun f => and_congr_right fun hf => ?_
  rw [Entity.namedReferences_eq (h f hf)]
  simp only [List.mem_map, Prod.mk.injEq, and_comm]

theorem entries_of_not_isSequence {e : Entity} {f : ReferenceField}
    (h : ¬ f.relation.isSequence) : entries e f = [] := by
  obtain ⟨name, relation⟩ := f
  cases relation with
  | single _ | union _ => rfl
  | sequence _ => exact absurd rfl h

/-- All entries of an entity are those of one field. -/
theorem allEntries_cases (p : Kind × Entity) :
    allEntries p = [] ∨ ∃ f, allEntries p = entries p.2 f := by
  by_cases h : ∃ f ∈ p.1.references, f.relation.isSequence
  · obtain ⟨f, hf, hsf⟩ := h
    refine .inr ⟨f, flatMap_eq_of_mem p.1.nodup_references hf fun g hg hne => ?_⟩
    exact entries_of_not_isSequence fun hsg => hne (Kind.eq_of_isSequence hg hf hsg hsf)
  · refine .inl (List.flatMap_eq_nil_iff.mpr fun f hf => ?_)
    exact entries_of_not_isSequence fun hsf => h ⟨f, hf, hsf⟩

/-- The entries of a field are the members of an object among the entity's fields. -/
theorem distinct_entries {e : Entity} (hw : e.WellFormed) (f : ReferenceField) :
    OrderedMap.Distinct (entries e f) := by
  unfold entries
  split
  · rename_i members _ hv
    rw [Entity.WellFormed, Value.Distinct, Value.distinctMembers_iff] at hw
    have hmem := OrderedMap.mem_of_find? (Entity.field?_eq_some_iff.mp hv).1
    have hmembers := hw.2 _ hmem
    rw [Value.Distinct] at hmembers
    exact hmembers.1
  · exact List.nodup_nil

/-- No entity has an entry twice. -/
theorem nodup_allEntries (hw : p.2.WellFormed) :
    ((allEntries p).map fun entry => (entry.2.target, entry.1)).Nodup := by
  -- already the keys differ
  refine List.Nodup.of_map Prod.snd ?_
  rw [List.map_map]
  rcases allEntries_cases p with h | ⟨f, h⟩
  · rw [h]
    exact List.nodup_nil
  · rw [h]
    exact distinct_entries hw f

end Depiction

/-! ## The nodes of a graph -/

namespace Document

variable {d : Document} {g : GraphDocument}

theorem WellFormed.placed (hw : d.WellFormed) {p : Kind × Entity} (hp : p ∈ d.placed) :
    p.2.WellFormed := by
  obtain ⟨b, hb, hp⟩ := List.mem_flatMap.mp hp
  obtain ⟨entry, hentry, rfl⟩ := List.mem_map.mp hp
  exact hw.entity b hb entry hentry

/-- The nodes of an id are entities and entries with that id. -/
theorem countP_id (h : d.graph = .ok g) (id : NodeId) :
    g.graph.nodes.countP (·.id = id) =
      d.placed.countP (fun p => NodeId.entity p.2.id = id) +
        d.slots.countP fun s => NodeId.slot s.1 s.2 = id := by
  obtain ⟨-, -, rfl⟩ := graph_eq_ok_iff.mp h
  have hperm := (nodeIds_depiction_perm d).countP_eq (· = id)
  simp only [List.countP_append, List.countP_map, Function.comp_def] at hperm
  exact hperm

theorem countP_entity (h : d.graph = .ok g) (id : EntityId) :
    g.graph.nodes.countP (·.id = .entity id) = d.placed.countP (·.2.id = id) := by
  have hslots : d.slots.countP (fun s => NodeId.slot s.1 s.2 = .entity id) = 0 := by
    simp [NodeId.slot]
  simp only [countP_id h, hslots, Nat.add_zero, NodeId.entity.injEq]

theorem countP_slot (hw : d.WellFormed) (h : d.graph = .ok g) (target : EntityId) (key : String) :
    g.graph.nodes.countP (·.id = .slot target key) =
      d.placed.countP fun p => p.2.HasEntry p.1 key target := by
  obtain ⟨-, hm, -⟩ := graph_eq_ok_iff.mp h
  have hentities : d.placed.countP (fun p => NodeId.entity p.2.id = .slot target key) = 0 := by
    simp [NodeId.slot]
  rw [countP_id h, hentities, Nat.zero_add]
  calc d.slots.countP (fun s => NodeId.slot s.1 s.2 = .slot target key)
      = d.slots.countP (· = (target, key)) := by simp only [NodeId.slot_inj, Prod.ext_iff]
    _ = d.placed.countP fun p => p.2.HasEntry p.1 key target :=
        countP_flatMap_of_nodup (fun p hp => Depiction.nodup_allEntries (hw.placed hp))
          fun p hp => Depiction.hasEntry_iff_mem (not_hasMisuse_iff.mp hm p hp)

/-- A node has the id of an entity, or the slot id of an entry of an entity. -/
theorem id_cases (h : d.graph = .ok g) {n : Node} (hn : n ∈ g.graph.nodes) :
    (∃ p ∈ d.placed, n.id = .entity p.2.id) ∨
      ∃ p ∈ d.placed, ∃ target key, p.2.HasEntry p.1 key target ∧ n.id = .slot target key := by
  obtain ⟨-, hm, rfl⟩ := graph_eq_ok_iff.mp h
  obtain ⟨p, hp, hn⟩ := List.mem_flatMap.mp hn
  rcases List.mem_cons.mp hn with rfl | hn
  · exact .inl ⟨p, hp, rfl⟩
  · obtain ⟨entry, hentry, rfl⟩ := List.mem_map.mp hn
    refine .inr ⟨p, hp, entry.2.target, entry.1, ?_, rfl⟩
    rw [Depiction.hasEntry_iff_mem (not_hasMisuse_iff.mp hm p hp)]
    exact List.mem_map_of_mem hentry

/-- Each entity gives one node of its id and each of its entries one of the slot id, and these are
all nodes. Slot ids differ from entity ids and from those of other entries, so an id is that of two
nodes exactly if two entities have it, or an entry of which it is the slot id. -/
theorem count_nodes (hw : d.WellFormed) (h : d.graph = .ok g) :
    (∀ id, g.graph.nodes.countP (·.id = .entity id) = d.placed.countP (·.2.id = id)) ∧
    (∀ target key, g.graph.nodes.countP (·.id = .slot target key) =
      d.placed.countP fun p => p.2.HasEntry p.1 key target) ∧
    (∀ n ∈ g.graph.nodes, (∃ p ∈ d.placed, n.id = .entity p.2.id) ∨
      ∃ p ∈ d.placed, ∃ target key, p.2.HasEntry p.1 key target ∧ n.id = .slot target key) ∧
    (∀ target key, (∀ id, NodeId.slot target key ≠ .entity id) ∧
      ∀ target' key', NodeId.slot target key = .slot target' key' ↔
        target = target' ∧ key = key') ∧
    ∀ id, Twice (·.id = id) g.graph.nodes ↔
      (∃ i, id = .entity i ∧ Twice (·.2.id = i) d.placed) ∨
        ∃ target key, id = .slot target key ∧
          Twice (fun p => p.2.HasEntry p.1 key target) d.placed := by
  refine ⟨countP_entity h, countP_slot hw h, fun n hn => id_cases h hn, fun target key =>
    ⟨fun i heq => ?_, fun target' key' => NodeId.slot_inj⟩, fun id => ⟨fun htwice => ?_, ?_⟩⟩
  · cases heq
  · have hshared := htwice
    obtain ⟨n, n', hsublist, rfl, -⟩ := hshared
    rcases id_cases h (hsublist.subset List.mem_cons_self) with
      ⟨p, -, hid⟩ | ⟨p, -, target, key, -, hid⟩
    · refine .inl ⟨p.2.id, hid, ?_⟩
      rwa [hid, ← two_le_countP_iff, countP_entity h, two_le_countP_iff] at htwice
    · refine .inr ⟨target, key, hid, ?_⟩
      rwa [hid, ← two_le_countP_iff, countP_slot hw h, two_le_countP_iff] at htwice
  · rintro (⟨i, rfl, htwice⟩ | ⟨target, key, rfl, htwice⟩)
    · rwa [← two_le_countP_iff, countP_entity h, two_le_countP_iff]
    · rwa [← two_le_countP_iff, countP_slot hw h, two_le_countP_iff]

/-- A number and an operator of one id, and another operator that shares an operand with the first
one; the keys are empty, or hold digits and a dot. -/
def dottedKeys : Document where
  result := some (.natural 1)
  entities := some
    [ (.number, [("1", ⟨.number, 1, false, [("value", .natural 5)]⟩)]),
      (.arithmeticOperator,
        [ ("1", ⟨.arithmeticOperator, 1, false,
            [("operands", .object [("", .natural 1), ("2.a", .natural 1)])]⟩),
          ("12", ⟨.arithmeticOperator, 12, true,
            [("operands", .object [("2.a", .object [("id", .natural 1)]), ("a", .natural 12)])]⟩)
        ]) ]

theorem count_nodes_dottedKeys :
    dottedKeys.WellFormed ∧ ∃ g, dottedKeys.graph = .ok g ∧
      g.graph.nodes.map (·.id.text) = ["1", "1", "1.", "1.2.a", "12", "1.2.a", "12.a"] ∧
      g.graph.nodes.countP (·.id = .entity 1) = 2 ∧
      g.graph.nodes.countP (·.id = .slot 1 "2.a") = 2 ∧
      g.graph.nodes.countP (·.id = .slot 1 "") = 1 ∧
      Twice (·.id = .slot 1 "2.a") g.graph.nodes := by
  have hw : dottedKeys.WellFormed :=
    ⟨fun v hv => by cases hv; decide, by decide, by decide, by decide⟩
  obtain ⟨g, hg⟩ : ∃ g, dottedKeys.graph = .ok g := ⟨_, rfl⟩
  obtain ⟨hentity, hslot, -, -, htwice⟩ := count_nodes hw hg
  have hshared : Twice (fun p => p.2.HasEntry p.1 "2.a" 1) dottedKeys.placed :=
    two_le_countP_iff.mp (by decide)
  refine ⟨hw, g, hg, ?_, (hentity 1).trans (by decide), (hslot 1 "2.a").trans (by decide),
    (hslot 1 "").trans (by decide), (htwice _).mpr (.inr ⟨1, "2.a", rfl, hshared⟩)⟩
  cases hg
  decide

end Document

end RuleGraph
