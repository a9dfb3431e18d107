import Mathlib.Data.List.Perm.Basic
import RuleGraph.Proofs.Depiction

/-!
# When node ids are unique

A slot id is made of the entity that the slot leads to and of the slot's key, and both can be read
back from it (`slot_inj`); the owner of the slot has no part in it. So the ids of all nodes differ
exactly if the entities have different ids and no two entries of keyed fields, of one owner or of
two, have the same key and lead to the same entity (`nodup_nodeIds_iff`).
-/

namespace RuleGraph

open Json

/-! ## Slot ids -/

namespace NodeId

theorem toList_idText (id : EntityId) : (idText id).toList = Nat.toDigits 10 id.toNat :=
  Nat.toList_repr

theorem isDigit_of_mem_idText {id : EntityId} {c : Char} (h : c ∈ (idText id).toList) :
    c.isDigit := by
  rw [toList_idText] at h
  exact Nat.isDigit_of_mem_toDigits (by decide) (by decide) h

theorem dot_notMem_idText (id : EntityId) : '.' ∉ (idText id).toList :=
  fun h => absurd (isDigit_of_mem_idText h) (by decide)

theorem idText_injective : Function.Injective idText := by
  intro a b h
  refine UInt64.toNat_inj.mp (toDigits_injective ?_)
  rw [← toList_idText, ← toList_idText, h]

/-- A slot id tells the entity and the key. -/
theorem slot_inj {target target' : EntityId} {key key' : String} :
    slot target key = slot target' key' ↔ target = target' ∧ key = key' := by
  constructor
  · intro h
    -- an id is written without a dot, so the first dot ends it, whatever the key is
    have hlist := congrArg String.toList (synthetic.inj h)
    simp only [String.toList_append, List.append_assoc] at hlist
    obtain ⟨hid, hkey⟩ :=
      append_cons_inj (dot_notMem_idText target) (dot_notMem_idText target') hlist
    exact ⟨idText_injective (String.toList_inj.mp hid), String.toList_inj.mp hkey⟩
  · rintro ⟨rfl, rfl⟩
    rfl

end NodeId

/-! ## All nodes of a graph -/

namespace Document

/-- For each entry of a keyed field, in order, the entity it leads to and its key. -/
def slots (d : Document) : List (EntityId × String) :=
  d.placed.flatMap fun p => (Depiction.allEntries p).map fun entry => (entry.2.target, entry.1)

theorem map_id_nodes (p : Kind × Entity) :
    (Depiction.nodes p).map Node.id =
      .entity p.2.id :: (Depiction.allEntries p).map fun entry =>
        NodeId.slot entry.2.target entry.1 := by
  rw [Depiction.nodes, List.map_cons, List.map_map]
  rfl

/-- The node ids of a description, entities first. -/
theorem nodeIds_depiction_perm (d : Document) :
    (d.depiction.nodes.map Node.id).Perm
      ((d.placed.map fun p => p.2.id).map NodeId.entity ++
        d.slots.map fun s => NodeId.slot s.1 s.2) := by
  simp only [depiction, slots, List.map_flatMap, List.map_map, map_id_nodes]
  exact (List.map_append_flatMap_perm _ _ _).symm

theorem disjoint_entity_slot (ids : List EntityId) (slots : List (EntityId × String)) :
    (ids.map NodeId.entity).Disjoint (slots.map fun s => NodeId.slot s.1 s.2) := by
  rw [List.disjoint_left]
  intro id hentity hslot
  obtain ⟨_, -, rfl⟩ := List.mem_map.mp hentity
  obtain ⟨_, -, hid⟩ := List.mem_map.mp hslot
  cases hid

/-- The ids of all nodes differ exactly if those of the entities and the slots do. -/
theorem nodup_nodeIds_iff {d : Document} {g : GraphDocument} (h : d.graph = .ok g) :
    (g.graph.nodes.map Node.id).Nodup ↔
      (d.placed.map fun p => p.2.id).Nodup ∧ d.slots.Nodup := by
  obtain ⟨-, -, rfl⟩ := graph_eq_ok_iff.mp h
  have hentity : Function.Injective NodeId.entity := fun _ _ => NodeId.entity.inj
  have hslot : Function.Injective fun s : EntityId × String => NodeId.slot s.1 s.2 := by
    intro s s' hs
    exact Prod.ext_iff.mpr (NodeId.slot_inj.mp hs)
  rw [(nodeIds_depiction_perm d).nodup_iff, List.nodup_append', List.nodup_map_iff hentity,
    List.nodup_map_iff hslot]
  exact ⟨fun h => ⟨h.1, h.2.1⟩, fun h => ⟨h.1, h.2, disjoint_entity_slot _ _⟩⟩

theorem nodup_nodeIds_sampleRule :
    ∃ g, sampleRule.graph = .ok g ∧ (g.graph.nodes.map Node.id).Nodup :=
  ⟨_, rfl, (nodup_nodeIds_iff (d := sampleRule) rfl).mpr ⟨by decide, by decide⟩⟩

/-- Two operators whose operands have the same name and are the same entity. -/
def sharedSlot : Document where
  result := some (.natural 1)
  entities := some
    [ (.arithmeticOperator,
        [ ("1", ⟨.arithmeticOperator, 1, false, [("operands", .object [("a", .natural 3)])]⟩),
          ("2", ⟨.arithmeticOperator, 2, false, [("operands", .object [("a", .natural 3)])]⟩) ]) ]

/-- Different entities do not suffice: two owners may share a slot id. -/
theorem not_nodup_nodeIds_sharedSlot :
    (sharedSlot.placed.map fun p => p.2.id).Nodup ∧
      ∃ g, sharedSlot.graph = .ok g ∧
        g.graph.nodes.map (·.id.text) = ["1", "3.a", "2", "3.a"] ∧
        ¬ (g.graph.nodes.map Node.id).Nodup :=
  ⟨by decide, _, rfl, by decide, by decide⟩

end Document

end RuleGraph
