import Mathlib.Data.Set.Function
import RuleGraph.Proofs.NodeCounts
import RuleGraph.Proofs.Streaming

/-!
# Printed ids are unambiguous

Ids are printed without quotes, so that in general a text may stand for an entity and for a slot.
The ids that a graph is built with are those of entities and of slots (`NodeId.Minted`): an entity
id is printed in digits alone, and a slot id has a dot behind the digits of the entity that it leads
to, whatever the key is. Hence a printed id of this kind tells the id (`NodeId.text_inj`), and so it
does for all nodes of a graph and for all ends of its edges (`NodeId.printed_ids_tell`).
-/

namespace RuleGraph

namespace NodeId

/-- The ids that graphs are built with. -/
inductive Minted : NodeId → Prop
  | entity (id : EntityId) : Minted (.entity id)
  | slot (target : EntityId) (key : String) : Minted (.slot target key)

theorem toList_text_slot (target : EntityId) (key : String) :
    (slot target key).text.toList = (idText target).toList ++ '.' :: key.toList := by
  simp [slot, text, String.toList_append]

theorem dot_mem_text_slot (target : EntityId) (key : String) :
    '.' ∈ (slot target key).text.toList := by
  rw [toList_text_slot]
  exact List.mem_append_right _ List.mem_cons_self

/-- The printed form of a slot id is none of an entity id, also if its key is empty or digits. -/
theorem text_entity_ne_text_slot (id target : EntityId) (key : String) :
    (entity id).text ≠ (slot target key).text := by
  intro h
  apply dot_notMem_idText id
  rw [show idText id = (slot target key).text from h]
  exact dot_mem_text_slot target key

/-- The printed form of an id tells the id. -/
theorem text_inj {a b : NodeId} (ha : a.Minted) (hb : b.Minted) : a.text = b.text ↔ a = b := by
  refine ⟨fun h => ?_, congrArg text⟩
  cases ha with
  | entity id =>
    cases hb with
    | entity id' => rw [idText_injective h]
    | slot target key => exact absurd h (text_entity_ne_text_slot id target key)
  | slot target key =>
    cases hb with
    | entity id => exact absurd h.symm (text_entity_ne_text_slot id target key)
    | slot target' key' => exact congrArg synthetic h

/-- Ids of other texts may look like those of entities. -/
example : (synthetic "7").text = (entity 7).text ∧ synthetic "7" ≠ entity 7 := by decide

end NodeId

/-! ## The ids in a graph -/

namespace Graph

/-- All ids in a graph: those of its nodes, and those at the ends of its edges. -/
def ids (g : Graph) : List NodeId :=
  g.nodes.map Node.id ++ g.edges.flatMap fun x => [x.source, x.target]

end Graph

namespace Document

variable {d : Document} {g : GraphDocument}

theorem grounded_of_graph (h : d.graph = .ok g) : g.graph.Grounded := by
  rw [graph_eq_walk h, ← graphAfter_length]
  exact (Walk.streams_ofBuckets d.buckets).grounded_take (fun x hx => by cases hx) _

theorem minted_of_mem_nodes (h : d.graph = .ok g) {n : Node} (hn : n ∈ g.graph.nodes) :
    n.id.Minted := by
  rcases id_cases h hn with ⟨p, -, hid⟩ | ⟨_, -, target, key, -, hid⟩
  · rw [hid]
    exact .entity p.2.id
  · rw [hid]
    exact .slot target key

/-- An end of an edge is an entity, which need not have a node, or a slot, which has one. -/
theorem minted_of_touches (h : d.graph = .ok g) {x : Edge} (hx : x ∈ g.graph.edges) {id : NodeId}
    (hid : x.touches id) : id.Minted := by
  match id with
  | .entity id => exact .entity id
  | .synthetic slot =>
    have hslot := (grounded_of_graph h x hx).slots _ hid rfl
    obtain ⟨n, hn, heq⟩ := List.mem_map.mp hslot
    rw [← heq]
    exact minted_of_mem_nodes h hn

theorem minted_of_mem_ids (h : d.graph = .ok g) {id : NodeId} (hid : id ∈ g.graph.ids) :
    id.Minted := by
  rcases List.mem_append.mp hid with hid | hid
  · obtain ⟨n, hn, rfl⟩ := List.mem_map.mp hid
    exact minted_of_mem_nodes h hn
  · obtain ⟨x, hx, hid⟩ := List.mem_flatMap.mp hid
    refine minted_of_touches h hx (Edge.touches_iff.mpr ?_)
    simpa [eq_comm] using hid

end Document

namespace NodeId

/-- Entity ids and slot ids are printed alike only if they are the same, slot ids are the same only
if they lead to the same entity under the same key, and no other ids occur in the graph of a
document: no two of its ids are merged when they are printed. -/
theorem printed_ids_tell :
    (∀ a b : NodeId, a.Minted → b.Minted → (a.text = b.text ↔ a = b)) ∧
    (∀ target key target' key',
      slot target key = slot target' key' ↔ target = target' ∧ key = key') ∧
    ∀ (d : Document) (g : GraphDocument), d.graph = .ok g →
      (∀ id ∈ g.graph.ids, id.Minted) ∧ Set.InjOn text {id | id ∈ g.graph.ids} := by
  refine ⟨fun a b ha hb => text_inj ha hb, fun _ _ _ _ => slot_inj, fun d g h => ?_⟩
  have hminted : ∀ id ∈ g.graph.ids, id.Minted := fun id hid => Document.minted_of_mem_ids h hid
  exact ⟨hminted, fun a ha b hb heq => (text_inj (hminted a ha) (hminted b hb)).mp heq⟩

/-- Keys that are empty, or that hold digits and a dot, in a graph with two pairs of equal ids. -/
theorem printed_ids_tell_dottedKeys :
    (entity 7).text = "7" ∧ (slot 7 "").text = "7." ∧ (slot 7 "7.a").text = "7.7.a" ∧
    ((entity 7).text ≠ (slot 7 "").text ∧ (slot 7 "").text ≠ (slot 7 "7.a").text) ∧
    ∃ g, Document.dottedKeys.graph = .ok g ∧
      g.graph.ids.map text = ["1", "1", "1.", "1.2.a", "12", "1.2.a", "12.a",
        "1", "1.", "1.", "1", "1", "1.2.a", "1.2.a", "1",
        "12", "1.2.a", "1.2.a", "1", "12", "12.a", "12.a", "12"] ∧
      Set.InjOn text {id | id ∈ g.graph.ids} := by
  obtain ⟨htext, -, hgraph⟩ := printed_ids_tell
  obtain ⟨g, hg⟩ : ∃ g, Document.dottedKeys.graph = .ok g := ⟨_, rfl⟩
  refine ⟨by decide, by decide, by decide, ⟨?_, ?_⟩, g, hg, ?_, (hgraph _ g hg).2⟩
  · rw [Ne, htext _ _ (.entity 7) (.slot 7 "")]
    decide
  · rw [Ne, htext _ _ (.slot 7 "") (.slot 7 "7.a")]
    decide
  · cases hg
    decide

end NodeId

end RuleGraph
