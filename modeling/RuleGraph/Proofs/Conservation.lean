import Mathlib.Algebra.BigOperators.Ring.List
import Mathlib.Algebra.Ring.Nat
import RuleGraph.Proofs.NodeIds

/-!
# The counts of a graph

Nodes and edges are neither lost nor made up on the way from a document to its graph: what the
entities and their reference fields hold can be counted without a walk (`Document.total`), and the
counts of the graph are these numbers (`Document.graph_stats`). Which fields count depends on the
bucket of an entity, not on its kind.
-/

namespace RuleGraph

open Json

/-! ## What fields hold -/

namespace Entity

/-- The references in a field for one reference: one, unless it is absent or `null`. -/
def singles (e : Entity) (f : ReferenceField) : Nat :=
  match f.relation, e.field? f.name with
  | .single _, some _ | .union _, some _ => 1
  | _, _ => 0

/-- The length of the array in a field for several references. -/
def items (e : Entity) (f : ReferenceField) : Nat :=
  match f.relation, e.field? f.name with
  | .sequence _, some (.array items) => items.length
  | _, _ => 0

/-- The size of the object in a field for several references. -/
def entries (e : Entity) (f : ReferenceField) : Nat :=
  match f.relation, e.field? f.name with
  | .sequence _, some (.object members) => members.length
  | _, _ => 0

end Entity

namespace Depiction

theorem length_entries (e : Entity) (f : ReferenceField) :
    (entries e f).length = e.entries f := by
  unfold entries Entity.entries
  cases f.relation with
  | single _ | union _ => rfl
  | sequence _ =>
    match e.field? f.name with
    | some (.object members) => rfl
    | none | some .null | some (.bool _) | some (.number _) | some (.string _)
    | some (.array _) => rfl

/-- Every reference has one edge, and an entry of a keyed field has one more. -/
theorem length_fieldEdges (e : Entity) (f : ReferenceField) :
    (fieldEdges e f).length = e.singles f + e.items f + 2 * e.entries f := by
  unfold fieldEdges Entity.singles Entity.items Entity.entries
  cases f.relation with
  | single _ | union _ => cases e.field? f.name <;> rfl
  | sequence _ =>
    match e.field? f.name with
    | some (.array items) => simp
    | some (.object members) =>
      simp only [List.length_flatMap, entryEdges, List.length_cons, List.length_nil,
        List.map_const', List.sum_replicate_nat]
      omega
    | none | some .null | some (.bool _) | some (.number _) | some (.string _) => rfl

end Depiction

/-! ## What documents hold -/

namespace Document

variable {d : Document}

/-- A count of what a field holds, summed over the reference fields of all entities. -/
def total (count : Entity → ReferenceField → Nat) (d : Document) : Nat :=
  (d.placed.map fun p => (p.1.references.map (count p.2)).sum).sum

theorem total_add (count count' : Entity → ReferenceField → Nat) (d : Document) :
    d.total (fun e f => count e f + count' e f) = d.total count + d.total count' := by
  simp only [total, List.sum_map_add]

theorem total_mul (n : Nat) (count : Entity → ReferenceField → Nat) (d : Document) :
    d.total (fun e f => n * count e f) = n * d.total count := by
  simp only [total, List.sum_map_mul_left]

theorem length_edges (d : Document) :
    d.depiction.edges.length = d.total Entity.singles + d.total Entity.items +
      2 * d.total Entity.entries := by
  calc d.depiction.edges.length
      = d.total fun e f => (Depiction.fieldEdges e f).length := by
        simp only [depiction, Depiction.edges, total, List.length_flatMap]
    _ = d.total fun e f => e.singles f + e.items f + 2 * e.entries f := by
        simp only [Depiction.length_fieldEdges]
    _ = _ := by rw [total_add, total_add, total_mul]

theorem length_slots (d : Document) : d.slots.length = d.total Entity.entries := by
  simp only [slots, Depiction.allEntries, total, List.length_flatMap, List.length_map,
    Depiction.length_entries]

theorem length_nodes (d : Document) :
    d.depiction.nodes.length = d.entityCount + d.total Entity.entries := by
  have hlength := (nodeIds_depiction_perm d).length_eq
  simpa only [List.length_append, List.length_map, length_slots, length_placed] using hlength

theorem countP_isSynthetic (d : Document) :
    d.depiction.nodes.countP (·.id.isSynthetic) = d.total Entity.entries := by
  have hcount := (nodeIds_depiction_perm d).countP_eq NodeId.isSynthetic
  simp only [List.countP_append, List.countP_map, Function.comp_def] at hcount
  simpa [NodeId.isSynthetic, NodeId.slot, length_slots] using hcount

/-- The counts of any graph add up to its nodes. Those of a document's graph are what the document
holds: its entities, the entries of its keyed fields, and an edge for each reference, but two for
each entry. -/
theorem graph_stats :
    (∀ g : Graph, g.stats.syntheticNodes ≤ g.nodes.length ∧
      g.stats.entityNodes + g.stats.syntheticNodes = g.nodes.length) ∧
    ∀ (d : Document) (g : GraphDocument), d.graph = .ok g →
      g.graph.stats.entityNodes = d.entityCount ∧
      g.graph.stats.syntheticNodes = d.total Entity.entries ∧
      g.graph.stats.edges =
        d.total Entity.singles + d.total Entity.items + 2 * g.graph.stats.syntheticNodes := by
  refine ⟨fun g => ⟨List.countP_le_length, g.entityNodes_add_syntheticNodes⟩, fun d g h => ?_⟩
  obtain ⟨-, -, rfl⟩ := graph_eq_ok_iff.mp h
  have hsum := d.depiction.entityNodes_add_syntheticNodes
  have hsynthetic : d.depiction.stats.syntheticNodes = d.total Entity.entries :=
    countP_isSynthetic d
  refine ⟨?_, hsynthetic, ?_⟩
  · rw [length_nodes, hsynthetic] at hsum
    exact Nat.add_right_cancel hsum
  · rw [hsynthetic]
    exact length_edges d

/-- One reference, two by position in a number that is filed among operators, and two by name. -/
theorem graph_stats_sampleRule :
    ∃ g, sampleRule.graph = .ok g ∧ g.graph.stats.entityNodes = 3 ∧
      g.graph.stats.syntheticNodes = 2 ∧ g.graph.stats.edges = 1 + 2 + 2 * 2 := by
  obtain ⟨g, hg⟩ : ∃ g, sampleRule.graph = .ok g := ⟨_, rfl⟩
  obtain ⟨hentities, hsynthetic, hedges⟩ := graph_stats.2 sampleRule g hg
  have hentries : sampleRule.total Entity.entries = 2 := by decide
  rw [hsynthetic, hentries] at hedges
  exact ⟨g, hg, hentities.trans (by decide), hsynthetic.trans hentries, hedges.trans (by decide)⟩

end Document

end RuleGraph
