import RuleGraph.Proofs.Depiction

/-!
# Nodes come before edges

A reader that follows the pushes of a walk has seen the node at the source of every edge, and the
node of every slot, before the edge itself (`Graph.Grounded`); only the entity that a reference
leads to may be missing. This holds after any number of pushes, also of a walk that fails
(`Document.graph_streams`). In a finished graph the grey edges stand in pairs, to a slot and from
it (`Paired`).
-/

namespace RuleGraph

open Json

/-! ## Edges whose ends are known -/

/-- The three looks of an edge: a reference between entities, an edge to a slot, and one from it. -/
inductive Edge.Regular : Edge → Prop
  | reference (source target : EntityId) (label : String) :
      Regular ⟨.entity source, .entity target, true, some label, some 0, none⟩
  | toSlot (owner : EntityId) (slot : String) :
      Regular ⟨.entity owner, .synthetic slot, true, none, none, some .grey⟩
  | fromSlot (slot : String) (target : EntityId) :
      Regular ⟨.synthetic slot, .entity target, true, none, none, some .grey⟩

/-- An edge of a regular look starts at a known node and has no slot at its ends that is unknown. -/
structure Edge.GroundedIn (ids : List NodeId) (x : Edge) : Prop where
  regular : x.Regular
  source : x.source ∈ ids
  slots : ∀ id, x.touches id → id.isSynthetic → id ∈ ids

/-- All edges of a graph are grounded in its nodes. -/
def Graph.Grounded (g : Graph) : Prop := ∀ x ∈ g.edges, x.GroundedIn (g.nodes.map Node.id)

theorem Edge.touches_iff {x : Edge} {id : NodeId} :
    x.touches id ↔ x.source = id ∨ x.target = id := by
  simp [touches]

theorem Edge.GroundedIn.mono {ids ids' : List NodeId} {x : Edge} (h : x.GroundedIn ids)
    (hsub : ids ⊆ ids') : x.GroundedIn ids' :=
  ⟨h.regular, hsub h.source, fun id htouches hslot => hsub (h.slots id htouches hslot)⟩

theorem Edge.groundedIn_labeled {ids : List NodeId} {owner : EntityId} (h : .entity owner ∈ ids)
    (target : EntityId) (label : String) :
    (Edge.labeled (.entity owner) (.entity target) label).GroundedIn ids := by
  refine ⟨.reference owner target label, h, fun id htouches hslot => ?_⟩
  rcases touches_iff.mp htouches with rfl | rfl <;> cases hslot

theorem Edge.groundedIn_toSlot {ids : List NodeId} {owner : EntityId} {slot : String}
    (h : .entity owner ∈ ids) (hslot : .synthetic slot ∈ ids) :
    (Edge.greyed (.entity owner) (.synthetic slot)).GroundedIn ids := by
  refine ⟨.toSlot owner slot, h, fun id htouches hsynthetic => ?_⟩
  rcases touches_iff.mp htouches with rfl | rfl
  · exact h
  · exact hslot

theorem Edge.groundedIn_fromSlot {ids : List NodeId} {slot : String}
    (hslot : .synthetic slot ∈ ids) (target : EntityId) :
    (Edge.greyed (.synthetic slot) (.entity target)).GroundedIn ids := by
  refine ⟨.fromSlot slot target, hslot, fun id htouches hsynthetic => ?_⟩
  rcases touches_iff.mp htouches with rfl | rfl
  · exact hslot
  · cases hsynthetic

/-! ## Push by push -/

namespace Graph

/-- The graph with one more node or edge. -/
def push (g : Graph) : Push → Graph
  | .node n => g.pushNode n
  | .edge x => g.pushEdge x

theorem foldl_push (g : Graph) (ps : List Push) :
    ps.foldl push g =
      ⟨g.isDirected, g.nodes ++ ps.filterMap Push.node?, g.edges ++ ps.filterMap Push.edge?⟩ := by
  induction ps generalizing g with
  | nil => simp
  | cons p ps ih =>
    rw [List.foldl_cons, ih]
    cases p with
    | node n => simp [push, pushNode, Push.node?, Push.edge?, List.filterMap_cons]
    | edge x => simp [push, pushEdge, Push.node?, Push.edge?, List.filterMap_cons]

/-- One more node does no harm. -/
theorem Grounded.pushNode {g : Graph} (h : g.Grounded) (n : Node) : (g.pushNode n).Grounded := by
  intro x hx
  refine (h x hx).mono fun id hid => ?_
  rw [Graph.pushNode, List.map_append]
  exact List.mem_append_left _ hid

/-- One more edge does no harm if it is grounded in the nodes there are. -/
theorem Grounded.pushEdge {g : Graph} (h : g.Grounded) {x : Edge}
    (hx : x.GroundedIn (g.nodes.map Node.id)) : (g.pushEdge x).Grounded := by
  intro y hy
  rcases List.mem_append.mp hy with hy | hy
  · exact h y hy
  · rw [List.mem_singleton.mp hy]
    exact hx

end Graph

/-- Pushes whose edges are grounded in known nodes and in those pushed before them. -/
inductive Streams : List NodeId → List Push → Prop
  | nil {ids : List NodeId} : Streams ids []
  | node {ids : List NodeId} {n : Node} {ps : List Push} (h : Streams (ids ++ [n.id]) ps) :
      Streams ids (.node n :: ps)
  | edge {ids : List NodeId} {x : Edge} {ps : List Push} (hx : x.GroundedIn ids)
      (h : Streams ids ps) : Streams ids (.edge x :: ps)

namespace Streams

variable {ids ids' : List NodeId} {ps qs : List Push}

/-- Each of the graphs that arise from a grounded one, push by push, is grounded. -/
theorem grounded_take {g : Graph} (h : Streams (g.nodes.map Node.id) ps) (hg : g.Grounded)
    (n : Nat) : ((ps.take n).foldl Graph.push g).Grounded := by
  generalize hids : g.nodes.map Node.id = ids at h
  induction h generalizing g n with
  | nil => rwa [List.take_nil]
  | @node ids node ps _ ih =>
    cases n with
    | zero => exact hg
    | succ n =>
      apply ih (hg.pushNode node) n
      rw [Graph.pushNode, List.map_append, hids]
      rfl
  | @edge ids x ps hx _ ih =>
    cases n with
    | zero => exact hg
    | succ n => exact ih (hg.pushEdge (hids ▸ hx)) n hids

theorem mono (h : Streams ids ps) (hsub : ids ⊆ ids') : Streams ids' ps := by
  induction h generalizing ids' with
  | nil => exact .nil
  | node _ ih =>
    apply Streams.node
    apply ih
    exact List.append_subset.mpr ⟨fun id hid => List.mem_append_left _ (hsub hid),
      List.subset_append_right _ _⟩
  | edge hx _ ih => exact .edge (hx.mono hsub) (ih hsub)

theorem append (h : Streams ids ps) (h' : Streams ids qs) : Streams ids (ps ++ qs) := by
  induction h with
  | nil => exact h'
  | node _ ih => exact .node (ih (h'.mono (List.subset_append_left _ _)))
  | edge hx _ ih => exact .edge hx (ih h')

theorem flatMap {α : Type} {f : α → List Push} {as : List α} (h : ∀ a ∈ as, Streams ids (f a)) :
    Streams ids (as.flatMap f) :=
  flatMap_induction .nil (fun hp hq => hp.append hq) h

/-- A walk that goes on, or not, after one that streams. -/
theorem andThen {a b : Walk} (ha : Streams ids a.pushes) (hb : Streams ids b.pushes) :
    Streams ids (a.andThen b).pushes := by
  unfold Walk.andThen
  cases a.failure with
  | none => exact ha.append hb
  | some e => exact ha

theorem forEach {α : Type} {f : α → Walk} {as : List α}
    (h : ∀ a ∈ as, Streams ids (f a).pushes) : Streams ids (Walk.forEach f as).pushes := by
  induction as with
  | nil => exact .nil
  | cons a as ih =>
    rw [List.forall_mem_cons] at h
    exact h.1.andThen (ih h.2)

end Streams

/-! ## The pushes of a walk -/

namespace Walk

variable {ids : List NodeId} {owner : EntityId}

theorem streams_ofSlot (h : .entity owner ∈ ids) (slot : String × EntityId) :
    Streams ids (ofSlot owner slot) := by
  have howner : NodeId.entity owner ∈ ids ++ [NodeId.slot slot.2 slot.1] :=
    List.mem_append_left _ h
  have hslot : NodeId.slot slot.2 slot.1 ∈ ids ++ [NodeId.slot slot.2 slot.1] :=
    List.mem_append_right _ List.mem_cons_self
  exact .node (.edge (Edge.groundedIn_toSlot howner hslot)
    (.edge (Edge.groundedIn_fromSlot hslot slot.2) .nil))

theorem streams_ofReferences (h : .entity owner ∈ ids) (field : String) (refs : References) :
    Streams ids (ofReferences owner field refs) := by
  cases refs with
  | one target => exact .edge (Edge.groundedIn_labeled h target field) .nil
  | ordered targets =>
    rw [ofReferences, List.mapIdx_eq_zipIdx_map, List.map_eq_flatMap]
    exact .flatMap fun _ _ => .edge (Edge.groundedIn_labeled h _ _) .nil
  | keyed slots => exact .flatMap fun slot _ => streams_ofSlot h slot

theorem streams_ofField {e : Entity} (h : .entity e.id ∈ ids) (f : ReferenceField) :
    Streams ids (ofField e f).pushes := by
  unfold ofField
  split
  · exact .nil
  · split
    · exact streams_ofReferences h f.name _
    · exact .nil

theorem streams_ofEntity (bucket : Kind) (e : Entity) :
    Streams ids (ofEntity bucket e).pushes := by
  rw [ofEntity, andThen_pushes (failure_done _)]
  apply Streams.node
  exact .forEach fun f _ => streams_ofField (List.mem_append_right _ List.mem_cons_self) f

theorem streams_ofBuckets (bs : Buckets) : Streams ids (ofBuckets bs).pushes :=
  .forEach fun b _ => .forEach fun x _ => streams_ofEntity b.1 x.2

end Walk

/-! ## Pairs of grey edges -/

/-- Edges in which the grey ones stand in pairs, to a slot that has a node and from that slot. -/
inductive Paired (nodes : List Node) : List Edge → Prop
  | nil : Paired nodes []
  | reference {source target : EntityId} {label : String} {xs : List Edge}
      (h : Paired nodes xs) :
      Paired nodes (.labeled (.entity source) (.entity target) label :: xs)
  | slot {owner target : EntityId} {key : String} {xs : List Edge}
      (hn : ⟨.slot target key, key, slotAttributes⟩ ∈ nodes) (h : Paired nodes xs) :
      Paired nodes (.greyed (.entity owner) (.slot target key) ::
        .greyed (.slot target key) (.entity target) :: xs)

namespace Paired

variable {nodes : List Node} {xs ys : List Edge}

theorem append (h : Paired nodes xs) (h' : Paired nodes ys) : Paired nodes (xs ++ ys) := by
  induction h with
  | nil => exact h'
  | reference _ ih => exact .reference ih
  | slot hn _ ih => exact .slot hn ih

theorem flatMap {α : Type} {f : α → List Edge} {as : List α} (h : ∀ a ∈ as, Paired nodes (f a)) :
    Paired nodes (as.flatMap f) :=
  flatMap_induction .nil (fun hx hy => hx.append hy) h

end Paired

namespace Depiction

theorem paired_fieldEdges {nodes : List Node} (e : Entity) (f : ReferenceField)
    (h : ∀ entry ∈ entries e f, slotNode entry ∈ nodes) : Paired nodes (fieldEdges e f) := by
  unfold entries at h
  unfold fieldEdges
  split
  · exact .reference .nil
  · exact .reference .nil
  · rw [List.mapIdx_eq_zipIdx_map, List.map_eq_flatMap]
    exact .flatMap fun _ _ => .reference .nil
  · rename_i hrelation hfield
    simp only [hrelation, hfield] at h
    exact .flatMap fun entry hentry => .slot (h entry hentry) .nil
  · exact .nil

theorem paired_edges {nodes : List Node} (p : Kind × Entity) (h : Depiction.nodes p ⊆ nodes) :
    Paired nodes (edges p) := by
  refine .flatMap fun f hf => paired_fieldEdges p.2 f fun entry hentry => h ?_
  rw [Depiction.nodes]
  apply List.mem_cons_of_mem
  exact List.mem_map_of_mem (List.mem_flatMap.mpr ⟨f, hf, hentry⟩)

end Depiction

namespace Document

/-- The graph of a document as it stands after some pushes of its walk. -/
def graphAfter (d : Document) (n : Nat) : Graph :=
  ((Walk.ofBuckets d.buckets).pushes.take n).foldl Graph.push .directed

theorem graphAfter_length (d : Document) :
    d.graphAfter (Walk.ofBuckets d.buckets).pushes.length = (Walk.ofBuckets d.buckets).graph := by
  rw [graphAfter, List.take_length, Graph.foldl_push]
  rfl

theorem graph_eq_walk {d : Document} {g : GraphDocument} (h : d.graph = .ok g) :
    g.graph = (Walk.ofBuckets d.buckets).graph := by
  obtain ⟨hn, hm, rfl⟩ := graph_eq_ok_iff.mp h
  rw [graph, buildable?_of_isNormalized hn] at h
  simp only [ofBuckets_failure, failure?_eq_none_iff.mpr hm, Except.ok.injEq] at h
  rw [← h]

/-- After any number of pushes the edges are grounded in the nodes; and a finished graph, which is
what all pushes give, has its grey edges in pairs. -/
theorem graph_streams (d : Document) :
    (∀ n, (d.graphAfter n).Grounded) ∧
      ∀ g, d.graph = .ok g →
        g.graph = d.graphAfter (Walk.ofBuckets d.buckets).pushes.length ∧
          Paired g.graph.nodes g.graph.edges := by
  constructor
  · intro n
    exact (Walk.streams_ofBuckets d.buckets).grounded_take (fun x hx => by cases hx) n
  · intro g h
    refine ⟨by rw [graphAfter_length, graph_eq_walk h], ?_⟩
    obtain ⟨-, -, rfl⟩ := graph_eq_ok_iff.mp h
    refine .flatMap fun p hp => Depiction.paired_edges p fun n hn => ?_
    exact List.mem_flatMap.mpr ⟨p, hp, hn⟩

/-- Five pushes end between the two edges of a slot. -/
theorem graph_streams_sampleRule :
    ((sampleRule.graphAfter 5).Grounded ∧
      (sampleRule.graphAfter 5).edges.map (·.target.text) = ["2", "3.base"]) ∧
    ∃ g, sampleRule.graph = .ok g ∧ g.graph = sampleRule.graphAfter 12 ∧
      Paired g.graph.nodes g.graph.edges := by
  obtain ⟨hgrounded, hfinished⟩ := graph_streams sampleRule
  obtain ⟨g, hg⟩ : ∃ g, sampleRule.graph = .ok g := ⟨_, rfl⟩
  obtain ⟨hafter, hpaired⟩ := hfinished g hg
  exact ⟨⟨hgrounded 5, by decide⟩, g, hg, hafter, hpaired⟩

end Document

end RuleGraph
