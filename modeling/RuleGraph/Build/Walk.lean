import RuleGraph.Build.Error
import RuleGraph.Build.Label
import RuleGraph.Build.Reference
import RuleGraph.Document.Basic

/-!
# From a document to its graph

The walk through a document pushes nodes and edges: for each entity its node, then what its
reference fields give. A `Walk` is the list of these pushes, and the error that ended it if there
was one. The graph is what a walk without an error has pushed.
-/

namespace RuleGraph

/-- A node or an edge that is pushed. -/
inductive Push where
  | node (n : Node)
  | edge (e : Edge)
deriving DecidableEq, Repr

namespace Push

def node? : Push → Option Node
  | node n => some n
  | edge _ => none

def edge? : Push → Option Edge
  | node _ => none
  | edge e => some e

end Push

/-- Pushes, and the error they ended with. -/
structure Walk where
  pushes : List Push
  failure : Option BuildError
deriving DecidableEq, Repr

namespace Walk

/-- A walk without an error. -/
def done (pushes : List Push) : Walk := ⟨pushes, none⟩

/-- A walk that ends before its first push. -/
def failed (e : BuildError) : Walk := ⟨[], some e⟩

/-- One walk after the other; nothing comes after an error. -/
def andThen (a b : Walk) : Walk :=
  match a.failure with
  | some _ => a
  | none => ⟨a.pushes ++ b.pushes, b.failure⟩

/-- The walks of a list's elements, one after the other. -/
def forEach {α : Type} (f : α → Walk) : List α → Walk
  | [] => done []
  | a :: as => (f a).andThen (forEach f as)

/-- The graph of what was pushed. -/
def graph (w : Walk) : Graph := ⟨true, w.pushes.filterMap Push.node?, w.pushes.filterMap Push.edge?⟩

/-! ## What one entity pushes -/

/-- The pushes of a slot: its node, then the edges to it and from it. -/
def ofSlot (owner : EntityId) (slot : String × EntityId) : List Push :=
  let id := NodeId.slot slot.2 slot.1
  [ .node ⟨id, slot.1, slotAttributes⟩,
    .edge (.greyed (.entity owner) id),
    .edge (.greyed id (.entity slot.2)) ]

/-- The name of a reference by position. -/
def placeName (field : String) (i : Nat) : String := field ++ "[" ++ toString i ++ "]"

/-- The pushes of a field's references. -/
def ofReferences (owner : EntityId) (field : String) : References → List Push
  | .one target => [.edge (.labeled (.entity owner) (.entity target) field)]
  | .ordered targets =>
    targets.mapIdx fun i target =>
      .edge (.labeled (.entity owner) (.entity target) (placeName field i))
  | .keyed slots => slots.flatMap (ofSlot owner)

/-- The walk through a reference field; a field that is absent pushes nothing. -/
def ofField (e : Entity) (field : ReferenceField) : Walk :=
  match e.field? field.name with
  | none => done []
  | some v =>
    match References.ofValue? field.relation v with
    | some refs => done (ofReferences e.id field.name refs)
    | none => failed (.malformedReference e.kind e.id field.name)

def entityNode (bucket : Kind) (e : Entity) : Node :=
  ⟨.entity e.id, e.label bucket, e.kind.attributes⟩

/-- The walk through an entity that is found in a bucket. -/
def ofEntity (bucket : Kind) (e : Entity) : Walk :=
  (done [.node (entityNode bucket e)]).andThen (forEach (ofField e) bucket.references)

def ofBucket (b : Kind × Bucket) : Walk := forEach (fun e => ofEntity b.1 e.2) b.2

def ofBuckets (bs : Buckets) : Walk := forEach ofBucket bs

end Walk

/-- The graph of a document. -/
def Document.graph (d : Document) : Except BuildError GraphDocument :=
  match d.buildable? with
  | none => .error .notNormalized
  | some buckets =>
    let w := Walk.ofBuckets buckets
    match w.failure with
    | some e => .error e
    | none => .ok ⟨w.graph⟩

/-- The buckets a walk looks into, the one where it fails included. -/
def Document.visited (bs : Buckets) : Buckets :=
  match bs with
  | [] => []
  | b :: bs => b :: (if (Walk.ofBucket b).failure.isSome then [] else visited bs)

end RuleGraph
