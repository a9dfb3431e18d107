import RuleGraph.Entity.Basic

/-!
# Graphs

A graph has a list of nodes and a list of edges. A node stands for an entity, under the entity's
id, or for a named slot between an entity and one that it refers to, under a text. Attributes have
the names that graph viewers know.
-/

namespace RuleGraph

/-- The id of a node. -/
inductive NodeId where
  /-- The node of an entity. -/
  | entity (id : EntityId)
  /-- The node of a slot. -/
  | synthetic (text : String)
deriving DecidableEq, Repr

namespace NodeId

def idText (id : EntityId) : String := toString id.toNat

/-- The id of the slot `key` that leads to `target`. -/
def slot (target : EntityId) (key : String) : NodeId := synthetic (idText target ++ "." ++ key)

/-- Whether a node stands for a slot. -/
def isSynthetic : NodeId → Bool
  | entity _ => false
  | synthetic _ => true

/-- The printed form of an id. -/
def text : NodeId → String
  | entity id => idText id
  | synthetic s => s

end NodeId

inductive Shape where
  /-- A rectangle. -/
  | box
  /-- An ellipse. -/
  | oval
  /-- A box in the form of an arrow. -/
  | cds
deriving DecidableEq, Repr

inductive Style where
  /-- A solid fill. -/
  | filled
deriving DecidableEq, Repr

/-- A color of nodes and edges. -/
inductive Color where
  /-- The color of slots. -/
  | grey
deriving DecidableEq, Repr

/-- How a node looks. -/
structure Attributes where
  shape : Option Shape
  style : Option Style
  fontColor : Option Color
  color : Option Color
deriving DecidableEq, Repr

namespace Attributes

def plain : Attributes := ⟨none, none, none, none⟩

def shaped (shape : Shape) : Attributes := { plain with shape := some shape }

/-- The same with a fill. -/
def filled (a : Attributes) : Attributes := { a with style := some .filled }

/-- The same with grey text and a grey border. -/
def greyed (a : Attributes) : Attributes := { a with fontColor := some .grey, color := some .grey }

end Attributes

structure Node where
  id : NodeId
  /-- The text to show; lines are separated by line breaks. -/
  label : String
  attributes : Attributes
deriving DecidableEq, Repr

structure Edge where
  source : NodeId
  target : NodeId
  isDirected : Bool
  label : Option String
  /-- How far the label is from the edge's head. -/
  labelDistance : Option UInt32
  color : Option Color
deriving DecidableEq, Repr

namespace Edge

/-- The edge of a reference, labelled with the field it comes from. -/
def labeled (source target : NodeId) (label : String) : Edge :=
  ⟨source, target, true, some label, some 0, none⟩

/-- An edge at a slot. -/
def greyed (source target : NodeId) : Edge := ⟨source, target, true, none, none, some .grey⟩

/-- Whether an edge has an end at a node. -/
def touches (e : Edge) (id : NodeId) : Bool := e.source = id || e.target = id

end Edge

structure Graph where
  isDirected : Bool
  nodes : List Node
  edges : List Edge
deriving DecidableEq, Repr

/-- What is written to a file: one graph. -/
structure GraphDocument where
  graph : Graph
deriving DecidableEq, Repr

namespace Graph

def directed : Graph := ⟨true, [], []⟩

def pushNode (g : Graph) (n : Node) : Graph := { g with nodes := g.nodes ++ [n] }

def pushEdge (g : Graph) (e : Edge) : Graph := { g with edges := g.edges ++ [e] }

def popNode (g : Graph) : Graph := { g with nodes := g.nodes.dropLast }

def popEdge (g : Graph) : Graph := { g with edges := g.edges.dropLast }

/-- The graph without the node at a place. -/
def removeNode (g : Graph) (i : Nat) : Graph := { g with nodes := g.nodes.eraseIdx i }

/-- The place of the first node with an id. -/
def position? (g : Graph) (id : NodeId) : Option Nat := g.nodes.findIdx? (·.id = id)

/-- How many edges have an end at a node. -/
def degree (g : Graph) (id : NodeId) : Nat := g.edges.countP (·.touches id)

/-- How many different ids the nodes have. -/
def distinctIds (g : Graph) : Nat := (g.nodes.map Node.id).eraseDups.length

/-! ## Counts -/

/-- How many nodes and edges a graph has. -/
structure Stats where
  entityNodes : Nat
  syntheticNodes : Nat
  edges : Nat
deriving DecidableEq, Repr

def stats (g : Graph) : Stats where
  entityNodes := g.nodes.length - g.nodes.countP (·.id.isSynthetic)
  syntheticNodes := g.nodes.countP (·.id.isSynthetic)
  edges := g.edges.length

theorem entityNodes_add_syntheticNodes (g : Graph) :
    g.stats.entityNodes + g.stats.syntheticNodes = g.nodes.length :=
  Nat.sub_add_cancel List.countP_le_length

end Graph

end RuleGraph
