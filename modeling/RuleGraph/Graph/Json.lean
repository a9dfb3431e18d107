import RuleGraph.Graph.Basic
import RuleGraph.Json.Record

/-!
# Graphs as JSON

Attributes stand among the members of their node. Whatever is not set is left out. A type that is
read as a record has a `Draft`, which holds what was read of it so far: an absent member is `none`,
and one that may be `null` is an option itself.
-/

namespace RuleGraph

open Json

/-- A member that is left out if it is not set. -/
def setMember {α : Type} (name : String) (toValue : α → Value) (a : Option α) :
    List (String × Value) :=
  (a.map fun a => (name, toValue a)).toList

/-! ## Node ids -/

namespace NodeId

def toValue : NodeId → Value
  | entity id => .natural id
  | synthetic s => .string s

/-- The node id a value is: a natural of 64 bits or a string. -/
def ofValue (v : Value) : Except Mismatch NodeId :=
  match v.natural?, v.string? with
  | some id, _ => .ok (entity id)
  | none, some s => .ok (synthetic s)
  | none, none => .error (.noForm "NodeId")

def format : Format NodeId := Format.whole ofValue

end NodeId

/-! ## Attributes -/

namespace Shape

def variants : List (String × Shape) := [("box", box), ("oval", oval), ("cds", cds)]

def name : Shape → String
  | box => "box"
  | oval => "oval"
  | cds => "cds"

def toValue (s : Shape) : Value := .string s.name

def format : Format Shape := Format.choice variants

end Shape

namespace Style

def variants : List (String × Style) := [("filled", filled)]

def toValue : Style → Value
  | filled => .string "filled"

def format : Format Style := Format.choice variants

end Style

namespace Color

def variants : List (String × Color) := [("grey", grey)]

def toValue : Color → Value
  | grey => .string "grey"

def format : Format Color := Format.choice variants

end Color

namespace Attributes

def toMembers (a : Attributes) : List (String × Value) :=
  setMember "shape" Shape.toValue a.shape ++ (setMember "style" Style.toValue a.style ++
    (setMember "fontcolor" Color.toValue a.fontColor ++ setMember "color" Color.toValue a.color))

def toValue (a : Attributes) : Value := .object a.toMembers

structure Draft where
  shape : Option (Option Shape)
  style : Option (Option Style)
  fontColor : Option (Option Color)
  color : Option (Option Color)

def members : List (Member Draft) :=
  [ .defaulted "shape" Draft.shape (fun a d => { d with shape := a })
      (Format.optional Shape.format),
    .defaulted "style" Draft.style (fun a d => { d with style := a })
      (Format.optional Style.format),
    .defaulted "fontcolor" Draft.fontColor (fun a d => { d with fontColor := a })
      (Format.optional Color.format),
    .defaulted "color" Draft.color (fun a d => { d with color := a })
      (Format.optional Color.format) ]

def record : Record Draft Attributes where
  name := "NodeAttributes"
  members := members
  blank := ⟨none, none, none, none⟩
  finish draft :=
    .ok ⟨draft.shape.getD none, draft.style.getD none, draft.fontColor.getD none,
      draft.color.getD none⟩

def format : Format Attributes := record.format

end Attributes

/-! ## Nodes and edges -/

namespace Node

def toValue (n : Node) : Value :=
  .object (("id", n.id.toValue) :: ("label", .string n.label) :: n.attributes.toMembers)

structure Draft where
  id : Option NodeId
  label : Option String

/-- The declared members of a node. -/
def members : List (Member Draft) :=
  [ .required "id" Draft.id (fun a d => { d with id := a }) NodeId.format,
    .required "label" Draft.label (fun a d => { d with label := a }) Format.string ]

/-- Nodes as open records; the members they do not declare may be attributes. -/
def record : OpenRecord Draft Node where
  name := "Node"
  members := members
  blank := ⟨none, none⟩
  finish draft held := do
    let id ← need "id" draft.id
    let label ← need "label" draft.label
    let attributes ← Attributes.record.ofMembers held
    return ⟨id, label, attributes⟩

def format : Format Node := record.format

end Node

namespace Edge

def toValue (e : Edge) : Value :=
  .object <|
    ("source", e.source.toValue) :: ("target", e.target.toValue) ::
      ("directed", .bool e.isDirected) ::
        (setMember "label" Value.string e.label ++
          (setMember "labeldistance" (fun n => Value.natural n.toUInt64) e.labelDistance ++
            setMember "color" Color.toValue e.color))

structure Draft where
  source : Option NodeId
  target : Option NodeId
  isDirected : Option Bool
  label : Option (Option String)
  labelDistance : Option (Option UInt32)
  color : Option (Option Color)

def members : List (Member Draft) :=
  [ .required "source" Draft.source (fun a d => { d with source := a }) NodeId.format,
    .required "target" Draft.target (fun a d => { d with target := a }) NodeId.format,
    .required "directed" Draft.isDirected (fun a d => { d with isDirected := a }) Format.bool,
    .defaulted "label" Draft.label (fun a d => { d with label := a })
      (Format.optional Format.string),
    .defaulted "labeldistance" Draft.labelDistance (fun a d => { d with labelDistance := a })
      (Format.optional Format.word32),
    .defaulted "color" Draft.color (fun a d => { d with color := a })
      (Format.optional Color.format) ]

def record : Record Draft Edge where
  name := "Edge"
  members := members
  blank := ⟨none, none, none, none, none, none⟩
  finish draft := do
    let source ← need "source" draft.source
    let target ← need "target" draft.target
    let isDirected ← need "directed" draft.isDirected
    return ⟨source, target, isDirected, draft.label.getD none, draft.labelDistance.getD none,
      draft.color.getD none⟩

def format : Format Edge := record.format

end Edge

/-! ## Graphs -/

namespace Graph

def toValue (g : Graph) : Value :=
  .object [("directed", .bool g.isDirected), ("nodes", .array (g.nodes.map Node.toValue)),
    ("edges", .array (g.edges.map Edge.toValue))]

structure Draft where
  isDirected : Option Bool
  nodes : Option (List Node)
  edges : Option (List Edge)

def members : List (Member Draft) :=
  [ .required "directed" Draft.isDirected (fun a d => { d with isDirected := a }) Format.bool,
    .required "nodes" Draft.nodes (fun a d => { d with nodes := a }) (Format.list Node.format),
    .required "edges" Draft.edges (fun a d => { d with edges := a }) (Format.list Edge.format) ]

def record : Record Draft Graph where
  name := "Graph"
  members := members
  blank := ⟨none, none, none⟩
  finish draft := do
    let isDirected ← need "directed" draft.isDirected
    let nodes ← need "nodes" draft.nodes
    let edges ← need "edges" draft.edges
    return ⟨isDirected, nodes, edges⟩

def format : Format Graph := record.format

end Graph

namespace GraphDocument

def toValue (d : GraphDocument) : Value := .object [("graph", d.graph.toValue)]

structure Draft where
  graph : Option Graph

def members : List (Member Draft) :=
  [.required "graph" Draft.graph (fun a _ => ⟨a⟩) Graph.format]

def record : Record Draft GraphDocument where
  name := "GraphDocument"
  members := members
  blank := ⟨none⟩
  finish draft := do return ⟨← need "graph" draft.graph⟩

def format : Format GraphDocument := record.format

end GraphDocument

end RuleGraph
