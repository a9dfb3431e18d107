import RuleGraph.Json.Schema

/-!
# The schema of graphs

For those who read graphs, the form of every type that is written, as JSON Schema.
-/

namespace RuleGraph.GraphSchema

open Json

/-! ## Building blocks -/

/-- A reference to the schema of a name. -/
def named (name : String) : Schema := [.reference name]

/-- The schema of a name, or `null`. -/
def namedOrNull (name : String) : Schema := [.anyOf [named name, [.types [.null]]]]

def word64 : Schema := [.types [.integer], .format "uint64", .minimum 0]

/-- Naturals of 32 bits, or `null`. -/
def word32OrNull : Schema := [.types [.integer, .null], .format "uint32", .minimum 0]

/-- Arrays of what has the schema of a name. -/
def listOf (name : String) : Schema := [.types [.array], .items (named name)]

/-- A schema with a description. -/
def described (text : String) (schema : Schema) : Schema := .description text :: schema

/-- Strings out of some, each with its description. -/
def choice (text : String) (variants : List (String × String)) : Schema :=
  described text
    [.oneOf (variants.map fun (name, meaning) =>
      described meaning [.types [.string], .const (.string name)])]

/-- A property of a record: its name, whether it has to be there, and its schema. -/
structure Property where
  name : String
  isRequired : Bool
  schema : Schema

/-- A property that has to be there. -/
def needed (name text : String) (schema : Schema) : Property := ⟨name, true, described text schema⟩

/-- A property that may be left out. -/
def optional (name text : String) (schema : Schema) : Property :=
  ⟨name, false, described text schema⟩

/-- Objects with some properties. -/
def record (text : String) (ps : List Property) : Schema :=
  let names := (ps.filter (·.isRequired)).map (·.name)
  described text <|
    .types [.object] :: .properties (ps.map fun p => (p.name, p.schema)) ::
      if names.isEmpty then [] else [.required names]

/-! ## Ids and attributes -/

def nodeId : Schema :=
  described
    ("Identifier of a graph node.\n\n" ++
      "Entity nodes reuse the entity's integer id. Synthetic nodes, which stand\n" ++
      "for a named slot in a keyed reference mapping, use a `\"<id>.<key>\"`\n" ++
      "string so they cannot collide with entity ids.")
    [.anyOf
      [ described "Node for an input entity." word64,
        described "Node synthesized for a named slot." [.types [.string]] ]]

def shape : Schema :=
  choice "Graphviz node shape."
    [ ("box", "Rectangle; the default for entities without a dedicated style."),
      ("oval", "Ellipse."),
      ("cds", "Arrow-shaped box used for synthetic slot nodes.") ]

def style : Schema := choice "Graphviz node style." [("filled", "Solid fill.")]

def color : Schema :=
  choice "Graphviz color name." [("grey", "Muted color marking synthetic nodes and their edges.")]

/-- The properties that attributes have. -/
def attributeProperties : List Property :=
  [ optional "shape" "Outline shape." (namedOrNull "Shape"),
    optional "style" "Fill style." (namedOrNull "Style"),
    optional "fontcolor" "Label text color." (namedOrNull "Color"),
    optional "color" "Border color." (namedOrNull "Color") ]

def attributes : Schema :=
  record "Visual attributes of a node. Unset attributes are omitted from JSON." attributeProperties

/-! ## Nodes, edges and graphs -/

/-- The schema of nodes, among whose properties are those of attributes. -/
def node : Schema :=
  record "A graph node." <|
    needed "id" "Unique node id." (named "NodeId") ::
      needed "label" "Display text; lines are separated by `\\n`." [.types [.string]] ::
        attributeProperties

def edge : Schema :=
  record "A directed graph edge."
    [ needed "source" "Node the reference starts from." (named "NodeId"),
      needed "target" "Node the reference points at." (named "NodeId"),
      needed "directed" "Always true." [.types [.boolean]],
      optional "label" "Reference name, e.g. `formula` or `operands[1]`."
        [.types [.string, .null]],
      optional "labeldistance" "Distance of the label from the edge head." word32OrNull,
      optional "color" "Stroke color." (namedOrNull "Color") ]

def graph : Schema :=
  record "A directed graph with flat node and edge lists."
    [ needed "directed" "Always true: references point from the owning entity."
        [.types [.boolean]],
      needed "nodes" "Nodes in emission order." (listOf "Node"),
      needed "edges" "Edges in emission order." (listOf "Edge") ]

def document : Schema :=
  record "Root of the output document: `\x7b \"graph\": \x7b ... \x7d \x7d`."
    [needed "graph" "The single graph described by this document." (named "Graph")]

/-! ## All schemas -/

/-- The schemas by name, each one before those that it refers to. -/
def definitions : List (String × Schema) :=
  [ ("GraphDocument", document), ("Graph", graph), ("Node", node), ("Edge", edge),
    ("NodeAttributes", attributes), ("NodeId", nodeId), ("Shape", shape), ("Style", style),
    ("Color", color) ]

/-- The schema of a name, ready to be published. -/
def published? (name : String) : Option PublishedSchema := PublishedSchema.of? definitions name

end RuleGraph.GraphSchema
