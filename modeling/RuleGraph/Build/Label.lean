import RuleGraph.Graph.Basic
import RuleGraph.Numeral.Layout

/-!
# Labels

The label of an entity's node starts with the bucket and the id. A title follows on lines of its
own if the entity has one, and a last line marks stubs. Title and attributes depend on the
entity's own kind.
-/

namespace RuleGraph

open Json

/-! ## Titles -/

/-- Numbers in titles are positional, whole ones without a point, and zero has no sign. -/
def titleLayout : Layout where
  positional _ := true
  pointZero := false
  signedZero := false
  tie := .up

/-- The text of a number in a title. -/
def Json.Number.titleText : Number → List Char
  | .integer i => integerText i.val
  | .float x => titleLayout.text x

/-- The text of a scalar in a title. -/
def Json.Value.scalarText? : Value → Option String
  | .string s => some s
  | .number n => some (String.ofList n.titleText)
  | .bool true => some "true"
  | .bool false => some "false"
  | .null | .array _ | .object _ => none

namespace Entity

/-- The title of a path: the text of its segments with points between them. -/
def pathTitle? : Value → Option String
  | .array segments => (segments.mapM Value.scalarText?).map (".".intercalate ·)
  | _ => none

/-- The field that an entity's title is taken from. -/
def titleField? : Kind → Option String
  | .arithmeticOperator | .periodOperator => some "operator"
  | .number => some "value"
  | .parameter => some "path"
  | .ruleVariable => some "name"
  | .parameterAtInstant | .period | .variableForPeriod => none

/-- The title that a value gives an entity of a kind. -/
def titleOf? : Kind → Value → Option String
  | .arithmeticOperator, v | .periodOperator, v | .number, v => v.scalarText?
  | .parameter, v => pathTitle? v
  | .ruleVariable, v => v.string?
  | .parameterAtInstant, _ | .period, _ | .variableForPeriod, _ => none

/-- The title of an entity. -/
def title? (e : Entity) : Option String := do
  let name ← titleField? e.kind
  titleOf? e.kind (← e.field? name)

/-! ## Labels and attributes -/

/-- The last line of a stub's label. -/
def stubMark : String := "(not parsed yet)"

def heading (bucket : Kind) (id : EntityId) : String := bucket.name ++ " " ++ NodeId.idText id

/-- The label of an entity that is found in a bucket. -/
def label (bucket : Kind) (e : Entity) : String :=
  heading bucket e.id ++ (e.title?.map ("\n" ++ ·)).getD "" ++
    (if e.isStub then "\n" ++ stubMark else "")

end Entity

/-- How the node of an entity looks. -/
def Kind.attributes : Kind → Attributes
  | .parameter => (Attributes.shaped .box).filled
  | .number => .shaped .oval
  | .ruleVariable => (Attributes.shaped .oval).filled
  | _ => .shaped .box

def slotAttributes : Attributes := (Attributes.shaped .cds).greyed

end RuleGraph
