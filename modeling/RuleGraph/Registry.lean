import RuleGraph.Entity.Kind

/-!
# Reference fields

For each kind of entity, `Kind.references` lists the fields that refer to other entities, in the
order in which a graph shows them, with the shape of the reference and the kinds it may lead to.
-/

namespace RuleGraph

/-- A named group of kinds. -/
structure Grouping where
  name : String
  members : List Kind
deriving DecidableEq, Repr

namespace Grouping

/-- Anything that evaluates to a value. -/
def expression : Grouping where
  name := "Expression"
  members := [.arithmeticOperator, .number, .parameter, .parameterAtInstant, .variableForPeriod]

/-- A period, or an operator that yields one. -/
def periodOrPeriodOperator : Grouping where
  name := "PeriodOrPeriodOperator"
  members := [.period, .periodOperator]

def all : List Grouping := [expression, periodOrPeriodOperator]

def ofName? (s : String) : Option Grouping := all.find? (·.name = s)

end Grouping

/-- Where the elements of a sequence lead: to one kind or to a group. -/
inductive Target where
  | kind (k : Kind)
  | grouping (g : Grouping)
deriving DecidableEq, Repr

/-- The kinds of a target. -/
def Target.candidates : Target → List Kind
  | .kind k => [k]
  | .grouping g => g.members

/-- How a field refers to other entities. -/
inductive Relation where
  /-- To one entity of one kind. -/
  | single (k : Kind)
  /-- To several entities, by position or by name. -/
  | sequence (t : Target)
  /-- To one entity of a group of kinds. -/
  | union (g : Grouping)
deriving DecidableEq, Repr

/-- The kinds a field may lead to. -/
def Relation.candidates : Relation → List Kind
  | .single k => [k]
  | .sequence t => t.candidates
  | .union g => g.members

/-- A field that refers to other entities. -/
structure ReferenceField where
  name : String
  relation : Relation
deriving DecidableEq, Repr

namespace Kind

/-- The reference fields of a kind, in order. -/
def references : Kind → List ReferenceField
  | arithmeticOperator => [⟨"operands", .sequence (.grouping .expression)⟩]
  | parameterAtInstant => [⟨"instant", .single periodOperator⟩, ⟨"parameter", .single parameter⟩]
  | periodOperator => [⟨"operand", .union .periodOrPeriodOperator⟩]
  | ruleVariable =>
    [⟨"formula", .union .expression⟩, ⟨"output_period", .union .periodOrPeriodOperator⟩]
  | variableForPeriod =>
    [⟨"period", .union .periodOrPeriodOperator⟩, ⟨"variable", .single ruleVariable⟩]
  | number | parameter | period => []

/-- The reference field of a name. -/
def reference? (k : Kind) (name : String) : Option ReferenceField :=
  k.references.find? (·.name = name)

end Kind

end RuleGraph
