/-!
# Kinds of entities

A rule expression is made of entities of eight kinds, each with a name that documents use.
-/

namespace RuleGraph

/-- A kind of entity in the rule expression language. -/
inductive Kind where
  /-- Arithmetic over several expressions. -/
  | arithmeticOperator
  /-- A numeric literal. -/
  | number
  /-- A parameter of the legislation, found by a dotted path. -/
  | parameter
  /-- A parameter evaluated at an instant. -/
  | parameterAtInstant
  /-- The period a formula is computed for. -/
  | period
  /-- An operation that derives a period from another one. -/
  | periodOperator
  /-- A named variable with a formula. -/
  | ruleVariable
  /-- A variable evaluated over a period. -/
  | variableForPeriod
deriving DecidableEq, Repr, Inhabited

namespace Kind

def all : List Kind :=
  [arithmeticOperator, number, parameter, parameterAtInstant, period, periodOperator, ruleVariable,
    variableForPeriod]

def name : Kind → String
  | arithmeticOperator => "ArithmeticOperator"
  | number => "Number"
  | parameter => "Parameter"
  | parameterAtInstant => "ParameterAtInstant"
  | period => "Period"
  | periodOperator => "PeriodOperator"
  | ruleVariable => "Variable"
  | variableForPeriod => "VariableForPeriod"

def ofName? (s : String) : Option Kind := all.find? (·.name = s)

/-- The message for a name that no kind has. -/
def unknownMessage (s : String) : String := "unknown entity type `" ++ s ++ "`"

/-- The kinds of a list in order, each once. -/
def sorted (kinds : List Kind) : List Kind := all.filter (· ∈ kinds)

theorem mem_all (k : Kind) : k ∈ all := by cases k <;> simp [all]

theorem name_injective {k l : Kind} (h : k.name = l.name) : k = l := by
  revert h
  cases k <;> cases l <;> decide

@[simp] theorem ofName?_name (k : Kind) : ofName? k.name = some k := by
  cases k <;> decide

end Kind

end RuleGraph
