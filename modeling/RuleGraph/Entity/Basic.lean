import RuleGraph.Entity.Kind
import RuleGraph.Json.Value

/-!
# Entities

An entity has a kind, an id and a stub mark. All else it carries depends on its kind and is kept
as JSON, in order.
-/

namespace RuleGraph

/-- The id of an entity, unique among the entities of its kind. -/
abbrev EntityId := UInt64

/-- An entity of a rule document. -/
structure Entity where
  kind : Kind
  id : EntityId
  /-- Whether the entity was referred to but not parsed yet. -/
  isStub : Bool
  /-- The members that depend on the kind. -/
  fields : OrderedMap String Json.Value
deriving DecidableEq, Repr

namespace Entity

/-- A field; one that is `null` counts as absent. -/
def field? (e : Entity) (name : String) : Option Json.Value :=
  (OrderedMap.find? name e.fields).filter (!·.isNull)

/-- The text of a field that is a string. -/
def text? (e : Entity) (name : String) : Option String := (e.field? name).bind (·.string?)

end Entity

end RuleGraph
