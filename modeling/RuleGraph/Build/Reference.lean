import RuleGraph.Entity.Basic
import RuleGraph.Registry

/-!
# References

What a reference field holds: one id, a list of ids, or ids under names. A reference is written as
an id, or as an object with an `id` among its members.
-/

namespace RuleGraph

/-- The references of a field. -/
inductive References where
  /-- One reference. -/
  | one (target : EntityId)
  /-- References by position. -/
  | ordered (targets : List EntityId)
  /-- References by name. -/
  | keyed (slots : List (String × EntityId))
deriving DecidableEq, Repr

namespace References

open Json

/-- The id of a reference. -/
def id? : Value → Option EntityId
  | .number n => n.natural?
  | .object members => (OrderedMap.find? "id" members).bind (·.natural?)
  | _ => none

/-- The references of a field that holds several. -/
def sequence? : Value → Option References
  | .array items => (items.mapM id?).map ordered
  | .object members => (members.mapM fun m => (id? m.2).map (Prod.mk m.1)).map keyed
  | _ => none

/-- The references that a value is in a field of the given relation. -/
def ofValue? : Relation → Value → Option References
  | .single _, v | .union _, v => (id? v).map one
  | .sequence _, v => sequence? v

end References

end RuleGraph
