import RuleGraph.Entity.Basic

/-!
# Rule documents

A document holds its entities in buckets, one for each kind that occurs, in the order of the text.
The bucket an entity is found in need not be that of its own kind.
-/

namespace RuleGraph

/-- Entities under keys that say nothing about them. -/
abbrev Bucket := OrderedMap String Entity

/-- Buckets by kind. -/
abbrev Buckets := OrderedMap Kind Bucket

/-- A document; one without a result or without entities is no normalized document. -/
structure Document where
  /-- The root entities; only whether it is present and truthy matters. -/
  result : Option Json.Value
  entities : Option Buckets
deriving DecidableEq, Repr

namespace Document

/-- The document without result and entities. -/
def empty : Document := ⟨none, none⟩

/-- The buckets of a document; none if it has no entities. -/
def buckets (d : Document) : Buckets := d.entities.getD []

/-- How many entities a document has. -/
def entityCount (d : Document) : Nat := d.buckets.foldr (fun b n => b.2.length + n) 0

/-- The entities of a document with the kind of the bucket they are found in, in order. -/
def placed (d : Document) : List (Kind × Entity) :=
  d.buckets.flatMap fun b => b.2.map fun e => (b.1, e.2)

/-- The buckets of a document that can be turned into a graph. -/
def buildable? (d : Document) : Option Buckets :=
  match d.result, d.entities with
  | some result, some entities => if result.isTruthy then some entities else none
  | _, _ => none

theorem length_placed (d : Document) : d.placed.length = d.entityCount := by
  unfold placed entityCount
  induction d.buckets with
  | nil => rfl
  | cons b rest ih => simp [ih]

end Document

end RuleGraph
