import RuleGraph.Document.Basic
import RuleGraph.Entity.Json

/-!
# Documents as JSON

A document is an object with `result` and `entities`, each left out if it is absent. What stands
for `entities` is read as a whole: if it is falsy, there are none.
-/

namespace RuleGraph

open Json

namespace Document

/-! ## Writing -/

def bucketValue (b : Bucket) : Value := .object (b.map fun (key, e) => (key, e.toValue))

def bucketsValue (bs : Buckets) : Value := .object (bs.map fun (k, b) => (k.name, bucketValue b))

def toValue (d : Document) : Value :=
  .object <|
    (d.result.map fun v => ("result", v)).toList ++
      (d.entities.map fun bs => ("entities", bucketsValue bs)).toList

/-! ## Reading -/

/-- The entities of a bucket. -/
def readBucket : Value → Except Mismatch Bucket
  | .object members => members.mapM fun (key, v) => do return (key, ← Entity.format.ofValue v)
  | v => .error (Format.misfit .map v)

/-- The buckets of a truthy value. -/
def readBuckets : Value → Except Mismatch Buckets
  | .object members =>
    members.mapM fun (name, v) => do
      let k ← Format.variant (Kind.all.map fun k => (k.name, k)) name
      return (k, ← readBucket v)
  | v => .error (Format.misfit .map v)

/-- The buckets of a value, if it is truthy. -/
def readEntities (v : Value) : Except Mismatch (Option Buckets) :=
  if v.isTruthy then (readBuckets v).map some else .ok none

structure Draft where
  result : Option (Option Value)
  entities : Option (Option Buckets)

def members : List (Member Draft) :=
  [ .defaulted "result" Draft.result (fun a d => { d with result := a })
      (Format.optional Format.value),
    .defaulted "entities" Draft.entities (fun a d => { d with entities := a })
      (Format.whole readEntities) ]

def record : Record Draft Document where
  name := "NormalizedDocument"
  members := members
  blank := ⟨none, none⟩
  finish draft := .ok ⟨draft.result.getD none, draft.entities.getD none⟩

def format : Format Document := record.format

end Document

end RuleGraph
