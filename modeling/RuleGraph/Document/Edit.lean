import RuleGraph.Document.Basic

/-!
# Editing a document

Every edit keeps the order of what it does not touch. A bucket that becomes empty stays.
-/

namespace RuleGraph.Document

/-- The entity under a key of a bucket. -/
def find? (d : Document) (kind : Kind) (key : String) : Option Entity :=
  (OrderedMap.find? kind d.buckets).bind (OrderedMap.find? key)

def withResult (d : Document) (result : Option Json.Value) : Document := { d with result }

/-- The document with a bucket, which is empty if it is new. -/
def withBucket (d : Document) (kind : Kind) : Document :=
  let bucket := (OrderedMap.find? kind d.buckets).getD []
  { d with entities := some (OrderedMap.put kind bucket d.buckets) }

/-- The document with an entity under a key of a bucket. -/
def put (d : Document) (kind : Kind) (key : String) (e : Entity) : Document :=
  let bucket := (OrderedMap.find? kind d.buckets).getD []
  { d with entities := some (OrderedMap.put kind (OrderedMap.put key e bucket) d.buckets) }

def removeBucket (d : Document) (kind : Kind) : Document :=
  { d with entities := d.entities.map (OrderedMap.remove kind) }

/-- The document without the entity under a key of a bucket. -/
def remove (d : Document) (kind : Kind) (key : String) : Document :=
  { d with
    entities := d.entities.map fun bs =>
      match OrderedMap.find? kind bs with
      | none => bs
      | some bucket => OrderedMap.put kind (OrderedMap.remove key bucket) bs }

def withoutEntities (d : Document) : Document := { d with entities := none }

end RuleGraph.Document
