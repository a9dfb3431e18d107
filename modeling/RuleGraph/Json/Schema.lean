import RuleGraph.Json.Value

/-!
# JSON Schema

A schema is a list of keywords, each of which a value has to meet; the order of keywords means
nothing. A published schema stands for itself: it carries the schemas that it refers to by name.
Written as JSON, the members of every object are sorted by name.
-/

namespace RuleGraph.Json

/-- The types that a schema tells apart. -/
inductive SchemaType where
  | null
  | boolean
  | integer
  | string
  | array
  | object
deriving DecidableEq, Repr

def SchemaType.name : SchemaType → String
  | null => "null"
  | boolean => "boolean"
  | integer => "integer"
  | string => "string"
  | array => "array"
  | object => "object"

/-- A keyword of a schema. -/
inductive Keyword where
  /-- What the value means. -/
  | description (text : String)
  /-- The value has one of some types. -/
  | types (ts : List SchemaType)
  /-- The value is this one. -/
  | const (v : Value)
  /-- The width of a number; every value meets it. -/
  | format (name : String)
  /-- The value, if a number, is at least this. -/
  | minimum (n : UInt64)
  /-- The value meets a schema that is known by name. -/
  | reference (name : String)
  /-- The value meets one of some schemas or more. -/
  | anyOf (schemas : List (List Keyword))
  /-- The value meets exactly one of some schemas. -/
  | oneOf (schemas : List (List Keyword))
  /-- The items of the value, if an array, meet a schema. -/
  | items (schema : List Keyword)
  /-- The members of the value, if an object, meet the schemas of their names. -/
  | properties (schemas : List (String × List Keyword))
  /-- The value, if an object, has these members. -/
  | required (names : List String)

/-- A schema: its keywords. -/
abbrev Schema := List Keyword

/-! ## References -/

mutual

/-- The names that a keyword refers to. -/
def Keyword.references : Keyword → List String
  | .reference name => [name]
  | .anyOf schemas | .oneOf schemas => alternativeReferences schemas
  | .items schema => schemaReferences schema
  | .properties schemas => propertyReferences schemas
  | .description _ | .types _ | .const _ | .format _ | .minimum _ | .required _ => []

/-- The names that a schema refers to. -/
def schemaReferences : List Keyword → List String
  | [] => []
  | k :: ks => k.references ++ schemaReferences ks

def alternativeReferences : List (List Keyword) → List String
  | [] => []
  | s :: ss => schemaReferences s ++ alternativeReferences ss

def propertyReferences : List (String × List Keyword) → List String
  | [] => []
  | (_, s) :: ss => schemaReferences s ++ propertyReferences ss

end

/-! ## Schemas as JSON -/

/-- Members sorted by name. -/
def sortedMembers (members : List (String × Value)) : List (String × Value) :=
  members.mergeSort fun a b => decide (¬ b.1 < a.1)

/-- One type as a JSON value, several ones as an array. -/
def SchemaType.listValue : List SchemaType → Value
  | [t] => .string t.name
  | ts => .array (ts.map fun t => .string t.name)

/-- Where a schema known by a name is found. -/
def referencePath (name : String) : String := "#/$defs/" ++ name

def Keyword.name : Keyword → String
  | .description _ => "description"
  | .types _ => "type"
  | .const _ => "const"
  | .format _ => "format"
  | .minimum _ => "minimum"
  | .reference _ => "$ref"
  | .anyOf _ => "anyOf"
  | .oneOf _ => "oneOf"
  | .items _ => "items"
  | .properties _ => "properties"
  | .required _ => "required"

mutual

/-- What a keyword says, as a JSON value. -/
def Keyword.toValue : Keyword → Value
  | .description text => .string text
  | .types ts => SchemaType.listValue ts
  | .const v => v
  | .format name => .string name
  | .minimum n => .natural n
  | .reference name => .string (referencePath name)
  | .anyOf schemas | .oneOf schemas => .array (schemaValues schemas)
  | .items schema => .object (sortedMembers (keywordMembers schema))
  | .properties schemas => .object (sortedMembers (propertyMembers schemas))
  | .required names => .array (names.map Value.string)

/-- A schema's keywords as members of an object. -/
def keywordMembers : List Keyword → List (String × Value)
  | [] => []
  | k :: ks => (k.name, k.toValue) :: keywordMembers ks

def schemaValues : List (List Keyword) → List Value
  | [] => []
  | s :: ss => .object (sortedMembers (keywordMembers s)) :: schemaValues ss

/-- The schemas of properties as members of an object. -/
def propertyMembers : List (String × List Keyword) → List (String × Value)
  | [] => []
  | (name, s) :: ss => (name, .object (sortedMembers (keywordMembers s))) :: propertyMembers ss

end

/-! ## Published schemas -/

/-- A schema that stands for itself. -/
structure PublishedSchema where
  /-- The name of the type whose values it describes. -/
  title : String
  schema : Schema
  /-- The schemas that it refers to, each one before those that it refers to itself. -/
  definitions : List (String × Schema)

namespace PublishedSchema

/-- The version of JSON Schema in use. -/
def dialect : String := "https://json-schema.org/draft/2020-12/schema"

/-- Those of some definitions that are referred to, by name or by a definition before. -/
def used (names : List String) : List (String × Schema) → List (String × Schema)
  | [] => []
  | (name, s) :: rest =>
    if names.contains name then (name, s) :: used (names ++ schemaReferences s) rest
    else used names rest

/-- Publish the schema of a name with what it refers to. -/
def of? (definitions : List (String × Schema)) (name : String) : Option PublishedSchema :=
  (OrderedMap.find? name definitions).map fun s =>
    ⟨name, s, used (schemaReferences s) definitions⟩

/-- A published schema as a JSON value. -/
def toValue (p : PublishedSchema) : Value :=
  let defs :=
    if p.definitions.isEmpty then []
    else [("$defs", .object (sortedMembers (propertyMembers p.definitions)))]
  .object <| sortedMembers <|
    ("$schema", .string dialect) :: ("title", .string p.title) ::
      (keywordMembers p.schema ++ defs)

end PublishedSchema

end RuleGraph.Json
