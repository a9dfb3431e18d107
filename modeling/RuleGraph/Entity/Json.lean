import RuleGraph.Entity.Basic
import RuleGraph.Json.Record

/-!
# Entities as JSON

An entity is an object with `type` and `id`, with `_stub` if it is a stub, and with its fields.
-/

namespace RuleGraph

open Json

/-- The format of a kind: its name. -/
def Kind.format : Format Kind := Format.choice (Kind.all.map fun k => (k.name, k))

namespace Entity

def toValue (e : Entity) : Value :=
  .object <|
    ("type", .string e.kind.name) :: ("id", .natural e.id) ::
      ((if e.isStub then [("_stub", .bool true)] else []) ++ e.fields)

structure Draft where
  kind : Option Kind
  id : Option EntityId
  isStub : Option Bool

/-- The declared members of an entity. -/
def members : List (Member Draft) :=
  [ .required "type" Draft.kind (fun a d => { d with kind := a }) Kind.format,
    .required "id" Draft.id (fun a d => { d with id := a }) Format.word64,
    .defaulted "_stub" Draft.isStub (fun a d => { d with isStub := a }) Format.bool ]

/-- Entities as open records; the members they do not declare are their fields. -/
def record : OpenRecord Draft Entity where
  name := "Entity"
  members := members
  blank := ⟨none, none, none⟩
  finish draft held := do
    let kind ← need "type" draft.kind
    let id ← need "id" draft.id
    return ⟨kind, id, draft.isStub.getD false, OrderedMap.ofEntries (Value.mergedMembers held)⟩

def format : Format Entity := record.format

end Entity

end RuleGraph
