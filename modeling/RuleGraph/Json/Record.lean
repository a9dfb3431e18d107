import RuleGraph.Json.Format

/-!
# Records

A record is read from an object, member by member in the order of the text, or from an array, item
by item in the order of its declared members. What has been read so far is a draft `σ`; `finish`
turns a full draft into the record. An open record is read from objects only and keeps the members
that it does not declare.
-/

namespace RuleGraph.Json

/-- A declared member of a record with drafts `σ`. -/
structure Member (σ : Type) where
  name : String
  /-- Whether the record cannot do without the member. -/
  isRequired : Bool
  /-- Whether a draft has the member already. -/
  isFilled : σ → Bool
  /-- How the member is read into a draft. -/
  fill : Format (σ → σ)

namespace Member

variable {σ α : Type}

/-- A member that has to be there. -/
def required (name : String) (get : σ → Option α) (set : Option α → σ → σ) (format : Format α) :
    Member σ where
  name := name
  isRequired := true
  isFilled draft := (get draft).isSome
  fill := format.map fun a => set (some a)

/-- A member that may be left out. -/
def defaulted (name : String) (get : σ → Option α) (set : Option α → σ → σ) (format : Format α) :
    Member σ :=
  { required name get set format with isRequired := false }

end Member

/-- A required part of a draft. -/
def need {α : Type} (name : String) : Option α → Except Mismatch α
  | some a => .ok a
  | none => .error (.missing name)

/-- A record and its drafts. -/
structure Record (σ α : Type) where
  name : String
  members : List (Member σ)
  blank : σ
  /-- The record of a draft; the first required member that is missing is an error. -/
  finish : σ → Except Mismatch α

namespace Record

variable {σ α : Type}

/-! ## By name -/

/-- The draft after the members of an object's tree. -/
def fillTree (members : List (Member σ)) (room : Nat) : List (Name × Tree) → σ → Except Error σ
  | [], draft => .ok draft
  | (name, t) :: rest, draft => do
    let name ← name.read.mapError .fault
    match members.find? (·.name = name) with
    | none => do
      Format.settle () t.skip
      fillTree members room rest draft
    | some m =>
      if m.isFilled draft then .error (.mismatch (.repeated name))
      else do
        let fill ← m.fill.ofTree room t
        fillTree members room rest (fill draft)

/-- The draft after the members of an object, where `read` reads one of them. -/
def fillMembers (members : List (Member σ))
    (read : Format (σ → σ) → Value → Except Mismatch (σ → σ)) :
    List (String × Value) → σ → Except Mismatch σ
  | [], draft => .ok draft
  | (name, v) :: rest, draft =>
    match members.find? (·.name = name) with
    | none => fillMembers members read rest draft
    | some m =>
      if m.isFilled draft then .error (.repeated name)
      else do
        let fill ← read m.fill v
        fillMembers members read rest (fill draft)

/-! ## By position -/

/-- The draft after the items of an array's tree, and the items left over. -/
def fillPlaces (r : Record σ α) (room : Nat) (stop : Stop) :
    List (Member σ) → List Tree → σ → Except Error (σ × List Tree)
  | [], items, draft => .ok (draft, items)
  | m :: ms, t :: items, draft => do
    let fill ← m.fill.ofTree room t
    fillPlaces r room stop ms items (fill draft)
  | m :: ms, [], draft => do
    Format.settle () stop.inArray
    if m.isRequired then
      .error (.mismatch (.tooShort (r.members.length - (ms.length + 1)) r.name r.members.length))
    else fillPlaces r room stop ms [] draft

/-- The draft after the items of an array. -/
def fillItems (r : Record σ α) (read : Format (σ → σ) → Value → Except Mismatch (σ → σ))
    (length : Nat) : List (Member σ) → List Value → σ → Except Mismatch σ
  | [], [], draft => .ok draft
  | [], _ :: _, _ => .error (.tooLong length)
  | m :: ms, v :: items, draft => do
    let fill ← read m.fill v
    fillItems r read length ms items (fill draft)
  | m :: ms, [], draft =>
    if m.isRequired then
      .error (.tooShort (r.members.length - (ms.length + 1)) r.name r.members.length)
    else fillItems r read length ms [] draft

/-! ## Formats -/

/-- A record from a value. -/
def ofValue (r : Record σ α) (read : Format (σ → σ) → Value → Except Mismatch (σ → σ)) :
    Value → Except Mismatch α
  | .object members => do r.finish (← fillMembers r.members read members r.blank)
  | .array items => do r.finish (← fillItems r read items.length r.members items r.blank)
  | v => .error (Format.misfit (.record r.name) v)

/-- The format of a record. A fault behind its last item points at its bracket. -/
def format (r : Record σ α) : Format α where
  ofTree room t :=
    match t with
    | .object start members stop => do
      let room ← Format.enter start room
      let draft ← fillTree r.members room members r.blank
      Format.settle () stop.inObject
      (r.finish draft).mapError .mismatch
    | .array start items stop => do
      let room ← Format.enter start room
      let (draft, rest) ← fillPlaces r room stop r.members items r.blank
      let a ← (r.finish draft).mapError .mismatch
      match rest with
      | [] => Format.settle a stop.afterLast
      | _ :: _ => .error (.fault ⟨start + 1, .trailingCharacters⟩)
    | t => .error (Format.unfit (.record r.name) t)
  ofValue := r.ofValue (·.ofValue)
  ofHeld := r.ofValue (·.ofHeld)

/-- The members of an object that are held back, read into a draft of a record inside it. -/
def ofMembers (r : Record σ α) (members : List (String × Value)) : Except Mismatch α := do
  r.finish (← fillMembers r.members (·.ofHeld) members r.blank)

end Record

/-! ## Open records -/

/-- A record that keeps the members it does not declare. -/
structure OpenRecord (σ α : Type) where
  name : String
  members : List (Member σ)
  blank : σ
  /-- The record of a draft and of the other members in order, repeated names included. -/
  finish : σ → List (String × Value) → Except Mismatch α

namespace OpenRecord

variable {σ α : Type}

/-- The draft after the members of an object's tree, and the members held back, latest first. -/
def fillTree (members : List (Member σ)) (room : Nat) :
    List (Name × Tree) → σ → List (String × Value) → Except Error (σ × List (String × Value))
  | [], draft, held => .ok (draft, held.reverse)
  | (name, t) :: rest, draft, held => do
    let name ← name.read.mapError .fault
    match members.find? (·.name = name) with
    | none => do
      let v ← (t.read room).mapError .fault
      fillTree members room rest draft ((name, v) :: held)
    | some m =>
      if m.isFilled draft then .error (.mismatch (.repeated name))
      else do
        let fill ← m.fill.ofTree room t
        fillTree members room rest (fill draft) held

/-- The members of an object that are not declared. -/
def others (members : List (Member σ)) (all : List (String × Value)) : List (String × Value) :=
  all.filter fun (name, _) => (members.find? (·.name = name)).isNone

/-- An open record from a value. -/
def ofValue (r : OpenRecord σ α) (read : Format (σ → σ) → Value → Except Mismatch (σ → σ)) :
    Value → Except Mismatch α
  | .object members => do
    let draft ← Record.fillMembers r.members read members r.blank
    r.finish draft (others r.members members)
  | v => .error (Format.misfit (.record r.name) v)

/-- The format of an open record. -/
def format (r : OpenRecord σ α) : Format α where
  ofTree room t :=
    match t with
    | .object start members stop => do
      let room ← Format.enter start room
      let (draft, held) ← fillTree r.members room members r.blank []
      Format.settle () stop.inObject
      (r.finish draft held).mapError .mismatch
    | t => .error (Format.unfit (.record r.name) t)
  ofValue := r.ofValue (·.ofValue)
  ofHeld := r.ofValue (·.ofHeld)

end OpenRecord

end RuleGraph.Json
