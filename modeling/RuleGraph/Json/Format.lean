import RuleGraph.Json.Mismatch
import RuleGraph.Json.Tree

/-!
# Formats

A `Format` reads one type in three ways: from the tree of a text, member by member as the text
goes on; from a value that was read as a whole before; and from a value that was held back while
the record around it was read. `Format.readText` and `Format.readValue` are the two ways to read a
text. This module has the formats of scalars, optional values, lists and enumerations; records are
in `RuleGraph.Json.Record`.
-/

namespace RuleGraph.Json

/-- How a type is read. -/
structure Format (α : Type) where
  /-- From a tree, with room for nested brackets. -/
  ofTree : Nat → Tree → Except Error α
  /-- From a value that was read before. -/
  ofValue : Value → Except Mismatch α
  /-- From a value that was held back. -/
  ofHeld : Value → Except Mismatch α

namespace Format

variable {α β : Type}

/-- Read a text directly. -/
def readText (f : Format α) (text : String) : Except Error α :=
  let p := Parsed.ofText text
  p.finish .fault (f.ofTree Tree.maxDepth p.root)

/-- Read a text as a value first. -/
def readValue (f : Format α) (text : String) : Except Error α :=
  match Value.ofText text with
  | .error fault => .error (.fault fault)
  | .ok v => (f.ofValue v).mapError .mismatch

/-- Read one type where another one is wanted. -/
def map (g : α → β) (f : Format α) : Format β where
  ofTree room t := (f.ofTree room t).map g
  ofValue v := (f.ofValue v).map g
  ofHeld v := (f.ofHeld v).map g

/-! ## Scalars -/

/-- What a tree shows at first sight: a scalar, or an array or an object as if it were empty. -/
def glance : Tree → Except Fault Value
  | .null _ fault => unlessFault .null fault
  | .scalar _ read _ => read
  | .string read _ => read.map .string
  | .absent fault => .error fault
  | .array .. => .ok (.array [])
  | .object .. => .ok (.object [])

/-- The error of a tree that is not what was expected. -/
def unfit (expected : Expected) (t : Tree) : Error :=
  match glance t with
  | .error fault => .fault fault
  | .ok v => .mismatch (.wrongType (.ofValue v) expected)

/-- The mismatch of a value that is not what was expected. -/
def misfit (expected : Expected) (v : Value) : Mismatch := .wrongType (.ofValue v) expected

/-- A format that looks at scalars only, and at arrays and objects to refuse them. -/
def ofScalar (f : Value → Except Mismatch α) : Format α where
  ofTree _ t :=
    match glance t with
    | .error fault => .error (.fault fault)
    | .ok v => (f v).mapError .mismatch
  ofValue := f
  ofHeld := f

def bool : Format Bool := ofScalar fun
  | .bool b => .ok b
  | v => .error (misfit .boolean v)

def string : Format String := ofScalar fun
  | .string s => .ok s
  | v => .error (misfit .string v)

/-- The natural a value is, if it is below `2 ^ bits`. -/
def natural? (bits : Nat) : Value → Except Mismatch Nat
  | .number (.integer i) =>
    if 0 ≤ i.val ∧ i.val < Nat.pow 2 bits then .ok i.val.toNat
    else .error (.wrongValue (.integer i.val) (.natural bits))
  | v => .error (misfit (.natural bits) v)

def word64 : Format UInt64 := (ofScalar (natural? 64)).map UInt64.ofNat

def word32 : Format UInt32 := (ofScalar (natural? 32)).map UInt32.ofNat

/-! ## Whole values -/

/-- A format that reads a value as a whole before it looks at it. -/
def whole (f : Value → Except Mismatch α) : Format α where
  ofTree room t :=
    match t.read room with
    | .error fault => .error (.fault fault)
    | .ok v => (f v.merged).mapError .mismatch
  ofValue := f
  ofHeld := f

def value : Format Value := whole .ok

/-! ## Optional values and lists -/

/-- A value that may be `null` instead. -/
def optional (f : Format α) : Format (Option α) where
  ofTree room t :=
    match t with
    | .null _ none => .ok none
    | .null _ (some fault) => .error (.fault fault)
    | t => (f.ofTree room t).map some
  ofValue v := if v.isNull then .ok none else (f.ofValue v).map some
  ofHeld v := if v.isNull then .ok none else (f.ofHeld v).map some

/-- Room inside one more bracket. -/
def enter (start : Nat) : Nat → Except Error Nat
  | 0 => .error (.fault ⟨start + 1, .tooDeep⟩)
  | room + 1 => .ok room

/-- A result stands unless a fault was met behind it. -/
def settle (a : α) (fault : Option Fault) : Except Error α := (unlessFault a fault).mapError .fault

/-- The values of an array. -/
def list (f : Format α) : Format (List α) where
  ofTree room t :=
    match t with
    | .array start items stop => do
      let room ← enter start room
      let as ← items.mapM (f.ofTree room)
      settle as stop.inArray
    | t => .error (unfit .sequence t)
  ofValue
    | .array items => items.mapM f.ofValue
    | v => .error (misfit .sequence v)
  ofHeld
    | .array items => items.mapM f.ofHeld
    | v => .error (misfit .sequence v)

/-! ## Enumerations -/

/-- The variant of a name. -/
def variant (variants : List (String × α)) (name : String) : Except Mismatch α :=
  match variants.find? (·.1 = name) with
  | some (_, a) => .ok a
  | none => .error (.unknownVariant name (variants.map Prod.fst))

/-- What a variant may carry. -/
def unit : Format Unit := ofScalar fun
  | .null => .ok ()
  | v => .error (misfit .unit v)

/--
A variant from the tree of an object, which has to be its name with `null`. An object without
members, and one that goes on behind the variant, is faulted at its bracket.
-/
def variantOfMembers (variants : List (String × α)) (room start : Nat) :
    List (Name × Tree) → Stop → Except Error α
  | [], stop => .error (.fault (stop.inObject.getD ⟨start + 1, .expectedValue⟩))
  | (name, payload) :: more, stop => do
    let name ← name.read.mapError .fault
    let a ← (variant variants name).mapError .mismatch
    let _ ← unit.ofTree room payload
    match more, stop with
    | [], .closed => .ok a
    | [], .ended offset => .error (.fault ⟨offset, .endInObject⟩)
    | _, _ => .error (.fault ⟨start + 1, .expectedValue⟩)

/-- A variant from a value, where `isUnit` says what it may carry. -/
def variantOfValue (variants : List (String × α)) (isUnit : Value → Bool) :
    Value → Except Mismatch α
  | .string name => variant variants name
  | .object [(name, payload)] => do
    let a ← variant variants name
    if isUnit payload then .ok a else .error (misfit .unit payload)
  | .object _ => .error (.wrongValue .map .singleKey)
  | v => .error (misfit .stringOrMap v)

/-- Whether a held-back value is `null` or an empty object. -/
def isEmpty : Value → Bool
  | .null | .object [] => true
  | _ => false

/--
One of some named variants, written as its name or as an object with the name for its only member.
-/
def choice (variants : List (String × α)) : Format α where
  ofTree room t :=
    match t with
    | .string read _ => do
      let name ← read.mapError .fault
      (variant variants name).mapError .mismatch
    | .object start members stop => do
      let room ← enter start room
      variantOfMembers variants room start members stop
    | .absent fault => .error (.fault fault)
    | .null start _ | .scalar start _ _ | .array start _ _ =>
      .error (.fault ⟨start + 1, .expectedValue⟩)
  ofValue := variantOfValue variants Value.isNull
  ofHeld := variantOfValue variants isEmpty

end Format

end RuleGraph.Json
