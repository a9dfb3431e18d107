import RuleGraph.Json.Lexeme

/-!
# A JSON text as far as it could be read

`Tree.ofText` arranges the lexemes of a text by their brackets. Faults stay in the tree at the
place where they were met, because the same text can be read, skipped or taken as a record by
position, and each of these meets other faults first. Nothing stands behind a fault that all of
them meet.

`Tree.read` reads a value, `Tree.skip` only checks the grammar. Reading allows `maxDepth` nested
arrays and objects; skipping allows any number.
-/

namespace RuleGraph.Json

/-- What follows the last item or member that was begun. -/
inductive Stop where
  /-- The closing bracket. -/
  | closed
  /-- Nothing, for reading ended inside the last item or member. -/
  | cut
  /-- The end of the text. -/
  | ended (offset : Nat)
  /-- Neither a comma nor the closing bracket. -/
  | unexpected (offset : Nat)
  /-- A comma and then the closing bracket. -/
  | comma (offset : Nat)
  /-- A comma and then the end of the text. -/
  | commaEnded (offset : Nat)
  /-- In an object, something else than a name. -/
  | notName (offset : Nat)

/-- A member name as it is read, and the fault met when it is only skipped. -/
structure Name where
  read : Except Fault String
  skip : Option Fault

/-- A text as far as it could be read. -/
inductive Tree where
  | null (start : Nat) (fault : Option Fault)
  | scalar (start : Nat) (read : Except Fault Value) (skip : Option Fault)
  | string (read : Except Fault String) (skip : Option Fault)
  | array (start : Nat) (items : List Tree) (stop : Stop)
  | object (start : Nat) (members : List (Name × Tree)) (stop : Stop)
  /-- Nothing that begins a value. -/
  | absent (fault : Fault)

instance : Inhabited Tree := ⟨.absent ⟨0, .endInValue⟩⟩

/-! ## From lexemes to a tree -/

namespace Tree

mutual

/-- The tree at the start of the lexemes, and the lexemes behind it. -/
def ofLexemes : Nat → List Lexeme → Tree × List Lexeme
  | 0, _ => (default, [])
  | _, [] => (default, [])
  | fuel + 1, ⟨token, start⟩ :: rest =>
    match token with
    | .null fault => (.null start fault, rest)
    | .scalar read skip => (.scalar start read skip, rest)
    | .string read skip => (.string read skip, rest)
    | .openArray =>
      let (items, stop, rest) := itemsOf fuel true rest
      (.array start items stop, rest)
    | .openObject =>
      let (members, stop, rest) := membersOf fuel true rest
      (.object start members stop, rest)
    | .finish => (.absent ⟨start, .endInValue⟩, [])
    | .closeArray | .closeObject | .comma | .colon | .stray =>
      (.absent ⟨start + 1, .expectedValue⟩, [])

/-- The items of an array up to its end, what ended it, and the lexemes behind it. -/
def itemsOf : Nat → Bool → List Lexeme → List Tree × Stop × List Lexeme
  | 0, _, _ => ([], .cut, [])
  | _, _, [] => ([], .cut, [])
  | fuel + 1, first, ⟨token, start⟩ :: rest =>
    match token, first with
    | .closeArray, _ => ([], .closed, rest)
    | .finish, _ => ([], .ended start, [])
    | _, true => itemThen fuel (⟨token, start⟩ :: rest)
    | .comma, false =>
      match rest with
      | ⟨.closeArray, at'⟩ :: _ => ([], .comma (at' + 1), [])
      | ⟨.finish, at'⟩ :: _ => ([], .commaEnded at', [])
      | _ => itemThen fuel rest
    | _, false => ([], .unexpected (start + 1), [])

/-- An item and the items behind it. -/
def itemThen : Nat → List Lexeme → List Tree × Stop × List Lexeme
  | 0, _ => ([], .cut, [])
  | fuel + 1, lexemes =>
    let (item, rest) := ofLexemes fuel lexemes
    let (items, stop, rest) := itemsOf fuel false rest
    (item :: items, stop, rest)

/-- The members of an object up to its end, what ended it, and the lexemes behind it. -/
def membersOf : Nat → Bool → List Lexeme → List (Name × Tree) × Stop × List Lexeme
  | 0, _, _ => ([], .cut, [])
  | _, _, [] => ([], .cut, [])
  | fuel + 1, first, ⟨token, start⟩ :: rest =>
    match token, first with
    | .closeObject, _ => ([], .closed, rest)
    | .finish, _ => ([], .ended start, [])
    | .string read skip, true => memberThen fuel ⟨read, skip⟩ rest
    | _, true => ([], .notName (start + 1), [])
    | .comma, false =>
      match rest with
      | ⟨.string read skip, _⟩ :: rest => memberThen fuel ⟨read, skip⟩ rest
      | ⟨.closeObject, at'⟩ :: _ => ([], .comma (at' + 1), [])
      | ⟨.finish, at'⟩ :: _ => ([], .commaEnded at', [])
      | ⟨_, at'⟩ :: _ => ([], .notName (at' + 1), [])
      | [] => ([], .cut, [])
    | _, false => ([], .unexpected (start + 1), [])

/-- The member with the given name and the members behind it. -/
def memberThen : Nat → Name → List Lexeme → List (Name × Tree) × Stop × List Lexeme
  | 0, _, _ => ([], .cut, [])
  | fuel + 1, name, lexemes =>
    match lexemes with
    | ⟨.colon, _⟩ :: rest =>
      let (value, rest) := ofLexemes fuel rest
      let (members, stop, rest) := membersOf fuel false rest
      ((name, value) :: members, stop, rest)
    | ⟨.finish, at'⟩ :: _ => ([(name, .absent ⟨at', .endInObject⟩)], .cut, [])
    | ⟨_, at'⟩ :: _ => ([(name, .absent ⟨at' + 1, .expectedColon⟩)], .cut, [])
    | [] => ([(name, default)], .cut, [])

end

end Tree

/-- The tree of a text, and where something follows it. -/
structure Parsed where
  root : Tree
  trailing : Option Nat

/-- The tree of a text. Every call takes a lexeme or is the second one at its place. -/
def Parsed.ofText (text : String) : Parsed :=
  let ls := lexemes 0 text.toList
  let (root, rest) := Tree.ofLexemes (3 * ls.length + 3) ls
  ⟨root,
    match rest with
    | [] | ⟨.finish, _⟩ :: _ => none
    | ⟨_, start⟩ :: _ => some (start + 1)⟩

/-- What was read from the root stands if nothing follows it. -/
def Parsed.finish {ε α : Type} (p : Parsed) (fault : Fault → ε) (result : Except ε α) :
    Except ε α :=
  match result, p.trailing with
  | .ok _, some offset => .error (fault ⟨offset, .trailingCharacters⟩)
  | result, _ => result

/-! ## What a stop means -/

namespace Stop

/-- The fault met by reading on in an array. -/
def inArray : Stop → Option Fault
  | closed | cut => none
  | ended offset => some ⟨offset, .endInArray⟩
  | unexpected offset => some ⟨offset, .expectedItemEnd⟩
  | comma offset => some ⟨offset, .trailingComma⟩
  | commaEnded offset => some ⟨offset, .endInValue⟩
  | notName offset => some ⟨offset, .nameNotString⟩

/-- The fault met by reading on in an object. -/
def inObject : Stop → Option Fault
  | closed | cut => none
  | ended offset => some ⟨offset, .endInObject⟩
  | unexpected offset => some ⟨offset, .expectedMemberEnd⟩
  | comma offset => some ⟨offset, .trailingComma⟩
  | commaEnded offset => some ⟨offset, .endInValue⟩
  | notName offset => some ⟨offset, .nameNotString⟩

/-- The fault met by skipping on in an array. -/
def skippingArray : Stop → Option Fault
  | comma offset => some ⟨offset, .expectedValue⟩
  | stop => stop.inArray

/-- The fault met by skipping on in an object. -/
def skippingObject : Stop → Option Fault
  | comma offset => some ⟨offset, .nameNotString⟩
  | commaEnded offset => some ⟨offset, .endInObject⟩
  | stop => stop.inObject

/-- The fault met behind the last item that a record by position takes. -/
def afterLast : Stop → Option Fault
  | closed | cut => none
  | ended offset => some ⟨offset, .endInArray⟩
  | comma offset => some ⟨offset, .trailingComma⟩
  | unexpected offset | commaEnded offset | notName offset => some ⟨offset, .trailingCharacters⟩

end Stop

/-- A result stands unless a fault was met behind it. -/
def unlessFault {α : Type} (a : α) : Option Fault → Except Fault α
  | none => .ok a
  | some f => .error f

/-! ## Reading and skipping -/

namespace Tree

/-- How many arrays and objects may be nested. -/
def maxDepth : Nat := 127

mutual

/-- The value of a tree, member names repeated as they are, with room for nested brackets. -/
def read (room : Nat) : Tree → Except Fault Value
  | .null _ fault => unlessFault .null fault
  | .scalar _ read _ => read
  | .string read _ => read.map .string
  | .absent fault => .error fault
  | .array start items stop =>
    match room with
    | 0 => .error ⟨start + 1, .tooDeep⟩
    | room + 1 => do unlessFault (.array (← readItems room items)) stop.inArray
  | .object start members stop =>
    match room with
    | 0 => .error ⟨start + 1, .tooDeep⟩
    | room + 1 => do unlessFault (.object (← readMembers room members)) stop.inObject

def readItems (room : Nat) : List Tree → Except Fault (List Value)
  | [] => .ok []
  | t :: ts => do
    let v ← read room t
    return v :: (← readItems room ts)

/-- The names and values of members. -/
def readMembers (room : Nat) : List (Name × Tree) → Except Fault (List (String × Value))
  | [] => .ok []
  | (name, t) :: ts => do
    let n ← name.read
    let v ← read room t
    return (n, v) :: (← readMembers room ts)

end

mutual

/-- The fault met when a tree is passed over. -/
def skip : Tree → Option Fault
  | .null _ fault => fault
  | .scalar _ _ fault => fault
  | .string _ fault => fault
  | .absent fault => some fault
  | .array _ items stop => (skipItems items).or stop.skippingArray
  | .object _ members stop => (skipMembers members).or stop.skippingObject

/-- The first fault met when items are passed over. -/
def skipItems : List Tree → Option Fault
  | [] => none
  | t :: ts => (skip t).or (skipItems ts)

/-- The first fault met when members are passed over. -/
def skipMembers : List (Name × Tree) → Option Fault
  | [] => none
  | (name, t) :: ts => (name.skip.or (skip t)).or (skipMembers ts)

end

end Tree

/-- The value of a text; repeated members are merged. -/
def Value.ofText (text : String) : Except Fault Value :=
  let p := Parsed.ofText text
  p.finish id ((p.root.read Tree.maxDepth).map Value.merged)

end RuleGraph.Json
