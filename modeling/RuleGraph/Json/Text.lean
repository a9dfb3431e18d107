import RuleGraph.Json.Quoted
import RuleGraph.Json.Value
import RuleGraph.Numeral.Layout

/-!
# Writing JSON

`compact` writes a value without blanks, `pretty` over lines with two more blanks for each nested
bracket. Both write members in order, repeated names included.
-/

namespace RuleGraph.Json

/--
Numbers are positional from `0.00001` to below `10 ^ 16`; a whole float keeps `.0`, and negative
zero its sign.
-/
def numberLayout : Layout where
  positional e := decide (-5 ≤ e ∧ e ≤ 15)
  pointZero := true
  signedZero := true
  tie := .toEven

def Number.text : Number → List Char
  | .integer i => integerText i.val
  | .float x => numberLayout.text x

namespace Value

mutual

/-- A value without blanks. -/
def compact : Value → List Char
  | .null => ['n', 'u', 'l', 'l']
  | .bool true => ['t', 'r', 'u', 'e']
  | .bool false => ['f', 'a', 'l', 's', 'e']
  | .number n => n.text
  | .string s => quote s
  | .array [] => ['[', ']']
  | .array (v :: items) => '[' :: (compact v ++ compactItems items)
  | .object [] => ['\x7b', '\x7d']
  | .object ((name, v) :: members) =>
    '\x7b' :: (quote name ++ ':' :: (compact v ++ compactMembers members))

/-- The items behind the first one, and the closing bracket. -/
def compactItems : List Value → List Char
  | [] => [']']
  | v :: items => ',' :: (compact v ++ compactItems items)

/-- The members behind the first one, and the closing bracket. -/
def compactMembers : List (String × Value) → List Char
  | [] => ['\x7d']
  | (name, v) :: members => ',' :: (quote name ++ ':' :: (compact v ++ compactMembers members))

end

/-- A line break and the blanks of a nesting level. -/
def lineBreak (level : Nat) : List Char := '\n' :: List.replicate (2 * level) ' '

mutual

/-- A value over lines, at a nesting level. -/
def pretty (level : Nat) : Value → List Char
  | .null => ['n', 'u', 'l', 'l']
  | .bool true => ['t', 'r', 'u', 'e']
  | .bool false => ['f', 'a', 'l', 's', 'e']
  | .number n => n.text
  | .string s => quote s
  | .array [] => ['[', ']']
  | .array (v :: items) =>
    '[' :: (lineBreak (level + 1) ++ (pretty (level + 1) v ++ prettyItems level items))
  | .object [] => ['\x7b', '\x7d']
  | .object ((name, v) :: members) =>
    '\x7b' :: (lineBreak (level + 1) ++ (quote name ++
      ':' :: ' ' :: (pretty (level + 1) v ++ prettyMembers level members)))

/-- The items behind the first one, and the closing bracket. -/
def prettyItems (level : Nat) : List Value → List Char
  | [] => lineBreak level ++ [']']
  | v :: items =>
    ',' :: (lineBreak (level + 1) ++ (pretty (level + 1) v ++ prettyItems level items))

/-- The members behind the first one, and the closing bracket. -/
def prettyMembers (level : Nat) : List (String × Value) → List Char
  | [] => lineBreak level ++ ['\x7d']
  | (name, v) :: members =>
    ',' :: (lineBreak (level + 1) ++ (quote name ++
      ':' :: ' ' :: (pretty (level + 1) v ++ prettyMembers level members)))

end

/-- The text of a value without blanks. -/
def compactText (v : Value) : String := String.ofList v.compact

/-- The text of a value over lines. -/
def prettyText (v : Value) : String := String.ofList (v.pretty 0)

end Value

end RuleGraph.Json
