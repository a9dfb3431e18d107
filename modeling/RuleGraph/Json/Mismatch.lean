import RuleGraph.Json.Text
import RuleGraph.Text.Visible

/-!
# JSON of the wrong shape

A mismatch says how a value differs from what a type can be read from; `Mismatch.message` is its
wording.
-/

namespace RuleGraph.Json

/-- What a message calls the value that was met. -/
inductive Found where
  | null
  | bool (b : Bool)
  | integer (i : Int)
  | float (x : Binary64)
  | string (s : String)
  | sequence
  | map
deriving DecidableEq, Repr

/-- What a message calls a value. -/
def Found.ofValue : Value → Found
  | .null => .null
  | .bool b => .bool b
  | .number (.integer i) => .integer i.val
  | .number (.float x) => .float x
  | .string s => .string s
  | .array _ => .sequence
  | .object _ => .map

def Found.message : Found → String
  | .null => "null"
  | .bool b => "boolean `" ++ (if b then "true" else "false") ++ "`"
  | .integer i => "integer `" ++ String.ofList (integerText i) ++ "`"
  | .float x => "floating point `" ++ String.ofList (numberLayout.text x) ++ "`"
  | .string s => "string " ++ Text.visible s
  | .sequence => "sequence"
  | .map => "map"

/-- What could have been read. -/
inductive Expected where
  | boolean
  | string
  | natural (bits : Nat)
  | unit
  | sequence
  | map
  | stringOrMap
  | singleKey
  | record (name : String)
deriving DecidableEq, Repr

def Expected.message : Expected → String
  | .boolean => "a boolean"
  | .string => "a string"
  | .natural bits => "u" ++ toString bits
  | .unit => "unit"
  | .sequence => "a sequence"
  | .map => "a map"
  | .stringOrMap => "string or map"
  | .singleKey => "map with a single key"
  | .record name => "struct " ++ name

/-- How a value differs from what a type can be read from. -/
inductive Mismatch where
  | missing (member : String)
  | repeated (member : String)
  | wrongType (found : Found) (expected : Expected)
  | wrongValue (found : Found) (expected : Expected)
  | unknownVariant (name : String) (variants : List String)
  /-- A record by position that ends before a member it cannot do without. -/
  | tooShort (length : Nat) (record : String) (members : Nat)
  /-- A record by position with more items than members. -/
  | tooLong (length : Nat)
  /-- A value that fits none of the forms of a type. -/
  | noForm (type : String)
deriving DecidableEq, Repr

def backquoted (name : String) : String := "`" ++ name ++ "`"

/-- The wording of the variants that could have been named. -/
def oneOf : List String → String
  | [] => "there are no variants"
  | [a] => "expected " ++ backquoted a
  | [a, b] => "expected " ++ backquoted a ++ " or " ++ backquoted b
  | names => "expected one of " ++ ", ".intercalate (names.map backquoted)

/-- The wording of a mismatch. -/
def Mismatch.message : Mismatch → String
  | .missing member => "missing field " ++ backquoted member
  | .repeated member => "duplicate field " ++ backquoted member
  | .wrongType found expected =>
    "invalid type: " ++ found.message ++ ", expected " ++ expected.message
  | .wrongValue found expected =>
    "invalid value: " ++ found.message ++ ", expected " ++ expected.message
  | .unknownVariant name variants => "unknown variant " ++ backquoted name ++ ", " ++ oneOf variants
  | .tooShort length record members =>
    "invalid length " ++ toString length ++ ", expected struct " ++ record ++ " with " ++
      toString members ++ (if members = 1 then " element" else " elements")
  | .tooLong length =>
    "invalid length " ++ toString length ++ ", expected fewer elements in array"
  | .noForm type => "data did not match any variant of untagged enum " ++ type

/-- Why a typed value could not be read. -/
inductive Error where
  | fault (f : Fault)
  | mismatch (m : Mismatch)
deriving DecidableEq, Repr

/-- The wording of an error, without its place in a text. -/
def Error.message : Error → String
  | .fault f => f.message
  | .mismatch m => m.message

end RuleGraph.Json
