/-!
# Faults of a JSON text

A fault is the byte offset at which reading gave up and the cause. `Fault.position` is the line and
the column of that offset.
-/

namespace RuleGraph.Json

/-- Why a text is not JSON. -/
inductive Cause where
  | endInValue
  | endInString
  | endInArray
  | endInObject
  | expectedValue
  | expectedWord
  | expectedColon
  | expectedItemEnd
  | expectedMemberEnd
  | trailingComma
  | nameNotString
  | invalidNumber
  | numberOutOfRange
  | invalidEscape
  | unpairedSurrogate
  | misplacedSurrogate
  | controlCharacter
  | trailingCharacters
  | tooDeep
deriving DecidableEq, Repr

namespace Cause

/-- Whether the text ended too early. -/
def isEnd : Cause → Bool
  | endInValue | endInString | endInArray | endInObject => true
  | _ => false

/-- The wording of a cause. -/
def message : Cause → String
  | endInValue => "EOF while parsing a value"
  | endInString => "EOF while parsing a string"
  | endInArray => "EOF while parsing a list"
  | endInObject => "EOF while parsing an object"
  | expectedValue => "expected value"
  | expectedWord => "expected ident"
  | expectedColon => "expected `:`"
  | expectedItemEnd => "expected `,` or `]`"
  | expectedMemberEnd => "expected `,` or `\x7d`"
  | trailingComma => "trailing comma"
  | nameNotString => "key must be a string"
  | invalidNumber => "invalid number"
  | numberOutOfRange => "number out of range"
  | invalidEscape => "invalid escape"
  | unpairedSurrogate => "unexpected end of hex escape"
  | misplacedSurrogate => "lone leading surrogate in hex escape"
  | controlCharacter => "control character (\\u0000-\\u001F) found while parsing a string"
  | trailingCharacters => "trailing characters"
  | tooDeep => "recursion limit exceeded"

end Cause

/-- A cause and the number of bytes before the place where it was noticed. -/
structure Fault where
  offset : Nat
  cause : Cause
deriving DecidableEq, Repr

namespace Fault

/-- The wording of a fault, without its place. -/
def message (f : Fault) : String := f.cause.message

/-- The line, from one, and the bytes since its start, of a fault in a text. -/
def position (text : String) (f : Fault) : Nat × Nat :=
  let before := text.toUTF8.toList.take f.offset
  (1 + before.count 10, (before.reverse.takeWhile (· ≠ 10)).length)

end Fault

end RuleGraph.Json
