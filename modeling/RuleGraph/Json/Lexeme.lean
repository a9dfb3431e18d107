import RuleGraph.Json.NumberText
import RuleGraph.Json.Quoted

/-!
# Lexemes of a JSON text

`lexemes` cuts a text into brackets, commas, colons, strings and other scalars, each with the byte
offset of its first character. What follows a fault that even skipping meets is never looked at,
so the list ends there; otherwise it ends with `Token.finish`.
-/

namespace RuleGraph.Json

/-- What stands at one place of a text. -/
inductive Token where
  | openArray
  | closeArray
  | openObject
  | closeObject
  | comma
  | colon
  /-- A string as it is read, and the fault met when it is only skipped. -/
  | string (read : Except Fault String) (skip : Option Fault)
  /-- The word `null`, or the fault in its spelling. -/
  | null (fault : Option Fault)
  /-- A number or another word as it is read, and the fault met when it is only skipped. -/
  | scalar (read : Except Fault Value) (skip : Option Fault)
  /-- A character that begins nothing. -/
  | stray
  /-- The end of the text. -/
  | finish

/-- A token and the byte offset where it starts. -/
structure Lexeme where
  token : Token
  start : Nat

/-- The characters that may stand between tokens. -/
def isBlank (c : Char) : Bool := c = ' ' || c = '\t' || c = '\n' || c = '\r'

/-- The tokens of one character. -/
def punctuation? (c : Char) : Option Token :=
  if c = '[' then some .openArray
  else if c = ']' then some .closeArray
  else if c = '\x7b' then some .openObject
  else if c = '\x7d' then some .closeObject
  else if c = ',' then some .comma
  else if c = ':' then some .colon
  else none

/-- The words of a JSON text. -/
inductive Word where
  | null
  | false
  | true
deriving DecidableEq, Repr

/-- The word that a letter begins. -/
def word? (c : Char) : Option Word :=
  if c = 'n' then some .null
  else if c = 't' then some .true
  else if c = 'f' then some .false
  else none

/-- The letters of a word behind its first one. -/
def Word.letters : Word → List Char
  | .null => ['u', 'l', 'l']
  | .false => ['a', 'l', 's', 'e']
  | .true => ['r', 'u', 'e']

/-- The token of a word, or of a fault in its spelling. -/
def Word.token (fault : Option Fault) : Word → Token
  | .null => .null fault
  | .false => .scalar (fault.elim (.ok (.bool Bool.false)) .error) fault
  | .true => .scalar (fault.elim (.ok (.bool Bool.true)) .error) fault

/-- What is left of a text behind the given letters. -/
def dropLetters (offset : Nat) : List Char → List Char → Except Fault (List Char)
  | [], cs => .ok cs
  | _ :: _, [] => .error ⟨offset, .endInValue⟩
  | l :: ls, c :: cs =>
    if c = l then dropLetters (offset + 1) ls cs else .error ⟨offset + 1, .expectedWord⟩

theorem dropLetters_length {offset : Nat} {letters cs rest : List Char}
    (h : dropLetters offset letters cs = .ok rest) : rest.length ≤ cs.length := by
  fun_induction dropLetters offset letters cs with
  | case1 => simp_all
  | case2 => simp at h
  | case3 _ _ _ _ ih =>
    have := ih h
    simp only [List.length_cons]
    omega
  | case4 => simp at h

/-- The lexemes of a text that starts at an offset. -/
def lexemes (offset : Nat) : List Char → List Lexeme
  | [] => [⟨.finish, offset⟩]
  | c :: cs =>
    if isBlank c then lexemes (offset + 1) cs
    else
      match punctuation? c with
      | some t => ⟨t, offset⟩ :: lexemes (offset + 1) cs
      | none =>
        if c = '"' then
          let read := (readString (offset + 1) cs).map String.ofList
          match h : skipString (offset + 1) cs with
          | .error f => [⟨.string read (some f), offset⟩]
          | .ok (after, rest) =>
            have := skipString_length h
            ⟨.string read none, offset⟩ :: lexemes after rest
        else if c = '-' || c.isDigit then
          let read := (readNumber offset (c :: cs)).map Value.number
          match h : skipNumber offset (c :: cs) with
          | .error f => [⟨.scalar read (some f), offset⟩]
          | .ok (after, rest) =>
            have := skipNumber_length h
            ⟨.scalar read none, offset⟩ :: lexemes after rest
        else
          match word? c with
          | none => [⟨.stray, offset⟩]
          | some w =>
            match h : dropLetters (offset + 1) w.letters cs with
            | .error f => [⟨w.token (some f), offset⟩]
            | .ok rest =>
              have := dropLetters_length h
              ⟨w.token none, offset⟩ :: lexemes (offset + 1 + w.letters.length) rest
termination_by cs => cs.length
decreasing_by all_goals simp_all <;> omega

end RuleGraph.Json
