import RuleGraph.Json.Fault

/-!
# Quoted strings

`quote` writes a string, `readString` reads one from behind its opening quote, and `skipString`
passes over one. Skipping checks the spelling of escapes only; reading also needs the halves of a
surrogate pair to stand side by side.
-/

namespace RuleGraph.Json

/-! ## Writing -/

/-- A hexadecimal digit, in lower case. -/
def hexDigit (n : Nat) : Char := Nat.digitChar (n % 16)

/-- A character of a quoted string, escaped where it has to be. -/
def escaped (c : Char) : List Char :=
  if c = '"' then ['\\', '"']
  else if c = '\\' then ['\\', '\\']
  else if c = '\x08' then ['\\', 'b']
  else if c = '\t' then ['\\', 't']
  else if c = '\n' then ['\\', 'n']
  else if c = '\x0c' then ['\\', 'f']
  else if c = '\r' then ['\\', 'r']
  else if c < ' ' then ['\\', 'u', '0', '0', hexDigit (c.toNat / 16), hexDigit c.toNat]
  else [c]

/-- The characters of a quoted string. -/
def escapedText (cs : List Char) : List Char := cs.flatMap escaped

/-- A string between quotes. -/
def quote (s : String) : List Char := '"' :: (escapedText s.toList ++ ['"'])

/-! ## Escapes -/

/-- The value of a hexadecimal digit in either case. -/
def hexValue? (c : Char) : Option Nat :=
  if c.isDigit then some (c.toNat - '0'.toNat)
  else if 'a' ≤ c ∧ c ≤ 'f' then some (c.toNat - 'a'.toNat + 10)
  else if 'A' ≤ c ∧ c ≤ 'F' then some (c.toNat - 'A'.toNat + 10)
  else none

/-- How many bytes characters take. -/
def byteLength (cs : List Char) : Nat := cs.foldr (fun c n => c.utf8Size + n) 0

/-- The 16-bit unit that four hexadecimal digits at the start of a text spell. -/
def hexUnit? (a b c d : Char) : Option Nat := do
  let a ← hexValue? a
  let b ← hexValue? b
  let c ← hexValue? c
  let d ← hexValue? d
  return ((a * 16 + b) * 16 + c) * 16 + d

/-- The fault of an escape that lacks its four digits: the text ends within four bytes, or not. -/
def hexFault (offset : Nat) (cs : List Char) : Fault :=
  if byteLength (cs.take 4) < 4 then ⟨offset + byteLength cs, .endInString⟩
  else ⟨offset + 4, .invalidEscape⟩

/-- The unit spelled by the digits of an escape, and the rest. -/
def readUnit (offset : Nat) (cs : List Char) : Except Fault (Nat × List Char) :=
  match cs with
  | a :: b :: c :: d :: rest =>
    match hexUnit? a b c d with
    | some n => .ok (n, rest)
    | none => .error (hexFault offset cs)
  | _ => .error (hexFault offset cs)

/-- The character that a letter after a backslash stands for. -/
def shortEscape? (c : Char) : Option Char :=
  if c = '"' ∨ c = '\\' ∨ c = '/' then some c
  else if c = 'b' then some '\x08'
  else if c = 'f' then some '\x0c'
  else if c = 'n' then some '\n'
  else if c = 'r' then some '\r'
  else if c = 't' then some '\t'
  else none

/-- Whether a unit is the first half of a surrogate pair. -/
def isLeading (n : Nat) : Bool := 0xD800 ≤ n && n ≤ 0xDBFF

/-- Whether a unit is the second half of a surrogate pair. -/
def isTrailing (n : Nat) : Bool := 0xDC00 ≤ n && n ≤ 0xDFFF

/-- The character of a surrogate pair. -/
def pairChar (leading trailing : Nat) : Char :=
  Char.ofNat ((leading - 0xD800) * 0x400 + (trailing - 0xDC00) + 0x10000)

/-- A character that was read, how many bytes it took, and the rest. -/
structure Escape where
  char : Char
  width : Nat
  rest : List Char

/-- The character whose first half has been read; the offset is that behind the first half. -/
def readTrailing (leading offset : Nat) : List Char → Except Fault Escape
  | [] => .error ⟨offset, .endInString⟩
  | '\\' :: [] => .error ⟨offset + 1, .endInString⟩
  | '\\' :: 'u' :: cs =>
    match readUnit (offset + 2) cs with
    | .error f => .error f
    | .ok (n, rest) =>
      if isTrailing n then .ok ⟨pairChar leading n, 6, rest⟩
      else .error ⟨offset + 6, .misplacedSurrogate⟩
  | '\\' :: _ :: _ => .error ⟨offset + 2, .unpairedSurrogate⟩
  | _ :: _ => .error ⟨offset + 1, .unpairedSurrogate⟩

/-- The character of an escape, from behind its backslash. -/
def readEscape (offset : Nat) : List Char → Except Fault Escape
  | [] => .error ⟨offset, .endInString⟩
  | c :: cs =>
    if c = 'u' then
      match readUnit (offset + 1) cs with
      | .error f => .error f
      | .ok (n, rest) =>
        if isTrailing n then .error ⟨offset + 5, .misplacedSurrogate⟩
        else if isLeading n then
          match readTrailing n (offset + 5) rest with
          | .error f => .error f
          | .ok e => .ok { e with width := 5 + e.width }
        else .ok ⟨Char.ofNat n, 5, rest⟩
    else
      match shortEscape? c with
      | some e => .ok ⟨e, 1, cs⟩
      | none => .error ⟨offset + 1, .invalidEscape⟩

/-- How many bytes an escape takes that is only passed over, and the rest. -/
def skipEscape (offset : Nat) : List Char → Except Fault (Nat × List Char)
  | [] => .error ⟨offset, .endInString⟩
  | c :: cs =>
    if c = 'u' then
      match readUnit (offset + 1) cs with
      | .error f => .error f
      | .ok (_, rest) => .ok (5, rest)
    else if (shortEscape? c).isSome then .ok (1, cs)
    else .error ⟨offset + 1, .invalidEscape⟩

/-! ## Every escape takes characters -/

theorem readUnit_length {offset n : Nat} {cs rest : List Char}
    (h : readUnit offset cs = .ok (n, rest)) : rest.length < cs.length := by
  unfold readUnit at h
  split at h
  · split at h
    · simp only [Except.ok.injEq, Prod.mk.injEq] at h
      obtain ⟨rfl, rfl⟩ := h
      simp only [List.length_cons]
      omega
    · simp at h
  · simp at h

theorem readTrailing_length {leading offset : Nat} {cs : List Char} {e : Escape}
    (h : readTrailing leading offset cs = .ok e) : e.rest.length < cs.length := by
  unfold readTrailing at h
  split at h
  · simp at h
  · simp at h
  · split at h
    · simp at h
    · rename_i hu
      have hl := readUnit_length hu
      split at h
      · simp only [Except.ok.injEq] at h
        subst h
        simp only [List.length_cons]
        omega
      · simp at h
  · simp at h
  · simp at h

theorem readEscape_length {offset : Nat} {cs : List Char} {e : Escape}
    (h : readEscape offset cs = .ok e) : e.rest.length < cs.length := by
  unfold readEscape at h
  split at h
  · simp at h
  · split at h
    · split at h
      · simp at h
      · rename_i hu
        have hl := readUnit_length hu
        split at h
        · simp at h
        · split at h
          · split at h
            · simp at h
            · rename_i ht
              have := readTrailing_length ht
              simp only [Except.ok.injEq] at h
              subst h
              simp only [List.length_cons]
              omega
          · simp only [Except.ok.injEq] at h
            subst h
            simp only [List.length_cons]
            omega
    · split at h
      · simp only [Except.ok.injEq] at h
        subst h
        simp
      · simp at h

theorem skipEscape_length {offset width : Nat} {cs rest : List Char}
    (h : skipEscape offset cs = .ok (width, rest)) : rest.length < cs.length := by
  unfold skipEscape at h
  split at h
  · simp at h
  · split at h
    · split at h
      · simp at h
      · rename_i hu
        have hl := readUnit_length hu
        simp only [Except.ok.injEq, Prod.mk.injEq] at h
        obtain ⟨rfl, rfl⟩ := h
        simp only [List.length_cons]
        omega
    · split at h
      · simp only [Except.ok.injEq, Prod.mk.injEq] at h
        obtain ⟨rfl, rfl⟩ := h
        simp
      · simp at h

/-! ## Reading and skipping -/

/-- The characters of a string, from behind its opening quote. -/
def readString (offset : Nat) : List Char → Except Fault (List Char)
  | [] => .error ⟨offset, .endInString⟩
  | c :: cs =>
    if c = '"' then .ok []
    else if c = '\\' then
      match h : readEscape (offset + 1) cs with
      | .error f => .error f
      | .ok e =>
        have := readEscape_length h
        (readString (offset + 1 + e.width) e.rest).map (e.char :: ·)
    else if c < ' ' then .error ⟨offset + 1, .controlCharacter⟩
    else (readString (offset + c.utf8Size) cs).map (c :: ·)
termination_by cs => cs.length

/-- The offset behind a string that is only passed over, and the rest. -/
def skipString (offset : Nat) : List Char → Except Fault (Nat × List Char)
  | [] => .error ⟨offset, .endInString⟩
  | c :: cs =>
    if c = '"' then .ok (offset + 1, cs)
    else if c = '\\' then
      match h : skipEscape (offset + 1) cs with
      | .error f => .error f
      | .ok (width, rest) =>
        have := skipEscape_length h
        skipString (offset + 1 + width) rest
    else if c < ' ' then .error ⟨offset + 1, .controlCharacter⟩
    else skipString (offset + c.utf8Size) cs
termination_by cs => cs.length

theorem skipString_length {offset after : Nat} {cs rest : List Char}
    (h : skipString offset cs = .ok (after, rest)) : rest.length < cs.length := by
  fun_induction skipString offset cs with
  | case1 => simp at h
  | case2 =>
    simp only [Except.ok.injEq, Prod.mk.injEq] at h
    obtain ⟨rfl, rfl⟩ := h
    simp
  | case3 => simp at h
  | case4 =>
    rename_i hl ih
    have := ih h
    simp only [List.length_cons]
    omega
  | case5 => simp at h
  | case6 offset c cs _ _ _ ih =>
    have := ih h
    simp only [List.length_cons]
    omega

end RuleGraph.Json
