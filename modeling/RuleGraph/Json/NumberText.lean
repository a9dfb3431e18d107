import RuleGraph.Json.Fault
import RuleGraph.Json.Value

/-!
# Number literals

`NumberText.scan` splits a literal off a text by the grammar alone. `NumberText.number?` evaluates
it: without fraction and exponent it is an integer where 64 bits hold it; otherwise the leading
digits that 64 bits hold are kept, the others only count as powers of ten, and the product is
rounded as `Binary64.scaled?` says.
-/

namespace RuleGraph.Json

/-- A number literal in its parts. -/
structure NumberText where
  negative : Bool
  whole : List Char
  /-- The digits after the point; none without a point. -/
  fraction : List Char
  /-- The sign and the digits of the power of ten, if one is written. -/
  exponent : Option (Bool × List Char)
deriving DecidableEq, Repr

namespace NumberText

/-! ## Scanning -/

/-- The number that decimal digits spell. -/
def natOf (digits : List Char) : Nat := Nat.ofDigitChars 10 digits 0

/-- Where a literal stops being one: how far into the text, and whether the text ends there. -/
structure Break where
  after : Nat
  atEnd : Bool
deriving DecidableEq, Repr

/-- A break before the first of `cs`, with `seen` characters before it. -/
def breakBefore (seen : Nat) (cs : List Char) : Break :=
  ⟨if cs.isEmpty then seen else seen + 1, cs.isEmpty⟩

/-- The digits at the start of a text; at least one is needed. -/
def digits (seen : Nat) (cs : List Char) : Except Break (List Char × List Char) :=
  if (cs.takeWhile Char.isDigit).isEmpty then .error (breakBefore seen cs)
  else .ok (cs.takeWhile Char.isDigit, cs.dropWhile Char.isDigit)

/-- The whole part: a zero alone, or digits without a leading zero. -/
def scanWhole (seen : Nat) : List Char → Except Break (List Char × List Char)
  | '0' :: cs =>
    match cs with
    | [] => .ok (['0'], [])
    | c :: rest =>
      if c.isDigit then .error (breakBefore (seen + 1) (c :: rest)) else .ok (['0'], cs)
  | cs => digits seen cs

/-- The fraction, if a point follows. -/
def scanFraction (seen : Nat) : List Char → Except Break (List Char × List Char)
  | '.' :: cs => digits (seen + 1) cs
  | cs => .ok ([], cs)

/-- The sign of an exponent, as the count of its characters, whether it is a minus, and the rest. -/
def scanSign : List Char → Nat × Bool × List Char
  | '+' :: cs => (1, false, cs)
  | '-' :: cs => (1, true, cs)
  | cs => (0, false, cs)

/-- The exponent, if its mark follows, with the count of its characters. -/
def scanExponent (seen : Nat) : List Char →
    Except Break (Option (Bool × List Char) × Nat × List Char)
  | [] => .ok (none, 0, [])
  | c :: cs =>
    if c = 'e' ∨ c = 'E' then
      match digits (seen + 1 + (scanSign cs).1) (scanSign cs).2.2 with
      | .error b => .error b
      | .ok (ds, rest) =>
        .ok (some ((scanSign cs).2.1, ds), 1 + (scanSign cs).1 + ds.length, rest)
    else .ok (none, 0, c :: cs)

/-- Whether a text starts with a minus sign, and what is left of it behind that. -/
def scanMinus : List Char → Bool × List Char
  | '-' :: cs => (true, cs)
  | cs => (false, cs)

/-- How many characters a fraction takes with its point. -/
def fractionWidth (fraction : List Char) : Nat :=
  if fraction.isEmpty then 0 else fraction.length + 1

/-- A literal, how many characters it takes, and the rest of the text. -/
structure Scanned where
  text : NumberText
  width : Nat
  rest : List Char

/-- The literal at the start of a text. -/
def scan (cs : List Char) : Except Break Scanned :=
  let (negative, afterSign) := scanMinus cs
  let seen := if negative then 1 else 0
  match scanWhole seen afterSign with
  | .error b => .error b
  | .ok (whole, afterWhole) =>
    let seen := seen + whole.length
    match scanFraction seen afterWhole with
    | .error b => .error b
    | .ok (fraction, afterFraction) =>
      let seen := seen + fractionWidth fraction
      match scanExponent seen afterFraction with
      | .error b => .error b
      | .ok (exponent, width, rest) =>
        .ok ⟨⟨negative, whole, fraction, exponent⟩, seen + width, rest⟩

/-! ## Every literal takes characters -/

theorem digits_length {seen : Nat} {cs ds rest : List Char}
    (h : digits seen cs = .ok (ds, rest)) : rest.length < cs.length := by
  unfold digits at h
  split at h
  · simp at h
  · rename_i hne
    simp only [Except.ok.injEq, Prod.mk.injEq] at h
    obtain ⟨rfl, rfl⟩ := h
    have hsum := congrArg List.length
      (List.takeWhile_append_dropWhile (p := Char.isDigit) (l := cs))
    have hpos : 0 < (cs.takeWhile Char.isDigit).length := by
      simpa [List.length_pos_iff] using hne
    simp only [List.length_append] at hsum
    omega

theorem scanWhole_length {seen : Nat} {cs ds rest : List Char}
    (h : scanWhole seen cs = .ok (ds, rest)) : rest.length < cs.length := by
  unfold scanWhole at h
  split at h
  · split at h
    · simp only [Except.ok.injEq, Prod.mk.injEq] at h
      obtain ⟨rfl, rfl⟩ := h
      simp
    · split at h
      · simp at h
      · simp only [Except.ok.injEq, Prod.mk.injEq] at h
        obtain ⟨rfl, rfl⟩ := h
        simp
  · exact digits_length h

theorem scanFraction_length {seen : Nat} {cs ds rest : List Char}
    (h : scanFraction seen cs = .ok (ds, rest)) : rest.length ≤ cs.length := by
  unfold scanFraction at h
  split at h
  · have := digits_length h
    simp only [List.length_cons]
    omega
  · simp only [Except.ok.injEq, Prod.mk.injEq] at h
    obtain ⟨rfl, rfl⟩ := h
    exact Nat.le_refl _

theorem scanSign_length (cs : List Char) : (scanSign cs).2.2.length ≤ cs.length := by
  unfold scanSign
  split <;> simp

theorem scanExponent_length {seen width : Nat} {cs rest : List Char}
    {e : Option (Bool × List Char)} (h : scanExponent seen cs = .ok (e, width, rest)) :
    rest.length ≤ cs.length := by
  unfold scanExponent at h
  split at h
  · simp only [Except.ok.injEq, Prod.mk.injEq] at h
    obtain ⟨rfl, rfl, rfl⟩ := h
    exact Nat.le_refl _
  · rename_i c tail
    split at h
    · have hs := scanSign_length tail
      split at h
      · simp at h
      · rename_i hd
        have := digits_length hd
        simp only [Except.ok.injEq, Prod.mk.injEq] at h
        obtain ⟨rfl, rfl, rfl⟩ := h
        simp only [List.length_cons]
        omega
    · simp only [Except.ok.injEq, Prod.mk.injEq] at h
      obtain ⟨rfl, rfl, rfl⟩ := h
      exact Nat.le_refl _

theorem scanMinus_length (cs : List Char) : (scanMinus cs).2.length ≤ cs.length := by
  unfold scanMinus
  split <;> simp

theorem scan_length {cs : List Char} {s : Scanned} (h : scan cs = .ok s) :
    s.rest.length < cs.length := by
  have h0 := scanMinus_length cs
  simp only [scan] at h
  split at h
  · simp at h
  · rename_i h1
    split at h
    · simp at h
    · rename_i h2
      split at h
      · simp at h
      · rename_i h3
        simp only [Except.ok.injEq] at h
        subst h
        have := scanWhole_length h1
        have := scanFraction_length h2
        have := scanExponent_length h3
        simp only
        omega

/-! ## Evaluation -/

/-- Append digits while 64 bits hold the number; the number and the digits that are left. -/
def keep (significand : Nat) : List Char → Nat × List Char
  | [] => (significand, [])
  | c :: cs =>
    let next := 10 * significand + (c.toNat - '0'.toNat)
    if next < 0x10000000000000000 then keep next cs else (significand, c :: cs)

/-- The power of ten that is written. -/
def power (t : NumberText) : Int :=
  match t.exponent with
  | none => 0
  | some (negative, ds) => if negative then -(natOf ds : Int) else natOf ds

/-- The magnitude of a literal read as binary64; `none` if it is not finite. -/
def units? (t : NumberText) : Option Nat :=
  let (leading, dropped) := keep 0 t.whole
  let (significand, unused) := keep leading t.fraction
  Binary64.scaled? significand
    (dropped.length - (t.fraction.length - unused.length : Nat) + t.power)

/-- The number of a literal; `none` if it is out of range. -/
def number? (t : NumberText) : Option Number :=
  let n := natOf t.whole
  if t.fraction.isEmpty && t.exponent.isNone then
    if t.negative then
      if h : 0 < n ∧ n ≤ 0x8000000000000000 then some (.integer ⟨-n, by omega, by omega⟩)
      else t.units?.map fun units => .float ⟨true, units⟩
    else
      if h : n < 0x10000000000000000 then some (.integer ⟨n, by omega, by omega⟩)
      else t.units?.map fun units => .float ⟨false, units⟩
  else t.units?.map fun units => .float ⟨t.negative, units⟩

/--
How many of the exponent's digits are taken before the power of ten is known to be out of range,
which is once it exceeds 31 bits.
-/
def exponentCut (digits : List Char) : Option Nat :=
  ((List.range digits.length).map (· + 1)).find? fun k => 0x80000000 ≤ natOf (digits.take k)

/-- How many characters of a literal are left over when it is found to be out of range. -/
def leftOver (t : NumberText) : Nat :=
  match t.exponent with
  | none => 0
  | some (_, ds) => ds.length - (exponentCut ds).getD ds.length

end NumberText

/-! ## Reading and skipping -/

/-- A number is read: its value, with the fault's offset counted from `start`. -/
def readNumber (start : Nat) (cs : List Char) : Except Fault Number :=
  match NumberText.scan cs with
  | .error b =>
    .error ⟨start + b.after, if b.atEnd then .endInValue else .invalidNumber⟩
  | .ok s =>
    match s.text.number? with
    | some n => .ok n
    | none => .error ⟨start + s.width - s.text.leftOver, .numberOutOfRange⟩

/-- A number is skipped: only the grammar counts. The offset behind it and the rest come out. -/
def skipNumber (start : Nat) (cs : List Char) : Except Fault (Nat × List Char) :=
  match NumberText.scan cs with
  | .error b => .error ⟨start + b.after, .invalidNumber⟩
  | .ok s => .ok (start + s.width, s.rest)

theorem skipNumber_length {start after : Nat} {cs rest : List Char}
    (h : skipNumber start cs = .ok (after, rest)) : rest.length < cs.length := by
  unfold skipNumber at h
  split at h
  · simp at h
  · rename_i hs
    simp only [Except.ok.injEq, Prod.mk.injEq] at h
    obtain ⟨rfl, rfl⟩ := h
    exact NumberText.scan_length hs

end RuleGraph.Json
