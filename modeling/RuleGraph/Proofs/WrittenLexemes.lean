import RuleGraph.Json.Text
import RuleGraph.Proofs.ReadableText

/-!
# The lexemes of a written text

`Value.tokens` are the tokens of a value, one for each bracket, comma, colon and scalar. The text of
a value without floating-point numbers has exactly these lexemes, whether it is written without
blanks or over lines (`lexes_compact`, `lexes_pretty`).
-/

namespace RuleGraph.Json

/-- A text begins with lexemes of the given tokens, and `rest` is left of it behind them. -/
def Lexes (cs : List Char) (tokens : List Token) (rest : List Char) : Prop :=
  ∀ offset, ∃ ls offset', lexemes offset cs = ls ++ lexemes offset' rest ∧
    ls.map Lexeme.token = tokens

theorem Lexes.refl (cs : List Char) : Lexes cs [] cs := fun offset => ⟨[], offset, rfl, rfl⟩

theorem Lexes.trans {cs cs' rest : List Char} {tokens tokens' : List Token}
    (h : Lexes cs tokens cs') (h' : Lexes cs' tokens' rest) :
    Lexes cs (tokens ++ tokens') rest := by
  intro offset
  obtain ⟨ls, offset', hls, htokens⟩ := h offset
  obtain ⟨ls', offset'', hls', htokens'⟩ := h' offset'
  refine ⟨ls ++ ls', offset'', ?_, ?_⟩
  · rw [hls, hls', List.append_assoc]
  · rw [List.map_append, htokens, htokens']

/-! ## Blanks, brackets, commas and colons -/

theorem lexes_blank {c : Char} {cs : List Char} (h : isBlank c) : Lexes (c :: cs) [] cs := by
  intro offset
  refine ⟨[], offset + 1, ?_, rfl⟩
  rw [lexemes, if_pos h, List.nil_append]

theorem isBlank_of_punctuation? {c : Char} {t : Token} (h : punctuation? c = some t) :
    isBlank c = false := by
  unfold punctuation? at h
  repeat' split at h
  all_goals first | subst_vars; rfl | cases h

theorem lexes_punctuation {c : Char} {t : Token} {cs : List Char} (h : punctuation? c = some t) :
    Lexes (c :: cs) [t] cs := by
  intro offset
  refine ⟨[⟨t, offset⟩], offset + 1, ?_, rfl⟩
  have hblank := isBlank_of_punctuation? h
  rw [lexemes, if_neg (by simp [hblank]), h]
  rfl

theorem lexes_replicate (n : Nat) (cs : List Char) : Lexes (List.replicate n ' ' ++ cs) [] cs := by
  induction n with
  | zero => exact .refl cs
  | succ n ih =>
    rw [List.replicate_succ, List.cons_append]
    exact (lexes_blank rfl).trans ih

theorem lexes_lineBreak (level : Nat) (cs : List Char) :
    Lexes (Value.lineBreak level ++ cs) [] cs := by
  rw [Value.lineBreak, List.cons_append]
  exact (lexes_blank rfl).trans (lexes_replicate _ cs)

/-! ## Strings -/

theorem hexUnit?_hexDigit : ∀ n < 32,
    hexUnit? '0' '0' (hexDigit (n / 16)) (hexDigit n) = some n := by decide

/-- An escaped character is a short escape, one with four digits, or the character itself. -/
theorem escaped_cases (c : Char) :
    (∃ e, escaped c = ['\\', e] ∧ e ≠ 'u' ∧ shortEscape? e = some c) ∨
      (c < ' ' ∧ escaped c = ['\\', 'u', '0', '0', hexDigit (c.toNat / 16), hexDigit c.toNat]) ∨
        (escaped c = [c] ∧ c ≠ '"' ∧ c ≠ '\\' ∧ ¬ c < ' ') := by
  unfold escaped
  repeat' split
  · rename_i h; exact .inl ⟨_, rfl, by decide, by rw [h]; rfl⟩
  · rename_i h; exact .inl ⟨_, rfl, by decide, by rw [h]; rfl⟩
  · rename_i h; exact .inl ⟨_, rfl, by decide, by rw [h]; rfl⟩
  · rename_i h; exact .inl ⟨_, rfl, by decide, by rw [h]; rfl⟩
  · rename_i h; exact .inl ⟨_, rfl, by decide, by rw [h]; rfl⟩
  · rename_i h; exact .inl ⟨_, rfl, by decide, by rw [h]; rfl⟩
  · rename_i h; exact .inl ⟨_, rfl, by decide, by rw [h]; rfl⟩
  · rename_i h; exact .inr (.inl ⟨h, rfl⟩)
  · rename_i hquote hslash _ _ _ _ _ hcontrol
    exact .inr (.inr ⟨rfl, hquote, hslash, hcontrol⟩)

theorem toNat_lt_of_control {c : Char} (h : c < ' ') : c.toNat < 32 := h

theorem readUnit_control {c : Char} (h : c < ' ') (offset : Nat) (cs : List Char) :
    readUnit offset ('0' :: '0' :: hexDigit (c.toNat / 16) :: hexDigit c.toNat :: cs) =
      .ok (c.toNat, cs) := by
  rw [readUnit, hexUnit?_hexDigit _ (toNat_lt_of_control h)]

theorem readString_escape {offset : Nat} {cs : List Char} {e : Escape}
    (h : readEscape (offset + 1) cs = .ok e) :
    readString offset ('\\' :: cs) =
      (readString (offset + 1 + e.width) e.rest).map (e.char :: ·) := by
  rw [readString, if_neg (by decide), if_pos rfl]
  split
  · rename_i f hf
    rw [h] at hf
    cases hf
  · rename_i e' he'
    rw [h] at he'
    cases he'
    rfl

/-- An escaped character is read and skipped as that character. -/
theorem readString_escaped (c : Char) (offset : Nat) (cs : List Char) :
    ∃ offset', readString offset (escaped c ++ cs) = (readString offset' cs).map (c :: ·) := by
  rcases escaped_cases c with ⟨e, he, hu, hshort⟩ | ⟨hcontrol, he⟩ | ⟨he, hquote, hslash, hcontrol⟩
  · have hread : readEscape (offset + 1) (e :: cs) = .ok ⟨c, 1, cs⟩ := by
      rw [readEscape, if_neg hu, hshort]
    rw [he]
    exact ⟨_, readString_escape hread⟩
  · have hread : readEscape (offset + 1)
        ('u' :: '0' :: '0' :: hexDigit (c.toNat / 16) :: hexDigit c.toNat :: cs) =
          .ok ⟨c, 5, cs⟩ := by
      have hlt := toNat_lt_of_control hcontrol
      have htrailing : isTrailing c.toNat = false := by simp [isTrailing]; omega
      have hleading : isLeading c.toNat = false := by simp [isLeading]; omega
      rw [readEscape, if_pos rfl, readUnit_control hcontrol]
      simp [htrailing, hleading]
    rw [he]
    exact ⟨_, readString_escape hread⟩
  · rw [he, List.singleton_append, readString, if_neg hquote, if_neg hslash, if_neg hcontrol]
    exact ⟨_, rfl⟩

theorem skipString_escaped (c : Char) (offset : Nat) (cs : List Char) :
    ∃ offset', skipString offset (escaped c ++ cs) = skipString offset' cs := by
  rcases escaped_cases c with ⟨e, he, hu, hshort⟩ | ⟨hcontrol, he⟩ | ⟨he, hquote, hslash, hcontrol⟩
  · have hskip : skipEscape (offset + 1) (e :: cs) = .ok (1, cs) := by
      rw [skipEscape, if_neg hu, hshort]
      rfl
    rw [he]
    exact ⟨_, skipString_escape hskip⟩
  · have hskip := skipEscape_unit (readUnit_control hcontrol 0 cs) (offset + 1)
    rw [he]
    exact ⟨_, skipString_escape hskip⟩
  · rw [he, List.singleton_append, skipString, if_neg hquote, if_neg hslash, if_neg hcontrol]
    exact ⟨_, rfl⟩

theorem readString_escapedText (s : List Char) (offset : Nat) (cs : List Char) :
    readString offset (escapedText s ++ '"' :: cs) = .ok s := by
  induction s generalizing offset with
  | nil => rw [escapedText, List.flatMap_nil, List.nil_append, readString, if_pos rfl]
  | cons c s ih =>
    obtain ⟨offset', hread⟩ := readString_escaped c offset (escapedText s ++ '"' :: cs)
    rw [escapedText, List.flatMap_cons, List.append_assoc, ← escapedText, hread, ih]
    rfl

theorem skipString_escapedText (s : List Char) (offset : Nat) (cs : List Char) :
    ∃ after, skipString offset (escapedText s ++ '"' :: cs) = .ok (after, cs) := by
  induction s generalizing offset with
  | nil =>
    rw [escapedText, List.flatMap_nil, List.nil_append, skipString, if_pos rfl]
    exact ⟨_, rfl⟩
  | cons c s ih =>
    obtain ⟨offset', hskip⟩ := skipString_escaped c offset (escapedText s ++ '"' :: cs)
    rw [escapedText, List.flatMap_cons, List.append_assoc, ← escapedText, hskip]
    exact ih offset'

theorem lexes_quote (s : String) (cs : List Char) :
    Lexes (quote s ++ cs) [.string (.ok s) none] cs := by
  intro offset
  obtain ⟨after, hskip⟩ := skipString_escapedText s.toList (offset + 1) cs
  refine ⟨[⟨.string (.ok s) none, offset⟩], after, ?_, rfl⟩
  rw [quote, List.cons_append, List.append_assoc, List.singleton_append, lexemes,
    if_neg (by decide), show punctuation? '"' = none by decide]
  simp only [if_true, readString_escapedText]
  split
  · rename_i f hf
    rw [hskip] at hf
    cases hf
  · rename_i after' rest hok
    rw [hskip] at hok
    cases hok
    simp [Except.map]

/-! ## Words -/

theorem lexes_word {c : Char} {w : Word} (hblank : isBlank c = false)
    (hpunctuation : punctuation? c = none) (hquote : c ≠ '"')
    (hnumber : (decide (c = '-') || c.isDigit) = false) (hword : word? c = some w)
    (cs : List Char) : Lexes (c :: (w.letters ++ cs)) [w.token none] cs := by
  intro offset
  refine ⟨[⟨w.token none, offset⟩], offset + 1 + w.letters.length, ?_, rfl⟩
  have hdrop : dropLetters (offset + 1) w.letters (w.letters ++ cs) = .ok cs := by
    cases w <;> simp [Word.letters, dropLetters]
  rw [lexemes, if_neg (by simp [hblank]), hpunctuation]
  simp only [if_neg hquote, hnumber, Bool.false_eq_true, if_false, hword]
  split
  · rename_i f hf
    rw [hdrop] at hf
    cases hf
  · rename_i rest hok
    rw [hdrop] at hok
    cases hok
    rfl

theorem lexes_null (cs : List Char) : Lexes ('n' :: 'u' :: 'l' :: 'l' :: cs) [.null none] cs :=
  lexes_word (w := .null) rfl rfl (by decide) rfl rfl cs

theorem lexes_true (cs : List Char) :
    Lexes ('t' :: 'r' :: 'u' :: 'e' :: cs) [.scalar (.ok (.bool true)) none] cs :=
  lexes_word (w := .true) rfl rfl (by decide) rfl rfl cs

theorem lexes_false (cs : List Char) :
    Lexes ('f' :: 'a' :: 'l' :: 's' :: 'e' :: cs) [.scalar (.ok (.bool false)) none] cs :=
  lexes_word (w := .false) rfl rfl (by decide) rfl rfl cs

/-! ## Integers -/

/-- What follows a number in a written text: nothing, a comma, a closing bracket or a line break. -/
def Delimited (cs : List Char) : Prop := ∀ c ∈ cs.head?, c ∈ [',', ']', '\x7d', '\n']

theorem delimited_nil : Delimited [] := by simp [Delimited]

theorem delimited_cons {c : Char} (h : c ∈ [',', ']', '\x7d', '\n']) (cs : List Char) :
    Delimited (c :: cs) := by
  intro d hd
  rw [List.head?_cons, Option.mem_some] at hd
  rw [← hd]
  exact h

theorem Delimited.of_cons {c : Char} {cs : List Char} (h : Delimited (c :: cs)) :
    c.isDigit = false ∧ c ≠ '.' ∧ ¬ (c = 'e' ∨ c = 'E') := by
  have hc := h c rfl
  revert c
  simp only [List.mem_cons, List.not_mem_nil, or_false]
  rintro c - (rfl | rfl | rfl | rfl) <;> decide

/-- The digits of a positive number do not begin with a zero. -/
theorem head?_toDigits_ne_zero {n : Nat} (h : 0 < n) : (Nat.toDigits 10 n).head? ≠ some '0' := by
  induction n using Nat.strongRecOn with
  | ind n ih =>
    by_cases hlt : n < 10
    · have hdigit : ∀ d < 10, 0 < d → some (Nat.digitChar d) ≠ some '0' := by decide
      rw [Nat.toDigits_of_lt_base hlt]
      exact hdigit n hlt h
    · rw [Nat.toDigits_of_base_le (by decide) (by omega)]
      have hdiv := ih (n / 10) (by omega) (by omega)
      cases hds : Nat.toDigits 10 (n / 10) with
      | nil => exact absurd hds Nat.toDigits_ne_nil
      | cons d ds =>
        rw [hds] at hdiv
        exact hdiv

namespace NumberText

theorem digits_append {ds rest : List Char} (hne : ds ≠ []) (hds : ∀ c ∈ ds, c.isDigit)
    (hrest : Delimited rest) (seen : Nat) : digits seen (ds ++ rest) = .ok (ds, rest) := by
  have htake : rest.takeWhile Char.isDigit = [] := by
    cases rest with
    | nil => rfl
    | cons c cs => rw [List.takeWhile_cons_of_neg (by simp [hrest.of_cons.1])]
  have hdrop : rest.dropWhile Char.isDigit = rest := by
    cases rest with
    | nil => rfl
    | cons c cs => rw [List.dropWhile_cons_of_neg (by simp [hrest.of_cons.1])]
  rw [digits, List.takeWhile_append_of_pos hds, List.dropWhile_append_of_pos hds, htake, hdrop,
    List.append_nil, if_neg (by simpa using hne)]

theorem scanWhole_toDigits (n seen : Nat) {rest : List Char} (hrest : Delimited rest) :
    scanWhole seen (Nat.toDigits 10 n ++ rest) = .ok (Nat.toDigits 10 n, rest) := by
  have hdigits : ∀ c ∈ Nat.toDigits 10 n, c.isDigit :=
    fun c hc => Nat.isDigit_of_mem_toDigits (by decide) (by decide) hc
  have hread := digits_append Nat.toDigits_ne_nil hdigits hrest seen
  by_cases hn : n = 0
  · subst hn
    rw [Nat.toDigits_zero, List.singleton_append]
    cases rest with
    | nil => rfl
    | cons c cs => simp [scanWhole, hrest.of_cons.1]
  · have hhead := head?_toDigits_ne_zero (Nat.pos_of_ne_zero hn)
    unfold scanWhole
    split
    · rename_i cs heq
      cases hds : Nat.toDigits 10 n with
      | nil => exact absurd hds Nat.toDigits_ne_nil
      | cons d ds =>
        rw [hds, List.cons_append] at heq
        rw [hds, (List.cons.inj heq).1] at hhead
        exact absurd rfl hhead
    · exact hread

theorem scanFraction_delimited {rest : List Char} (hrest : Delimited rest) (seen : Nat) :
    scanFraction seen rest = .ok ([], rest) := by
  unfold scanFraction
  split
  · exact absurd rfl hrest.of_cons.2.1
  · rfl

theorem scanExponent_delimited {rest : List Char} (hrest : Delimited rest) (seen : Nat) :
    scanExponent seen rest = .ok (none, 0, rest) := by
  unfold scanExponent
  split
  · rfl
  · rw [if_neg hrest.of_cons.2.2]

/-- The literal of an integer. -/
def ofInteger (i : Int) : NumberText := ⟨decide (i < 0), Nat.toDigits 10 i.natAbs, [], none⟩

theorem scan_integerText (i : Int) {rest : List Char} (hrest : Delimited rest) :
    ∃ width, scan (integerText i ++ rest) = .ok ⟨ofInteger i, width, rest⟩ := by
  have hminus : scanMinus (integerText i ++ rest) =
      (decide (i < 0), Nat.toDigits 10 i.natAbs ++ rest) := by
    unfold integerText
    by_cases hi : i < 0
    · simp [hi, scanMinus]
    · rw [if_neg hi, decide_eq_false hi]
      unfold scanMinus
      split
      · rename_i cs heq
        have hmem : '-' ∈ Nat.toDigits 10 i.natAbs := by
          cases hds : Nat.toDigits 10 i.natAbs with
          | nil => exact absurd hds Nat.toDigits_ne_nil
          | cons d ds =>
            rw [hds, List.cons_append] at heq
            rw [(List.cons.inj heq).1]
            exact List.mem_cons_self
        exact absurd (Nat.isDigit_of_mem_toDigits (by decide) (by decide) hmem) (by decide)
      · rfl
  rw [scan, hminus]
  simp only [scanWhole_toDigits _ _ hrest, scanFraction_delimited hrest,
    scanExponent_delimited hrest]
  exact ⟨_, rfl⟩

theorem number?_ofInteger (i : Integer) : (ofInteger i.val).number? = some (.integer i) := by
  obtain ⟨i, hlower, hupper⟩ := i
  have hnat : natOf (Nat.toDigits 10 i.natAbs) = i.natAbs := Nat.ofDigitChars_ten_toDigits
  unfold number? ofInteger
  simp only [hnat, List.isEmpty_nil, Option.isNone_none, Bool.and_self, if_true]
  by_cases hi : i < 0
  · rw [if_pos (decide_eq_true hi), dif_pos (by omega)]
    congr 3
    omega
  · rw [if_neg (by simpa using hi), dif_pos (by omega)]
    congr 3
    omega

end NumberText

/-- What a number may begin with begins nothing else. -/
theorem not_of_startsNumber {c : Char} (h : (decide (c = '-') || c.isDigit) = true) :
    isBlank c = false ∧ punctuation? c = none ∧ c ≠ '"' := by
  let others := [' ', '\t', '\n', '\r', '[', ']', '\x7b', '\x7d', ',', ':', '"']
  have hothers : others.all (fun d => !(decide (d = '-') || d.isDigit)) = true := rfl
  have hne : ∀ d ∈ others, c ≠ d := by
    rintro d hd rfl
    have hd := List.all_eq_true.mp hothers c hd
    rw [h] at hd
    cases hd
  simp only [others, List.mem_cons, List.not_mem_nil, or_false, forall_eq_or_imp, forall_eq] at hne
  simp [isBlank, punctuation?, hne]

theorem exists_integerText_eq_cons (i : Int) (rest : List Char) :
    ∃ c cs, integerText i ++ rest = c :: cs ∧ (decide (c = '-') || c.isDigit) = true := by
  unfold integerText
  split
  · exact ⟨'-', _, rfl, rfl⟩
  · cases hds : Nat.toDigits 10 i.natAbs with
    | nil => exact absurd hds Nat.toDigits_ne_nil
    | cons d ds =>
      have hd : d ∈ Nat.toDigits 10 i.natAbs := by
        rw [hds]
        exact List.mem_cons_self
      exact ⟨d, _, rfl, by simp [Nat.isDigit_of_mem_toDigits (by decide) (by decide) hd]⟩

theorem lexes_integer (i : Integer) {rest : List Char} (hrest : Delimited rest) :
    Lexes (integerText i.val ++ rest) [.scalar (.ok (.number (.integer i))) none] rest := by
  intro offset
  obtain ⟨width, hscan⟩ := NumberText.scan_integerText i.val hrest
  obtain ⟨c, cs, hcs, hc⟩ := exists_integerText_eq_cons i.val rest
  obtain ⟨hblank, hpunctuation, hquote⟩ := not_of_startsNumber hc
  rw [hcs] at hscan ⊢
  have hread : readNumber offset (c :: cs) = .ok (.integer i) := by
    rw [readNumber, hscan]
    simp only [NumberText.number?_ofInteger]
  have hskip : skipNumber offset (c :: cs) = .ok (offset + width, rest) := by
    rw [skipNumber, hscan]
  refine ⟨[⟨.scalar (.ok (.number (.integer i))) none, offset⟩], offset + width, ?_, rfl⟩
  rw [lexemes, if_neg (by simp [hblank]), hpunctuation]
  simp only [if_neg hquote, if_pos hc, hread]
  split
  · rename_i f hf
    rw [hskip] at hf
    cases hf
  · rename_i after rest' hok
    rw [hskip] at hok
    cases hok
    rfl

/-! ## Values -/

namespace Value

mutual

/-- No floating-point number occurs in a value. -/
def Floatless : Value → Prop
  | .number (.float _) => False
  | .array items => FloatlessItems items
  | .object members => FloatlessMembers members
  | .null | .bool _ | .number (.integer _) | .string _ => True

def FloatlessItems : List Value → Prop
  | [] => True
  | v :: items => Floatless v ∧ FloatlessItems items

def FloatlessMembers : List (String × Value) → Prop
  | [] => True
  | (_, v) :: members => Floatless v ∧ FloatlessMembers members

end

mutual

def decidableFloatless : (v : Value) → Decidable v.Floatless
  | .number (.float _) => isFalse id
  | .null | .bool _ | .number (.integer _) | .string _ => isTrue trivial
  | .array items => decidableFloatlessItems items
  | .object members => decidableFloatlessMembers members

def decidableFloatlessItems : (items : List Value) → Decidable (FloatlessItems items)
  | [] => isTrue trivial
  | v :: items => @instDecidableAnd _ _ (decidableFloatless v) (decidableFloatlessItems items)

def decidableFloatlessMembers : (members : List (String × Value)) →
    Decidable (FloatlessMembers members)
  | [] => isTrue trivial
  | (_, v) :: members =>
    @instDecidableAnd _ _ (decidableFloatless v) (decidableFloatlessMembers members)

end

instance (v : Value) : Decidable v.Floatless := decidableFloatless v

theorem floatlessItems_iff {items : List Value} :
    FloatlessItems items ↔ ∀ v ∈ items, v.Floatless := by
  induction items with
  | nil => simp [FloatlessItems]
  | cons v items ih => simp [FloatlessItems, ih]

theorem floatlessMembers_iff {members : List (String × Value)} :
    FloatlessMembers members ↔ ∀ m ∈ members, m.2.Floatless := by
  induction members with
  | nil => simp [FloatlessMembers]
  | cons m members ih => simp [FloatlessMembers, ih]

mutual

def tokens : Value → List Token
  | .null => [.null none]
  | .bool b => [.scalar (.ok (.bool b)) none]
  | .number n => [.scalar (.ok (.number n)) none]
  | .string s => [.string (.ok s) none]
  | .array [] => [.openArray, .closeArray]
  | .array (v :: items) => .openArray :: (tokens v ++ itemTokens items)
  | .object [] => [.openObject, .closeObject]
  | .object ((name, v) :: members) =>
    .openObject :: .string (.ok name) none :: .colon :: (tokens v ++ memberTokens members)

/-- The tokens of the items behind the first one, and the closing bracket. -/
def itemTokens : List Value → List Token
  | [] => [.closeArray]
  | v :: items => .comma :: (tokens v ++ itemTokens items)

/-- The tokens of the members behind the first one, and the closing bracket. -/
def memberTokens : List (String × Value) → List Token
  | [] => [.closeObject]
  | (name, v) :: members =>
    .comma :: .string (.ok name) none :: .colon :: (tokens v ++ memberTokens members)

end

/-! ### Without blanks -/

theorem delimited_compactItems (items : List Value) (rest : List Char) :
    Delimited (compactItems items ++ rest) := by
  cases items <;> simp only [compactItems, List.cons_append] <;>
    exact delimited_cons (by decide) _

theorem delimited_compactMembers (members : List (String × Value)) (rest : List Char) :
    Delimited (compactMembers members ++ rest) := by
  cases members <;> simp only [compactMembers, List.cons_append] <;>
    exact delimited_cons (by decide) _

theorem lexes_openArray (cs : List Char) : Lexes ('[' :: cs) [.openArray] cs :=
  lexes_punctuation rfl

theorem lexes_closeArray (cs : List Char) : Lexes (']' :: cs) [.closeArray] cs :=
  lexes_punctuation rfl

theorem lexes_openObject (cs : List Char) : Lexes ('\x7b' :: cs) [.openObject] cs :=
  lexes_punctuation rfl

theorem lexes_closeObject (cs : List Char) : Lexes ('\x7d' :: cs) [.closeObject] cs :=
  lexes_punctuation rfl

theorem lexes_comma (cs : List Char) : Lexes (',' :: cs) [.comma] cs := lexes_punctuation rfl

theorem lexes_colon (cs : List Char) : Lexes (':' :: cs) [.colon] cs := lexes_punctuation rfl

/-- A name and the colon behind it. -/
theorem lexes_name (name : String) (cs : List Char) :
    Lexes (quote name ++ ':' :: cs) [.string (.ok name) none, .colon] cs :=
  (lexes_quote name _).trans (lexes_colon cs)

mutual

/-- The text of a value has its tokens. -/
theorem lexes_compact : ∀ (v : Value) {rest : List Char}, v.Floatless → Delimited rest →
    Lexes (compact v ++ rest) v.tokens rest
  | .null, _, _, _ => lexes_null _
  | .bool true, _, _, _ => lexes_true _
  | .bool false, _, _, _ => lexes_false _
  | .number (.integer i), _, _, hrest => lexes_integer i hrest
  | .number (.float _), _, h, _ => by cases h
  | .string s, _, _, _ => lexes_quote s _
  | .array [], rest, _, _ => (lexes_openArray _).trans (lexes_closeArray rest)
  | .array (v :: items), rest, h, _ => by
    have hv := lexes_compact v h.1 (delimited_compactItems items rest)
    have hitems := lexes_compactItems items rest h.2
    rw [compact, List.cons_append, List.append_assoc]
    exact (lexes_openArray _).trans (hv.trans hitems)
  | .object [], rest, _, _ => (lexes_openObject _).trans (lexes_closeObject rest)
  | .object ((name, v) :: members), rest, h, _ => by
    have hv := lexes_compact v h.1 (delimited_compactMembers members rest)
    have hmembers := lexes_compactMembers members rest h.2
    rw [compact, List.cons_append, List.append_assoc, List.cons_append, List.append_assoc]
    exact (lexes_openObject _).trans ((lexes_name name _).trans (hv.trans hmembers))

theorem lexes_compactItems : ∀ (items : List Value) (rest : List Char), FloatlessItems items →
    Lexes (compactItems items ++ rest) (itemTokens items) rest
  | [], rest, _ => lexes_closeArray rest
  | v :: items, rest, h => by
    have hv := lexes_compact v h.1 (delimited_compactItems items rest)
    have hitems := lexes_compactItems items rest h.2
    rw [compactItems, List.cons_append, List.append_assoc]
    exact (lexes_comma _).trans (hv.trans hitems)

theorem lexes_compactMembers : ∀ (members : List (String × Value)) (rest : List Char),
    FloatlessMembers members → Lexes (compactMembers members ++ rest) (memberTokens members) rest
  | [], rest, _ => lexes_closeObject rest
  | (name, v) :: members, rest, h => by
    have hv := lexes_compact v h.1 (delimited_compactMembers members rest)
    have hmembers := lexes_compactMembers members rest h.2
    rw [compactMembers, List.cons_append, List.append_assoc, List.cons_append, List.append_assoc]
    exact (lexes_comma _).trans ((lexes_name name _).trans (hv.trans hmembers))

end

/-! ### Over lines -/

theorem delimited_prettyItems (level : Nat) (items : List Value) (rest : List Char) :
    Delimited (prettyItems level items ++ rest) := by
  cases items <;> simp only [prettyItems, lineBreak, List.cons_append] <;>
    exact delimited_cons (by decide) _

theorem delimited_prettyMembers (level : Nat) (members : List (String × Value))
    (rest : List Char) : Delimited (prettyMembers level members ++ rest) := by
  cases members <;> simp only [prettyMembers, lineBreak, List.cons_append] <;>
    exact delimited_cons (by decide) _

/-- A name on a line of its own, the colon behind it and a blank. -/
theorem lexes_nameLine (level : Nat) (name : String) (cs : List Char) :
    Lexes (lineBreak level ++ (quote name ++ ':' :: ' ' :: cs))
      [.string (.ok name) none, .colon] cs :=
  (lexes_lineBreak level _).trans ((lexes_name name _).trans (lexes_blank rfl))

mutual

/-- The text of a value over lines has its tokens. -/
theorem lexes_pretty : ∀ (level : Nat) (v : Value) {rest : List Char}, v.Floatless →
    Delimited rest → Lexes (pretty level v ++ rest) v.tokens rest
  | _, .null, _, _, _ => lexes_null _
  | _, .bool true, _, _, _ => lexes_true _
  | _, .bool false, _, _, _ => lexes_false _
  | _, .number (.integer i), _, _, hrest => lexes_integer i hrest
  | _, .number (.float _), _, h, _ => by cases h
  | _, .string s, _, _, _ => lexes_quote s _
  | _, .array [], rest, _, _ => (lexes_openArray _).trans (lexes_closeArray rest)
  | level, .array (v :: items), rest, h, _ => by
    have hv := lexes_pretty (level + 1) v h.1 (delimited_prettyItems level items rest)
    have hitems := lexes_prettyItems level items rest h.2
    rw [pretty, List.cons_append, List.append_assoc, List.append_assoc]
    exact (lexes_openArray _).trans ((lexes_lineBreak _ _).trans (hv.trans hitems))
  | _, .object [], rest, _, _ => (lexes_openObject _).trans (lexes_closeObject rest)
  | level, .object ((name, v) :: members), rest, h, _ => by
    have hv := lexes_pretty (level + 1) v h.1 (delimited_prettyMembers level members rest)
    have hmembers := lexes_prettyMembers level members rest h.2
    rw [pretty, List.cons_append, List.append_assoc, List.append_assoc, List.cons_append,
      List.cons_append, List.append_assoc]
    exact (lexes_openObject _).trans ((lexes_nameLine _ name _).trans (hv.trans hmembers))

theorem lexes_prettyItems : ∀ (level : Nat) (items : List Value) (rest : List Char),
    FloatlessItems items → Lexes (prettyItems level items ++ rest) (itemTokens items) rest
  | level, [], rest, _ => by
    rw [prettyItems, List.append_assoc]
    exact (lexes_lineBreak level _).trans (lexes_closeArray rest)
  | level, v :: items, rest, h => by
    have hv := lexes_pretty (level + 1) v h.1 (delimited_prettyItems level items rest)
    have hitems := lexes_prettyItems level items rest h.2
    rw [prettyItems, List.cons_append, List.append_assoc, List.append_assoc]
    exact (lexes_comma _).trans ((lexes_lineBreak _ _).trans (hv.trans hitems))

theorem lexes_prettyMembers : ∀ (level : Nat) (members : List (String × Value))
    (rest : List Char), FloatlessMembers members →
      Lexes (prettyMembers level members ++ rest) (memberTokens members) rest
  | level, [], rest, _ => by
    rw [prettyMembers, List.append_assoc]
    exact (lexes_lineBreak level _).trans (lexes_closeObject rest)
  | level, (name, v) :: members, rest, h => by
    have hv := lexes_pretty (level + 1) v h.1 (delimited_prettyMembers level members rest)
    have hmembers := lexes_prettyMembers level members rest h.2
    rw [prettyMembers, List.cons_append, List.append_assoc, List.append_assoc, List.cons_append,
      List.cons_append, List.append_assoc]
    exact (lexes_comma _).trans ((lexes_nameLine _ name _).trans (hv.trans hmembers))

end

end Value

end RuleGraph.Json
