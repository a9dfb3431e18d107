import RuleGraph.Proofs.WrittenLexemes

/-!
# A written text is read back

The parser arranges the tokens of a value as a tree that spells the value (`Value.parses`). With the
lexemes of the written text this gives the tree of that text, so a value without floating-point
numbers is read back from its text with or without line breaks (`spelled_compactText`,
`spelled_prettyText`).
-/

namespace RuleGraph.Json

/-! ## From tokens to a tree -/

/-- Whether a token begins a value. -/
def Token.beginsValue : Token → Bool
  | .null _ | .scalar .. | .string .. | .openArray | .openObject => true
  | _ => false

theorem exists_cons_of_map_token {ls : List Lexeme} {t : Token} {ts : List Token}
    (h : ls.map Lexeme.token = t :: ts) :
    ∃ start ls', ls = ⟨t, start⟩ :: ls' ∧ ls'.map Lexeme.token = ts := by
  obtain ⟨⟨token, start⟩, ls', rfl, rfl, hls⟩ := List.map_eq_cons_iff.mp h
  exact ⟨start, ls', rfl, hls⟩

namespace Value

theorem exists_tokens_eq_cons (v : Value) :
    ∃ t ts, v.tokens = t :: ts ∧ t.beginsValue := by
  cases v with
  | null => exact ⟨_, _, rfl, rfl⟩
  | bool b => exact ⟨_, _, rfl, rfl⟩
  | number n => exact ⟨_, _, rfl, rfl⟩
  | string s => exact ⟨_, _, rfl, rfl⟩
  | array items => cases items <;> exact ⟨_, _, rfl, rfl⟩
  | object members => cases members <;> exact ⟨_, _, rfl, rfl⟩

/-- The parser makes of the tokens of a value a tree that spells it. -/
def Parses (v : Value) : Prop :=
  ∀ fuel ls rest, ls.map Lexeme.token = v.tokens → 3 * ls.length ≤ fuel →
    ∃ t, Tree.ofLexemes fuel (ls ++ rest) = (t, rest) ∧ t.Spells v

/-- The same for the items behind the first one. -/
def ItemsParse (items : List Value) : Prop :=
  ∀ fuel ls rest, ls.map Lexeme.token = itemTokens items → 3 * ls.length ≤ fuel →
    ∃ ts, Tree.itemsOf fuel false (ls ++ rest) = (ts, .closed, rest) ∧ Tree.SpellsItems ts items

/-- The same for the members behind the first one. -/
def MembersParse (members : List (String × Value)) : Prop :=
  ∀ fuel ls rest, ls.map Lexeme.token = memberTokens members → 3 * ls.length ≤ fuel →
    ∃ ts, Tree.membersOf fuel false (ls ++ rest) = (ts, .closed, rest) ∧
      Tree.SpellsMembers ts members

end Value

namespace Tree

section Calls

variable {fuel start start' : Nat} {token : Token} {rest : List Lexeme}

theorem itemsOf_first (h : token.beginsValue) :
    itemsOf (fuel + 1) true (⟨token, start⟩ :: rest) = itemThen fuel (⟨token, start⟩ :: rest) := by
  cases token with
  | null | scalar | string | openArray | openObject => rfl
  | _ => cases h

theorem itemsOf_comma (h : token.beginsValue) :
    itemsOf (fuel + 1) false (⟨.comma, start⟩ :: ⟨token, start'⟩ :: rest) =
      itemThen fuel (⟨token, start'⟩ :: rest) := by
  cases token with
  | null | scalar | string | openArray | openObject => rfl
  | _ => cases h

theorem membersOf_first {name : String} :
    membersOf (fuel + 1) true (⟨.string (.ok name) none, start⟩ :: rest) =
      memberThen fuel ⟨.ok name, none⟩ rest := rfl

theorem membersOf_comma {name : String} :
    membersOf (fuel + 1) false (⟨.comma, start⟩ :: ⟨.string (.ok name) none, start'⟩ :: rest) =
      memberThen fuel ⟨.ok name, none⟩ rest := rfl

end Calls

/-- An item, the items behind it and the closing bracket. -/
theorem itemThen_of_parses {v : Value} {items : List Value} (hv : v.Parses)
    (hitems : Value.ItemsParse items) {fuel : Nat} {ls rest : List Lexeme}
    (hls : ls.map Lexeme.token = v.tokens ++ Value.itemTokens items)
    (hfuel : 3 * ls.length + 1 ≤ fuel) :
    ∃ ts, itemThen fuel (ls ++ rest) = (ts, .closed, rest) ∧ SpellsItems ts (v :: items) := by
  obtain ⟨first, others, rfl, hfirst, hothers⟩ := List.map_eq_append_iff.mp hls
  rw [List.length_append] at hfuel
  cases fuel with
  | zero => omega
  | succ fuel =>
    obtain ⟨t, ht, hspells⟩ := hv fuel first (others ++ rest) hfirst (by omega)
    obtain ⟨ts, hts, hspells'⟩ := hitems fuel others rest hothers (by omega)
    rw [List.append_assoc, itemThen_succ, ht, hts]
    exact ⟨t :: ts, rfl, .cons hspells hspells'⟩

/-- A member behind its name, the members behind it and the closing bracket. -/
theorem memberThen_of_parses {name : String} {v : Value} {members : List (String × Value)}
    (hv : v.Parses) (hmembers : Value.MembersParse members) {fuel : Nat} {ls rest : List Lexeme}
    (hls : ls.map Lexeme.token = .colon :: (v.tokens ++ Value.memberTokens members))
    (hfuel : 3 * ls.length ≤ fuel) :
    ∃ ts, memberThen fuel ⟨.ok name, none⟩ (ls ++ rest) = (ts, .closed, rest) ∧
      SpellsMembers ts ((name, v) :: members) := by
  obtain ⟨start, behind, rfl, hbehind⟩ := exists_cons_of_map_token hls
  obtain ⟨first, others, rfl, hfirst, hothers⟩ := List.map_eq_append_iff.mp hbehind
  rw [List.length_cons, List.length_append] at hfuel
  cases fuel with
  | zero => omega
  | succ fuel =>
    obtain ⟨t, ht, hspells⟩ := hv fuel first (others ++ rest) hfirst (by omega)
    obtain ⟨ts, hts, hspells'⟩ := hmembers fuel others rest hothers (by omega)
    rw [List.cons_append, List.append_assoc, memberThen_colon, ht, hts]
    exact ⟨_, rfl, .cons hspells hspells'⟩

end Tree

namespace Value

/-- A value of one token. -/
theorem parses_of_token {v : Value} {token : Token} (htokens : v.tokens = [token])
    (h : ∀ fuel start rest, ∃ t, Tree.ofLexemes (fuel + 1) (⟨token, start⟩ :: rest) = (t, rest) ∧
      t.Spells v) : v.Parses := by
  intro fuel ls rest hls hfuel
  rw [htokens] at hls
  obtain ⟨start, behind, rfl, hnil⟩ := exists_cons_of_map_token hls
  obtain rfl := List.map_eq_nil_iff.mp hnil
  cases fuel with
  | zero => simp at hfuel
  | succ fuel => exact h fuel start rest

theorem parses_array_nil : (Value.array []).Parses := by
  intro fuel ls rest hls hfuel
  obtain ⟨start, behind, rfl, hbehind⟩ := exists_cons_of_map_token hls
  obtain ⟨start', behind', rfl, hnil⟩ := exists_cons_of_map_token hbehind
  obtain rfl := List.map_eq_nil_iff.mp hnil
  match fuel, hfuel with
  | fuel + 2, _ => exact ⟨_, rfl, .array .nil⟩

theorem parses_array_cons {v : Value} {items : List Value} (hv : v.Parses)
    (hitems : ItemsParse items) : (Value.array (v :: items)).Parses := by
  intro fuel ls rest hls hfuel
  obtain ⟨start, behind, rfl, hbehind⟩ := exists_cons_of_map_token hls
  -- what begins the first item is no closing bracket, so the parser takes it for an item
  obtain ⟨token, tokens, htokens, hbegins⟩ := v.exists_tokens_eq_cons
  have hcons : behind.map Lexeme.token = token :: (tokens ++ itemTokens items) := by
    rw [hbehind, htokens, List.cons_append]
  obtain ⟨start', ls', rfl, -⟩ := exists_cons_of_map_token hcons
  simp only [List.length_cons] at hfuel
  match fuel, hfuel with
  | fuel + 2, hfuel =>
    have hlength : 3 * (⟨token, start'⟩ :: ls' : List Lexeme).length + 1 ≤ fuel := by
      rw [List.length_cons]
      omega
    obtain ⟨ts, hts, hspells⟩ := Tree.itemThen_of_parses hv hitems hbehind hlength
    refine ⟨.array start ts .closed, ?_, .array hspells⟩
    rw [List.cons_append, Tree.ofLexemes_openArray, List.cons_append, Tree.itemsOf_first hbegins,
      ← List.cons_append, hts]

theorem itemsParse_nil : ItemsParse [] := by
  intro fuel ls rest hls hfuel
  obtain ⟨start, behind, rfl, hnil⟩ := exists_cons_of_map_token hls
  obtain rfl := List.map_eq_nil_iff.mp hnil
  match fuel, hfuel with
  | fuel + 1, _ => exact ⟨[], rfl, .nil⟩

theorem itemsParse_cons {v : Value} {items : List Value} (hv : v.Parses)
    (hitems : ItemsParse items) : ItemsParse (v :: items) := by
  intro fuel ls rest hls hfuel
  obtain ⟨start, behind, rfl, hbehind⟩ := exists_cons_of_map_token hls
  obtain ⟨token, tokens, htokens, hbegins⟩ := v.exists_tokens_eq_cons
  have hcons : behind.map Lexeme.token = token :: (tokens ++ itemTokens items) := by
    rw [hbehind, htokens, List.cons_append]
  obtain ⟨start', ls', rfl, -⟩ := exists_cons_of_map_token hcons
  simp only [List.length_cons] at hfuel
  match fuel, hfuel with
  | fuel + 1, hfuel =>
    have hlength : 3 * (⟨token, start'⟩ :: ls' : List Lexeme).length + 1 ≤ fuel := by
      rw [List.length_cons]
      omega
    obtain ⟨ts, hts, hspells⟩ := Tree.itemThen_of_parses hv hitems hbehind hlength
    refine ⟨ts, ?_, hspells⟩
    rw [List.cons_append, List.cons_append, Tree.itemsOf_comma hbegins, ← List.cons_append, hts]

theorem parses_object_nil : (Value.object []).Parses := by
  intro fuel ls rest hls hfuel
  obtain ⟨start, behind, rfl, hbehind⟩ := exists_cons_of_map_token hls
  obtain ⟨start', behind', rfl, hnil⟩ := exists_cons_of_map_token hbehind
  obtain rfl := List.map_eq_nil_iff.mp hnil
  match fuel, hfuel with
  | fuel + 2, _ => exact ⟨_, rfl, .object .nil⟩

theorem parses_object_cons {name : String} {v : Value} {members : List (String × Value)}
    (hv : v.Parses) (hmembers : MembersParse members) :
    (Value.object ((name, v) :: members)).Parses := by
  intro fuel ls rest hls hfuel
  obtain ⟨start, behind, rfl, hbehind⟩ := exists_cons_of_map_token hls
  obtain ⟨start', ls', rfl, hls'⟩ := exists_cons_of_map_token hbehind
  simp only [List.length_cons] at hfuel
  match fuel, hfuel with
  | fuel + 2, hfuel =>
    have hlength : 3 * ls'.length ≤ fuel := by omega
    obtain ⟨ts, hts, hspells⟩ := Tree.memberThen_of_parses hv hmembers hls' hlength
    refine ⟨.object start ts .closed, ?_, .object hspells⟩
    rw [List.cons_append, Tree.ofLexemes_openObject, List.cons_append, Tree.membersOf_first, hts]

theorem membersParse_nil : MembersParse [] := by
  intro fuel ls rest hls hfuel
  obtain ⟨start, behind, rfl, hnil⟩ := exists_cons_of_map_token hls
  obtain rfl := List.map_eq_nil_iff.mp hnil
  match fuel, hfuel with
  | fuel + 1, _ => exact ⟨[], rfl, .nil⟩

theorem membersParse_cons {name : String} {v : Value} {members : List (String × Value)}
    (hv : v.Parses) (hmembers : MembersParse members) : MembersParse ((name, v) :: members) := by
  intro fuel ls rest hls hfuel
  obtain ⟨start, behind, rfl, hbehind⟩ := exists_cons_of_map_token hls
  obtain ⟨start', ls', rfl, hls'⟩ := exists_cons_of_map_token hbehind
  simp only [List.length_cons] at hfuel
  match fuel, hfuel with
  | fuel + 1, hfuel =>
    have hlength : 3 * ls'.length ≤ fuel := by omega
    obtain ⟨ts, hts, hspells⟩ := Tree.memberThen_of_parses hv hmembers hls' hlength
    refine ⟨ts, ?_, hspells⟩
    rw [List.cons_append, List.cons_append, Tree.membersOf_comma, hts]

mutual

/-- The parser makes of the tokens of every value a tree that spells it. -/
theorem parses : ∀ v : Value, v.Parses
  | .null => parses_of_token rfl fun _ _ _ => ⟨_, rfl, .null⟩
  | .bool _ => parses_of_token rfl fun _ _ _ => ⟨_, rfl, .bool⟩
  | .number _ => parses_of_token rfl fun _ _ _ => ⟨_, rfl, .number⟩
  | .string _ => parses_of_token rfl fun _ _ _ => ⟨_, rfl, .string⟩
  | .array [] => parses_array_nil
  | .array (v :: items) => parses_array_cons (parses v) (itemsParse items)
  | .object [] => parses_object_nil
  | .object ((_, v) :: members) => parses_object_cons (parses v) (membersParse members)

theorem itemsParse : ∀ items : List Value, ItemsParse items
  | [] => itemsParse_nil
  | v :: items => itemsParse_cons (parses v) (itemsParse items)

theorem membersParse : ∀ members : List (String × Value), MembersParse members
  | [] => membersParse_nil
  | (_, v) :: members => membersParse_cons (parses v) (membersParse members)

end

end Value

/-! ## Texts of values -/

/-- A text whose tokens are those of a value, with blanks at most behind them. -/
theorem spelled_of_lexes {text : String} {v : Value} {rest : List Char}
    (h : Lexes text.toList v.tokens rest) (hrest : Lexes rest [] []) : Spelled text v := by
  obtain ⟨ls, offset, hlexemes, htokens⟩ := h 0
  obtain ⟨ls', offset', hblanks, hnil⟩ := hrest offset
  obtain rfl := List.map_eq_nil_iff.mp hnil
  rw [hblanks, List.nil_append] at hlexemes
  have hfinish : lexemes offset' [] = [⟨.finish, offset'⟩] := by rw [lexemes]
  have hfuel : 3 * ls.length ≤ 3 * (ls ++ lexemes offset' []).length + 3 := by
    rw [List.length_append]
    omega
  obtain ⟨t, ht, hspells⟩ := v.parses _ ls (lexemes offset' []) htokens hfuel
  have hparsed : Parsed.ofText text = ⟨t, none⟩ := by
    rw [Parsed.ofText, hlexemes]
    simp only [ht]
    rw [hfinish]
  constructor
  · rw [hparsed]
    exact hspells
  · rw [hparsed]

/-- The text of a value spells it. -/
theorem spelled_compactText {v : Value} (h : v.Floatless) : Spelled v.compactText v := by
  have hlexes := v.lexes_compact h delimited_nil
  apply spelled_of_lexes _ (Lexes.refl [])
  rwa [Value.compactText, String.toList_ofList, ← List.append_nil v.compact]

/-- The text of a value over lines spells it. -/
theorem spelled_prettyText {v : Value} (h : v.Floatless) : Spelled v.prettyText v := by
  have hlexes := v.lexes_pretty 0 h delimited_nil
  apply spelled_of_lexes _ (Lexes.refl [])
  rwa [Value.prettyText, String.toList_ofList, ← List.append_nil (v.pretty 0)]

/-- A line break behind the text changes nothing. -/
theorem spelled_prettyText_line {v : Value} (h : v.Floatless) :
    Spelled (v.prettyText ++ "\n") v := by
  have hdelimited : Delimited ['\n'] := delimited_cons (by decide) []
  have hlexes := v.lexes_pretty 0 h hdelimited
  have hblank : Lexes ['\n'] [] [] := lexes_blank (by decide)
  apply spelled_of_lexes _ hblank
  rwa [String.toList_append, Value.prettyText, String.toList_ofList]

end RuleGraph.Json
