import RuleGraph.Proofs.FaultlessTree

/-!
# Readable texts are faultless

A tree keeps every fault it met, and reading looks at some of them only. For the tree of a text this
makes no difference: what can be read has no fault at all (`Parsed.spells_of_read`). The reason is
that what can be read can be skipped, so a text goes on behind it, up to its end or to a fault that
even skipping meets (`ended_lexemes`).
-/

namespace RuleGraph.Json

/-! ## What can be read can be skipped -/

theorem readUnit_eq_ok {offset : Nat} {cs : List Char} {p : Nat × List Char}
    (h : readUnit offset cs = .ok p) (offset' : Nat) : readUnit offset' cs = .ok p := by
  unfold readUnit at h ⊢
  split at h
  · split at h
    · exact h
    · cases h
  · cases h

/-- The second half of a pair is an escape of its own. -/
theorem readTrailing_eq_ok {leading offset : Nat} {cs : List Char} {e : Escape}
    (h : readTrailing leading offset cs = .ok e) :
    ∃ second n, cs = '\\' :: 'u' :: second ∧ readUnit (offset + 2) second = .ok (n, e.rest) := by
  unfold readTrailing at h
  split at h
  · cases h
  · cases h
  · rename_i second
    split at h
    · cases h
    · rename_i n rest hunit
      split at h
      · rw [← Except.ok.inj h]
        exact ⟨second, n, rfl, hunit⟩
      · cases h
  · cases h
  · cases h

theorem skipEscape_unit {offset n : Nat} {cs rest : List Char}
    (h : readUnit offset cs = .ok (n, rest)) (offset' : Nat) :
    skipEscape offset' ('u' :: cs) = .ok (5, rest) := by
  rw [skipEscape, if_pos rfl, readUnit_eq_ok h]

/-- An escape that is read is one that is skipped, or a pair of them. -/
theorem skipEscape_of_readEscape {offset : Nat} {cs : List Char} {e : Escape}
    (h : readEscape offset cs = .ok e) :
    (∀ offset', ∃ width, skipEscape offset' cs = .ok (width, e.rest)) ∨
      ∃ second, (∀ offset', ∃ width, skipEscape offset' cs = .ok (width, '\\' :: second)) ∧
        ∀ offset', ∃ width, skipEscape offset' second = .ok (width, e.rest) := by
  unfold readEscape at h
  split at h
  · cases h
  · rename_i c cs
    split at h
    · rename_i hu
      subst hu
      split at h
      · cases h
      · rename_i n rest hunit
        split at h
        · cases h
        · split at h
          · split at h
            · cases h
            · rename_i e' htrailing
              obtain ⟨second, n', rfl, hunit'⟩ := readTrailing_eq_ok htrailing
              cases h
              exact .inr ⟨'u' :: second, fun o => ⟨5, skipEscape_unit hunit o⟩,
                fun o => ⟨5, skipEscape_unit hunit' o⟩⟩
          · cases h
            exact .inl fun o => ⟨5, skipEscape_unit hunit o⟩
    · rename_i hu
      split at h
      · rename_i hshort
        cases h
        refine .inl fun o => ⟨1, ?_⟩
        rw [skipEscape, if_neg hu, hshort]
        rfl
      · cases h

theorem skipString_escape {offset width : Nat} {cs rest : List Char}
    (h : skipEscape (offset + 1) cs = .ok (width, rest)) :
    skipString offset ('\\' :: cs) = skipString (offset + 1 + width) rest := by
  rw [skipString, if_neg (by decide), if_pos rfl]
  split
  · rename_i f hf
    rw [h] at hf
    cases hf
  · rename_i width' rest' hok
    rw [h] at hok
    cases hok
    rfl

/-- A string that can be read can be skipped. -/
theorem skipString_of_readString {offset : Nat} {cs s : List Char}
    (h : readString offset cs = .ok s) (offset' : Nat) : ∃ p, skipString offset' cs = .ok p := by
  fun_induction readString offset cs generalizing s offset' with
  | case1 => cases h
  | case2 => exact ⟨_, by rw [skipString, if_pos rfl]⟩
  | case3 => cases h
  | case4 offset cs e he _ _ ih =>
    obtain ⟨s', hs', -⟩ := map_eq_ok_iff.mp h
    rcases skipEscape_of_readEscape he with hskip | ⟨second, hskip, hskip'⟩
    · obtain ⟨width, hwidth⟩ := hskip (offset' + 1)
      rw [skipString_escape hwidth]
      exact ih hs' _
    · obtain ⟨width, hwidth⟩ := hskip (offset' + 1)
      rw [skipString_escape hwidth]
      obtain ⟨width', hwidth'⟩ := hskip' (offset' + 1 + width + 1)
      rw [skipString_escape hwidth']
      exact ih hs' _
  | case5 => cases h
  | case6 offset c cs hquote hslash hcontrol ih =>
    obtain ⟨s', hs', -⟩ := map_eq_ok_iff.mp h
    rw [skipString, if_neg hquote, if_neg hslash, if_neg hcontrol]
    exact ih hs' _

/-- A number that can be read can be skipped. -/
theorem skipNumber_of_readNumber {start : Nat} {cs : List Char} {n : Number}
    (h : readNumber start cs = .ok n) : ∃ p, skipNumber start cs = .ok p := by
  unfold readNumber at h
  unfold skipNumber
  cases hscan : NumberText.scan cs with
  | error b => simp [hscan] at h
  | ok s => exact ⟨_, rfl⟩

/-! ## Where the lexemes of a text end -/

/-- Whether nothing is looked at behind a token: the text ends, or even skipping stops there. -/
def Token.isLast : Token → Bool
  | .finish | .stray => true
  | .string _ skip | .scalar _ skip | .null skip => skip.isSome
  | _ => false

/-- What a token is read as can be skipped, and what is read as a scalar is a boolean or a
number. -/
def Token.Coherent : Token → Prop
  | .string read skip => ∀ s, read = .ok s → skip = none
  | .scalar read skip =>
    ∀ v, read = .ok v → skip = none ∧ ((∃ b, v = .bool b) ∨ ∃ n, v = .number n)
  | _ => True

/-- Lexemes of which the last one and no other has nothing behind it. -/
inductive Ended : List Lexeme → Prop
  | last {l : Lexeme} (hlast : l.token.isLast) (hl : l.token.Coherent) : Ended [l]
  | cons {l : Lexeme} {ls : List Lexeme} (hlast : l.token.isLast = false) (hl : l.token.Coherent)
      (hs : Ended ls) : Ended (l :: ls)

theorem Ended.coherent {l : Lexeme} {ls : List Lexeme} (h : Ended (l :: ls)) :
    l.token.Coherent := by
  cases h with
  | last _ hl => exact hl
  | cons _ hl _ => exact hl

/-- Lexemes go on behind one that is not the last. -/
theorem Ended.tail {l : Lexeme} {ls : List Lexeme} (h : Ended (l :: ls))
    (hlast : l.token.isLast = false) : Ended ls := by
  cases h with
  | last h _ => rw [hlast] at h; cases h
  | cons _ _ hs => exact hs

theorem not_isLast_of_punctuation? {c : Char} {t : Token} (h : punctuation? c = some t) :
    t.isLast = false ∧ t.Coherent := by
  unfold punctuation? at h
  repeat' split at h
  all_goals cases h
  all_goals exact ⟨rfl, trivial⟩

theorem Word.isLast_token (fault : Option Fault) (w : Word) :
    (w.token fault).isLast = fault.isSome := by
  cases w <;> rfl

theorem Word.coherent_token (fault : Option Fault) (w : Word) : (w.token fault).Coherent := by
  cases w with
  | null => trivial
  | _ =>
    intro v hv
    cases fault with
    | some f => cases hv
    | none => exact ⟨rfl, .inl ⟨_, (Except.ok.inj hv).symm⟩⟩

theorem ended_lexemes (offset : Nat) (cs : List Char) : Ended (lexemes offset cs) := by
  fun_induction lexemes offset cs with
  | case1 => exact .last rfl trivial
  | case2 _ _ _ _ ih => exact ih
  | case3 _ _ _ _ _ ht ih =>
    obtain ⟨hlast, hc⟩ := not_isLast_of_punctuation? ht
    exact .cons hlast hc ih
  | case4 offset cs read f hskip =>
    -- what cannot be skipped cannot be read
    refine .last rfl fun s hs => ?_
    obtain ⟨s', hread, -⟩ := map_eq_ok_iff.mp hs
    obtain ⟨p, hp⟩ := skipString_of_readString hread (offset + 1)
    rw [hskip] at hp
    cases hp
  | case5 _ _ _ _ _ _ _ _ _ ih => exact .cons rfl (fun _ _ => rfl) ih
  | case6 offset c cs _ _ _ _ read f hskip =>
    refine .last rfl fun v hv => ?_
    obtain ⟨n, hread, -⟩ := map_eq_ok_iff.mp hv
    obtain ⟨p, hp⟩ := skipNumber_of_readNumber hread
    rw [hskip] at hp
    cases hp
  | case7 _ _ _ _ _ _ _ _ _ _ _ _ ih =>
    refine .cons rfl (fun v hv => ⟨rfl, .inr ?_⟩) ih
    obtain ⟨n, -, hn⟩ := map_eq_ok_iff.mp hv
    exact ⟨n, hn.symm⟩
  | case8 => exact .last rfl trivial
  | case9 => exact .last (Word.isLast_token ..) (Word.coherent_token ..)
  | case10 _ _ _ _ _ _ _ _ _ _ _ _ ih =>
    exact .cons (Word.isLast_token ..) (Word.coherent_token ..) ih

/-! ## Trees of such lexemes -/

namespace Tree

/-! ### The calls of the parser -/

section Calls

variable {fuel start : Nat} {rest ls : List Lexeme} {name : Name}

theorem ofLexemes_openArray :
    ofLexemes (fuel + 1) (⟨.openArray, start⟩ :: rest) =
      (.array start (itemsOf fuel true rest).1 (itemsOf fuel true rest).2.1,
        (itemsOf fuel true rest).2.2) := rfl

theorem ofLexemes_openObject :
    ofLexemes (fuel + 1) (⟨.openObject, start⟩ :: rest) =
      (.object start (membersOf fuel true rest).1 (membersOf fuel true rest).2.1,
        (membersOf fuel true rest).2.2) := rfl

theorem itemThen_succ :
    itemThen (fuel + 1) ls =
      ((ofLexemes fuel ls).1 :: (itemsOf fuel false (ofLexemes fuel ls).2).1,
        (itemsOf fuel false (ofLexemes fuel ls).2).2) := rfl

theorem memberThen_colon :
    memberThen (fuel + 1) name (⟨.colon, start⟩ :: rest) =
      ((name, (ofLexemes fuel rest).1) :: (membersOf fuel false (ofLexemes fuel rest).2).1,
        (membersOf fuel false (ofLexemes fuel rest).2).2) := rfl

end Calls

/-! ### What they return -/

/-- Reading a tree fails, whatever room there is. -/
def Unreadable (t : Tree) : Prop := ∀ room v, t.read room ≠ .ok v

/-- A tree has no fault and lexemes behind it, fewer than there were, or it cannot be read. -/
def Settled (length : Nat) (r : Tree × List Lexeme) : Prop :=
  ((∃ v, Spells r.1 v) ∧ Ended r.2 ∧ r.2.length < length) ∨ r.1.Unreadable

/-- The same for items and what ended them. -/
def ItemsSettled (length : Nat) (r : List Tree × Stop × List Lexeme) : Prop :=
  ((∃ vs, SpellsItems r.1 vs) ∧ r.2.1 = .closed ∧ Ended r.2.2 ∧ r.2.2.length < length) ∨
    ∀ room vs, readItems room r.1 = .ok vs → r.2.1.inArray ≠ none

/-- The same for members and what ended them. -/
def MembersSettled (length : Nat) (r : List (Name × Tree) × Stop × List Lexeme) : Prop :=
  ((∃ es, SpellsMembers r.1 es) ∧ r.2.1 = .closed ∧ Ended r.2.2 ∧ r.2.2.length < length) ∨
    ∀ room es, readMembers room r.1 = .ok es → r.2.1.inObject ≠ none

theorem unreadable_array {start : Nat} {items : List Tree} {stop : Stop}
    (h : ∀ room vs, readItems room items = .ok vs → stop.inArray ≠ none) :
    Unreadable (.array start items stop) := by
  intro room v hv
  cases room with
  | zero => cases hv
  | succ room =>
    rw [Tree.read, bind_eq_ok_iff] at hv
    obtain ⟨vs, hvs, hv⟩ := hv
    have hstop := h room vs hvs
    cases hfault : stop.inArray with
    | none => exact hstop hfault
    | some f =>
      rw [hfault] at hv
      cases hv

theorem unreadable_object {start : Nat} {members : List (Name × Tree)} {stop : Stop}
    (h : ∀ room es, readMembers room members = .ok es → stop.inObject ≠ none) :
    Unreadable (.object start members stop) := by
  intro room v hv
  cases room with
  | zero => cases hv
  | succ room =>
    rw [Tree.read, bind_eq_ok_iff] at hv
    obtain ⟨es, hes, hv⟩ := hv
    have hstop := h room es hes
    cases hfault : stop.inObject with
    | none => exact hstop hfault
    | some f =>
      rw [hfault] at hv
      cases hv

theorem settled_null {start : Nat} {fault : Option Fault} {rest : List Lexeme}
    (h : Ended (⟨.null fault, start⟩ :: rest)) :
    Settled (rest.length + 1) (.null start fault, rest) := by
  cases fault with
  | none => exact .inl ⟨⟨_, .null⟩, h.tail rfl, Nat.lt_succ_self _⟩
  | some f => exact .inr fun room v hv => by cases hv

theorem settled_scalar {start : Nat} {read : Except Fault Value} {skip : Option Fault}
    {rest : List Lexeme} (h : Ended (⟨.scalar read skip, start⟩ :: rest)) :
    Settled (rest.length + 1) (.scalar start read skip, rest) := by
  cases read with
  | error f => exact .inr fun room v hv => by cases hv
  | ok v =>
    obtain ⟨rfl, hscalar⟩ := h.coherent v rfl
    refine .inl ⟨⟨v, ?_⟩, h.tail rfl, Nat.lt_succ_self _⟩
    rcases hscalar with ⟨b, rfl⟩ | ⟨n, rfl⟩
    · exact .bool
    · exact .number

theorem settled_string {start : Nat} {read : Except Fault String} {skip : Option Fault}
    {rest : List Lexeme} (h : Ended (⟨.string read skip, start⟩ :: rest)) :
    Settled (rest.length + 1) (.string read skip, rest) := by
  cases read with
  | error f => exact .inr fun room v hv => by cases hv
  | ok s =>
    obtain rfl := h.coherent s rfl
    exact .inl ⟨⟨_, .string⟩, h.tail rfl, Nat.lt_succ_self _⟩

theorem ItemsSettled.mono {m n : Nat} {r : List Tree × Stop × List Lexeme} (h : ItemsSettled m r)
    (hmn : m ≤ n) : ItemsSettled n r := by
  rcases h with ⟨hvs, hstop, hrest, hlt⟩ | hfail
  · exact .inl ⟨hvs, hstop, hrest, Nat.lt_of_lt_of_le hlt hmn⟩
  · exact .inr hfail

theorem MembersSettled.mono {m n : Nat} {r : List (Name × Tree) × Stop × List Lexeme}
    (h : MembersSettled m r) (hmn : m ≤ n) : MembersSettled n r := by
  rcases h with ⟨hes, hstop, hrest, hlt⟩ | hfail
  · exact .inl ⟨hes, hstop, hrest, Nat.lt_of_lt_of_le hlt hmn⟩
  · exact .inr hfail

theorem itemsSettled_cons {n : Nat} {item : Tree × List Lexeme}
    {items : List Tree × Stop × List Lexeme} (hitem : Settled n item)
    (hitems : Ended item.2 → item.2.length < n → ItemsSettled item.2.length items) :
    ItemsSettled n (item.1 :: items.1, items.2) := by
  rcases hitem with ⟨⟨v, hv⟩, hrest, hlt⟩ | hfail
  · rcases hitems hrest hlt with ⟨⟨vs, hvs⟩, hstop, hrest', hlt'⟩ | hfail
    · exact .inl ⟨⟨_, .cons hv hvs⟩, hstop, hrest', Nat.lt_trans hlt' hlt⟩
    · refine .inr fun room vs hvs => ?_
      simp only [readItems, bind_eq_ok_iff] at hvs
      obtain ⟨_, -, vs', hvs', -⟩ := hvs
      exact hfail room vs' hvs'
  · refine .inr fun room vs hvs => ?_
    simp only [readItems, bind_eq_ok_iff] at hvs
    obtain ⟨w, hw, -⟩ := hvs
    exact absurd hw (hfail room w)

theorem membersSettled_cons {n : Nat} {name : String} {value : Tree × List Lexeme}
    {members : List (Name × Tree) × Stop × List Lexeme} (hvalue : Settled n value)
    (hmembers : Ended value.2 → value.2.length < n → MembersSettled value.2.length members) :
    MembersSettled n ((⟨.ok name, none⟩, value.1) :: members.1, members.2) := by
  rcases hvalue with ⟨⟨v, hv⟩, hrest, hlt⟩ | hfail
  · rcases hmembers hrest hlt with ⟨⟨es, hes⟩, hstop, hrest', hlt'⟩ | hfail
    · exact .inl ⟨⟨_, .cons hv hes⟩, hstop, hrest', Nat.lt_trans hlt' hlt⟩
    · refine .inr fun room es hes => ?_
      simp only [readMembers, bind_eq_ok_iff] at hes
      obtain ⟨_, -, _, -, es', hes', -⟩ := hes
      exact hfail room es' hes'
  · refine .inr fun room es hes => ?_
    simp only [readMembers, bind_eq_ok_iff] at hes
    obtain ⟨_, -, w, hw, -⟩ := hes
    exact absurd hw (hfail room w)

/-- Members of which the first has a name that cannot be read. -/
theorem unreadable_memberThen {fuel room : Nat} {skip : Option Fault} {ls : List Lexeme}
    {es : List (String × Value)} (f : Fault)
    (h : readMembers room (memberThen (fuel + 1) ⟨.error f, skip⟩ ls).1 = .ok es) :
    (memberThen (fuel + 1) ⟨.error f, skip⟩ ls).2.1.inObject ≠ none := by
  unfold memberThen at h
  split at h <;> cases h

mutual

theorem settled_ofLexemes : ∀ (fuel : Nat) {ls : List Lexeme}, Ended ls → 3 * ls.length ≤ fuel →
    Settled ls.length (ofLexemes fuel ls)
  | _, [], h, _ => by cases h
  | 0, _ :: _, _, hfuel => by simp at hfuel
  | fuel + 1, ⟨token, start⟩ :: rest, h, hfuel => by
    rw [List.length_cons] at hfuel
    cases token with
    | null fault => exact settled_null h
    | scalar read skip => exact settled_scalar h
    | string read skip => exact settled_string h
    | openArray =>
      have hitems := settled_itemsOf fuel true (h.tail rfl) (by omega)
      rw [ofLexemes_openArray]
      rcases hitems with ⟨⟨vs, hvs⟩, hstop, hrest, hlt⟩ | hfail
      · refine .inl ⟨⟨.array vs, ?_⟩, hrest, Nat.lt_succ_of_lt hlt⟩
        rw [hstop]
        exact .array hvs
      · exact .inr (unreadable_array hfail)
    | openObject =>
      have hmembers := settled_membersOf fuel true (h.tail rfl) (by omega)
      rw [ofLexemes_openObject]
      rcases hmembers with ⟨⟨es, hes⟩, hstop, hrest, hlt⟩ | hfail
      · refine .inl ⟨⟨.object es, ?_⟩, hrest, Nat.lt_succ_of_lt hlt⟩
        rw [hstop]
        exact .object hes
      · exact .inr (unreadable_object hfail)
    | _ => exact .inr fun room v hv => by cases hv

theorem settled_itemsOf : ∀ (fuel : Nat) (first : Bool) {ls : List Lexeme}, Ended ls →
    3 * ls.length + 2 ≤ fuel → ItemsSettled ls.length (itemsOf fuel first ls)
  | _, _, [], h, _ => by cases h
  | 0, _, _ :: _, _, hfuel => by simp at hfuel
  | fuel + 1, true, ⟨token, start⟩ :: rest, h, hfuel => by
    have hitem := settled_itemThen fuel h (by omega)
    cases token with
    | closeArray => exact .inl ⟨⟨[], .nil⟩, rfl, h.tail rfl, Nat.lt_succ_self _⟩
    | finish => exact .inr fun _ _ _ => by rintro ⟨⟩
    | _ => exact hitem
  | fuel + 1, false, ⟨token, start⟩ :: rest, h, hfuel => by
    rw [List.length_cons] at hfuel
    cases token with
    | closeArray => exact .inl ⟨⟨[], .nil⟩, rfl, h.tail rfl, Nat.lt_succ_self _⟩
    | comma =>
      have hrest := h.tail rfl
      have hitem := settled_itemThen fuel hrest (by omega)
      cases rest with
      | nil => cases hrest
      | cons l rest =>
        obtain ⟨token, start'⟩ := l
        cases token with
        | closeArray | finish => exact .inr fun _ _ _ => by rintro ⟨⟩
        | _ => exact hitem.mono (Nat.le_succ _)
    | _ => exact .inr fun _ _ _ => by rintro ⟨⟩

theorem settled_itemThen : ∀ (fuel : Nat) {ls : List Lexeme}, Ended ls →
    3 * ls.length + 1 ≤ fuel → ItemsSettled ls.length (itemThen fuel ls)
  | 0, _, _, hfuel => by simp at hfuel
  | fuel + 1, ls, h, hfuel => by
    rw [itemThen_succ]
    refine itemsSettled_cons (settled_ofLexemes fuel h (by omega)) fun hrest hlt => ?_
    exact settled_itemsOf fuel false hrest (by omega)

theorem settled_membersOf : ∀ (fuel : Nat) (first : Bool) {ls : List Lexeme}, Ended ls →
    3 * ls.length + 2 ≤ fuel → MembersSettled ls.length (membersOf fuel first ls)
  | _, _, [], h, _ => by cases h
  | 0, _, _ :: _, _, hfuel => by simp at hfuel
  | fuel + 1, true, ⟨token, start⟩ :: rest, h, hfuel => by
    rw [List.length_cons] at hfuel
    cases token with
    | closeObject => exact .inl ⟨⟨[], .nil⟩, rfl, h.tail rfl, Nat.lt_succ_self _⟩
    | string read skip =>
      have hmember := settled_memberThen fuel h (by omega)
      exact hmember.mono (Nat.le_succ _)
    | _ => exact .inr fun _ _ _ => by rintro ⟨⟩
  | fuel + 1, false, ⟨token, start⟩ :: rest, h, hfuel => by
    rw [List.length_cons] at hfuel
    cases token with
    | closeObject => exact .inl ⟨⟨[], .nil⟩, rfl, h.tail rfl, Nat.lt_succ_self _⟩
    | comma =>
      have hrest := h.tail rfl
      cases rest with
      | nil => cases hrest
      | cons l rest =>
        obtain ⟨token, start'⟩ := l
        simp only [List.length_cons] at hfuel ⊢
        cases token with
        | string read skip =>
          have hmember := settled_memberThen fuel hrest (by omega)
          exact hmember.mono (by omega)
        | _ => exact .inr fun _ _ _ => by rintro ⟨⟩
    | _ => exact .inr fun _ _ _ => by rintro ⟨⟩

theorem settled_memberThen : ∀ (fuel : Nat) {start : Nat} {read : Except Fault String}
    {skip : Option Fault} {ls : List Lexeme}, Ended (⟨.string read skip, start⟩ :: ls) →
      3 * ls.length + 1 ≤ fuel → MembersSettled ls.length (memberThen fuel ⟨read, skip⟩ ls)
  | 0, _, _, _, _, _, hfuel => by simp at hfuel
  | fuel + 1, start, read, skip, ls, h, hfuel => by
    cases read with
    | error f => exact .inr fun _ _ hes => unreadable_memberThen f hes
    | ok s =>
      obtain rfl := h.coherent s rfl
      have hls := h.tail rfl
      cases ls with
      | nil => cases hls
      | cons l rest =>
        obtain ⟨token, start'⟩ := l
        rw [List.length_cons] at hfuel ⊢
        cases token with
        | colon =>
          have hvalue := settled_ofLexemes fuel (hls.tail rfl) (by omega)
          rw [memberThen_colon]
          refine MembersSettled.mono (membersSettled_cons hvalue ?_) (Nat.le_succ _)
          exact fun hrest hlt => settled_membersOf fuel false hrest (by omega)
        | _ => exact .inr fun _ _ hes => by cases hes

end

end Tree

/-- What can be read from a text was met without a fault. -/
theorem Parsed.spells_of_read {text : String} {room : Nat} {v : Value}
    (h : (Parsed.ofText text).root.read room = .ok v) :
    (Parsed.ofText text).root.Spells v ∧ v.depth ≤ room := by
  have hsettled : Tree.Settled (lexemes 0 text.toList).length
      (Tree.ofLexemes (3 * (lexemes 0 text.toList).length + 3) (lexemes 0 text.toList)) :=
    Tree.settled_ofLexemes _ (ended_lexemes 0 text.toList) (Nat.le_add_right _ _)
  rcases hsettled with ⟨⟨w, hw⟩, -⟩ | hfail
  · obtain ⟨rfl, hdepth⟩ := hw.read_eq_ok_iff.mp h
    exact ⟨hw, hdepth⟩
  · exact absurd h (hfail room v)

/-- A text holds a value without a fault, and nothing behind it. -/
structure Spelled (text : String) (v : Value) : Prop where
  root : (Parsed.ofText text).root.Spells v
  trailing : (Parsed.ofText text).trailing = none

/-- A text is read as a value exactly if it holds one that is not nested too deep. -/
theorem Value.ofText_eq_ok_iff {text : String} {w : Value} :
    Value.ofText text = .ok w ↔
      ∃ v, Spelled text v ∧ v.depth ≤ Tree.maxDepth ∧ v.merged = w := by
  rw [Value.ofText, Parsed.finish_eq_ok_iff, map_eq_ok_iff]
  constructor
  · rintro ⟨⟨v, hread, rfl⟩, htrailing⟩
    obtain ⟨hroot, hdepth⟩ := Parsed.spells_of_read hread
    exact ⟨v, ⟨hroot, htrailing⟩, hdepth, rfl⟩
  · rintro ⟨v, h, hdepth, rfl⟩
    exact ⟨⟨v, h.root.read hdepth, rfl⟩, h.trailing⟩

end RuleGraph.Json
