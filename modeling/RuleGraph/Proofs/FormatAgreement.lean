import RuleGraph.Json.Record
import RuleGraph.Proofs.ReadableText

/-!
# Formats agree on trees and values

A format reads a tree without faults exactly as it reads the value that the tree holds
(`Format.Agrees`), provided that no member name is repeated and that there is room for the nesting.
Each way to build a format keeps this, so it holds of every format that is built in these ways.
-/

namespace RuleGraph.Json

/-- A format reads the same from a tree without faults and from its value. -/
def Format.Agrees {α : Type} (f : Format α) : Prop :=
  ∀ ⦃t : Tree⦄ ⦃v : Value⦄ ⦃room : Nat⦄, t.Spells v → v.Distinct → v.depth ≤ room →
    ∀ a, f.ofTree room t = .ok a ↔ f.ofValue v = .ok a

namespace Format

variable {α β : Type}

theorem settle_none (a : α) : settle a none = .ok a := rfl

theorem exists_enter_eq_ok {room depth : Nat} (h : depth + 1 ≤ room) :
    ∃ inner, (∀ start, enter start room = .ok inner) ∧ depth ≤ inner := by
  cases room with
  | zero => omega
  | succ inner => exact ⟨inner, fun _ => rfl, by omega⟩

/-! ## Scalars and whole values -/

theorem Agrees.map (g : α → β) {f : Format α} (h : f.Agrees) : (f.map g).Agrees := by
  intro t v room ht hd hroom b
  simp only [Format.map, map_eq_ok_iff, h ht hd hroom]

theorem agrees_ofScalar {f : Value → Except Mismatch α}
    (harray : ∀ items a, f (.array items) ≠ .ok a)
    (hobject : ∀ members a, f (.object members) ≠ .ok a) : (ofScalar f).Agrees := by
  intro t v room ht _ _ a
  cases ht with
  | array h =>
    simp only [ofScalar, glance, mapError_eq_ok_iff]
    exact iff_of_false (harray _ a) (harray _ a)
  | object h =>
    simp only [ofScalar, glance, mapError_eq_ok_iff]
    exact iff_of_false (hobject _ a) (hobject _ a)
  | _ => exact mapError_eq_ok_iff

theorem agrees_bool : bool.Agrees := by
  apply agrees_ofScalar <;> rintro _ _ ⟨⟩

theorem agrees_string : string.Agrees := by
  apply agrees_ofScalar <;> rintro _ _ ⟨⟩

theorem agrees_unit : unit.Agrees := by
  apply agrees_ofScalar <;> rintro _ _ ⟨⟩

theorem agrees_natural? (bits : Nat) : (ofScalar (natural? bits)).Agrees := by
  apply agrees_ofScalar <;> rintro _ _ ⟨⟩

theorem agrees_word64 : word64.Agrees := Agrees.map _ (agrees_natural? 64)

theorem agrees_word32 : word32.Agrees := Agrees.map _ (agrees_natural? 32)

theorem agrees_whole (f : Value → Except Mismatch α) : (whole f).Agrees := by
  intro t v room ht hd hroom a
  simp only [whole, ht.read hroom, Value.merged_of_distinct v hd, mapError_eq_ok_iff]

/-! ## Optional values and lists -/

theorem Agrees.optional {f : Format α} (h : f.Agrees) : (optional f).Agrees := by
  intro t v room ht hd hroom a
  cases ht with
  | null => exact Iff.of_eq (by simp [Format.optional, Value.isNull])
  | _ =>
    simp only [Format.optional, Value.isNull, Bool.false_eq_true, if_false, map_eq_ok_iff]
    exact exists_congr fun b => and_congr_left fun _ => h (by constructor <;> assumption) hd hroom b

theorem Agrees.mapM {f : Format α} (h : f.Agrees) {room : Nat} {items : List Tree}
    {vs : List Value} (hs : Tree.SpellsItems items vs) (hd : Value.DistinctItems vs)
    (hroom : Value.depthItems vs ≤ room) (as : List α) :
    items.mapM (f.ofTree room) = .ok as ↔ vs.mapM f.ofValue = .ok as := by
  induction items generalizing vs as with
  | nil =>
    cases hs
    simp only [List.mapM_nil, pure_eq_ok_iff]
  | cons t items ih =>
    cases hs with
    | cons ht hs =>
      rw [Value.DistinctItems] at hd
      rw [Value.depthItems, Nat.max_le] at hroom
      simp only [List.mapM_cons, bind_eq_ok_iff, h ht hd.1 hroom.1, ih hs hd.2 hroom.2,
        pure_eq_ok_iff]

theorem Agrees.list {f : Format α} (h : f.Agrees) : (list f).Agrees := by
  intro t v room ht hd hroom as
  cases ht with
  | array hs =>
    rw [Value.Distinct] at hd
    rw [Value.depth] at hroom
    obtain ⟨inner, henter, hinner⟩ := exists_enter_eq_ok hroom
    simp only [Format.list, henter, bind_eq_ok_iff, Except.ok.injEq, exists_eq_left',
      h.mapM hs hd hinner, Stop.inArray, settle_none, exists_eq_right]
  | _ => exact iff_of_false (by rintro ⟨⟩) (by rintro ⟨⟩)

/-! ## Enumerations -/

theorem unit_ofValue_eq_ok_iff {v : Value} {a : Unit} : unit.ofValue v = .ok a ↔ v.isNull := by
  cases v <;> simp [unit, ofScalar, Value.isNull]

theorem agrees_choice (variants : List (String × α)) : (choice variants).Agrees := by
  intro t v room ht hd hroom a
  cases ht with
  | string => exact mapError_eq_ok_iff
  | object hs =>
    rw [Value.Distinct] at hd
    rw [Value.depth] at hroom
    obtain ⟨inner, henter, hinner⟩ := exists_enter_eq_ok hroom
    simp only [choice, henter, bind_eq_ok_iff, Except.ok.injEq, exists_eq_left']
    cases hs with
    | nil => exact iff_of_false (by rintro ⟨⟩) (by rintro ⟨⟩)
    | cons ht hs =>
      rw [Value.DistinctMembers] at hd
      rw [Value.depthMembers, Nat.max_le] at hinner
      simp only [variantOfMembers, bind_eq_ok_iff, mapError_eq_ok_iff, Except.ok.injEq,
        exists_eq_left', agrees_unit ht hd.2.1 hinner.1, unit_ofValue_eq_ok_iff]
      cases hs with
      | nil =>
        simp only [variantOfValue, bind_eq_ok_iff]
        refine exists_congr fun b => and_congr_right fun _ => ?_
        rename_i v _
        cases v.isNull <;> simp
      | cons => exact iff_of_false (by rintro ⟨_, -, _, -, ⟨⟩⟩) (by rintro ⟨⟩)
  | _ => exact iff_of_false (by rintro ⟨⟩) (by rintro ⟨⟩)

end Format

/-! ## Records -/

section Records

variable {σ α : Type} {members : List (Member σ)}

theorem Member.agrees_required {name : String} {get : σ → Option α} {set : Option α → σ → σ}
    {f : Format α} (h : f.Agrees) : (Member.required name get set f).fill.Agrees :=
  Format.Agrees.map _ h

theorem Member.agrees_defaulted {name : String} {get : σ → Option α} {set : Option α → σ → σ}
    {f : Format α} (h : f.Agrees) : (Member.defaulted name get set f).fill.Agrees :=
  Format.Agrees.map _ h

namespace Record

theorem fillTree_eq_ok_iff (hm : ∀ m ∈ members, m.fill.Agrees) {room : Nat}
    {ts : List (Name × Tree)} {entries : List (String × Value)}
    (hs : Tree.SpellsMembers ts entries) (hd : Value.DistinctMembers entries)
    (hroom : Value.depthMembers entries ≤ room) (draft d : σ) :
    fillTree members room ts draft = .ok d ↔
      fillMembers members (·.ofValue) entries draft = .ok d := by
  induction ts generalizing entries draft with
  | nil =>
    cases hs
    simp only [fillTree, fillMembers, Except.ok.injEq]
  | cons entry ts ih =>
    cases hs with
    | @cons name _ v _ entries ht hs =>
      rw [Value.DistinctMembers] at hd
      rw [Value.depthMembers, Nat.max_le] at hroom
      have ih := ih hs hd.2 hroom.2
      simp only [fillTree, fillMembers, bind_eq_ok_iff, mapError_eq_ok_iff, Except.ok.injEq,
        exists_eq_left']
      cases hfind : members.find? (·.name = name) with
      | none => simp only [ht.skip, Format.settle_none, bind_eq_ok_iff, exists_const, true_and, ih]
      | some m =>
        have hagrees := hm m (List.mem_of_find?_eq_some hfind)
        by_cases hfilled : m.isFilled draft
        · simp only [if_pos hfilled, reduceCtorEq]
        · simp only [if_neg hfilled, bind_eq_ok_iff, hagrees ht hd.1 hroom.1, ih]

theorem fillPlaces_eq_ok_iff (r : Record σ α) (length : Nat) {room : Nat} :
    ∀ {ms : List (Member σ)}, (∀ m ∈ ms, m.fill.Agrees) →
      ∀ {items : List Tree} {vs : List Value}, Tree.SpellsItems items vs →
        Value.DistinctItems vs → Value.depthItems vs ≤ room → ∀ draft d,
          fillPlaces r room .closed ms items draft = .ok (d, []) ↔
            fillItems r (·.ofValue) length ms vs draft = .ok d
  | [], _, _, _, .nil, _, _, draft, d => by
    simp [fillPlaces, fillItems]
  | [], _, _, _, .cons .., _, _, draft, d => by
    simp [fillPlaces, fillItems]
  | m :: ms, hm, _, _, .nil, hd, hroom, draft, d => by
    have ih := fillPlaces_eq_ok_iff r length
      (fun m h => hm m (List.mem_cons_of_mem _ h)) .nil hd hroom
    simp only [fillPlaces, fillItems, Stop.inArray, Format.settle_none, bind_eq_ok_iff,
      exists_const, true_and]
    cases m.isRequired with
    | true => exact iff_of_false (by rintro ⟨⟩) (by rintro ⟨⟩)
    | false => exact ih draft d
  | m :: ms, hm, _, _, .cons ht hs, hd, hroom, draft, d => by
    rw [Value.DistinctItems] at hd
    rw [Value.depthItems, Nat.max_le] at hroom
    have ih := fillPlaces_eq_ok_iff r length
      (fun m h => hm m (List.mem_cons_of_mem _ h)) hs hd.2 hroom.2
    simp only [fillPlaces, fillItems, bind_eq_ok_iff,
      hm m List.mem_cons_self ht hd.1 hroom.1, ih]

/-- A record agrees if its members do. -/
theorem agrees_format (r : Record σ α) (hm : ∀ m ∈ r.members, m.fill.Agrees) :
    r.format.Agrees := by
  intro t v room ht hd hroom a
  cases ht with
  | object hs =>
    rw [Value.Distinct] at hd
    rw [Value.depth] at hroom
    obtain ⟨inner, henter, hinner⟩ := Format.exists_enter_eq_ok hroom
    simp only [format, ofValue, henter, bind_eq_ok_iff, Except.ok.injEq, exists_eq_left',
      Stop.inObject, Format.settle_none, exists_const, true_and, mapError_eq_ok_iff,
      fillTree_eq_ok_iff hm hs hd.2 hinner]
  | @array start items vs hs =>
    rw [Value.Distinct] at hd
    rw [Value.depth] at hroom
    obtain ⟨inner, henter, hinner⟩ := Format.exists_enter_eq_ok hroom
    have hplaces := fillPlaces_eq_ok_iff r vs.length hm hs hd hinner r.blank
    simp only [format, ofValue, henter, bind_eq_ok_iff, Except.ok.injEq, exists_eq_left',
      ← hplaces, mapError_eq_ok_iff]
    constructor
    · rintro ⟨⟨draft, rest⟩, hdraft, b, hb, hrest⟩
      cases rest with
      | nil =>
        obtain rfl : b = a := Except.ok.inj hrest
        exact ⟨draft, hdraft, hb⟩
      | cons => cases hrest
    · rintro ⟨draft, hdraft, hb⟩
      exact ⟨(draft, []), hdraft, a, hb, rfl⟩
  | _ => exact iff_of_false (by rintro ⟨⟩) (by rintro ⟨⟩)

end Record

namespace OpenRecord

theorem fillTree_eq_ok_iff (hm : ∀ m ∈ members, m.fill.Agrees) {room : Nat}
    {ts : List (Name × Tree)} {entries : List (String × Value)}
    (hs : Tree.SpellsMembers ts entries) (hd : Value.DistinctMembers entries)
    (hroom : Value.depthMembers entries ≤ room) (draft : σ) (held : List (String × Value))
    (p : σ × List (String × Value)) :
    fillTree members room ts draft held = .ok p ↔
      Record.fillMembers members (·.ofValue) entries draft = .ok p.1 ∧
        p.2 = held.reverse ++ others members entries := by
  induction ts generalizing entries draft held with
  | nil =>
    cases hs
    obtain ⟨d, rest⟩ := p
    simp [fillTree, Record.fillMembers, others, eq_comm]
  | cons entry ts ih =>
    cases hs with
    | @cons name _ v _ entries ht hs =>
      rw [Value.DistinctMembers] at hd
      rw [Value.depthMembers, Nat.max_le] at hroom
      have ih := ih hs hd.2 hroom.2
      simp only [fillTree, Record.fillMembers, bind_eq_ok_iff, mapError_eq_ok_iff,
        Except.ok.injEq, exists_eq_left']
      cases hfind : members.find? (·.name = name) with
      | none =>
        have hothers :
            others members ((name, v) :: entries) = (name, v) :: others members entries := by
          simp [others, hfind]
        simp only [ht.read hroom.1, bind_eq_ok_iff, mapError_eq_ok_iff, Except.ok.injEq,
          exists_eq_left', ih, hothers, List.reverse_cons, List.append_assoc,
          List.singleton_append]
      | some m =>
        have hothers : others members ((name, v) :: entries) = others members entries := by
          simp [others, hfind]
        have hagrees := hm m (List.mem_of_find?_eq_some hfind)
        by_cases hfilled : m.isFilled draft
        · simp only [if_pos hfilled, reduceCtorEq, false_and]
        · simp only [if_neg hfilled, bind_eq_ok_iff, hagrees ht hd.1 hroom.1, ih, hothers,
            ← and_assoc, exists_and_right]

/-- An open record agrees if its declared members do. -/
theorem agrees_format (r : OpenRecord σ α) (hm : ∀ m ∈ r.members, m.fill.Agrees) :
    r.format.Agrees := by
  intro t v room ht hd hroom a
  cases ht with
  | object hs =>
    rw [Value.Distinct] at hd
    rw [Value.depth] at hroom
    obtain ⟨inner, henter, hinner⟩ := Format.exists_enter_eq_ok hroom
    simp only [format, ofValue, henter, bind_eq_ok_iff, Except.ok.injEq, exists_eq_left',
      Stop.inObject, Format.settle_none, exists_const, true_and, mapError_eq_ok_iff,
      fillTree_eq_ok_iff hm hs hd.2 hinner, List.reverse_nil, List.nil_append, Prod.exists]
    exact exists_congr fun draft => by simp only [and_assoc, exists_and_left, exists_eq_left]
  | _ => exact iff_of_false (by rintro ⟨⟩) (by rintro ⟨⟩)

end OpenRecord

end Records

end RuleGraph.Json
