import RuleGraph.Proofs.DistinctNames
import RuleGraph.Proofs.ReadableText

/-!
# What any tree of a text is read as

A tree of a text may hold faults, and a part of it may be read all the same. Its scalars are never
`null`, an array or an object, because no lexeme is (`Tree.Coherent`). So what is read from a part
is nested no deeper than there is room, and it is `null` only where the text says so.
-/

namespace RuleGraph.Json

namespace Tree

mutual

/-- At every depth, what is read as a scalar is a boolean or a number. -/
def Coherent : Tree → Prop
  | .scalar _ read skip => (Token.scalar read skip).Coherent
  | .array _ items _ => CoherentItems items
  | .object _ members _ => CoherentMembers members
  | .null .. | .string .. | .absent _ => True

def CoherentItems : List Tree → Prop
  | [] => True
  | t :: ts => Coherent t ∧ CoherentItems ts

def CoherentMembers : List (Name × Tree) → Prop
  | [] => True
  | (_, t) :: ts => Coherent t ∧ CoherentMembers ts

end

theorem coherentItems_iff {items : List Tree} : CoherentItems items ↔ ∀ t ∈ items, t.Coherent := by
  induction items with
  | nil => simp [CoherentItems]
  | cons t items ih => simp [CoherentItems, ih]

theorem coherentMembers_iff {members : List (Name × Tree)} :
    CoherentMembers members ↔ ∀ m ∈ members, m.2.Coherent := by
  induction members with
  | nil => simp [CoherentMembers]
  | cons m members ih => simp [CoherentMembers, ih]

/-! ## Trees of lexemes -/

def AllCoherent (ls : List Lexeme) : Prop := ∀ l ∈ ls, l.token.Coherent

theorem AllCoherent.tail {l : Lexeme} {ls : List Lexeme} (h : AllCoherent (l :: ls)) :
    AllCoherent ls := fun m hm => h m (List.mem_cons_of_mem _ hm)

theorem allCoherent_nil : AllCoherent [] := by
  intro l hl
  cases hl

theorem allCoherent_of_ended {ls : List Lexeme} (h : Ended ls) : AllCoherent ls := by
  induction h with
  | last _ hl =>
    intro m hm
    rw [List.mem_singleton.mp hm]
    exact hl
  | cons _ hl _ ih =>
    intro m hm
    rcases List.mem_cons.mp hm with rfl | hm
    · exact hl
    · exact ih m hm

mutual

theorem coherent_ofLexemes : ∀ (fuel : Nat) {ls : List Lexeme}, AllCoherent ls →
    (ofLexemes fuel ls).1.Coherent ∧ AllCoherent (ofLexemes fuel ls).2
  | 0, [], _ | 0, _ :: _, _ | _ + 1, [], _ => ⟨trivial, allCoherent_nil⟩
  | fuel + 1, ⟨token, start⟩ :: rest, h => by
    have hrest := h.tail
    have hitems := coherent_itemsOf fuel true hrest
    have hmembers := coherent_membersOf fuel true hrest
    cases token with
    | null => exact ⟨trivial, hrest⟩
    | scalar => exact ⟨h _ List.mem_cons_self, hrest⟩
    | string => exact ⟨trivial, hrest⟩
    | openArray => exact hitems
    | openObject => exact hmembers
    | _ => exact ⟨trivial, allCoherent_nil⟩

theorem coherent_itemsOf : ∀ (fuel : Nat) (first : Bool) {ls : List Lexeme}, AllCoherent ls →
    CoherentItems (itemsOf fuel first ls).1 ∧ AllCoherent (itemsOf fuel first ls).2.2
  | 0, _, [], _ | 0, _, _ :: _, _ | _ + 1, _, [], _ => ⟨trivial, allCoherent_nil⟩
  | fuel + 1, true, ⟨token, start⟩ :: rest, h => by
    have hitem := coherent_itemThen fuel h
    cases token with
    | closeArray => exact ⟨trivial, h.tail⟩
    | finish => exact ⟨trivial, allCoherent_nil⟩
    | _ => exact hitem
  | fuel + 1, false, ⟨token, start⟩ :: rest, h => by
    have hrest := h.tail
    have hitem := coherent_itemThen fuel hrest
    cases token with
    | closeArray => exact ⟨trivial, hrest⟩
    | comma =>
      cases rest with
      | nil => exact hitem
      | cons l rest =>
        obtain ⟨token, start'⟩ := l
        cases token with
        | closeArray | finish => exact ⟨trivial, allCoherent_nil⟩
        | _ => exact hitem
    | _ => exact ⟨trivial, allCoherent_nil⟩

theorem coherent_itemThen : ∀ (fuel : Nat) {ls : List Lexeme}, AllCoherent ls →
    CoherentItems (itemThen fuel ls).1 ∧ AllCoherent (itemThen fuel ls).2.2
  | 0, _, _ => ⟨trivial, allCoherent_nil⟩
  | fuel + 1, ls, h => by
    obtain ⟨hitem, hrest⟩ := coherent_ofLexemes fuel h
    obtain ⟨hitems, hrest'⟩ := coherent_itemsOf fuel false hrest
    rw [itemThen_succ]
    exact ⟨⟨hitem, hitems⟩, hrest'⟩

theorem coherent_membersOf : ∀ (fuel : Nat) (first : Bool) {ls : List Lexeme}, AllCoherent ls →
    CoherentMembers (membersOf fuel first ls).1 ∧ AllCoherent (membersOf fuel first ls).2.2
  | 0, _, [], _ | 0, _, _ :: _, _ | _ + 1, _, [], _ => ⟨trivial, allCoherent_nil⟩
  | fuel + 1, true, ⟨token, start⟩ :: rest, h => by
    cases token with
    | closeObject => exact ⟨trivial, h.tail⟩
    | string read skip => exact coherent_memberThen fuel ⟨read, skip⟩ h.tail
    | _ => exact ⟨trivial, allCoherent_nil⟩
  | fuel + 1, false, ⟨token, start⟩ :: rest, h => by
    cases token with
    | closeObject => exact ⟨trivial, h.tail⟩
    | comma =>
      cases rest with
      | nil => exact ⟨trivial, allCoherent_nil⟩
      | cons l rest =>
        obtain ⟨token, start'⟩ := l
        cases token with
        | string read skip => exact coherent_memberThen fuel ⟨read, skip⟩ h.tail.tail
        | _ => exact ⟨trivial, allCoherent_nil⟩
    | _ => exact ⟨trivial, allCoherent_nil⟩

theorem coherent_memberThen : ∀ (fuel : Nat) (name : Name) {ls : List Lexeme}, AllCoherent ls →
    CoherentMembers (memberThen fuel name ls).1 ∧ AllCoherent (memberThen fuel name ls).2.2
  | 0, _, _, _ => ⟨trivial, allCoherent_nil⟩
  | fuel + 1, name, [], _ => ⟨⟨trivial, trivial⟩, allCoherent_nil⟩
  | fuel + 1, name, ⟨token, start⟩ :: rest, h => by
    cases token with
    | colon =>
      obtain ⟨hvalue, hrest⟩ := coherent_ofLexemes fuel h.tail
      obtain ⟨hmembers, hrest'⟩ := coherent_membersOf fuel false hrest
      rw [memberThen_colon]
      exact ⟨⟨hvalue, hmembers⟩, hrest'⟩
    | _ => exact ⟨⟨trivial, trivial⟩, allCoherent_nil⟩

end

end Tree

theorem Parsed.coherent_root (text : String) : (Parsed.ofText text).root.Coherent := by
  have hlexemes := Tree.allCoherent_of_ended (ended_lexemes 0 text.toList)
  have h := Tree.coherent_ofLexemes (3 * (lexemes 0 text.toList).length + 3) hlexemes
  exact h.1

/-! ## Reading coherent trees -/

namespace Tree

/-- The trees directly inside a tree. -/
def children : Tree → List Tree
  | .array _ items _ => items
  | .object _ members _ => members.map Prod.snd
  | .null .. | .scalar .. | .string .. | .absent _ => []

theorem Coherent.of_mem_children {t child : Tree} (h : t.Coherent) (hc : child ∈ t.children) :
    child.Coherent := by
  cases t with
  | array start items stop =>
    rw [Coherent, coherentItems_iff] at h
    exact h child hc
  | object start members stop =>
    rw [Coherent, coherentMembers_iff] at h
    obtain ⟨m, hm, rfl⟩ := List.mem_map.mp hc
    exact h m hm
  | _ => cases hc

/-- What is read from a coherent tree is `null` only if the tree is. -/
theorem Coherent.exists_null {t : Tree} {room : Nat} (h : t.Coherent)
    (hread : t.read room = .ok .null) : ∃ start fault, t = .null start fault := by
  cases t with
  | null start fault => exact ⟨start, fault, rfl⟩
  | scalar start read skip =>
    obtain ⟨-, ⟨b, hb⟩ | ⟨n, hn⟩⟩ := h _ hread
    · cases hb
    · cases hn
  | string read skip =>
    obtain ⟨s, -, hs⟩ := map_eq_ok_iff.mp hread
    cases hs
  | absent fault => cases hread
  | array start items stop =>
    cases room with
    | zero => cases hread
    | succ room =>
      rw [read, bind_eq_ok_iff] at hread
      obtain ⟨vs, -, hstop⟩ := hread
      cases hfault : stop.inArray <;> rw [hfault] at hstop <;> cases hstop
  | object start members stop =>
    cases room with
    | zero => cases hread
    | succ room =>
      rw [read, bind_eq_ok_iff] at hread
      obtain ⟨es, -, hstop⟩ := hread
      cases hfault : stop.inObject <;> rw [hfault] at hstop <;> cases hstop

theorem unlessFault_eq_ok_iff {α : Type} {a b : α} {fault : Option Fault} :
    unlessFault a fault = .ok b ↔ fault = none ∧ a = b := by
  cases fault <;> simp [unlessFault]

mutual

/-- What is read from a coherent tree is nested no deeper than there was room. -/
theorem Coherent.depth_le : ∀ {t : Tree} {room : Nat} {v : Value}, t.Coherent →
    t.read room = .ok v → v.depth ≤ room
  | .null .., _, v, _, hread => by
    obtain ⟨-, rfl⟩ := unlessFault_eq_ok_iff.mp hread
    exact Nat.zero_le _
  | .scalar .., _, v, h, hread => by
    obtain ⟨-, ⟨b, rfl⟩ | ⟨n, rfl⟩⟩ := h v hread
    · exact Nat.zero_le _
    · exact Nat.zero_le _
  | .string .., _, v, _, hread => by
    obtain ⟨s, -, rfl⟩ := map_eq_ok_iff.mp hread
    exact Nat.zero_le _
  | .absent _, _, _, _, hread => by cases hread
  | .array .., 0, _, _, hread => by cases hread
  | .array _ items stop, room + 1, v, h, hread => by
    rw [read, bind_eq_ok_iff] at hread
    obtain ⟨vs, hvs, hstop⟩ := hread
    obtain ⟨-, rfl⟩ := unlessFault_eq_ok_iff.mp hstop
    exact Nat.succ_le_succ (CoherentItems.depth_le h hvs)
  | .object .., 0, _, _, hread => by cases hread
  | .object _ members stop, room + 1, v, h, hread => by
    rw [read, bind_eq_ok_iff] at hread
    obtain ⟨es, hes, hstop⟩ := hread
    obtain ⟨-, rfl⟩ := unlessFault_eq_ok_iff.mp hstop
    exact Nat.succ_le_succ (CoherentMembers.depth_le h hes)

theorem CoherentItems.depth_le : ∀ {items : List Tree} {room : Nat} {vs : List Value},
    CoherentItems items → readItems room items = .ok vs → Value.depthItems vs ≤ room
  | [], _, _, _, hread => by
    cases hread
    exact Nat.zero_le _
  | t :: items, room, vs, h, hread => by
    simp only [readItems, bind_eq_ok_iff, pure_eq_ok_iff] at hread
    obtain ⟨v, hv, vs, hvs, rfl⟩ := hread
    exact Nat.max_le.mpr ⟨Coherent.depth_le h.1 hv, CoherentItems.depth_le h.2 hvs⟩

theorem CoherentMembers.depth_le : ∀ {members : List (Name × Tree)} {room : Nat}
    {es : List (String × Value)}, CoherentMembers members → readMembers room members = .ok es →
      Value.depthMembers es ≤ room
  | [], _, _, _, hread => by
    cases hread
    exact Nat.zero_le _
  | (name, t) :: members, room, es, h, hread => by
    simp only [readMembers, bind_eq_ok_iff, pure_eq_ok_iff] at hread
    obtain ⟨n, -, v, hv, es, hes, rfl⟩ := hread
    exact Nat.max_le.mpr ⟨Coherent.depth_le h.1 hv, CoherentMembers.depth_le h.2 hes⟩

end

end Tree

end RuleGraph.Json
