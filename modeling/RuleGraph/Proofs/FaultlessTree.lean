import RuleGraph.Json.Tree

/-!
# Trees without faults

`Tree.Spells t v` says that no fault was met in the tree `t` and that it holds the value `v`, with
repeated member names as they are. Such a tree can be skipped (`Tree.Spells.skip`), and reading it
gives its value exactly if there is room for its nesting (`Tree.Spells.read_eq_ok_iff`).
-/

namespace RuleGraph

/-! ## Outcomes -/

section Outcomes

variable {ε ε' α β : Type}

theorem bind_eq_ok_iff {x : Except ε α} {f : α → Except ε β} {b : β} :
    (x >>= f) = .ok b ↔ ∃ a, x = .ok a ∧ f a = .ok b := by
  cases x with
  | error e => simp [bind, Except.bind]
  | ok a => simp [bind, Except.bind]

theorem pure_eq_ok_iff {a b : α} : (pure a : Except ε α) = .ok b ↔ a = b := by
  simp [pure, Except.pure]

theorem map_eq_ok_iff {x : Except ε α} {f : α → β} {b : β} :
    x.map f = .ok b ↔ ∃ a, x = .ok a ∧ f a = b := by
  cases x <;> simp [Except.map]

theorem mapError_eq_ok_iff {x : Except ε α} {f : ε → ε'} {a : α} :
    x.mapError f = .ok a ↔ x = .ok a := by
  cases x with
  | error e => exact iff_of_false (by rintro ⟨⟩) (by rintro ⟨⟩)
  | ok b => constructor <;> (rintro ⟨⟩; rfl)

end Outcomes

namespace Json

theorem Parsed.finish_eq_ok_iff {ε α : Type} {p : Parsed} {fault : Fault → ε}
    {result : Except ε α} {a : α} :
    p.finish fault result = .ok a ↔ result = .ok a ∧ p.trailing = none := by
  unfold finish
  cases result with
  | error e => exact iff_of_false (by rintro ⟨⟩) (by rintro ⟨⟨⟩, -⟩)
  | ok b => cases p.trailing <;> simp

/-! ## Nesting -/

namespace Value

mutual

/-- How many arrays and objects are nested in each other. -/
def depth : Value → Nat
  | .array items => depthItems items + 1
  | .object members => depthMembers members + 1
  | .null | .bool _ | .number _ | .string _ => 0

def depthItems : List Value → Nat
  | [] => 0
  | v :: items => max (depth v) (depthItems items)

def depthMembers : List (String × Value) → Nat
  | [] => 0
  | (_, v) :: members => max (depth v) (depthMembers members)

end

theorem depthItems_le_iff {items : List Value} {n : Nat} :
    depthItems items ≤ n ↔ ∀ v ∈ items, v.depth ≤ n := by
  induction items with
  | nil => simp [depthItems]
  | cons v items ih => simp only [depthItems, Nat.max_le, List.forall_mem_cons, ih]

theorem depthMembers_le_iff {members : List (String × Value)} {n : Nat} :
    depthMembers members ≤ n ↔ ∀ m ∈ members, m.2.depth ≤ n := by
  induction members with
  | nil => simp [depthMembers]
  | cons m members ih => simp only [depthMembers, Nat.max_le, List.forall_mem_cons, ih]

end Value

/-! ## Values that trees hold -/

namespace Tree

mutual

/-- No fault was met in a tree, and it holds a value. -/
inductive Spells : Tree → Value → Prop
  | null {start : Nat} : Spells (.null start none) .null
  | bool {start : Nat} {b : Bool} : Spells (.scalar start (.ok (.bool b)) none) (.bool b)
  | number {start : Nat} {n : Number} : Spells (.scalar start (.ok (.number n)) none) (.number n)
  | string {s : String} : Spells (.string (.ok s) none) (.string s)
  | array {start : Nat} {items : List Tree} {vs : List Value} (h : SpellsItems items vs) :
      Spells (.array start items .closed) (.array vs)
  | object {start : Nat} {members : List (Name × Tree)} {entries : List (String × Value)}
      (h : SpellsMembers members entries) : Spells (.object start members .closed) (.object entries)

/-- Items hold values, one for one. -/
inductive SpellsItems : List Tree → List Value → Prop
  | nil : SpellsItems [] []
  | cons {t : Tree} {v : Value} {items : List Tree} {vs : List Value} (h : Spells t v)
      (hs : SpellsItems items vs) : SpellsItems (t :: items) (v :: vs)

/-- Members hold names and values, one for one. -/
inductive SpellsMembers : List (Name × Tree) → List (String × Value) → Prop
  | nil : SpellsMembers [] []
  | cons {name : String} {t : Tree} {v : Value} {members : List (Name × Tree)}
      {entries : List (String × Value)} (h : Spells t v) (hs : SpellsMembers members entries) :
      SpellsMembers ((⟨.ok name, none⟩, t) :: members) ((name, v) :: entries)

end

/-! ## Skipping -/

mutual

/-- A tree without faults can be skipped. -/
theorem Spells.skip : ∀ {t : Tree} {v : Value}, Spells t v → t.skip = none
  | .null .., _, h | .scalar .., _, h | .string .., _, h | .absent .., _, h => by
    cases h <;> rfl
  | .array _ items _, _, h => by
    cases h with
    | array h => rw [Tree.skip, SpellsItems.skip h]; rfl
  | .object _ members _, _, h => by
    cases h with
    | object h => rw [Tree.skip, SpellsMembers.skip h]; rfl

theorem SpellsItems.skip : ∀ {items : List Tree} {vs : List Value}, SpellsItems items vs →
    skipItems items = none
  | [], _, _ => by rw [skipItems]
  | t :: items, _, h => by
    cases h with
    | cons h hs => rw [skipItems, Spells.skip h, SpellsItems.skip hs]; rfl

theorem SpellsMembers.skip : ∀ {members : List (Name × Tree)} {entries : List (String × Value)},
    SpellsMembers members entries → skipMembers members = none
  | [], _, _ => by rw [skipMembers]
  | m :: members, _, h => by
    cases h with
    | cons h hs => rw [skipMembers, Spells.skip h, SpellsMembers.skip hs]; rfl

end

/-! ## Reading -/

mutual

/-- A tree without faults is read as its value if there is room for it, and not at all otherwise. -/
theorem Spells.read_eq_ok_iff : ∀ {t : Tree} {v w : Value} {room : Nat}, Spells t v →
    (t.read room = .ok w ↔ w = v ∧ v.depth ≤ room)
  | .null .., _, _, _, h | .scalar .., _, _, _, h | .string .., _, _, _, h
  | .absent .., _, _, _, h => by
    cases h <;> simp [Tree.read, unlessFault, Value.depth, Except.map, eq_comm]
  | .array _ items _, _, w, 0, h => by
    cases h
    simp [Tree.read, Value.depth]
  | .array _ items _, _, w, room + 1, h => by
    cases h with
    | array h =>
      simp only [Tree.read, bind_eq_ok_iff, SpellsItems.read_eq_ok_iff h, Value.depth,
        Nat.add_le_add_iff_right, Stop.inArray, unlessFault]
      constructor
      · rintro ⟨vs, ⟨rfl, hroom⟩, heq⟩
        exact ⟨(Except.ok.inj heq).symm, hroom⟩
      · rintro ⟨rfl, hroom⟩
        exact ⟨_, ⟨rfl, hroom⟩, rfl⟩
  | .object _ members _, _, w, 0, h => by
    cases h
    simp [Tree.read, Value.depth]
  | .object _ members _, _, w, room + 1, h => by
    cases h with
    | object h =>
      simp only [Tree.read, bind_eq_ok_iff, SpellsMembers.read_eq_ok_iff h, Value.depth,
        Nat.add_le_add_iff_right, Stop.inObject, unlessFault]
      constructor
      · rintro ⟨entries, ⟨rfl, hroom⟩, heq⟩
        exact ⟨(Except.ok.inj heq).symm, hroom⟩
      · rintro ⟨rfl, hroom⟩
        exact ⟨_, ⟨rfl, hroom⟩, rfl⟩

theorem SpellsItems.read_eq_ok_iff : ∀ {items : List Tree} {vs ws : List Value} {room : Nat},
    SpellsItems items vs →
      (readItems room items = .ok ws ↔ ws = vs ∧ Value.depthItems vs ≤ room)
  | [], _, _, _, h => by
    cases h
    simp [readItems, Value.depthItems, eq_comm]
  | t :: items, _, ws, room, h => by
    cases h with
    | cons h hs =>
      simp only [readItems, bind_eq_ok_iff, Spells.read_eq_ok_iff h,
        SpellsItems.read_eq_ok_iff hs, Value.depthItems, Nat.max_le]
      constructor
      · rintro ⟨w, ⟨rfl, hw⟩, ws, ⟨rfl, hws⟩, heq⟩
        exact ⟨(Except.ok.inj heq).symm, hw, hws⟩
      · rintro ⟨rfl, hw, hws⟩
        exact ⟨_, ⟨rfl, hw⟩, _, ⟨rfl, hws⟩, rfl⟩

theorem SpellsMembers.read_eq_ok_iff : ∀ {members : List (Name × Tree)}
    {entries ws : List (String × Value)} {room : Nat}, SpellsMembers members entries →
      (readMembers room members = .ok ws ↔ ws = entries ∧ Value.depthMembers entries ≤ room)
  | [], _, _, _, h => by
    cases h
    simp [readMembers, Value.depthMembers, eq_comm]
  | m :: members, _, ws, room, h => by
    cases h with
    | cons h hs =>
      simp only [readMembers, bind_eq_ok_iff, Spells.read_eq_ok_iff h,
        SpellsMembers.read_eq_ok_iff hs, Value.depthMembers, Nat.max_le]
      constructor
      · rintro ⟨_, hname, w, ⟨rfl, hw⟩, ws, ⟨rfl, hws⟩, heq⟩
        cases hname
        exact ⟨(Except.ok.inj heq).symm, hw, hws⟩
      · rintro ⟨rfl, hw, hws⟩
        exact ⟨_, rfl, _, ⟨rfl, hw⟩, _, ⟨rfl, hws⟩, rfl⟩

end

theorem Spells.read {t : Tree} {v : Value} {room : Nat} (h : Spells t v) (hroom : v.depth ≤ room) :
    t.read room = .ok v := h.read_eq_ok_iff.mpr ⟨rfl, hroom⟩

end Tree

end Json

end RuleGraph
