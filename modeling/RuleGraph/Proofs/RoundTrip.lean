import RuleGraph.Proofs.Routes

/-!
# Writing and reading back

A value is legible if its names are distinct, no floating-point number occurs in it, and its nesting
leaves room (`Value.Legible`). The text of a legible value is read on both routes as what the value
is read as (`Value.Legible.read`).
-/

namespace RuleGraph

namespace OrderedMap

variable {κ α : Type} [DecidableEq κ]

theorem find?_append {key : κ} {m m' : OrderedMap κ α} :
    find? key (m ++ m') = (find? key m).or (find? key m') := by
  induction m with
  | nil => rfl
  | cons e m ih =>
    rw [List.cons_append, find?, find?, ih]
    split <;> rfl

end OrderedMap

namespace Json

/-- A value that can be read back from its text, nested at most `n` deep. -/
structure Value.Legible (n : Nat) (v : Value) : Prop where
  distinct : v.Distinct
  floatless : v.Floatless
  depth_le : v.depth ≤ n

namespace Value

theorem Legible.mono {m n : Nat} {v : Value} (h : v.Legible m) (hmn : m ≤ n) : v.Legible n :=
  ⟨h.distinct, h.floatless, Nat.le_trans h.depth_le hmn⟩

theorem legible_bool (b : Bool) : (Value.bool b).Legible 0 := ⟨trivial, trivial, Nat.le_refl 0⟩

theorem legible_string (s : String) : (Value.string s).Legible 0 :=
  ⟨trivial, trivial, Nat.le_refl 0⟩

theorem legible_natural (n : UInt64) : (Value.natural n).Legible 0 :=
  ⟨trivial, trivial, Nat.le_refl 0⟩

theorem legible_array {n : Nat} {items : List Value} (h : ∀ v ∈ items, v.Legible n) :
    (Value.array items).Legible (n + 1) where
  distinct := by
    rw [Distinct, distinctItems_iff]
    exact fun v hv => (h v hv).distinct
  floatless := by
    rw [Floatless, floatlessItems_iff]
    exact fun v hv => (h v hv).floatless
  depth_le := by
    rw [depth, Nat.add_le_add_iff_right, depthItems_le_iff]
    exact fun v hv => (h v hv).depth_le

theorem legible_object {n : Nat} {members : List (String × Value)}
    (hd : OrderedMap.Distinct members) (h : ∀ m ∈ members, m.2.Legible n) :
    (Value.object members).Legible (n + 1) where
  distinct := by
    rw [Distinct, distinctMembers_iff]
    exact ⟨hd, fun m hm => (h m hm).distinct⟩
  floatless := by
    rw [Floatless, floatlessMembers_iff]
    exact fun m hm => (h m hm).floatless
  depth_le := by
    rw [depth, Nat.add_le_add_iff_right, depthMembers_le_iff]
    exact fun m hm => (h m hm).depth_le

end Value

/-- The ways to write a value: without blanks, and over lines. -/
def writers : List (Value → String) := [Value.compactText, Value.prettyText]

theorem spelled_of_mem_writers {write : Value → String} (hw : write ∈ writers) {v : Value}
    (h : v.Floatless) : Spelled (write v) v := by
  simp only [writers, List.mem_cons, List.not_mem_nil, or_false] at hw
  rcases hw with rfl | rfl
  · exact spelled_compactText h
  · exact spelled_prettyText h

section RoundTrip

variable {α : Type} {f : Format α} {toValue : α → Value} {text : String} {v : Value} {a : α}

/-- From a text that spells a legible value, both routes read what that value is read as. -/
theorem Value.Legible.read (hv : v.Legible Tree.maxDepth) (hs : Spelled text v) (hf : f.Agrees)
    (ha : f.ofValue v = .ok a) : f.readText text = .ok a ∧ f.readValue text = .ok a :=
  ⟨(hs.readText_eq_ok_iff hv.distinct hv.depth_le hf a).mpr ha,
    (hs.readValue_eq_ok_iff hv.distinct hv.depth_le f a).mpr ha⟩

/-- What is written is read back on both routes, and writing it once more gives the same bytes. -/
def Format.RoundTrips (f : Format α) (toValue : α → Value) : Prop :=
  ∀ a, ∀ write ∈ writers,
    (f.readText (write (toValue a)) = .ok a ∧ f.readValue (write (toValue a)) = .ok a) ∧
      ∀ b, f.readText (write (toValue a)) = .ok b ∨ f.readValue (write (toValue a)) = .ok b →
        (write (toValue b)).toUTF8 = (write (toValue a)).toUTF8

theorem Format.roundTrips (hf : f.Agrees) (hv : ∀ a, (toValue a).Legible Tree.maxDepth)
    (ha : ∀ a, f.ofValue (toValue a) = .ok a) : f.RoundTrips toValue := by
  intro a write hwrite
  obtain ⟨htext, hvalue⟩ :=
    (hv a).read (spelled_of_mem_writers hwrite (hv a).floatless) hf (ha a)
  refine ⟨⟨htext, hvalue⟩, ?_⟩
  rintro b (hb | hb)
  · rw [htext] at hb
    rw [Except.ok.inj hb]
  · rw [hvalue] at hb
    rw [Except.ok.inj hb]

end RoundTrip

end Json

open Json

/-! ## Members that may be left out -/

section SetMember

variable {α : Type} {name key : String} {toValue : α → Value} {a : Option α}

@[simp] theorem find?_setMember :
    OrderedMap.find? key (setMember name toValue a) =
      if name = key then a.map toValue else none := by
  cases a with
  | none => simp [setMember]
  | some a => simp [setMember, OrderedMap.find?_cons]

theorem forall_mem_setMember {P : String × Value → Prop} :
    (∀ m ∈ setMember name toValue a, P m) ↔ ∀ x, a = some x → P (name, toValue x) := by
  cases a <;> simp [setMember]

theorem keys_setMember_sublist :
    (OrderedMap.keys (setMember name toValue a)).Sublist [name] := by
  cases a with
  | none => exact List.nil_sublist _
  | some a => exact List.Sublist.refl _

end SetMember

end RuleGraph
