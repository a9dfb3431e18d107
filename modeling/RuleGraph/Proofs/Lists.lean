import Mathlib.Data.List.Basic
import Mathlib.Data.List.Forall2
import Mathlib.Data.List.Nodup

/-!
# Lists, element by element

What several modules use of lists alone: cuts of lists and of concatenations, lists whose elements
are related one by one, and functions that may fail on the elements of a list.
-/

namespace RuleGraph

variable {α β γ : Type}

/-! ## Cuts -/

/-- A list is cut in one way only at the first of some element. -/
theorem append_cons_inj {c : α} {as as' bs bs' : List α} (h : c ∉ as) (h' : c ∉ as')
    (heq : as ++ c :: bs = as' ++ c :: bs') : as = as' ∧ bs = bs' := by
  induction as generalizing as' with
  | nil =>
    cases as' with
    | nil => exact ⟨rfl, (List.cons.inj heq).2⟩
    | cons a' as' =>
      rw [(List.cons.inj heq).1] at h'
      exact absurd List.mem_cons_self h'
  | cons a as ih =>
    cases as' with
    | nil =>
      rw [← (List.cons.inj heq).1] at h
      exact absurd List.mem_cons_self h
    | cons a' as' =>
      rw [List.mem_cons, not_or] at h h'
      obtain ⟨hhead, htail⟩ := List.cons.inj heq
      obtain ⟨has, hbs⟩ := ih h.2 h'.2 htail
      exact ⟨by rw [hhead, has], hbs⟩

/-- A cut through a concatenation goes through one of its parts. -/
theorem exists_cut_of_flatMap_eq {f : α → List β} {as : List α} {earlier later : List β} {b : β}
    (h : as.flatMap f = earlier ++ b :: later) :
    ∃ before a after first last, as = before ++ a :: after ∧ f a = first ++ b :: last ∧
      earlier = before.flatMap f ++ first ∧ later = last ++ after.flatMap f := by
  induction as generalizing earlier with
  | nil => simp at h
  | cons a as ih =>
    rw [List.flatMap_cons, List.append_eq_append_iff] at h
    rcases h with ⟨rest, rfl, hrest⟩ | ⟨rest, ha, hrest⟩
    · obtain ⟨before, c, after, first, last, rfl, hc, rfl, rfl⟩ := ih hrest
      exact ⟨a :: before, c, after, first, last, rfl, hc, by simp, rfl⟩
    · cases rest with
      | nil =>
        -- the cut is between two parts, so the next one that is not empty has the element in front
        obtain ⟨before, c, after, first, last, rfl, hc, hfirst, rfl⟩ := @ih [] hrest.symm
        refine ⟨a :: before, c, after, first, last, rfl, hc, ?_, rfl⟩
        rw [List.append_nil] at ha
        rw [List.flatMap_cons, List.append_assoc, ← hfirst, List.append_nil, ha]
      | cons c rest =>
        obtain ⟨rfl, rfl⟩ := List.cons.inj hrest
        exact ⟨[], a, as, earlier, rest, rfl, ha, rfl, rfl⟩

/-! ## Concatenations -/

/-- What holds of no elements and is kept by appending holds of a concatenation. -/
theorem flatMap_induction {P : List β → Prop} {f : α → List β} {as : List α} (hnil : P [])
    (happend : ∀ {xs ys}, P xs → P ys → P (xs ++ ys)) (h : ∀ a ∈ as, P (f a)) :
    P (as.flatMap f) := by
  induction as with
  | nil => exact hnil
  | cons a as ih =>
    rw [List.forall_mem_cons] at h
    exact happend h.1 (ih h.2)

/-- Only one element of a list contributes to a concatenation. -/
theorem flatMap_eq_of_mem {f : α → List β} {as : List α} {a : α} (hd : as.Nodup) (ha : a ∈ as)
    (hother : ∀ b ∈ as, b ≠ a → f b = []) : as.flatMap f = f a := by
  induction as with
  | nil => cases ha
  | cons b as ih =>
    obtain ⟨hnotin, hd⟩ := List.nodup_cons.mp hd
    rw [List.forall_mem_cons] at hother
    rw [List.flatMap_cons]
    rcases List.mem_cons.mp ha with rfl | ha
    · have hrest : as.flatMap f = [] := List.flatMap_eq_nil_iff.mpr fun b hb =>
        hother.2 b hb fun heq => hnotin (heq ▸ hb)
      rw [hrest, List.append_nil]
    · rw [hother.1 fun heq => hnotin (heq ▸ ha), ih hd ha hother.2, List.nil_append]

/-- A search through lists in a list is one through all their elements. -/
theorem findSome?_flatMap (f : β → Option γ) (g : α → List β) (as : List α) :
    (as.flatMap g).findSome? f = as.findSome? fun a => (g a).findSome? f := by
  induction as with
  | nil => rfl
  | cons a as ih =>
    rw [List.flatMap_cons, List.findSome?_append, ih, List.findSome?_cons]
    cases (g a).findSome? f <;> rfl

theorem mapIdx_map (f : α → β) (g : Nat → β → γ) (as : List α) :
    (as.map f).mapIdx g = as.mapIdx fun i a => g i (f a) := by
  simp [List.mapIdx_eq_zipIdx_map, List.zipIdx_map, Function.comp_def]

/-! ## One by one -/

section OneByOne

variable {R : α → β → Prop} {f : α → γ} {g : β → γ} {as : List α} {bs : List β}

/-- Lists have the same images exactly if their elements have them one by one. -/
theorem map_eq_map_iff_forall₂ :
    as.map f = bs.map g ↔ List.Forall₂ (fun a b => f a = g b) as bs := by
  rw [← List.forall₂_eq_eq_eq, List.forall₂_map_left_iff, List.forall₂_map_right_iff]

theorem map_eq_of_forall₂ (h : List.Forall₂ R as bs) (hR : ∀ a b, R a b → f a = g b) :
    as.map f = bs.map g :=
  map_eq_map_iff_forall₂.mpr (h.imp hR)

theorem flatMap_eq_of_forall₂ {f : α → List γ} {g : β → List γ}
    (h : List.Forall₂ (fun a b => f a = g b) as bs) : as.flatMap f = bs.flatMap g := by
  rw [List.flatMap_def, List.flatMap_def, map_eq_map_iff_forall₂.mpr h]

theorem exists_mem_of_forall₂ (h : List.Forall₂ R as bs) : ∀ b ∈ bs, ∃ a ∈ as, R a b := by
  induction h with
  | nil => simp
  | cons hab _ ih =>
    refine List.forall_mem_cons.mpr ⟨⟨_, List.mem_cons_self, hab⟩, fun b hb => ?_⟩
    obtain ⟨a, ha, hR⟩ := ih b hb
    exact ⟨a, List.mem_cons_of_mem _ ha, hR⟩

theorem forall₂_replace {R : α → α → Prop} (hrefl : ∀ a, R a a) {a b : α} (hab : R a b)
    (before after : List α) : List.Forall₂ R (before ++ a :: after) (before ++ b :: after) :=
  List.rel_append (List.forall₂_same.mpr fun x _ => hrefl x)
    (.cons hab (List.forall₂_same.mpr fun x _ => hrefl x))

end OneByOne

/-! ## Functions that may fail -/

section MapM

variable {f : α → Option β} {as : List α}

/-- Mapping a list succeeds with a list whose elements are related to its own, one by one. -/
theorem mapM_eq_some_iff {R : α → β → Prop} {bs : List β} (h : ∀ a b, f a = some b ↔ R a b) :
    as.mapM f = some bs ↔ List.Forall₂ R as bs := by
  induction as generalizing bs with
  | nil => cases bs <;> simp
  | cons a as ih =>
    rw [List.mapM_cons, List.forall₂_cons_left_iff]
    simp only [Option.bind_eq_bind, Option.bind_eq_some_iff, Option.pure_def, Option.some.injEq,
      h, ih]
    constructor
    · rintro ⟨b, hb, bs', hbs', rfl⟩
      exact ⟨b, bs', hb, hbs', rfl⟩
    · rintro ⟨b, bs', hb, hbs', rfl⟩
      exact ⟨b, hb, bs', hbs', rfl⟩

theorem mapM_eq_some_map {g : α → β} (h : ∀ a ∈ as, f a = some (g a)) :
    as.mapM f = some (as.map g) :=
  (mapM_eq_some_iff fun _ _ => Iff.rfl).mpr
    (List.forall₂_map_right_iff.mpr (List.forall₂_same.mpr h))

theorem mapM_eq_none_iff : as.mapM f = none ↔ ∃ a ∈ as, f a = none := by
  induction as with
  | nil => simp
  | cons a as ih =>
    simp only [List.mem_cons, exists_eq_or_imp, ← ih, List.mapM_cons]
    cases f a <;> cases as.mapM f <;> simp

/-- Mapping a list succeeds if it succeeds on all elements, and gives what they give. -/
theorem mapM_eq_ite :
    as.mapM f = if as.all fun a => (f a).isSome then some (as.filterMap f) else none := by
  induction as with
  | nil => rfl
  | cons a as ih =>
    rw [List.mapM_cons, ih, List.all_cons, List.filterMap_cons]
    cases f a with
    | none => rfl
    | some b => cases as.all fun a => (f a).isSome <;> rfl

end MapM

end RuleGraph
