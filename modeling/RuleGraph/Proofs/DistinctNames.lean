import RuleGraph.Proofs.FaultlessTree

/-!
# Distinct member names

Putting entries one after the other leaves every key once, so a value whose repeated members were
merged has distinct member names at every depth, and so has every value that is read from a text
(`Value.distinct_of_ofText`).
-/

namespace RuleGraph

namespace OrderedMap

variable {κ α : Type} [DecidableEq κ]

theorem find?_eq_none_iff {key : κ} {m : OrderedMap κ α} : find? key m = none ↔ key ∉ keys m := by
  induction m with
  | nil => simp [keys]
  | cons e m ih =>
    by_cases h : e.1 = key
    · simp [find?, keys, h]
    · simp [find?, keys, h, Ne.symm h, ih]

theorem mem_of_find? {key : κ} {m : OrderedMap κ α} {a : α} (h : find? key m = some a) :
    (key, a) ∈ m := by
  induction m with
  | nil => cases h
  | cons e m ih =>
    obtain ⟨k, b⟩ := e
    rw [find?_cons] at h
    split at h
    · rename_i hk
      cases h
      rw [hk]
      exact List.mem_cons_self
    · exact List.mem_cons_of_mem _ (ih h)

theorem mem_put {key : κ} {value : α} {m : OrderedMap κ α} {entry : κ × α}
    (h : entry ∈ put key value m) : entry = (key, value) ∨ entry ∈ m := by
  induction m with
  | nil => exact .inl (List.mem_singleton.mp h)
  | cons e m ih =>
    unfold put at h
    split at h
    · rename_i hkey
      rcases List.mem_cons.mp h with rfl | h
      · exact .inl (by rw [hkey])
      · exact .inr (List.mem_cons_of_mem _ h)
    · rcases List.mem_cons.mp h with rfl | h
      · exact .inr List.mem_cons_self
      · exact (ih h).imp_right (List.mem_cons_of_mem _)

theorem keys_put_of_mem {key : κ} {m : OrderedMap κ α} (h : key ∈ keys m) (value : α) :
    keys (put key value m) = keys m := by
  induction m with
  | nil => cases h
  | cons e m ih =>
    unfold put
    split
    · rfl
    · rename_i hkey
      have ht : key ∈ keys m := (List.mem_cons.mp h).resolve_left (Ne.symm hkey)
      exact congrArg (e.1 :: ·) (ih ht)

theorem Distinct.put {m : OrderedMap κ α} (h : Distinct m) (key : κ) (value : α) :
    Distinct (put key value m) := by
  by_cases hkey : key ∈ keys m
  · rw [Distinct, keys_put_of_mem hkey]
    exact h
  · rw [Distinct, put_of_not_mem hkey, keys, List.map_append, List.nodup_append]
    refine ⟨h, by simp, ?_⟩
    intro k hk k' hk' heq
    rw [heq, List.mem_singleton.mp hk'] at hk
    exact hkey hk

/-- A property of maps that putting keeps holds of the map of any entries. -/
theorem ofEntries_induction {P : OrderedMap κ α → Prop} (hnil : P []) {entries : List (κ × α)}
    (hput : ∀ m, P m → ∀ e ∈ entries, P (put e.1 e.2 m)) : P (ofEntries entries) := by
  unfold ofEntries
  -- the fold starts from the empty map, the induction needs it from any
  generalize [] = m at hnil
  induction entries generalizing m with
  | nil => exact hnil
  | cons e entries ih =>
    rw [List.foldl_cons]
    refine ih (fun m hm e he => hput m hm e (List.mem_cons_of_mem _ he)) _ ?_
    exact hput m hnil e List.mem_cons_self

theorem distinct_ofEntries (entries : List (κ × α)) : Distinct (ofEntries entries) :=
  ofEntries_induction (P := Distinct) List.nodup_nil fun _ hm e _ => Distinct.put hm e.1 e.2

theorem mem_of_mem_ofEntries {entries : List (κ × α)} :
    ∀ entry ∈ ofEntries entries, entry ∈ entries := by
  refine ofEntries_induction (P := fun m => ∀ entry ∈ m, entry ∈ entries) (by simp) ?_
  intro m hm e he entry hentry
  rcases mem_put hentry with rfl | hentry
  · exact he
  · exact hm entry hentry

end OrderedMap

namespace Json

namespace Value

mutual

def decidableDistinct : (v : Value) → Decidable v.Distinct
  | .null | .bool _ | .number _ | .string _ => isTrue trivial
  | .array items => decidableDistinctItems items
  | .object members =>
    @instDecidableAnd _ _ (inferInstanceAs (Decidable (OrderedMap.Distinct members)))
      (decidableDistinctMembers members)

def decidableDistinctItems : (items : List Value) → Decidable (DistinctItems items)
  | [] => isTrue trivial
  | v :: items => @instDecidableAnd _ _ (decidableDistinct v) (decidableDistinctItems items)

def decidableDistinctMembers : (members : List (String × Value)) →
    Decidable (DistinctMembers members)
  | [] => isTrue trivial
  | (_, v) :: members =>
    @instDecidableAnd _ _ (decidableDistinct v) (decidableDistinctMembers members)

end

instance (v : Value) : Decidable v.Distinct := decidableDistinct v

theorem distinctItems_iff {items : List Value} :
    DistinctItems items ↔ ∀ v ∈ items, v.Distinct := by
  induction items with
  | nil => simp [DistinctItems]
  | cons v items ih => simp [DistinctItems, ih]

theorem distinctMembers_iff {members : List (String × Value)} :
    DistinctMembers members ↔ ∀ m ∈ members, m.2.Distinct := by
  induction members with
  | nil => simp [DistinctMembers]
  | cons m members ih => simp [DistinctMembers, ih]

mutual

/-- Merging leaves distinct names at every depth. -/
theorem distinct_merged : ∀ v : Value, v.merged.Distinct
  | .null | .bool _ | .number _ | .string _ => by simp [merged, Distinct]
  | .array items => by
    rw [merged, Distinct]
    exact distinct_mergedItems items
  | .object members => by
    rw [merged, Distinct, distinctMembers_iff]
    refine ⟨OrderedMap.distinct_ofEntries _, fun m hm => ?_⟩
    exact distinctMembers_iff.mp (distinct_mergedMembers members) m
      (OrderedMap.mem_of_mem_ofEntries m hm)

theorem distinct_mergedItems : ∀ items : List Value, DistinctItems (mergedItems items)
  | [] => by simp [mergedItems, DistinctItems]
  | v :: items => by
    rw [mergedItems, DistinctItems]
    exact ⟨distinct_merged v, distinct_mergedItems items⟩

theorem distinct_mergedMembers : ∀ members : List (String × Value),
    DistinctMembers (mergedMembers members)
  | [] => by simp [mergedMembers, DistinctMembers]
  | (_, v) :: members => by
    rw [mergedMembers, DistinctMembers]
    exact ⟨distinct_merged v, distinct_mergedMembers members⟩

end

end Value

/-- A value that was read from a text has distinct member names. -/
theorem Value.distinct_of_ofText {text : String} {v : Value} (h : Value.ofText text = .ok v) :
    v.Distinct := by
  rw [Value.ofText, Parsed.finish_eq_ok_iff, map_eq_ok_iff] at h
  obtain ⟨⟨raw, -, rfl⟩, -⟩ := h
  exact distinct_merged raw

end Json

end RuleGraph
