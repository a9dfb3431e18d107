/-!
# Maps in insertion order

A map is the list of its entries, in the order in which their keys were first put. `Distinct` says
that no key occurs twice; all operations below keep it.
-/

namespace RuleGraph

/-- The entries of a map, in order. -/
abbrev OrderedMap (κ α : Type) := List (κ × α)

namespace OrderedMap

variable {κ α : Type} [DecidableEq κ]

omit [DecidableEq κ] in
def keys (m : OrderedMap κ α) : List κ := m.map Prod.fst

omit [DecidableEq κ] in
/-- No key occurs twice. -/
def Distinct (m : OrderedMap κ α) : Prop := (keys m).Nodup

instance (m : OrderedMap κ α) : Decidable (Distinct m) := inferInstanceAs (Decidable (List.Nodup _))

def find? (key : κ) : OrderedMap κ α → Option α
  | [] => none
  | (k, a) :: m => if k = key then some a else find? key m

/-- Put a value under a key: a new key goes last, an old one keeps its place. -/
def put (key : κ) (value : α) : OrderedMap κ α → OrderedMap κ α
  | [] => [(key, value)]
  | (k, a) :: m => if k = key then (k, value) :: m else (k, a) :: put key value m

/-- Remove a key; the other entries keep their order. -/
def remove (key : κ) : OrderedMap κ α → OrderedMap κ α
  | [] => []
  | (k, a) :: m => if k = key then m else (k, a) :: remove key m

/-- The map that arises when entries are put one after the other. -/
def ofEntries (entries : List (κ × α)) : OrderedMap κ α :=
  entries.foldl (fun m e => put e.1 e.2 m) []

/-! ## Small facts -/

@[simp] theorem find?_nil (key : κ) : find? key ([] : OrderedMap κ α) = none := rfl

theorem find?_cons (key k : κ) (a : α) (m : OrderedMap κ α) :
    find? key ((k, a) :: m) = if k = key then some a else find? key m := rfl

theorem find?_put_self (key : κ) (value : α) (m : OrderedMap κ α) :
    find? key (put key value m) = some value := by
  induction m with
  | nil => simp [put, find?]
  | cons e m ih => by_cases h : e.1 = key <;> simp [put, find?, h, ih]

theorem find?_put_of_ne {key other : κ} (h : other ≠ key) (value : α) (m : OrderedMap κ α) :
    find? other (put key value m) = find? other m := by
  induction m with
  | nil => simp [put, find?, h.symm]
  | cons e m ih =>
    by_cases hk : e.1 = key
    · simp [put, find?, hk, h.symm]
    · simp [put, find?, hk, ih]

theorem put_of_not_mem {key : κ} {m : OrderedMap κ α} (h : key ∉ keys m) (value : α) :
    put key value m = m ++ [(key, value)] := by
  induction m with
  | nil => rfl
  | cons e m ih =>
    simp only [keys, List.map_cons, List.mem_cons, not_or] at h
    have ht : key ∉ keys m := h.2
    simp [put, Ne.symm h.1, ih ht]

/-- Entries with distinct keys are their own map. -/
theorem ofEntries_of_distinct {entries : List (κ × α)} (h : Distinct entries) :
    ofEntries entries = entries := by
  have aux : ∀ (later earlier : List (κ × α)), Distinct (earlier ++ later) →
      later.foldl (fun m e => put e.1 e.2 m) earlier = earlier ++ later := by
    intro later
    induction later with
    | nil => intro earlier _; simp
    | cons e later ih =>
      intro earlier hd
      have hmem : e.1 ∉ keys earlier := by
        simp only [Distinct, keys, List.map_append, List.map_cons, List.nodup_append] at hd
        exact fun hm => hd.2.2 _ hm _ (List.mem_cons_self ..) rfl
      have hd' : Distinct ((earlier ++ [e]) ++ later) := by simpa using hd
      simp [List.foldl_cons, put_of_not_mem hmem, ih _ hd']
  simpa [ofEntries] using aux entries [] (by simpa using h)

end OrderedMap

end RuleGraph
