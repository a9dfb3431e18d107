import RuleGraph.Json.Record
import RuleGraph.Proofs.CoherentTree

/-!
# What holds of every draft

A property of drafts that each fill keeps holds of the draft of every record that is read, whatever
the text: by name or by position, from a tree or from a value (`Record.exists_draft_of_tree`,
`Record.exists_draft_of_value`).
-/

namespace RuleGraph.Json

variable {σ α : Type} {P : σ → Prop}

/-- The values directly inside a value. -/
def Value.children : Value → List Value
  | .array items => items
  | .object members => members.map Prod.snd
  | .null | .bool _ | .number _ | .string _ => []

theorem Value.distinct_of_mem_children {v c : Value} (h : v.Distinct) (hc : c ∈ v.children) :
    c.Distinct := by
  cases v with
  | array items =>
    rw [Distinct, distinctItems_iff] at h
    exact h c hc
  | object members =>
    rw [Distinct, distinctMembers_iff] at h
    obtain ⟨m, hm, rfl⟩ := List.mem_map.mp hc
    exact h.2 m hm
  | _ => cases hc

theorem Value.depth_lt_of_mem_children {v c : Value} (hc : c ∈ v.children) : c.depth < v.depth := by
  cases v with
  | array items => exact Nat.lt_succ_of_le (depthItems_le_iff.mp (Nat.le_refl _) c hc)
  | object members =>
    obtain ⟨m, hm, rfl⟩ := List.mem_map.mp hc
    exact Nat.lt_succ_of_le (depthMembers_le_iff.mp (Nat.le_refl _) m hm)
  | _ => cases hc

namespace Record

variable {members : List (Member σ)}

theorem draft_of_fillTree {room : Nat} {ts : List (Name × Tree)} {draft d : σ}
    (hfill : ∀ m ∈ members, ∀ t ∈ ts.map Prod.snd, ∀ f, m.fill.ofTree room t = .ok f →
      ∀ draft, P draft → P (f draft))
    (hdraft : P draft) (h : fillTree members room ts draft = .ok d) : P d := by
  induction ts generalizing draft with
  | nil =>
    cases h
    exact hdraft
  | cons entry ts ih =>
    obtain ⟨name, t⟩ := entry
    have ih {draft : σ} (hdraft : P draft) (h : fillTree members room ts draft = .ok d) : P d :=
      ih (fun m hm t ht => hfill m hm t (List.mem_cons_of_mem _ ht)) hdraft h
    simp only [fillTree, bind_eq_ok_iff] at h
    obtain ⟨n, -, h⟩ := h
    cases hfind : members.find? (·.name = n) with
    | none =>
      simp only [hfind, bind_eq_ok_iff] at h
      obtain ⟨-, -, h⟩ := h
      exact ih hdraft h
    | some m =>
      simp only [hfind] at h
      split at h
      · cases h
      · obtain ⟨f, hf, h⟩ := bind_eq_ok_iff.mp h
        have hm := List.mem_of_find?_eq_some hfind
        exact ih (hfill m hm t List.mem_cons_self f hf draft hdraft) h

theorem draft_of_fillPlaces (r : Record σ α) {room : Nat} {stop : Stop} {ms : List (Member σ)}
    {items rest : List Tree} {draft d : σ}
    (hfill : ∀ m ∈ ms, ∀ t ∈ items, ∀ f, m.fill.ofTree room t = .ok f →
      ∀ draft, P draft → P (f draft))
    (hdraft : P draft) (h : fillPlaces r room stop ms items draft = .ok (d, rest)) : P d := by
  induction ms generalizing items draft with
  | nil =>
    cases h
    exact hdraft
  | cons m ms ih =>
    cases items with
    | nil =>
      simp only [fillPlaces, bind_eq_ok_iff] at h
      obtain ⟨-, -, h⟩ := h
      split at h
      · cases h
      · exact ih (fun _ _ t ht => by cases ht) hdraft h
    | cons t items =>
      simp only [fillPlaces, bind_eq_ok_iff] at h
      obtain ⟨f, hf, h⟩ := h
      refine ih ?_ (hfill m List.mem_cons_self t List.mem_cons_self f hf draft hdraft) h
      exact fun m hm t ht => hfill m (List.mem_cons_of_mem _ hm) t (List.mem_cons_of_mem _ ht)

theorem draft_of_fillMembers {read : Format (σ → σ) → Value → Except Mismatch (σ → σ)}
    {entries : List (String × Value)} {draft d : σ}
    (hfill : ∀ m ∈ members, ∀ v ∈ entries.map Prod.snd, ∀ f, read m.fill v = .ok f →
      ∀ draft, P draft → P (f draft))
    (hdraft : P draft) (h : fillMembers members read entries draft = .ok d) : P d := by
  induction entries generalizing draft with
  | nil =>
    cases h
    exact hdraft
  | cons entry entries ih =>
    obtain ⟨name, v⟩ := entry
    have ih {draft : σ} (hdraft : P draft) (h : fillMembers members read entries draft = .ok d) :
        P d :=
      ih (fun m hm v hv => hfill m hm v (List.mem_cons_of_mem _ hv)) hdraft h
    rw [fillMembers] at h
    cases hfind : members.find? (·.name = name) with
    | none =>
      rw [hfind] at h
      exact ih hdraft h
    | some m =>
      simp only [hfind] at h
      split at h
      · cases h
      · obtain ⟨f, hf, h⟩ := bind_eq_ok_iff.mp h
        have hm := List.mem_of_find?_eq_some hfind
        exact ih (hfill m hm v List.mem_cons_self f hf draft hdraft) h

theorem draft_of_fillItems (r : Record σ α)
    {read : Format (σ → σ) → Value → Except Mismatch (σ → σ)} {length : Nat}
    {ms : List (Member σ)} {items : List Value} {draft d : σ}
    (hfill : ∀ m ∈ ms, ∀ v ∈ items, ∀ f, read m.fill v = .ok f → ∀ draft, P draft → P (f draft))
    (hdraft : P draft) (h : fillItems r read length ms items draft = .ok d) : P d := by
  induction ms generalizing items draft with
  | nil =>
    cases items with
    | nil =>
      cases h
      exact hdraft
    | cons => cases h
  | cons m ms ih =>
    cases items with
    | nil =>
      rw [fillItems] at h
      split at h
      · cases h
      · exact ih (fun _ _ v hv => by cases hv) hdraft h
    | cons v items =>
      rw [fillItems, bind_eq_ok_iff] at h
      obtain ⟨f, hf, h⟩ := h
      refine ih ?_ (hfill m List.mem_cons_self v List.mem_cons_self f hf draft hdraft) h
      exact fun m hm v hv => hfill m (List.mem_cons_of_mem _ hm) v (List.mem_cons_of_mem _ hv)

/-- A record that is read from a tree has a draft with each property that the fills keep. -/
theorem exists_draft_of_tree (r : Record σ α) {room : Nat} {t : Tree} {a : α} (hblank : P r.blank)
    (hfill : ∀ m ∈ r.members, ∀ c ∈ t.children, ∀ inner, inner + 1 = room →
      ∀ f, m.fill.ofTree inner c = .ok f → ∀ draft, P draft → P (f draft))
    (h : r.format.ofTree room t = .ok a) : ∃ draft, P draft ∧ r.finish draft = .ok a := by
  cases t with
  | object start members stop =>
    cases room with
    | zero => cases h
    | succ inner =>
      simp only [format, Format.enter, bind_eq_ok_iff, mapError_eq_ok_iff] at h
      obtain ⟨_, hinner, draft, hdraft, -, -, ha⟩ := h
      cases hinner
      exact ⟨draft, draft_of_fillTree (fun m hm t ht => hfill m hm t ht inner rfl) hblank hdraft,
        ha⟩
  | array start items stop =>
    cases room with
    | zero => cases h
    | succ inner =>
      simp only [format, Format.enter, bind_eq_ok_iff, mapError_eq_ok_iff] at h
      obtain ⟨_, hinner, ⟨draft, rest⟩, hdraft, b, hb, ha⟩ := h
      cases hinner
      refine ⟨draft, draft_of_fillPlaces r (fun m hm t ht => hfill m hm t ht inner rfl) hblank
        hdraft, ?_⟩
      rw [hb]
      cases rest with
      | nil =>
        obtain ⟨-, rfl⟩ := Tree.unlessFault_eq_ok_iff.mp (mapError_eq_ok_iff.mp ha)
        rfl
      | cons => cases ha
  | _ => cases h

/-- A record that is read from a value has a draft with each property that the fills keep. -/
theorem exists_draft_of_value (r : Record σ α)
    {read : Format (σ → σ) → Value → Except Mismatch (σ → σ)} {v : Value} {a : α}
    (hblank : P r.blank)
    (hfill : ∀ m ∈ r.members, ∀ c ∈ v.children, ∀ f, read m.fill c = .ok f →
      ∀ draft, P draft → P (f draft))
    (h : r.ofValue read v = .ok a) : ∃ draft, P draft ∧ r.finish draft = .ok a := by
  cases v with
  | object entries =>
    obtain ⟨draft, hdraft, ha⟩ := bind_eq_ok_iff.mp h
    exact ⟨draft, draft_of_fillMembers hfill hblank hdraft, ha⟩
  | array items =>
    obtain ⟨draft, hdraft, ha⟩ := bind_eq_ok_iff.mp h
    exact ⟨draft, draft_of_fillItems r hfill hblank hdraft, ha⟩
  | _ => cases h

end Record

/-- No member that an open record holds back from a tree is declared. -/
theorem OpenRecord.not_declared_of_fillTree {members : List (Member σ)} {room : Nat}
    {ts : List (Name × Tree)} {draft : σ} {held : List (String × Value)}
    {p : σ × List (String × Value)}
    (hheld : ∀ h ∈ held, members.find? (·.name = h.1) = none)
    (h : fillTree members room ts draft held = .ok p) :
    ∀ h ∈ p.2, members.find? (·.name = h.1) = none := by
  induction ts generalizing draft held with
  | nil =>
    cases h
    simpa using hheld
  | cons entry ts ih =>
    obtain ⟨name, t⟩ := entry
    simp only [fillTree, bind_eq_ok_iff] at h
    obtain ⟨n, -, h⟩ := h
    cases hfind : members.find? (·.name = n) with
    | none =>
      simp only [hfind, bind_eq_ok_iff] at h
      obtain ⟨v, -, h⟩ := h
      refine ih ?_ h
      exact List.forall_mem_cons.mpr ⟨hfind, hheld⟩
    | some m =>
      simp only [hfind] at h
      split at h
      · cases h
      · obtain ⟨f, -, h⟩ := bind_eq_ok_iff.mp h
        exact ih hheld h

/-! ## Merging makes no value deeper -/

namespace Value

mutual

theorem depth_merged_le : ∀ v : Value, v.merged.depth ≤ v.depth
  | .null | .bool _ | .number _ | .string _ => by simp [merged, depth]
  | .array items => by
    rw [merged, depth, depth]
    exact Nat.succ_le_succ (depthItems_merged_le items)
  | .object members => by
    rw [merged, depth, depth]
    refine Nat.succ_le_succ (depthMembers_le_iff.mpr fun m hm => ?_)
    exact depthMembers_le_iff.mp (depthMembers_merged_le members) m
      (OrderedMap.mem_of_mem_ofEntries m hm)

theorem depthItems_merged_le : ∀ items : List Value,
    depthItems (mergedItems items) ≤ depthItems items
  | [] => Nat.le_refl _
  | v :: items => by
    have hv := depth_merged_le v
    have hitems := depthItems_merged_le items
    rw [mergedItems, depthItems, depthItems]
    omega

theorem depthMembers_merged_le : ∀ members : List (String × Value),
    depthMembers (mergedMembers members) ≤ depthMembers members
  | [] => Nat.le_refl _
  | (_, v) :: members => by
    have hv := depth_merged_le v
    have hmembers := depthMembers_merged_le members
    rw [mergedMembers, depthMembers, depthMembers]
    omega

end

end Value

end RuleGraph.Json
