import RuleGraph.Proofs.Drafts
import RuleGraph.Proofs.EntityFormat
import RuleGraph.Proofs.RoundTrip

/-!
# Which documents come back from their text

A document comes back from its text exactly if it is unambiguous: its result is not a `null`, which
reads as none, and no field of an entity has the name of a member that entities read themselves.
Every document that was read is unambiguous, so writing it is a fixed point
(`documents_round_trip`).
-/

namespace RuleGraph

open Json

/-! ## Entities -/

namespace Entity

/-- The fields of an entity repeat no name, and neither does any object in them. -/
def WellFormed (e : Entity) : Prop := (Value.object e.fields).Distinct

/-- No field has the name of a member that entities read themselves. -/
def Unambiguous (e : Entity) : Prop := ∀ f ∈ e.fields, f.1 ∉ envelope

instance (e : Entity) : Decidable e.WellFormed := inferInstanceAs (Decidable (Value.Distinct _))

instance (e : Entity) : Decidable e.Unambiguous :=
  inferInstanceAs (Decidable (∀ f ∈ e.fields, f.1 ∉ envelope))

/-- The members of an entity's object that are not fields. -/
def head (e : Entity) : List (String × Value) :=
  ("type", .string e.kind.name) :: ("id", .natural e.id) ::
    (if e.isStub then [("_stub", .bool true)] else [])

theorem toValue_eq (e : Entity) : e.toValue = .object (e.head ++ e.fields) := rfl

theorem keys_head_sublist (e : Entity) : (OrderedMap.keys e.head).Sublist envelope := by
  unfold head envelope
  cases e.isStub with
  | true => exact List.Sublist.refl _
  | false => exact ((List.nil_sublist _).cons_cons _).cons_cons _

theorem distinct_of_mem_head (e : Entity) : ∀ m ∈ e.head, m.2.Distinct := by
  unfold head
  cases e.isStub <;> simp [Value.Distinct, Value.natural]

section RoundTrip

variable {e : Entity}

theorem distinct_toValue (hw : e.WellFormed) (hu : e.Unambiguous) : e.toValue.Distinct := by
  rw [WellFormed, Value.Distinct, Value.distinctMembers_iff] at hw
  rw [toValue_eq, Value.Distinct, Value.distinctMembers_iff, OrderedMap.Distinct, OrderedMap.keys,
    List.map_append, List.nodup_append]
  refine ⟨⟨(by decide : envelope.Nodup).sublist e.keys_head_sublist, hw.1, ?_⟩, ?_⟩
  · rintro _ hname _ hfield rfl
    obtain ⟨f, hf, hfname⟩ := List.mem_map.mp hfield
    exact hu f hf (hfname ▸ e.keys_head_sublist.subset hname)
  · exact List.forall_mem_append.mpr ⟨e.distinct_of_mem_head, hw.2⟩

/-- An unambiguous entity is held in what it is written as. -/
theorem heldIn_toValue (hu : e.Unambiguous) : e.HeldIn (e.head ++ e.fields) where
  kind := ⟨_, rfl, .inl rfl⟩
  id := ⟨_, rfl, rfl⟩
  isStub := by
    have hfields : OrderedMap.find? "_stub" e.fields = none := by
      rw [OrderedMap.find?_eq_none_iff]
      intro hmem
      obtain ⟨f, hf, hname⟩ := List.mem_map.mp hmem
      exact hu f hf (by rw [hname]; decide)
    rw [OrderedMap.find?_append, hfields, Option.or_none]
    unfold head
    cases e.isStub with
    | true => exact .inr rfl
    | false => exact .inl ⟨rfl, rfl⟩
  fields := by
    have hhead : e.head.filter (·.1 ∉ envelope) = [] := by
      rw [List.filter_eq_nil_iff]
      intro m hm
      simpa using e.keys_head_sublist.subset (List.mem_map_of_mem hm)
    have hfields : e.fields.filter (·.1 ∉ envelope) = e.fields := by
      rw [List.filter_eq_self]
      exact fun f hf => decide_eq_true (hu f hf)
    rw [List.filter_append, hhead, hfields, List.nil_append]

theorem restores (hw : e.WellFormed) (hu : e.Unambiguous) : format.ofValue e.toValue = .ok e :=
  (ofValue_object_eq_ok_iff (distinct_toValue hw hu)).mpr (heldIn_toValue hu)

/-! ### Entities that were read -/

theorem keys_mergedMembers (members : List (String × Value)) :
    OrderedMap.keys (Value.mergedMembers members) = OrderedMap.keys members := by
  induction members with
  | nil => rfl
  | cons m members ih =>
    rw [Value.mergedMembers]
    exact congrArg (m.1 :: ·) ih

/-- Fields come from members that are not declared. -/
theorem unambiguous_of_finish {draft : Draft} {held : List (String × Value)}
    (hheld : ∀ h ∈ held, members.find? (·.name = h.1) = none)
    (h : record.finish draft held = .ok e) : e.Unambiguous := by
  obtain ⟨-, -, -, hfields⟩ := finish_eq_ok_iff.mp h
  intro f hf
  rw [← hfields] at hf
  have hmem : f.1 ∈ OrderedMap.keys (Value.mergedMembers held) :=
    List.mem_map_of_mem (OrderedMap.mem_of_mem_ofEntries f hf)
  rw [keys_mergedMembers] at hmem
  obtain ⟨m, hm, hname⟩ := List.mem_map.mp hmem
  rw [← hname, ← isNone_find?_members, hheld m hm]
  rfl

theorem unambiguous_of_readText {text : String} (h : format.readText text = .ok e) :
    e.Unambiguous := by
  rw [Format.readText, Parsed.finish_eq_ok_iff] at h
  obtain ⟨h, -⟩ := h
  cases hroot : (Parsed.ofText text).root with
  | object start ts stop =>
    rw [hroot] at h
    simp only [format, OpenRecord.format, bind_eq_ok_iff, mapError_eq_ok_iff] at h
    obtain ⟨room, -, p, hp, -, -, hfinish⟩ := h
    exact unambiguous_of_finish (OpenRecord.not_declared_of_fillTree (by simp) hp) hfinish
  | _ =>
    rw [hroot] at h
    cases h

theorem unambiguous_of_ofValue {v : Value} (h : format.ofValue v = .ok e) : e.Unambiguous := by
  cases v with
  | object entries =>
    obtain ⟨draft, -, hfinish⟩ := bind_eq_ok_iff.mp h
    refine unambiguous_of_finish (fun m hm => ?_) hfinish
    exact Option.isNone_iff_eq_none.mp (List.mem_filter.mp hm).2
  | _ => cases h

theorem HeldIn.unambiguous {entries : List (String × Value)} (h : e.HeldIn entries) :
    e.Unambiguous := by
  intro f hf
  rw [h.fields] at hf
  exact of_decide_eq_true (List.mem_filter.mp hf).2

theorem HeldIn.wellFormed {entries : List (String × Value)} (h : e.HeldIn entries)
    (hd : (Value.object entries).Distinct) : e.WellFormed := by
  rw [WellFormed, h.fields]
  exact distinct_others hd

/-- An entity is written no deeper than what it was read from. -/
theorem HeldIn.depth_toValue_le {entries : List (String × Value)} (h : e.HeldIn entries) :
    e.toValue.depth ≤ (Value.object entries).depth := by
  rw [toValue_eq, Value.depth, Value.depth, Nat.add_le_add_iff_right, Value.depthMembers_le_iff,
    List.forall_mem_append]
  constructor
  · unfold head
    cases e.isStub <;> simp [Value.depth, Value.natural]
  · intro f hf
    rw [h.fields] at hf
    exact Value.depthMembers_le_iff.mp (Nat.le_refl _) f (List.mem_of_mem_filter hf)

end RoundTrip

end Entity

/-! ## Documents -/

namespace Document

/-- The maps of a document repeat no key, and no object in it repeats a name. -/
structure WellFormed (d : Document) : Prop where
  result : ∀ v, d.result = some v → v.Distinct
  buckets : OrderedMap.Distinct d.buckets
  bucket : ∀ b ∈ d.buckets, OrderedMap.Distinct b.2
  entity : ∀ b ∈ d.buckets, ∀ entry ∈ b.2, entry.2.WellFormed

/-- The result is not a present `null`, and no entity has a field of a declared name. -/
structure Unambiguous (d : Document) : Prop where
  result : d.result ≠ some .null
  entity : ∀ b ∈ d.buckets, ∀ entry ∈ b.2, entry.2.Unambiguous

def toMembers (d : Document) : List (String × Value) :=
  setMember "result" id d.result ++ setMember "entities" bucketsValue d.entities

theorem toValue_eq (d : Document) : d.toValue = .object d.toMembers := rfl

theorem distinct_keys_toMembers (d : Document) : OrderedMap.Distinct d.toMembers := by
  have hsublist : (OrderedMap.keys d.toMembers).Sublist ["result", "entities"] := by
    simp only [toMembers, OrderedMap.keys, List.map_append]
    exact keys_setMember_sublist.append keys_setMember_sublist
  exact (by decide : List.Nodup _).sublist hsublist

section RoundTrip

variable {d : Document}

theorem distinct_bucketValue {b : Bucket} (hkeys : OrderedMap.Distinct b)
    (h : ∀ entry ∈ b, entry.2.WellFormed ∧ entry.2.Unambiguous) : (bucketValue b).Distinct := by
  rw [bucketValue, Value.Distinct, Value.distinctMembers_iff]
  constructor
  · rw [OrderedMap.Distinct, OrderedMap.keys, List.map_map]
    exact hkeys
  · exact List.forall_mem_map.mpr fun entry hentry =>
      Entity.distinct_toValue (h entry hentry).1 (h entry hentry).2

theorem distinct_bucketsValue {bs : Buckets} (hkinds : OrderedMap.Distinct bs)
    (hbucket : ∀ b ∈ bs, (bucketValue b.2).Distinct) : (bucketsValue bs).Distinct := by
  rw [bucketsValue, Value.Distinct, Value.distinctMembers_iff]
  constructor
  · rw [OrderedMap.Distinct, OrderedMap.keys, List.map_map]
    have hnames := List.Nodup.map (fun _ _ h => Kind.name_injective h) hkinds
    rw [OrderedMap.keys, List.map_map] at hnames
    exact hnames
  · exact List.forall_mem_map.mpr hbucket

theorem distinct_toValue (hw : d.WellFormed) (hu : d.Unambiguous) : d.toValue.Distinct := by
  rw [toValue_eq, Value.Distinct, Value.distinctMembers_iff, toMembers, List.forall_mem_append]
  refine ⟨d.distinct_keys_toMembers, forall_mem_setMember.mpr hw.result, ?_⟩
  refine forall_mem_setMember.mpr fun bs hbs => ?_
  have hbuckets : d.buckets = bs := by rw [buckets, hbs, Option.getD_some]
  obtain ⟨-, hkinds, hkeys, hwell⟩ := hw
  have hentity := hu.entity
  rw [hbuckets] at hkinds hkeys hwell hentity
  exact distinct_bucketsValue hkinds fun b hb =>
    distinct_bucketValue (hkeys b hb) fun entry hentry =>
      ⟨hwell b hb entry hentry, hentity b hb entry hentry⟩

theorem bucketsHeldIn_bucketsValue {bs : Buckets}
    (h : ∀ b ∈ bs, ∀ entry ∈ b.2, entry.2.Unambiguous) : BucketsHeldIn bs (bucketsValue bs) := by
  refine ⟨_, rfl, List.forall₂_map_left_iff.mpr (List.forall₂_same.mpr fun b hb => ?_)⟩
  refine ⟨rfl, _, rfl, List.forall₂_map_left_iff.mpr (List.forall₂_same.mpr fun entry hentry => ?_)⟩
  exact ⟨rfl, _, rfl, Entity.heldIn_toValue (h b hb entry hentry)⟩

theorem entitiesIn_toMembers (hd : d.toValue.Distinct) (hu : d.Unambiguous) :
    entitiesIn d.toMembers = .ok d.entities := by
  have hfind : OrderedMap.find? "entities" d.toMembers = d.entities.map bucketsValue := by
    simp [toMembers, OrderedMap.find?_append]
  cases hentities : d.entities with
  | none =>
    rw [hentities] at hfind
    rw [entitiesIn, hfind]
    rfl
  | some bs =>
    rw [hentities] at hfind
    have hentity := hu.entity
    rw [buckets, hentities, Option.getD_some] at hentity
    have hbs : (bucketsValue bs).Distinct :=
      distinct_of_mem hd _ (OrderedMap.mem_of_find? hfind)
    rw [entitiesIn_of_isTruthy hfind rfl,
      (readBuckets_eq_ok_iff hbs).mpr (bucketsHeldIn_bucketsValue hentity)]
    rfl

theorem resultIn_toMembers (hu : d.Unambiguous) : resultIn d.toMembers = d.result := by
  have hfind : OrderedMap.find? "result" d.toMembers = d.result := by
    simp [toMembers, OrderedMap.find?_append]
  rw [resultIn, hfind]
  cases hresult : d.result with
  | none => rfl
  | some v =>
    cases v with
    | null => exact absurd hresult hu.result
    | _ => rfl

/-- An unambiguous document is read back from the value it is written as. -/
theorem restores (hw : d.WellFormed) (hu : d.Unambiguous) : format.ofValue d.toValue = .ok d := by
  rw [toValue_eq, ofValue_object d.distinct_keys_toMembers,
    entitiesIn_toMembers (distinct_toValue hw hu) hu, resultIn_toMembers hu]
  rfl

end RoundTrip

/-! ### Documents that were read -/

/-- What a draft holds was read from values without repeated names, nested at most `n` deep. -/
structure Draft.ReadWithin (n : Nat) (draft : Draft) : Prop where
  result : ∀ v, draft.result = some (some v) → v.isNull = false ∧ v.Distinct ∧ v.depth ≤ n
  entities : ∀ bs, draft.entities = some (some bs) →
    ∃ w : Value, w.Distinct ∧ w.depth ≤ n ∧ BucketsHeldIn bs w

section Fill

variable {n : Nat} {draft : Draft}

theorem Draft.ReadWithin.withResult {a : Option Value} (h : draft.ReadWithin n)
    (ha : ∀ v, a = some v → v.isNull = false ∧ v.Distinct ∧ v.depth ≤ n) :
    ({ draft with result := some a } : Draft).ReadWithin n :=
  ⟨fun v hv => ha v (Option.some.inj hv), h.entities⟩

theorem Draft.ReadWithin.withEntities {a : Option Buckets} (h : draft.ReadWithin n)
    (ha : ∀ bs, a = some bs → ∃ w : Value, w.Distinct ∧ w.depth ≤ n ∧ BucketsHeldIn bs w) :
    ({ draft with entities := some a } : Draft).ReadWithin n :=
  ⟨h.result, fun bs hbs => ha bs (Option.some.inj hbs)⟩

theorem bucketsHeldIn_of_readEntities {w : Value} (hd : w.Distinct) {bs : Buckets}
    (h : readEntities w = .ok (some bs)) : BucketsHeldIn bs w := by
  unfold readEntities at h
  split at h
  · obtain ⟨bs, hbs, heq⟩ := map_eq_ok_iff.mp h
    cases heq
    exact (readBuckets_eq_ok_iff hd).mp hbs
  · cases h

theorem whole_ofTree_eq_ok_iff {α : Type} {f : Value → Except Mismatch α} {t : Tree} {a : α} :
    (Format.whole f).ofTree n t = .ok a ↔ ∃ raw, t.read n = .ok raw ∧ f raw.merged = .ok a := by
  simp only [Format.whole]
  cases t.read n <;> simp [mapError_eq_ok_iff]

/-- A result that is read from a tree is not `null`, for then it would be read as none. -/
theorem optional_value_ofTree {t : Tree} (ht : t.Coherent) {v : Value}
    (h : (Format.optional Format.value).ofTree n t = .ok (some v)) :
    v.isNull = false ∧ v.Distinct ∧ v.depth ≤ n := by
  have hsome : (∀ start fault, t ≠ .null start fault) ∧ Format.value.ofTree n t = .ok v := by
    cases t with
    | null start fault => cases fault <;> cases h
    | absent fault => cases h
    | _ =>
      obtain ⟨w, hw, heq⟩ := map_eq_ok_iff.mp h
      cases heq
      exact ⟨by simp, hw⟩
  obtain ⟨raw, hraw, heq⟩ := whole_ofTree_eq_ok_iff.mp hsome.2
  cases heq
  refine ⟨?_, Value.distinct_merged raw, Nat.le_trans raw.depth_merged_le (ht.depth_le hraw)⟩
  cases raw with
  | null =>
    obtain ⟨start, fault, rfl⟩ := ht.exists_null hraw
    exact absurd rfl (hsome.1 start fault)
  | _ => rfl

theorem optional_value_ofValue {v w : Value}
    (h : (Format.optional Format.value).ofValue w = .ok (some v)) : v.isNull = false ∧ v = w := by
  cases w <;> cases h <;> exact ⟨rfl, rfl⟩

theorem readWithin_of_tree {t : Tree} (ht : t.Coherent) {m : Member Draft} (hm : m ∈ members)
    {f : Draft → Draft} (hf : m.fill.ofTree n t = .ok f) (h : draft.ReadWithin n) :
    (f draft).ReadWithin n := by
  simp only [members, List.mem_cons, List.not_mem_nil, or_false] at hm
  rcases hm with rfl | rfl
  · obtain ⟨a, ha, rfl⟩ := map_eq_ok_iff.mp hf
    refine h.withResult fun v hv => ?_
    rw [hv] at ha
    exact optional_value_ofTree ht ha
  · obtain ⟨a, ha, rfl⟩ := map_eq_ok_iff.mp hf
    refine h.withEntities fun bs hbs => ?_
    rw [hbs] at ha
    obtain ⟨raw, hraw, hread⟩ := whole_ofTree_eq_ok_iff.mp ha
    have hdistinct := Value.distinct_merged raw
    exact ⟨raw.merged, hdistinct, Nat.le_trans raw.depth_merged_le (ht.depth_le hraw),
      bucketsHeldIn_of_readEntities hdistinct hread⟩

theorem readWithin_of_value {v : Value} (hd : v.Distinct) (hdepth : v.depth ≤ n)
    {m : Member Draft} (hm : m ∈ members) {f : Draft → Draft} (hf : m.fill.ofValue v = .ok f)
    (h : draft.ReadWithin n) : (f draft).ReadWithin n := by
  simp only [members, List.mem_cons, List.not_mem_nil, or_false] at hm
  rcases hm with rfl | rfl
  · obtain ⟨a, ha, rfl⟩ := map_eq_ok_iff.mp hf
    refine h.withResult fun w hw => ?_
    rw [hw] at ha
    obtain ⟨hnull, rfl⟩ := optional_value_ofValue ha
    exact ⟨hnull, hd, hdepth⟩
  · obtain ⟨a, ha, rfl⟩ := map_eq_ok_iff.mp hf
    refine h.withEntities fun bs hbs => ?_
    rw [hbs] at ha
    exact ⟨v, hd, hdepth, bucketsHeldIn_of_readEntities hd ha⟩

end Fill

/-- A document was read from a text, nested at most one deeper than `n`. -/
structure ReadWithin (n : Nat) (d : Document) : Prop where
  result : ∀ v, d.result = some v → v.isNull = false ∧ v.Distinct ∧ v.depth ≤ n
  entities : ∀ bs, d.entities = some bs →
    ∃ w : Value, w.Distinct ∧ w.depth ≤ n ∧ BucketsHeldIn bs w

section Read

variable {n : Nat} {d : Document} {text : String}

theorem readWithin_blank : record.blank.ReadWithin n where
  result _ h := by cases h
  entities _ h := by cases h

theorem readWithin_of_finish {draft : Draft} (h : draft.ReadWithin n)
    (hd : record.finish draft = .ok d) : d.ReadWithin n := by
  cases hd
  constructor
  · intro v hv
    cases hresult : draft.result with
    | none =>
      rw [hresult] at hv
      cases hv
    | some a =>
      rw [hresult] at hv
      exact h.result v (by rw [hresult]; exact congrArg some hv)
  · intro bs hbs
    cases hentities : draft.entities with
    | none =>
      rw [hentities] at hbs
      cases hbs
    | some a =>
      rw [hentities] at hbs
      exact h.entities bs (by rw [hentities]; exact congrArg some hbs)

theorem readWithin_of_readText (h : format.readText text = .ok d) : d.ReadWithin 126 := by
  rw [Format.readText, Parsed.finish_eq_ok_iff] at h
  have hroot := Parsed.coherent_root text
  have hfill : ∀ m ∈ record.members, ∀ c ∈ (Parsed.ofText text).root.children, ∀ inner,
      inner + 1 = Tree.maxDepth → ∀ f, m.fill.ofTree inner c = .ok f →
        ∀ draft : Draft, draft.ReadWithin 126 → (f draft).ReadWithin 126 := by
    intro m hm c hc inner hinner f hf draft hdraft
    obtain rfl : inner = 126 := Nat.succ.inj hinner
    exact readWithin_of_tree (hroot.of_mem_children hc) hm hf hdraft
  obtain ⟨draft, hdraft, hfinish⟩ :=
    Record.exists_draft_of_tree record readWithin_blank hfill h.1
  exact readWithin_of_finish hdraft hfinish

theorem readWithin_of_readValue (h : format.readValue text = .ok d) : d.ReadWithin 126 := by
  obtain ⟨v, hv, hread⟩ := Format.readValue_eq_ok_iff.mp h
  have hd := Value.distinct_of_ofText hv
  have hdepth : v.depth ≤ 127 := by
    obtain ⟨raw, -, hraw, rfl⟩ := Value.ofText_eq_ok_iff.mp hv
    exact Nat.le_trans raw.depth_merged_le hraw
  have hfill : ∀ m ∈ record.members, ∀ c ∈ v.children, ∀ f, m.fill.ofValue c = .ok f →
      ∀ draft : Draft, draft.ReadWithin 126 → (f draft).ReadWithin 126 := by
    intro m hm c hc f hf draft hdraft
    have hlt := Value.depth_lt_of_mem_children hc
    exact readWithin_of_value (Value.distinct_of_mem_children hd hc) (by omega) hm hf hdraft
  obtain ⟨draft, hdraft, hfinish⟩ :=
    Record.exists_draft_of_value record readWithin_blank hfill hread
  exact readWithin_of_finish hdraft hfinish

end Read

/-! ### What that means for the document -/

section Held

variable {b : Bucket} {bs : Buckets} {v w : Value} {n : Nat} {d : Document}

/-- Each entity of a bucket is held in an object of the bucket's value. -/
theorem BucketHeldIn.exists_heldIn (h : BucketHeldIn b v) (hd : v.Distinct) :
    ∀ entry ∈ b, ∃ entries, (Value.object entries).Distinct ∧
      (Value.object entries).depth < v.depth ∧ entry.2.HeldIn entries := by
  intro entry hentry
  obtain ⟨members, rfl, hall⟩ := h
  obtain ⟨m, hm, -, entries, hvalue, hheld⟩ := exists_mem_of_forall₂ hall entry hentry
  have hchild : Value.object entries ∈ (Value.object members).children :=
    List.mem_map.mpr ⟨m, hm, hvalue⟩
  exact ⟨entries, Value.distinct_of_mem_children hd hchild,
    Value.depth_lt_of_mem_children hchild, hheld⟩

theorem BucketHeldIn.distinct_keys (h : BucketHeldIn b v) (hd : v.Distinct) :
    OrderedMap.Distinct b := by
  obtain ⟨members, rfl, hall⟩ := h
  rw [Value.Distinct, OrderedMap.Distinct, OrderedMap.keys] at hd
  rw [OrderedMap.Distinct, OrderedMap.keys, ← map_eq_of_forall₂ hall fun _ _ h => h.1]
  exact hd.1

theorem BucketHeldIn.depth_le (h : BucketHeldIn b v) (hd : v.Distinct) :
    (bucketValue b).depth ≤ v.depth := by
  have hentries := h.exists_heldIn hd
  obtain ⟨members, rfl, -⟩ := h
  rw [bucketValue, Value.depth, Value.depth, Nat.add_le_add_iff_right, Value.depthMembers_le_iff,
    List.forall_mem_map]
  intro entry hentry
  obtain ⟨entries, -, hlt, hheld⟩ := hentries entry hentry
  exact Nat.le_trans hheld.depth_toValue_le (Nat.le_of_lt_succ hlt)

/-- Each bucket is held in a member of the buckets' value. -/
theorem BucketsHeldIn.exists_heldIn (h : BucketsHeldIn bs w) (hd : w.Distinct) :
    ∀ b ∈ bs, ∃ v : Value, v.Distinct ∧ v.depth < w.depth ∧ BucketHeldIn b.2 v := by
  intro b hb
  obtain ⟨members, rfl, hall⟩ := h
  obtain ⟨m, hm, -, hheld⟩ := exists_mem_of_forall₂ hall b hb
  have hchild : m.2 ∈ (Value.object members).children := List.mem_map_of_mem hm
  exact ⟨m.2, Value.distinct_of_mem_children hd hchild, Value.depth_lt_of_mem_children hchild,
    hheld⟩

theorem BucketsHeldIn.distinct_keys (h : BucketsHeldIn bs w) (hd : w.Distinct) :
    OrderedMap.Distinct bs := by
  obtain ⟨members, rfl, hall⟩ := h
  rw [Value.Distinct, OrderedMap.Distinct, OrderedMap.keys,
    map_eq_of_forall₂ (g := fun b => b.1.name) hall fun _ _ h => h.1] at hd
  have hnames : ((OrderedMap.keys bs).map Kind.name).Nodup := by
    rw [OrderedMap.keys, List.map_map]
    exact hd.1
  exact List.Nodup.of_map _ hnames

theorem BucketsHeldIn.depth_le (h : BucketsHeldIn bs w) (hd : w.Distinct) :
    (bucketsValue bs).depth ≤ w.depth := by
  have hbuckets := h.exists_heldIn hd
  obtain ⟨members, rfl, -⟩ := h
  rw [bucketsValue, Value.depth, Value.depth, Nat.add_le_add_iff_right, Value.depthMembers_le_iff,
    List.forall_mem_map]
  intro b hb
  obtain ⟨v, hv, hlt, hheld⟩ := hbuckets b hb
  exact Nat.le_trans (hheld.depth_le hv) (Nat.le_of_lt_succ hlt)

namespace ReadWithin

/-- The buckets of a document that was read are none, or held in some value. -/
theorem buckets_cases (h : d.ReadWithin n) :
    d.buckets = [] ∨ ∃ w : Value, w.Distinct ∧ BucketsHeldIn d.buckets w := by
  cases hentities : d.entities with
  | none => exact .inl (by rw [buckets, hentities]; rfl)
  | some bs =>
    obtain ⟨w, hw, -, hheld⟩ := h.entities bs hentities
    refine .inr ⟨w, hw, ?_⟩
    rw [buckets, hentities]
    exact hheld

theorem unambiguous (h : d.ReadWithin n) : d.Unambiguous where
  result hnull := by
    obtain ⟨hfalse, -⟩ := h.result _ hnull
    cases hfalse
  entity b hb entry hentry := by
    rcases h.buckets_cases with hnil | ⟨w, hw, hheld⟩
    · rw [hnil] at hb
      cases hb
    · obtain ⟨v, hv, -, hbucket⟩ := hheld.exists_heldIn hw b hb
      obtain ⟨entries, -, -, he⟩ := hbucket.exists_heldIn hv entry hentry
      exact he.unambiguous

theorem wellFormed (h : d.ReadWithin n) : d.WellFormed := by
  have hresult : ∀ v, d.result = some v → v.Distinct := fun v hv => (h.result v hv).2.1
  rcases h.buckets_cases with hnil | ⟨w, hw, hheld⟩
  · refine ⟨hresult, ?_, ?_, ?_⟩
    · rw [hnil]
      exact List.nodup_nil
    · simp [hnil]
    · simp [hnil]
  · refine ⟨hresult, hheld.distinct_keys hw, fun b hb => ?_, fun b hb entry hentry => ?_⟩
    · obtain ⟨v, hv, -, hbucket⟩ := hheld.exists_heldIn hw b hb
      exact hbucket.distinct_keys hv
    · obtain ⟨v, hv, -, hbucket⟩ := hheld.exists_heldIn hw b hb
      obtain ⟨entries, hd, -, he⟩ := hbucket.exists_heldIn hv entry hentry
      exact he.wellFormed hd

theorem depth_toValue_le (h : d.ReadWithin n) : d.toValue.depth ≤ n + 1 := by
  rw [toValue_eq, Value.depth, Nat.add_le_add_iff_right, Value.depthMembers_le_iff, toMembers,
    List.forall_mem_append, forall_mem_setMember, forall_mem_setMember]
  constructor
  · exact fun v hv => (h.result v hv).2.2
  · intro bs hbs
    obtain ⟨w, hw, hdepth, hheld⟩ := h.entities bs hbs
    exact Nat.le_trans (hheld.depth_le hw) hdepth

end ReadWithin

end Held

/-- A document that was read from a text is unambiguous, well-formed and nested no deeper than what
can be read. -/
theorem readWithin_of_read {text : String} {d : Document}
    (h : format.readText text = .ok d ∨ format.readValue text = .ok d) : d.ReadWithin 126 := by
  rcases h with h | h
  · exact readWithin_of_readText h
  · exact readWithin_of_readValue h

end Document

/-! ## Round trips -/

section RoundTrip

variable {write : Value → String}

theorem Entity.read_write_iff {e : Entity} (hw : e.WellFormed) (hf : e.toValue.Floatless)
    (hdepth : e.toValue.depth ≤ Tree.maxDepth) (hwrite : write ∈ writers) :
    (format.readText (write e.toValue) = .ok e ↔ e.Unambiguous) ∧
      (format.readValue (write e.toValue) = .ok e ↔ e.Unambiguous) := by
  have hread : e.Unambiguous → format.readText (write e.toValue) = .ok e ∧
      format.readValue (write e.toValue) = .ok e := by
    intro hu
    have hlegible : e.toValue.Legible Tree.maxDepth := ⟨distinct_toValue hw hu, hf, hdepth⟩
    exact hlegible.read (spelled_of_mem_writers hwrite hf) agrees_format (restores hw hu)
  refine ⟨⟨unambiguous_of_readText, fun hu => (hread hu).1⟩, ⟨fun h => ?_, fun hu => (hread hu).2⟩⟩
  obtain ⟨v, -, hv⟩ := Format.readValue_eq_ok_iff.mp h
  exact unambiguous_of_ofValue hv

theorem Document.read_write_iff {d : Document} (hw : d.WellFormed) (hf : d.toValue.Floatless)
    (hdepth : d.toValue.depth ≤ Tree.maxDepth) (hwrite : write ∈ writers) :
    (format.readText (write d.toValue) = .ok d ↔ d.Unambiguous) ∧
      (format.readValue (write d.toValue) = .ok d ↔ d.Unambiguous) := by
  have hread : d.Unambiguous → format.readText (write d.toValue) = .ok d ∧
      format.readValue (write d.toValue) = .ok d := by
    intro hu
    have hlegible : d.toValue.Legible Tree.maxDepth := ⟨distinct_toValue hw hu, hf, hdepth⟩
    exact hlegible.read (spelled_of_mem_writers hwrite hf) agrees_format (restores hw hu)
  exact ⟨⟨fun h => (readWithin_of_readText h).unambiguous, fun hu => (hread hu).1⟩,
    ⟨fun h => (readWithin_of_readValue h).unambiguous, fun hu => (hread hu).2⟩⟩

end RoundTrip

/-- A document without floating-point numbers comes back from its text exactly if it is unambiguous,
and so does a single entity. A document that was read is unambiguous, so that writing it is a fixed
point. -/
theorem documents_round_trip :
    (∀ d : Document, d.WellFormed → d.toValue.Floatless → d.toValue.depth ≤ Tree.maxDepth →
      ∀ write ∈ writers,
        (Document.format.readText (write d.toValue) = .ok d ↔ d.Unambiguous) ∧
          (Document.format.readValue (write d.toValue) = .ok d ↔ d.Unambiguous)) ∧
    (∀ e : Entity, e.WellFormed → e.toValue.Floatless → e.toValue.depth ≤ Tree.maxDepth →
      ∀ write ∈ writers,
        (Entity.format.readText (write e.toValue) = .ok e ↔ e.Unambiguous) ∧
          (Entity.format.readValue (write e.toValue) = .ok e ↔ e.Unambiguous)) ∧
    ∀ text d, Document.format.readText text = .ok d ∨ Document.format.readValue text = .ok d →
      d.Unambiguous ∧ (d.toValue.Floatless → ∀ write ∈ writers,
        (Document.format.readText (write d.toValue)).map (fun d' => (write d'.toValue).toUTF8) =
            .ok (write d.toValue).toUTF8 ∧
          (Document.format.readValue (write d.toValue)).map (fun d' => (write d'.toValue).toUTF8) =
            .ok (write d.toValue).toUTF8) := by
  refine ⟨fun d hw hf hdepth write hwrite => Document.read_write_iff hw hf hdepth hwrite,
    fun e hw hf hdepth write hwrite => Entity.read_write_iff hw hf hdepth hwrite, ?_⟩
  intro text d h
  have hd := Document.readWithin_of_read h
  refine ⟨hd.unambiguous, fun hf write hwrite => ?_⟩
  obtain ⟨htext, hvalue⟩ :=
    Document.read_write_iff hd.wellFormed hf hd.depth_toValue_le hwrite
  rw [htext.mpr hd.unambiguous, hvalue.mpr hd.unambiguous]
  exact ⟨rfl, rfl⟩

/-- A document with a falsy result, an empty bucket and a stub. -/
def Document.stubbed : Document where
  result := some (.bool false)
  entities := some
    [ (.number, []),
      (.period, [("p", ⟨.ruleVariable, 3, true, [("name", .string "\"\n"), ("formula", .null)]⟩)]) ]

theorem documents_round_trip_stubbed :
    (Document.stubbed.WellFormed ∧ Document.stubbed.toValue.Floatless ∧
      Document.stubbed.toValue.depth ≤ Tree.maxDepth) ∧
    Document.format.readText Document.stubbed.toValue.prettyText = .ok Document.stubbed ∧
    Document.format.readValue (Value.compactText (.object [("result", .null)])) ≠
      .ok ⟨some .null, none⟩ := by
  have hw : Document.stubbed.WellFormed :=
    ⟨fun v hv => by cases hv; decide, by decide, by decide, by decide⟩
  have hf : Document.stubbed.toValue.Floatless := by decide
  have hdepth : Document.stubbed.toValue.depth ≤ Tree.maxDepth := by decide
  have hnull : (⟨some .null, none⟩ : Document).WellFormed :=
    ⟨fun v hv => by cases hv; decide, by decide, by decide, by decide⟩
  obtain ⟨hdocument, -, -⟩ := documents_round_trip
  refine ⟨⟨hw, hf, hdepth⟩, ?_, fun h => ?_⟩
  · refine (hdocument _ hw hf hdepth Value.prettyText (by simp [writers])).1.mpr ⟨?_, by decide⟩
    decide
  · have hiff := (hdocument _ hnull (by decide) (by decide) Value.compactText List.mem_cons_self).2
    exact (hiff.mp h).result rfl

end RuleGraph
