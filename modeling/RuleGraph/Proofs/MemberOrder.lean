import RuleGraph.Json.Record
import RuleGraph.Proofs.DistinctNames

/-!
# Members in any order

A record is read from an object in the order of the text. Where the declared members fill different
parts of a draft (`Member.Apart`) and no name is repeated, the draft is the same as if the members
were looked up one by one in the order in which they are declared (`Record.fillMembers_eq_ok_iff`).
-/

namespace RuleGraph.Json

/-- One of the ways in which a format reads a value. -/
structure Reading where
  read {α : Type} : Format α → Value → Except Mismatch α
  read_map {α β : Type} (g : α → β) (f : Format α) (v : Value) : read (f.map g) v = (read f v).map g

namespace Reading

/-- Reading a value that was read before. -/
def direct : Reading := ⟨(·.ofValue), fun _ _ _ => rfl⟩

/-- Reading a value that was held back. -/
def held : Reading := ⟨(·.ofHeld), fun _ _ _ => rfl⟩

end Reading

variable {σ α β : Type}

/-! ## Members that fill different parts -/

namespace Member

/-- A change that a member may make to a draft. -/
def Fills (m : Member σ) (f : σ → σ) : Prop := ∃ (r : Reading) (v : Value), r.read m.fill v = .ok f

/-- Two members have different names and fill different parts of a draft. -/
structure Apart (m m' : Member σ) : Prop where
  name_ne : m.name ≠ m'.name
  comm : ∀ {f f'}, m.Fills f → m'.Fills f' → ∀ draft, f (f' draft) = f' (f draft)
  isFilled : ∀ {f}, m.Fills f → ∀ draft, m'.isFilled (f draft) = m'.isFilled draft
  isFilled' : ∀ {f}, m'.Fills f → ∀ draft, m.isFilled (f draft) = m.isFilled draft

theorem Apart.symm {m m' : Member σ} (h : m.Apart m') : m'.Apart m where
  name_ne := h.name_ne.symm
  comm hf hf' draft := (h.comm hf' hf draft).symm
  isFilled := h.isFilled'
  isFilled' := h.isFilled

/-- Any two members of a list stand apart if each does from the later ones. -/
theorem apart_of_mem {members : List (Member σ)} (h : members.Pairwise Apart) {m m' : Member σ}
    (hm : m ∈ members) (hm' : m' ∈ members) (hne : m ≠ m') : m.Apart m' := by
  induction members with
  | nil => cases hm
  | cons m₀ members ih =>
    obtain ⟨hhead, htail⟩ := List.pairwise_cons.mp h
    rcases List.mem_cons.mp hm with rfl | hin <;> rcases List.mem_cons.mp hm' with rfl | hin'
    · exact absurd rfl hne
    · exact hhead m' hin'
    · exact (hhead m hin).symm
    · exact ih htail hin hin'

section Required

variable {name name' : String} {get : σ → Option α} {set : Option α → σ → σ} {format : Format α}
  {get' : σ → Option β} {set' : Option β → σ → σ} {format' : Format β}

theorem exists_of_fills {f : σ → σ} (h : (required name get set format).Fills f) :
    ∃ a, f = set (some a) := by
  obtain ⟨r, v, h⟩ := h
  have hmap : (r.read format v).map (fun a => set (some a)) = .ok f := by
    rw [← r.read_map]
    exact h
  obtain ⟨a, -, rfl⟩ := map_eq_ok_iff.mp hmap
  exact ⟨a, rfl⟩

@[simp] theorem apart_required (hname : name ≠ name')
    (hcomm : ∀ a b draft,
      set (some a) (set' (some b) draft) = set' (some b) (set (some a) draft))
    (hget : ∀ b draft, get (set' (some b) draft) = get draft)
    (hget' : ∀ a draft, get' (set (some a) draft) = get' draft) :
    (required name get set format).Apart (required name' get' set' format') where
  name_ne := hname
  comm hf hf' draft := by
    obtain ⟨a, rfl⟩ := exists_of_fills hf
    obtain ⟨b, rfl⟩ := exists_of_fills hf'
    exact hcomm a b draft
  isFilled hf draft := by
    obtain ⟨a, rfl⟩ := exists_of_fills hf
    exact congrArg Option.isSome (hget' a draft)
  isFilled' hf draft := by
    obtain ⟨b, rfl⟩ := exists_of_fills hf
    exact congrArg Option.isSome (hget b draft)

@[simp] theorem apart_defaulted_left {m : Member σ} :
    (defaulted name get set format).Apart m ↔ (required name get set format).Apart m :=
  ⟨fun ⟨hname, hcomm, h, h'⟩ => ⟨hname, hcomm, h, h'⟩,
    fun ⟨hname, hcomm, h, h'⟩ => ⟨hname, hcomm, h, h'⟩⟩

@[simp] theorem apart_defaulted_right {m : Member σ} :
    m.Apart (defaulted name get set format) ↔ m.Apart (required name get set format) :=
  ⟨fun ⟨hname, hcomm, h, h'⟩ => ⟨hname, hcomm, h, h'⟩,
    fun ⟨hname, hcomm, h, h'⟩ => ⟨hname, hcomm, h, h'⟩⟩

end Required

end Member

/-! ## Looking members up -/

/-- What an object holds under a name, if it holds anything. -/
def memberIn (read : Value → Except Mismatch α) (name : String) (entries : List (String × Value)) :
    Except Mismatch (Option α) :=
  match OrderedMap.find? name entries with
  | none => .ok none
  | some v => (read v).map some

section MemberIn

variable {read : Value → Except Mismatch α} {name : String} {entries : List (String × Value)}

theorem memberIn_eq_ok_none_iff :
    memberIn read name entries = .ok none ↔ OrderedMap.find? name entries = none := by
  unfold memberIn
  cases OrderedMap.find? name entries with
  | none => simp
  | some v => simp [map_eq_ok_iff]

theorem memberIn_eq_ok_some_iff {a : α} :
    memberIn read name entries = .ok (some a) ↔
      ∃ v, OrderedMap.find? name entries = some v ∧ read v = .ok a := by
  unfold memberIn
  cases OrderedMap.find? name entries with
  | none => simp
  | some v => simp [map_eq_ok_iff]

end MemberIn

theorem need_eq_ok_iff {name : String} {o : Option α} {a : α} :
    need name o = .ok a ↔ o = some a := by
  cases o <;> simp [need]

namespace Record

variable {members ms : List (Member σ)} {r : Reading} {entries : List (String × Value)}
  {draft d : σ} {name : String} {v : Value}

/-- The draft after the members of an object, looked up in the order of declaration. -/
def fillDeclared (r : Reading) (entries : List (String × Value)) :
    List (Member σ) → σ → Except Mismatch σ
  | [], draft => .ok draft
  | m :: ms, draft =>
    match OrderedMap.find? m.name entries with
    | none => fillDeclared r entries ms draft
    | some v => do
      let fill ← r.read m.fill v
      fillDeclared r entries ms (fill draft)

theorem fillDeclared_nil : fillDeclared r entries ([] : List (Member σ)) draft = .ok draft := rfl

theorem fillDeclared_required {get : σ → Option α} {set : Option α → σ → σ} {format : Format α}
    (hset : set none draft = draft) :
    fillDeclared r entries (.required name get set format :: ms) draft = .ok d ↔
      ∃ a, memberIn (r.read format) name entries = .ok a ∧
        fillDeclared r entries ms (set a draft) = .ok d := by
  have hfill (v : Value) : r.read (Member.required name get set format).fill v =
      (r.read format v).map fun a => set (some a) := r.read_map _ format v
  rw [fillDeclared, memberIn]
  show (match OrderedMap.find? name entries with | none => _ | some v => _) = _ ↔ _
  cases OrderedMap.find? name entries with
  | none =>
    simp only [Except.ok.injEq, exists_eq_left', hset]
  | some v =>
    simp only [hfill, bind_eq_ok_iff, map_eq_ok_iff]
    constructor
    · rintro ⟨_, ⟨a, ha, rfl⟩, hd⟩
      exact ⟨some a, ⟨a, ha, rfl⟩, hd⟩
    · rintro ⟨_, ⟨a, ha, rfl⟩, hd⟩
      exact ⟨_, ⟨a, ha, rfl⟩, hd⟩

theorem fillDeclared_defaulted {get : σ → Option α} {set : Option α → σ → σ} {format : Format α}
    (hset : set none draft = draft) :
    fillDeclared r entries (.defaulted name get set format :: ms) draft = .ok d ↔
      ∃ a, memberIn (r.read format) name entries = .ok a ∧
        fillDeclared r entries ms (set a draft) = .ok d := by
  show fillDeclared r entries (.required name get set format :: ms) draft = .ok d ↔ _
  exact fillDeclared_required hset

theorem fillDeclared_empty : fillDeclared r [] ms draft = .ok draft := by
  induction ms with
  | nil => rfl
  | cons m ms ih => exact ih

/-- Only what stands under the declared names matters. -/
theorem fillDeclared_congr {entries' : List (String × Value)}
    (h : ∀ m ∈ ms, OrderedMap.find? m.name entries = OrderedMap.find? m.name entries') :
    fillDeclared r entries ms draft = fillDeclared r entries' ms draft := by
  induction ms generalizing draft with
  | nil => rfl
  | cons m ms ih =>
    have hms (draft : σ) : fillDeclared r entries ms draft = fillDeclared r entries' ms draft :=
      ih fun m hm => h m (List.mem_cons_of_mem _ hm)
    simp only [fillDeclared, h m List.mem_cons_self, hms]

theorem fillDeclared_cons_of_not_declared (h : ∀ m ∈ ms, m.name ≠ name) :
    fillDeclared r ((name, v) :: entries) ms draft = fillDeclared r entries ms draft := by
  apply fillDeclared_congr
  intro m hm
  rw [OrderedMap.find?_cons, if_neg (h m hm).symm]

/-- The first member of an object may be read before all the others. -/
theorem fillDeclared_cons {m : Member σ} (hapart : ms.Pairwise Member.Apart) (hm : m ∈ ms)
    (hfind : OrderedMap.find? m.name entries = none) :
    fillDeclared r ((m.name, v) :: entries) ms draft = .ok d ↔
      ∃ f, r.read m.fill v = .ok f ∧ fillDeclared r entries ms (f draft) = .ok d := by
  induction ms generalizing draft with
  | nil => cases hm
  | cons m₀ ms ih =>
    obtain ⟨hhead, htail⟩ := List.pairwise_cons.mp hapart
    rcases List.mem_cons.mp hm with rfl | hm
    · have hnot : ∀ m' ∈ ms, m'.name ≠ m.name := fun m' hm' => (hhead m' hm').name_ne.symm
      simp only [fillDeclared, OrderedMap.find?_cons, if_true, hfind, bind_eq_ok_iff,
        fillDeclared_cons_of_not_declared hnot]
    · have hapart₀ := hhead m hm
      simp only [fillDeclared, OrderedMap.find?_cons, if_neg hapart₀.name_ne.symm]
      cases OrderedMap.find? m₀.name entries with
      | none => exact ih htail hm
      | some v₀ =>
        -- the fill of the first declared member and that of `m` change places
        simp only [bind_eq_ok_iff, ih htail hm]
        constructor
        · rintro ⟨g, hg, f, hf, hd⟩
          rw [← hapart₀.comm ⟨r, v₀, hg⟩ ⟨r, v, hf⟩] at hd
          exact ⟨f, hf, g, hg, hd⟩
        · rintro ⟨f, hf, g, hg, hd⟩
          rw [hapart₀.comm ⟨r, v₀, hg⟩ ⟨r, v, hf⟩] at hd
          exact ⟨g, hg, f, hf, hd⟩

/-- The order of an object's members does not matter for the draft. -/
theorem fillMembers_eq_ok_iff (hapart : members.Pairwise Member.Apart)
    (hd : OrderedMap.Distinct entries)
    (hfresh : ∀ m ∈ members, m.name ∈ OrderedMap.keys entries → m.isFilled draft = false) :
    fillMembers members r.read entries draft = .ok d ↔
      fillDeclared r entries members draft = .ok d := by
  induction entries generalizing draft with
  | nil => rw [fillDeclared_empty, fillMembers]
  | cons entry entries ih =>
    obtain ⟨name, v⟩ := entry
    obtain ⟨hname, hrest⟩ := List.nodup_cons.mp hd
    rw [fillMembers]
    cases hfind : members.find? (·.name = name) with
    | none =>
      have hnot : ∀ m ∈ members, m.name ≠ name := by simpa using hfind
      simp only [fillDeclared_cons_of_not_declared hnot]
      exact ih hrest fun m hm h => hfresh m hm (List.mem_cons_of_mem _ h)
    | some m =>
      obtain rfl : m.name = name := by simpa using List.find?_some hfind
      have hm := List.mem_of_find?_eq_some hfind
      simp only [hfresh m hm List.mem_cons_self, Bool.false_eq_true, if_false, bind_eq_ok_iff,
        fillDeclared_cons hapart hm (OrderedMap.find?_eq_none_iff.mpr hname)]
      refine exists_congr fun f => and_congr_right fun hf => ih hrest fun m' hm' h => ?_
      -- `m` does not come again, so the members that come are not filled by it
      have hne : m' ≠ m := by
        rintro rfl
        exact hname h
      rw [(Member.apart_of_mem hapart hm' hm hne).isFilled' ⟨r, v, hf⟩]
      exact hfresh m' hm' (List.mem_cons_of_mem _ h)

/-- A record is read from an object as if its members were looked up in the order of declaration. -/
theorem ofValue_object_eq_ok_iff (record : Record σ α)
    (hapart : record.members.Pairwise Member.Apart)
    (hblank : ∀ m ∈ record.members, m.isFilled record.blank = false)
    (hd : OrderedMap.Distinct entries) {a : α} :
    record.ofValue r.read (.object entries) = .ok a ↔
      ∃ draft, fillDeclared r entries record.members record.blank = .ok draft ∧
        record.finish draft = .ok a := by
  rw [ofValue, bind_eq_ok_iff]
  simp only [fillMembers_eq_ok_iff hapart hd fun m hm _ => hblank m hm]

end Record

/-- The same for an open record, which keeps the other members. -/
theorem OpenRecord.ofValue_object_eq_ok_iff (record : OpenRecord σ α)
    (hapart : record.members.Pairwise Member.Apart)
    (hblank : ∀ m ∈ record.members, m.isFilled record.blank = false)
    {r : Reading} {entries : List (String × Value)} (hd : OrderedMap.Distinct entries) {a : α} :
    record.ofValue r.read (.object entries) = .ok a ↔
      ∃ draft, Record.fillDeclared r entries record.members record.blank = .ok draft ∧
        record.finish draft (others record.members entries) = .ok a := by
  rw [ofValue, bind_eq_ok_iff]
  simp only [Record.fillMembers_eq_ok_iff hapart hd fun m hm _ => hblank m hm]

end RuleGraph.Json
