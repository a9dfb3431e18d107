import RuleGraph.Proofs.GraphRoundTrip
import RuleGraph.Proofs.Opacity

/-!
# Leaving a member out

A record is not read from an object without a member that it cannot do without
(`Needs.not_finishes`). What is written for a part of a graph can do without any other member: it
is read as the same with that member unset (`Edge.ofValue_remove` and its like).
-/

namespace RuleGraph

/-! ## Removed keys -/

namespace OrderedMap

variable {κ α : Type} [DecidableEq κ] {m : OrderedMap κ α} {key : κ}

/-- From a map, removing a key leaves the other entries. -/
theorem remove_eq_filter (hd : Distinct m) : remove key m = m.filter (·.1 ≠ key) := by
  induction m with
  | nil => rfl
  | cons entry m ih =>
    obtain ⟨k, a⟩ := entry
    obtain ⟨hk, hd'⟩ := List.nodup_cons.mp hd
    rw [remove]
    split
    · rename_i heq
      subst heq
      have hall : ∀ e ∈ m, decide (e.1 ≠ k) = true := by
        intro e he
        refine decide_eq_true ?_
        rintro rfl
        exact hk (List.mem_map.mpr ⟨e, he, rfl⟩)
      rw [List.filter_cons_of_neg (by simp), List.filter_eq_self.mpr hall]
    · rename_i hne
      rw [List.filter_cons_of_pos (by simpa using hne), ih hd']

theorem remove_of_not_mem (h : key ∉ keys m) : remove key m = m := by
  induction m with
  | nil => rfl
  | cons entry m ih =>
    obtain ⟨k, a⟩ := entry
    have hk : k ≠ key := fun heq => h (heq ▸ List.mem_cons_self)
    rw [remove, if_neg hk, ih fun hmem => h (List.mem_cons_of_mem _ hmem)]

theorem remove_sublist : (remove key m).Sublist m := by
  induction m with
  | nil => exact .slnil
  | cons entry m ih =>
    obtain ⟨k, a⟩ := entry
    rw [remove]
    split
    · exact List.sublist_cons_self _ _
    · exact ih.cons_cons _

theorem Distinct.remove (hd : Distinct m) : Distinct (OrderedMap.remove key m) :=
  hd.sublist (remove_sublist.map _)

theorem find?_remove_self (hd : Distinct m) : find? key (remove key m) = none := by
  rw [find?_eq_none_iff, remove_eq_filter hd]
  intro h
  obtain ⟨e, he, rfl⟩ := List.mem_map.mp h
  simpa using (List.mem_filter.mp he).2

end OrderedMap

namespace Json

/-! ## Members that have to be there -/

section Needs

variable {σ α : Type} {members ms : List (Member σ)} {blank draft d : σ} {finishes : σ → Prop}
  {r : Reading} {entries : List (String × Value)} {key : String}

/-- The names of the members that a record cannot do without. -/
def requiredNames (members : List (Member σ)) : List String :=
  (members.filter (·.isRequired)).map (·.name)

/-- A record starts from a draft in which nothing is filled, and finishes only those in which all is
filled that it cannot do without. -/
structure Needs (members : List (Member σ)) (blank : σ) (finishes : σ → Prop) : Prop where
  apart : members.Pairwise Member.Apart
  blank : ∀ m ∈ members, m.isFilled blank = false
  filled : ∀ draft, finishes draft → ∀ m ∈ members, m.isRequired → m.isFilled draft

/-- A member that an object does not have is not filled from it. -/
theorem isFilled_of_find?_eq_none {m : Member σ} (hapart : members.Pairwise Member.Apart)
    (hm : m ∈ members) (hfind : OrderedMap.find? m.name entries = none) (hms : ms ⊆ members)
    (h : Record.fillDeclared r entries ms draft = .ok d) : m.isFilled d = m.isFilled draft := by
  induction ms generalizing draft with
  | nil =>
    cases h
    rfl
  | cons m' ms ih =>
    obtain ⟨hm', hms⟩ := List.cons_subset.mp hms
    rw [Record.fillDeclared] at h
    cases hfind' : OrderedMap.find? m'.name entries with
    | none =>
      rw [hfind'] at h
      exact ih hms h
    | some v =>
      rw [hfind'] at h
      obtain ⟨fill, hfill, hrest⟩ := bind_eq_ok_iff.mp h
      have hne : m ≠ m' := by
        rintro rfl
        rw [hfind] at hfind'
        cases hfind'
      rw [ih hms hrest]
      exact (Member.apart_of_mem hapart hm hm' hne).isFilled' ⟨r, v, hfill⟩ draft

theorem Needs.not_finishes (h : Needs members blank finishes) (hkey : key ∈ requiredNames members)
    (hfind : OrderedMap.find? key entries = none)
    (hfill : Record.fillDeclared r entries members blank = .ok d) : ¬ finishes d := by
  intro hd
  obtain ⟨m, hm, rfl⟩ := List.mem_map.mp hkey
  obtain ⟨hm, hrequired⟩ := List.mem_filter.mp hm
  have hfilled := h.filled d hd m hm hrequired
  have hsame := isFilled_of_find?_eq_none h.apart hm hfind (List.Subset.refl _) hfill
  rw [hsame, h.blank m hm] at hfilled
  cases hfilled

/-- A record is not read from an object without a member that it cannot do without. -/
theorem Record.ofValue_remove_ne_ok (record : Record σ α)
    (h : Needs record.members record.blank fun draft => ∃ a, record.finish draft = .ok a)
    (hd : OrderedMap.Distinct entries) (hkey : key ∈ requiredNames record.members) (a : α) :
    record.ofValue r.read (.object (OrderedMap.remove key entries)) ≠ .ok a := by
  intro ha
  obtain ⟨d, hfill, hfinish⟩ :=
    (Record.ofValue_object_eq_ok_iff record h.apart h.blank hd.remove).mp ha
  exact h.not_finishes hkey (OrderedMap.find?_remove_self hd) hfill ⟨a, hfinish⟩

theorem OpenRecord.ofValue_remove_ne_ok (record : OpenRecord σ α)
    (h : Needs record.members record.blank fun draft => ∃ held a, record.finish draft held = .ok a)
    (hd : OrderedMap.Distinct entries) (hkey : key ∈ requiredNames record.members) (a : α) :
    record.ofValue r.read (.object (OrderedMap.remove key entries)) ≠ .ok a := by
  intro ha
  obtain ⟨d, hfill, hfinish⟩ :=
    (OpenRecord.ofValue_object_eq_ok_iff record h.apart h.blank hd.remove).mp ha
  exact h.not_finishes hkey (OrderedMap.find?_remove_self hd) hfill ⟨_, a, hfinish⟩

end Needs

end Json

open Json

/-! ## Members that may be left out -/

theorem filter_cons_of_ne {name key : String} (h : name ≠ key) {v : Value}
    {members : List (String × Value)} :
    ((name, v) :: members).filter (·.1 ≠ key) = (name, v) :: members.filter (·.1 ≠ key) :=
  List.filter_cons_of_pos (decide_eq_true h)

theorem filter_setMember {α : Type} {name key : String} {toValue : α → Value} {a : Option α} :
    (setMember name toValue a).filter (·.1 ≠ key) =
      setMember name toValue (if name = key then none else a) := by
  cases a with
  | none => simp [setMember]
  | some a =>
    by_cases h : name = key <;> simp [setMember, h]

namespace Attributes

variable {key : String}

/-- The attributes with one of them unset. -/
def without (key : String) (a : Attributes) : Attributes where
  shape := if "shape" = key then none else a.shape
  style := if "style" = key then none else a.style
  fontColor := if "fontcolor" = key then none else a.fontColor
  color := if "color" = key then none else a.color

theorem filter_toMembers (a : Attributes) :
    a.toMembers.filter (·.1 ≠ key) = (a.without key).toMembers := by
  simp only [toMembers, List.filter_append, filter_setMember, without]

/-- Attributes can do without each of them. -/
theorem ofValue_remove (a : Attributes) (key : String) :
    format.ofValue (.object (OrderedMap.remove key a.toMembers)) = .ok (a.without key) := by
  rw [OrderedMap.remove_eq_filter a.distinct_toMembers, filter_toMembers]
  exact (a.without key).restores

end Attributes

namespace Node

theorem needs : Needs record.members record.blank
    fun draft => ∃ held n, record.finish draft held = .ok n where
  apart := apart_members
  blank := by simp [record, members, Member.required]
  filled := by
    rintro draft ⟨held, n, h⟩
    obtain ⟨id, hid, h⟩ := bind_eq_ok_iff.mp h
    obtain ⟨label, hlabel, h⟩ := bind_eq_ok_iff.mp h
    rw [need_eq_ok_iff] at hid hlabel
    simp [record, members, Member.required, hid, hlabel]

/-- A node can do without each of its attributes. -/
theorem ofValue_remove (n : Node) {key : String} (hkey : key ∉ requiredNames members) :
    format.ofValue (.object (OrderedMap.remove key n.toMembers)) =
      .ok { n with attributes := n.attributes.without key } := by
  have hown : "id" ≠ key ∧ "label" ≠ key := by
    constructor <;> rintro rfl <;> exact hkey (by decide)
  rw [OrderedMap.remove_eq_filter n.distinct_toMembers, toMembers, filter_cons_of_ne hown.1,
    filter_cons_of_ne hown.2, Attributes.filter_toMembers]
  exact restores { n with attributes := n.attributes.without key }

end Node

namespace Edge

/-- The edge with one of its members unset. -/
def without (key : String) (e : Edge) : Edge :=
  { e with
    label := if "label" = key then none else e.label
    labelDistance := if "labeldistance" = key then none else e.labelDistance
    color := if "color" = key then none else e.color }

theorem needs : Needs record.members record.blank
    fun draft => ∃ e, record.finish draft = .ok e where
  apart := apart_members
  blank := by simp [record, members, Member.required, Member.defaulted]
  filled := by
    rintro draft ⟨e, h⟩
    obtain ⟨source, hsource, h⟩ := bind_eq_ok_iff.mp h
    obtain ⟨target, htarget, h⟩ := bind_eq_ok_iff.mp h
    obtain ⟨isDirected, hdirected, h⟩ := bind_eq_ok_iff.mp h
    rw [need_eq_ok_iff] at hsource htarget hdirected
    simp [record, members, Member.required, Member.defaulted, hsource, htarget, hdirected]

/-- An edge can do without its label, the distance of it and its color. -/
theorem ofValue_remove (e : Edge) {key : String} (hkey : key ∉ requiredNames members) :
    format.ofValue (.object (OrderedMap.remove key e.toMembers)) = .ok (e.without key) := by
  have hown : "source" ≠ key ∧ "target" ≠ key ∧ "directed" ≠ key := by
    refine ⟨?_, ?_, ?_⟩ <;> rintro rfl <;> exact hkey (by decide)
  have hrest : e.restMembers.filter (·.1 ≠ key) = (e.without key).restMembers := by
    simp only [restMembers, List.filter_append, filter_setMember, without]
  rw [OrderedMap.remove_eq_filter e.distinct_toMembers, toMembers, filter_cons_of_ne hown.1,
    filter_cons_of_ne hown.2.1, filter_cons_of_ne hown.2.2, hrest]
  exact (e.without key).restores

end Edge

namespace Graph

theorem needs : Needs record.members record.blank
    fun draft => ∃ g, record.finish draft = .ok g where
  apart := apart_members
  blank := by simp [record, members, Member.required]
  filled := by
    rintro draft ⟨g, h⟩
    obtain ⟨isDirected, hdirected, h⟩ := bind_eq_ok_iff.mp h
    obtain ⟨nodes, hnodes, h⟩ := bind_eq_ok_iff.mp h
    obtain ⟨edges, hedges, h⟩ := bind_eq_ok_iff.mp h
    rw [need_eq_ok_iff] at hdirected hnodes hedges
    simp [record, members, Member.required, hdirected, hnodes, hedges]

/-- Graphs have no other members than those they cannot do without. -/
theorem ofValue_remove (g : Graph) {key : String} (hkey : key ∉ requiredNames members) :
    format.ofValue (.object (OrderedMap.remove key g.toMembers)) = .ok g := by
  rw [OrderedMap.remove_of_not_mem (by exact hkey)]
  exact g.restores

end Graph

namespace GraphDocument

def toMembers (d : GraphDocument) : List (String × Value) := [("graph", d.graph.toValue)]

theorem needs : Needs record.members record.blank
    fun draft => ∃ d, record.finish draft = .ok d where
  apart := List.pairwise_singleton _ _
  blank := by simp [record, members, Member.required]
  filled := by
    rintro draft ⟨d, h⟩
    obtain ⟨graph, hgraph, h⟩ := bind_eq_ok_iff.mp h
    rw [need_eq_ok_iff] at hgraph
    simp [record, members, Member.required, hgraph]

theorem ofValue_remove (d : GraphDocument) {key : String} (hkey : key ∉ requiredNames members) :
    format.ofValue (.object (OrderedMap.remove key d.toMembers)) = .ok d := by
  rw [OrderedMap.remove_of_not_mem (by exact hkey)]
  exact d.restores

end GraphDocument

/-! ## Every way to decode -/

namespace Json

variable {α : Type} {f : Format α} {v : Value} {n : Nat} {members : List (String × Value)}

theorem Value.legible_object_iff :
    (Value.object members).Legible (n + 1) ↔
      OrderedMap.Distinct members ∧ ∀ m ∈ members, m.2.Legible n := by
  refine ⟨fun h => ?_, fun h => legible_object h.1 h.2⟩
  have hdistinct := h.distinct
  have hfloatless := h.floatless
  have hdepth := h.depth_le
  rw [Distinct, distinctMembers_iff] at hdistinct
  rw [Floatless, floatlessMembers_iff] at hfloatless
  rw [depth, Nat.add_le_add_iff_right, depthMembers_le_iff] at hdepth
  exact ⟨hdistinct.1, fun m hm => ⟨hdistinct.2 m hm, hfloatless m hm, hdepth m hm⟩⟩

theorem Value.Legible.remove (h : (Value.object members).Legible (n + 1)) (key : String) :
    (Value.object (OrderedMap.remove key members)).Legible (n + 1) := by
  obtain ⟨hd, hmembers⟩ := Value.legible_object_iff.mp h
  exact Value.legible_object hd.remove fun m hm =>
    hmembers m (OrderedMap.remove_sublist.subset hm)

/-- The results of decoding a value: as it is, and from each of its texts on both routes. -/
def Format.decodings (f : Format α) (v : Value) : List (Except Error α) :=
  (f.ofValue v).mapError .mismatch ::
    writers.flatMap fun write => [f.readText (write v), f.readValue (write v)]

/-- A legible value is decoded alike in every way. -/
theorem Format.eq_ok_iff_of_mem_decodings (hf : f.Agrees) (hv : v.Legible Tree.maxDepth)
    {result : Except Error α} (h : result ∈ f.decodings v) (a : α) :
    result = .ok a ↔ f.ofValue v = .ok a := by
  rcases List.mem_cons.mp h with rfl | h
  · exact mapError_eq_ok_iff
  · obtain ⟨write, hwrite, h⟩ := List.mem_flatMap.mp h
    have hs := spelled_of_mem_writers hwrite hv.floatless
    simp only [List.mem_cons, List.not_mem_nil, or_false] at h
    rcases h with rfl | rfl
    · exact hs.readText_eq_ok_iff hv.distinct hv.depth_le hf a
    · exact hs.readValue_eq_ok_iff hv.distinct hv.depth_le f a

end Json

end RuleGraph
