import RuleGraph.Proofs.NodeIds
import RuleGraph.Proofs.Resolution

/-!
# References can be read off the edges

The edges that leave an entity tell what its fields resolve to: a label names the field and the
place, and the edge to a slot has the entity and the key in the slot's id. Which field an edge shows
(`Edge.shows`) can be seen on the edge itself, so the edges of one field can be picked out of those
of a whole graph. Hence two graphs of the same entities have the same edges exactly if all fields
refer to the same (`Document.edges_eq_iff`), where a sequence without references counts as absent.
-/

namespace RuleGraph

open Json

/-- Whether a field holds several references. -/
def Relation.isSequence : Relation → Bool
  | .sequence _ => true
  | .single _ | .union _ => false

/-! ## Labels -/

/-- The part of a label in front of a bracket. -/
def stem (label : String) : List Char := label.toList.takeWhile (· ≠ '[')

/-- There is one field only that holds several references. -/
theorem Kind.eq_of_isSequence {k l : Kind} {f g : ReferenceField} (hf : f ∈ k.references)
    (hg : g ∈ l.references) (hsf : f.relation.isSequence) (hsg : g.relation.isSequence) :
    f = g := by
  have hall : ∀ k ∈ Kind.all, ∀ l ∈ Kind.all, ∀ f ∈ k.references, ∀ g ∈ l.references,
      f.relation.isSequence → g.relation.isSequence → f = g := by decide
  exact hall k k.mem_all l l.mem_all f hf g hg hsf hsg

/-- No field has a bracket in its name, so what follows the name is cut off. -/
theorem takeWhile_name_append {k : Kind} {f : ReferenceField} (hf : f ∈ k.references)
    {rest : List Char} (hrest : rest.takeWhile (· ≠ '[') = []) :
    (f.name.toList ++ rest).takeWhile (· ≠ '[') = f.name.toList := by
  have hall : ∀ k ∈ Kind.all, ∀ f ∈ k.references, f.name.toList.all (· ≠ '[') := by decide
  rw [List.takeWhile_append_of_pos (List.all_eq_true.mp (hall k k.mem_all f hf)), hrest,
    List.append_nil]

theorem stem_name {k : Kind} {f : ReferenceField} (hf : f ∈ k.references) :
    stem f.name = f.name.toList := by
  rw [stem, ← List.append_nil f.name.toList, takeWhile_name_append hf rfl, List.append_nil]

theorem stem_placeName {k : Kind} {f : ReferenceField} (hf : f ∈ k.references) (i : Nat) :
    stem (Walk.placeName f.name i) = f.name.toList := by
  simp only [stem, Walk.placeName, String.toList_append, List.append_assoc]
  exact takeWhile_name_append hf rfl

/-- Whether an edge leaves an entity and shows one of its fields: by the stem of its label, or, if
it has no label, as an edge to a slot. -/
def Edge.shows (owner : EntityId) (f : ReferenceField) (x : Edge) : Bool :=
  x.source = .entity owner &&
    match x.label with
    | some label => stem label = f.name.toList
    | none => f.relation.isSequence

/-! ## The edges of references -/

namespace References

/-- The edges of a field's references that leave their owner: one for each reference. -/
def outgoing (owner : EntityId) (field : String) : References → List Edge
  | .one target => [.labeled (.entity owner) (.entity target) field]
  | .ordered targets =>
    targets.mapIdx fun i target =>
      .labeled (.entity owner) (.entity target) (Walk.placeName field i)
  | .keyed slots => slots.map fun slot => .greyed (.entity owner) (.slot slot.2 slot.1)

/-- There are no references, by position or by name. -/
def IsEmpty (refs : References) : Prop := refs = .ordered [] ∨ refs = .keyed []

theorem edges_of_isEmpty {refs : References} (h : refs.IsEmpty) (owner : EntityId)
    (field : String) : refs.edges owner field = [] := by
  rcases h with rfl | rfl <;> rfl

end References

theorem StandsFor.isSequence_of_keyed {r : Relation} {v : Value}
    {slots : List (String × EntityId)} (h : StandsFor r v (.keyed slots)) : r.isSequence := by
  cases h
  rfl

section Shown

variable {k l : Kind} {f g : ReferenceField} {v : Value} {refs : References}
  {owner owner' : EntityId} {x : Edge}

/-- An edge of references leaves their owner or a slot, and tells the field unless it is grey. -/
theorem References.edge_cases (hg : g ∈ l.references) (hx : x ∈ refs.edges owner g.name) :
    (x.source = .entity owner ∨ x.source.isSynthetic) ∧
      ((∃ label, x.label = some label ∧ stem label = g.name.toList) ∨
        x.label = none ∧ ∃ slots, refs = .keyed slots) := by
  cases refs with
  | one target =>
    rw [edges_one, List.mem_singleton] at hx
    subst hx
    exact ⟨.inl rfl, .inl ⟨_, rfl, stem_name hg⟩⟩
  | ordered targets =>
    rw [edges_ordered, List.mem_mapIdx] at hx
    obtain ⟨i, -, rfl⟩ := hx
    exact ⟨.inl rfl, .inl ⟨_, rfl, stem_placeName hg i⟩⟩
  | keyed slots =>
    rw [edges_keyed, List.mem_flatMap] at hx
    obtain ⟨slot, -, hx⟩ := hx
    simp only [List.mem_cons, List.not_mem_nil, or_false] at hx
    rcases hx with rfl | rfl
    · exact ⟨.inl rfl, .inr ⟨rfl, slots, rfl⟩⟩
    · exact ⟨.inr rfl, .inr ⟨rfl, slots, rfl⟩⟩

/-- The field that an edge shows is the one it comes from. -/
theorem References.eq_of_shows (hf : f ∈ k.references) (hg : g ∈ l.references)
    (hs : StandsFor g.relation v refs) (hx : x ∈ refs.edges owner' g.name)
    (hshows : x.shows owner f) : owner' = owner ∧ k = l ∧ f = g := by
  obtain ⟨hsource, hlabel⟩ := edge_cases hg hx
  rw [Edge.shows, Bool.and_eq_true, decide_eq_true_eq] at hshows
  constructor
  · rcases hsource with h | h
    · rw [hshows.1] at h
      exact (NodeId.entity.inj h).symm
    · rw [hshows.1] at h
      cases h
  · have hname : f.name = g.name := by
      rcases hlabel with ⟨label, hlabel, hstem⟩ | ⟨hlabel, slots, rfl⟩
      · have h := hshows.2
        rw [hlabel] at h
        rw [← String.toList_inj, ← hstem]
        exact (of_decide_eq_true h).symm
      · have h := hshows.2
        rw [hlabel] at h
        rw [Kind.eq_of_isSequence hf hg h hs.isSequence_of_keyed]
    exact Kind.eq_of_name_eq hf hg hname

/-- Of a field's edges, those that show the field are the ones that leave its owner. -/
theorem References.filter_shows (hf : f ∈ k.references) (hs : StandsFor f.relation v refs) :
    (refs.edges owner f.name).filter (·.shows owner f) = refs.outgoing owner f.name := by
  cases refs with
  | one target =>
    rw [edges_one, outgoing, List.filter_eq_self]
    intro x hx
    rw [List.mem_singleton.mp hx]
    simp [Edge.shows, Edge.labeled, stem_name hf]
  | ordered targets =>
    rw [edges_ordered, outgoing, List.filter_eq_self]
    intro x hx
    obtain ⟨i, -, rfl⟩ := List.mem_mapIdx.mp hx
    simp [Edge.shows, Edge.labeled, stem_placeName hf]
  | keyed slots =>
    rw [edges_keyed, outgoing, List.filter_flatMap, List.map_eq_flatMap]
    refine List.flatMap_congr fun slot _ => ?_
    simp [Edge.shows, Edge.greyed, hs.isSequence_of_keyed, NodeId.slot]

end Shown

/-! ## From edges back to references -/

namespace References

variable {owner : EntityId} {field : String} {r : Relation} {v v' : Value}
  {refs refs' : References}

theorem isEmpty_of_outgoing_eq_nil (h : refs.outgoing owner field = []) : refs.IsEmpty := by
  cases refs with
  | one target => cases h
  | ordered targets =>
    rw [outgoing, List.mapIdx_eq_nil_iff] at h
    exact .inl (by rw [h])
  | keyed slots =>
    rw [outgoing, List.map_eq_nil_iff] at h
    exact .inr (by rw [h])

theorem one_inj {target target' : EntityId}
    (h : outgoing owner field (.one target) = outgoing owner field (.one target')) :
    target = target' :=
  NodeId.entity.inj (Edge.mk.inj (List.cons.inj h).1).2.1

theorem ordered_inj {targets targets' : List EntityId}
    (h : outgoing owner field (.ordered targets) = outgoing owner field (.ordered targets')) :
    targets = targets' := by
  apply List.ext_getElem?
  intro i
  have hi := congrArg (·[i]?) h
  simp only [outgoing, List.getElem?_mapIdx] at hi
  refine Option.map_injective ?_ hi
  intro target target' heq
  exact NodeId.entity.inj (Edge.mk.inj heq).2.1

theorem keyed_inj {slots slots' : List (String × EntityId)}
    (h : outgoing owner field (.keyed slots) = outgoing owner field (.keyed slots')) :
    slots = slots' := by
  refine List.map_injective_iff.mpr ?_ h
  intro s s' hs
  obtain ⟨hid, hkey⟩ := NodeId.slot_inj.mp (Edge.mk.inj hs).2.1
  exact Prod.ext hkey hid

/-- References by position and references by name leave edges of different looks, if any. -/
theorem ordered_ne_keyed {targets : List EntityId} {slots : List (String × EntityId)}
    (h : outgoing owner field (.ordered targets) = outgoing owner field (.keyed slots)) :
    targets = [] ∧ slots = [] := by
  cases targets with
  | nil => exact ⟨rfl, List.map_eq_nil_iff.mp h.symm⟩
  | cons target targets =>
    rw [outgoing, outgoing, List.mapIdx_cons] at h
    cases slots with
    | nil => cases h
    | cons slot slots => cases (Edge.mk.inj (List.cons.inj h).1).2.2.2.1

/-- References in one field are the same if their edges are, or there are none. -/
theorem eq_or_isEmpty_of_outgoing_eq (hs : StandsFor r v refs) (hs' : StandsFor r v' refs')
    (h : refs.outgoing owner field = refs'.outgoing owner field) :
    refs = refs' ∨ refs.IsEmpty ∧ refs'.IsEmpty := by
  cases hs with
  | single _ =>
    cases hs'
    exact .inl (by rw [one_inj h])
  | union _ =>
    cases hs'
    exact .inl (by rw [one_inj h])
  | array _ =>
    cases hs' with
    | array _ => exact .inl (by rw [ordered_inj h])
    | object _ =>
      obtain ⟨rfl, rfl⟩ := ordered_ne_keyed h
      exact .inr ⟨.inl rfl, .inr rfl⟩
  | object _ =>
    cases hs' with
    | array _ =>
      obtain ⟨rfl, rfl⟩ := ordered_ne_keyed h.symm
      exact .inr ⟨.inr rfl, .inl rfl⟩
    | object _ => exact .inl (by rw [keyed_inj h])

end References

/-! ## The edges of fields -/

namespace Entity

variable {k : Kind} {e e' : Entity} {f : ReferenceField} {refs : References}

/-- A field holds no references: it is absent, or an array or an object without anything in it. -/
def HoldsNone (e : Entity) (f : ReferenceField) : Prop :=
  ∀ v, e.Carries f.name v → v = .array [] ∨ v = .object []

/-- Two entities refer to the same in a field, or to nothing in a field for several references. -/
def RefersAlike (e e' : Entity) (f : ReferenceField) : Prop :=
  (∀ refs, e.Resolves f refs ↔ e'.Resolves f refs) ∨
    f.relation.isSequence ∧ e.HoldsNone f ∧ e'.HoldsNone f

theorem Lacks.not_misuses (h : e.Lacks f) : ¬ e.Misuses f := fun ⟨v, hv, _⟩ => h v hv

theorem Resolves.not_misuses (h : e.Resolves f refs) : ¬ e.Misuses f := by
  rw [misuses_iff, resolves_iff.mp h]
  simp

theorem Resolves.not_lacks (h : e.Resolves f refs) : ¬ e.Lacks f := by
  obtain ⟨v, hv, -⟩ := h
  exact fun hl => hl v hv

theorem Carries.unique {name : String} {v v' : Value} (h : e.Carries name v)
    (h' : e.Carries name v') : v = v' := Option.some.inj (h.1.symm.trans h'.1)

/-- A field that is not misused is absent or resolves to references. -/
theorem lacks_or_resolves (h : ¬ e.Misuses f) : e.Lacks f ∨ ∃ refs, e.Resolves f refs := by
  rcases e.field_cases f with hl | hm | hr
  · exact .inl hl
  · exact absurd hm h
  · exact .inr hr

/-- Empty references stand in a field for several, as an empty array or object. -/
theorem Resolves.holdsNone (h : e.Resolves f refs) (hempty : refs.IsEmpty) :
    f.relation.isSequence ∧ e.HoldsNone f := by
  obtain ⟨v, hv, hs⟩ := h
  generalize hr : f.relation = r at hs
  rcases hempty with rfl | rfl
  · cases hs with
    | array hitems =>
      obtain rfl := List.forall₂_nil_right_iff.mp hitems
      exact ⟨rfl, fun v' hv' => .inl (hv'.unique hv)⟩
  · cases hs with
    | object hmembers =>
      obtain rfl := List.forall₂_nil_right_iff.mp hmembers
      exact ⟨rfl, fun v' hv' => .inr (hv'.unique hv)⟩

theorem Resolves.isEmpty_of_holdsNone (h : e.Resolves f refs) (hnone : e.HoldsNone f)
    (hseq : f.relation.isSequence) : refs.IsEmpty := by
  obtain ⟨v, hv, hs⟩ := h
  generalize f.relation = r at hs hseq
  rcases hnone v hv with rfl | rfl
  · cases hs with
    | single _ | union _ => cases hseq
    | array hitems => exact .inl (by rw [List.forall₂_nil_left_iff.mp hitems])
  · cases hs with
    | single _ | union _ => cases hseq
    | object hmembers => exact .inr (by rw [List.forall₂_nil_left_iff.mp hmembers])

end Entity

namespace Depiction

variable {k l : Kind} {e e' : Entity} {f g : ReferenceField} {refs : References}

theorem fieldEdges_of_lacks (h : e.Lacks f) : fieldEdges e f = [] := by
  rw [← (Walk.ofField_pushes h.not_misuses).2, Walk.ofField_of_lacks h]
  rfl

theorem fieldEdges_of_resolves (h : e.Resolves f refs) :
    fieldEdges e f = refs.edges e.id f.name := by
  rw [← (Walk.ofField_pushes h.not_misuses).2, Walk.ofField_of_resolves h]
  rfl

theorem fieldEdges_of_holdsNone (hm : ¬ e.Misuses f) (hseq : f.relation.isSequence)
    (h : e.HoldsNone f) : fieldEdges e f = [] := by
  rcases Entity.lacks_or_resolves hm with hl | ⟨refs, hr⟩
  · exact fieldEdges_of_lacks hl
  · rw [fieldEdges_of_resolves hr, References.edges_of_isEmpty (hr.isEmpty_of_holdsNone h hseq)]

/-- Entities that refer alike have the same edges. -/
theorem fieldEdges_congr (hm : ¬ e.Misuses f) (hm' : ¬ e'.Misuses f) (hid : e.id = e'.id)
    (h : e.RefersAlike e' f) : fieldEdges e f = fieldEdges e' f := by
  rcases h with hiff | ⟨hseq, hnone, hnone'⟩
  · rcases Entity.lacks_or_resolves hm with hl | ⟨refs, hr⟩
    · rcases Entity.lacks_or_resolves hm' with hl' | ⟨refs, hr'⟩
      · rw [fieldEdges_of_lacks hl, fieldEdges_of_lacks hl']
      · exact absurd hl ((hiff refs).mpr hr').not_lacks
    · rw [fieldEdges_of_resolves hr, fieldEdges_of_resolves ((hiff refs).mp hr), hid]
  · rw [fieldEdges_of_holdsNone hm hseq hnone, fieldEdges_of_holdsNone hm' hseq hnone']

/-- The edges of one field that show another one, of this entity or of one with another id. -/
theorem filter_shows_fieldEdges_of_ne (hf : f ∈ k.references) (hg : g ∈ l.references)
    (hm : ¬ e'.Misuses g) (hne : ¬ (e'.id = e.id ∧ l = k ∧ g = f)) :
    (fieldEdges e' g).filter (·.shows e.id f) = [] := by
  rcases Entity.lacks_or_resolves hm with hl | ⟨refs, hr⟩
  · rw [fieldEdges_of_lacks hl, List.filter_nil]
  · obtain ⟨v, -, hs⟩ := id hr
    rw [fieldEdges_of_resolves hr, List.filter_eq_nil_iff]
    intro x hx hshows
    obtain ⟨hid, hkind, hfield⟩ := References.eq_of_shows hf hg hs hx hshows
    exact hne ⟨hid, hkind.symm, hfield.symm⟩

theorem filter_shows_fieldEdges (hf : f ∈ k.references) (h : e.Resolves f refs) :
    (fieldEdges e f).filter (·.shows e.id f) = refs.outgoing e.id f.name := by
  obtain ⟨v, -, hs⟩ := id h
  rw [fieldEdges_of_resolves h, References.filter_shows hf hs]

/-- Entities refer alike if the edges are the same that show the field. -/
theorem refersAlike_of_filter_eq (hf : f ∈ k.references) (hm : ¬ e.Misuses f)
    (hm' : ¬ e'.Misuses f) (hid : e.id = e'.id)
    (h : (fieldEdges e f).filter (·.shows e.id f) = (fieldEdges e' f).filter (·.shows e'.id f)) :
    e.RefersAlike e' f := by
  rcases Entity.lacks_or_resolves hm with hl | ⟨refs, hr⟩ <;>
    rcases Entity.lacks_or_resolves hm' with hl' | ⟨refs', hr'⟩
  · refine .inl fun refs => ⟨fun hr => absurd hl hr.not_lacks, fun hr => absurd hl' hr.not_lacks⟩
  · rw [fieldEdges_of_lacks hl, filter_shows_fieldEdges hf hr'] at h
    obtain ⟨hseq, hnone⟩ := hr'.holdsNone (References.isEmpty_of_outgoing_eq_nil h.symm)
    exact .inr ⟨hseq, fun v hv => absurd hv (hl v), hnone⟩
  · rw [fieldEdges_of_lacks hl', filter_shows_fieldEdges hf hr] at h
    obtain ⟨hseq, hnone⟩ := hr.holdsNone (References.isEmpty_of_outgoing_eq_nil h)
    exact .inr ⟨hseq, hnone, fun v hv => absurd hv (hl' v)⟩
  · rw [filter_shows_fieldEdges hf hr, filter_shows_fieldEdges hf hr', ← hid] at h
    obtain ⟨v, -, hs⟩ := id hr
    obtain ⟨v', -, hs'⟩ := id hr'
    rcases References.eq_or_isEmpty_of_outgoing_eq hs hs' h with rfl | ⟨hempty, hempty'⟩
    · exact .inl fun refs' => ⟨fun h => hr.unique h ▸ hr', fun h => hr'.unique h ▸ hr⟩
    · obtain ⟨hseq, hnone⟩ := hr.holdsNone hempty
      exact .inr ⟨hseq, hnone, (hr'.holdsNone hempty').2⟩

end Depiction

/-! ## The edges of a graph -/

theorem Kind.nodup_references (k : Kind) : k.references.Nodup := by
  cases k <;> decide

namespace Document

/-- Where the entities of a document stand: the kinds of their buckets with their ids, in order. -/
def places (d : Document) : List (Kind × EntityId) := d.placed.map fun p => (p.1, p.2.id)

/-- Entities of two documents stand in the same places one by one. -/
theorem aligned_of_places_eq {d d' : Document} (h : d.places = d'.places) :
    List.Forall₂ (fun p p' => p.1 = p'.1 ∧ p.2.id = p'.2.id) d.placed d'.placed :=
  (map_eq_map_iff_forall₂.mp h).imp fun _ _ hp => ⟨(Prod.mk.inj hp).1, (Prod.mk.inj hp).2⟩

/-- The edges that show a field of an entity can be picked out of all edges. -/
theorem filter_shows_depiction {d : Document} (hm : ¬ d.HasMisuse) (hd : d.places.Nodup)
    {p : Kind × Entity} (hp : p ∈ d.placed) {f : ReferenceField} (hf : f ∈ p.1.references) :
    d.depiction.edges.filter (·.shows p.2.id f) =
      (Depiction.fieldEdges p.2 f).filter (·.shows p.2.id f) := by
  have hmisuse := not_hasMisuse_iff.mp hm
  show (d.placed.flatMap Depiction.edges).filter _ = _
  rw [List.filter_flatMap, flatMap_eq_of_mem (List.Nodup.of_map _ hd) hp]
  · rw [Depiction.edges, List.filter_flatMap, flatMap_eq_of_mem p.1.nodup_references hf]
    intro g hg hne
    exact Depiction.filter_shows_fieldEdges_of_ne hf hg (hmisuse p hp g hg) fun h => hne h.2.2
  · intro q hq hne
    rw [Depiction.edges, List.filter_flatMap, List.flatMap_eq_nil_iff]
    intro g hg
    refine Depiction.filter_shows_fieldEdges_of_ne hf hg (hmisuse q hq g hg) fun h => hne ?_
    exact List.inj_on_of_nodup_map hd hq hp (Prod.ext h.2.1 h.1)

/-- Two graphs of entities that stand in the same places, with different ids in each bucket, have
the same edges exactly if all fields of these entities refer to the same. -/
theorem edges_eq_iff {d d' : Document} {g g' : GraphDocument} (hg : d.graph = .ok g)
    (hg' : d'.graph = .ok g') (hplaces : d.places = d'.places) (hd : d.places.Nodup) :
    g.graph.edges = g'.graph.edges ↔
      List.Forall₂ (fun p p' => ∀ f ∈ p.1.references, p.2.RefersAlike p'.2 f)
        d.placed d'.placed := by
  obtain ⟨-, hm, rfl⟩ := graph_eq_ok_iff.mp hg
  obtain ⟨-, hm', rfl⟩ := graph_eq_ok_iff.mp hg'
  have hmisuse := not_hasMisuse_iff.mp hm
  have hmisuse' := not_hasMisuse_iff.mp hm'
  have hd' : d'.places.Nodup := hplaces ▸ hd
  obtain ⟨hlength, haligned⟩ := List.forall₂_iff_zip.mp (aligned_of_places_eq hplaces)
  constructor
  · intro hedges
    refine List.forall₂_iff_zip.mpr ⟨hlength, fun {p p'} hzip f hf => ?_⟩
    obtain ⟨hp, hp'⟩ := List.of_mem_zip hzip
    obtain ⟨hkind, hid⟩ := haligned hzip
    have hf' : f ∈ p'.1.references := hkind ▸ hf
    refine Depiction.refersAlike_of_filter_eq hf (hmisuse p hp f hf) (hmisuse' p' hp' f hf') hid ?_
    rw [← filter_shows_depiction hm hd hp hf, ← filter_shows_depiction hm' hd' hp' hf', ← hid]
    exact congrArg _ hedges
  · intro halike
    obtain ⟨-, halike⟩ := List.forall₂_iff_zip.mp halike
    refine flatMap_eq_of_forall₂ (List.forall₂_iff_zip.mpr ⟨hlength, fun {p p'} hzip => ?_⟩)
    obtain ⟨hp, hp'⟩ := List.of_mem_zip hzip
    obtain ⟨hkind, hid⟩ := haligned hzip
    rw [Depiction.edges, Depiction.edges, ← hkind]
    refine List.flatMap_congr fun f hf => ?_
    exact Depiction.fieldEdges_congr (hmisuse p hp f hf) (hmisuse' p' hp' f (hkind ▸ hf)) hid
      (halike hzip f hf)

/-- Three operators: without operands by position, without operands by name, and with one that
is spelled as an object. -/
def emptyOperands : Document where
  result := some (.natural 1)
  entities := some
    [ (.arithmeticOperator,
        [ ("1", ⟨.arithmeticOperator, 1, false, [("operands", .array [])]⟩),
          ("2", ⟨.arithmeticOperator, 2, false, [("operands", .object [])]⟩),
          ("3", ⟨.arithmeticOperator, 3, false,
            [("operands", .object [("1.5", .object [("id", .natural 2)])])]⟩) ]) ]

/-- The same operators: without operands, without operands by position, and with one that is
spelled as an id. -/
def missingOperands : Document where
  result := some (.natural 1)
  entities := some
    [ (.arithmeticOperator,
        [ ("1", ⟨.arithmeticOperator, 1, false, []⟩),
          ("2", ⟨.arithmeticOperator, 2, false, [("operands", .array [])]⟩),
          ("3", ⟨.arithmeticOperator, 3, false,
            [("operands", .object [("1.5", .natural 2)])]⟩) ]) ]

theorem edges_eq_iff_emptyOperands :
    ∃ g g', emptyOperands.graph = .ok g ∧ missingOperands.graph = .ok g' ∧
      emptyOperands.places = missingOperands.places ∧ emptyOperands.places.Nodup ∧
        g.graph.edges = g'.graph.edges ∧
          List.Forall₂ (fun p p' => ∀ f ∈ p.1.references, p.2.RefersAlike p'.2 f)
            emptyOperands.placed missingOperands.placed :=
  ⟨_, _, rfl, rfl, rfl, by decide, by decide,
    (@edges_eq_iff emptyOperands missingOperands _ _ rfl rfl rfl (by decide)).mp
      (by decide)⟩

end Document

end RuleGraph
