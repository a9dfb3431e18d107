import RuleGraph.Proofs.Headings
import RuleGraph.Proofs.Resolution
import RuleGraph.Proofs.Vacancy

/-!
# What kind, stub mark and id of an entity decide

Entities with the same fields that fill a vacancy give outcomes that correspond
(`Vacancy.outcomes_related`): the same failure but for the name of the entity, or graphs that differ
in the node of the entity and in the sources of its own edges. From this follows what becomes of the
outcome if the kind alone, the stub mark alone or the id alone is another one
(`Vacancy.typed_members_framed`).
-/

namespace RuleGraph

open Json

/-! ## Entities with the same fields -/

/-- The edge with another entity as its source; an edge that leaves a slot stays as it is. -/
def Edge.withOwner (id : EntityId) (x : Edge) : Edge :=
  if x.source.isSynthetic then x else { x with source := .entity id }

section SameFields

variable {bucket : Kind} {e e' : Entity}

theorem Entity.field?_congr (h : e'.fields = e.fields) (name : String) :
    e'.field? name = e.field? name := by
  rw [field?, field?, h]

theorem Entity.misuses_congr (h : e'.fields = e.fields) (f : ReferenceField) :
    e'.Misuses f ↔ e.Misuses f := by
  rw [misuses_iff, misuses_iff, resolution, resolution, field?_congr h]

/-- Of two entities with the same fields, both fail or neither, and for the same field. -/
theorem Walk.ofEntity_failure_cases (bucket : Kind) (h : e'.fields = e.fields) :
    (ofEntity bucket e).failure = none ∧ (ofEntity bucket e').failure = none ∨
      ∃ f ∈ bucket.references, e.Misuses f ∧
        (ofEntity bucket e).failure = some (.malformedReference e.kind e.id f.name) ∧
        (ofEntity bucket e').failure = some (.malformedReference e'.kind e'.id f.name) := by
  cases hfailure : (ofEntity bucket e).failure with
  | none =>
    refine .inl ⟨rfl, ?_⟩
    simp only [ofEntity_failure, List.findSome?_eq_none_iff,
      ofField_failure_eq_none_iff] at hfailure ⊢
    exact fun f hf hm => hfailure f hf ((Entity.misuses_congr h f).mp hm)
  | some err =>
    rw [ofEntity_failure, List.findSome?_eq_some_iff] at hfailure
    obtain ⟨before, f, after, hsplit, hf, hbefore⟩ := hfailure
    obtain ⟨hm, rfl⟩ := ofField_failure_eq_some_iff.mp hf
    refine .inr ⟨f, by rw [hsplit]; simp, hm, rfl, ?_⟩
    rw [ofEntity_failure, List.findSome?_eq_some_iff]
    refine ⟨before, f, after, hsplit, ?_, fun g hg => ?_⟩
    · exact ofField_failure_eq_some_iff.mpr ⟨(Entity.misuses_congr h f).mpr hm, rfl⟩
    · have hnone := ofField_failure_eq_none_iff.mp (hbefore g hg)
      exact ofField_failure_eq_none_iff.mpr fun hm => hnone ((Entity.misuses_congr h g).mp hm)

namespace Depiction

theorem allEntries_congr (h : e'.fields = e.fields) :
    allEntries (bucket, e') = allEntries (bucket, e) := by
  refine List.flatMap_congr fun f _ => ?_
  simp only [entries, Entity.field?_congr h]

theorem fieldEdges_withOwner (h : e'.fields = e.fields) (f : ReferenceField) :
    fieldEdges e' f = (fieldEdges e f).map (Edge.withOwner e'.id) := by
  unfold fieldEdges
  rw [Entity.field?_congr h]
  cases f.relation with
  | single _ | union _ => cases e.field? f.name <;> rfl
  | sequence _ =>
    match e.field? f.name with
    | some (.array items) =>
      simp only [List.mapIdx_eq_zipIdx_map, List.map_map]
      rfl
    | some (.object members) => rw [List.map_flatMap]; rfl
    | none | some .null | some (.bool _) | some (.number _) | some (.string _) => rfl

theorem edges_withOwner (h : e'.fields = e.fields) :
    edges (bucket, e') = (edges (bucket, e)).map (Edge.withOwner e'.id) := by
  rw [edges, edges, List.map_flatMap]
  exact List.flatMap_congr fun f _ => fieldEdges_withOwner h f

/-- Labeled edges and those to a slot leave the entity, the others leave a slot. -/
theorem source_of_mem_edges {x : Edge} (hx : x ∈ edges (bucket, e)) :
    if x.label.isSome ∨ x.target.isSynthetic then x.source = .entity e.id
    else x.source.isSynthetic := by
  obtain ⟨f, -, hx⟩ := List.mem_flatMap.mp hx
  unfold fieldEdges at hx
  split at hx
  · rw [List.mem_singleton.mp hx]
    rfl
  · rw [List.mem_singleton.mp hx]
    rfl
  · obtain ⟨i, -, rfl⟩ := List.mem_mapIdx.mp hx
    rfl
  · obtain ⟨entry, -, hx⟩ := List.mem_flatMap.mp hx
    rcases List.mem_pair.mp hx with rfl | rfl <;> rfl
  · cases hx

theorem edges_congr (h : e'.fields = e.fields) (hid : e'.id = e.id) :
    edges (bucket, e') = edges (bucket, e) := by
  refine List.flatMap_congr fun f _ => ?_
  simp only [fieldEdges, Entity.field?_congr h, hid]

end Depiction

end SameFields

/-! ## What becomes of an outcome -/

/-- Two results are both errors or both values, and these are related. -/
inductive Related {ε α : Type} (E : ε → ε → Prop) (R : α → α → Prop) :
    Except ε α → Except ε α → Prop
  | error {err err' : ε} (h : E err err') : Related E R (.error err) (.error err')
  | ok {a a' : α} (h : R a a') : Related E R (.ok a) (.ok a')

theorem Related.imp {ε α : Type} {E E' : ε → ε → Prop} {R R' : α → α → Prop} {x y : Except ε α}
    (h : Related E R x y) (hE : ∀ err err', E err err' → E' err err')
    (hR : ∀ a a', R a a' → R' a a') : Related E' R' x y := by
  cases h with
  | error h => exact .error (hE _ _ h)
  | ok h => exact .ok (hR _ _ h)

/-- The same error, or one that names another entity, for a field that the first one misuses. -/
inductive BuildError.Renames (bucket : Kind) (e e' : Entity) : BuildError → BuildError → Prop
  | same (err : BuildError) : Renames bucket e e' err err
  | own {f : ReferenceField} (hf : f ∈ bucket.references) (hm : e.Misuses f) :
      Renames bucket e e' (.malformedReference e.kind e.id f.name)
        (.malformedReference e'.kind e'.id f.name)

/-- Two graphs differ in the node of one entity and in the sources of its own edges only. -/
structure Graph.Changes (v : Vacancy) (e e' : Entity) (g g' : Graph) : Prop where
  isDirected : g'.isDirected = g.isDirected
  nodes : ∃ nodes, g.nodes =
      v.earlier.flatMap Depiction.nodes ++ Walk.entityNode v.bucket e :: nodes ∧
    g'.nodes = v.earlier.flatMap Depiction.nodes ++ Walk.entityNode v.bucket e' :: nodes
  edges : ∃ edges, g.edges =
      v.earlier.flatMap Depiction.edges ++ Depiction.edges (v.bucket, e) ++ edges ∧
    g'.edges = v.earlier.flatMap Depiction.edges ++
      (Depiction.edges (v.bucket, e)).map (Edge.withOwner e'.id) ++ edges

namespace Vacancy

variable {v : Vacancy} {e e' : Entity}

theorem changes_depiction (h : e'.fields = e.fields) :
    (v.fill e).depiction.Changes v e e' (v.fill e').depiction where
  isDirected := rfl
  nodes := by
    refine ⟨(Depiction.allEntries (v.bucket, e)).map Depiction.slotNode ++
      v.later.flatMap Depiction.nodes, ?_, ?_⟩
    · simp [Document.depiction, placed_fill, Depiction.nodes, Walk.entityNode_eq]
    · simp [Document.depiction, placed_fill, Depiction.nodes, Walk.entityNode_eq,
        Depiction.allEntries_congr h]
  edges := by
    refine ⟨v.later.flatMap Depiction.edges, ?_, ?_⟩
    · simp [Document.depiction, placed_fill]
    · simp [Document.depiction, placed_fill, Depiction.edges_withOwner h]

theorem edges_depiction (h : e'.fields = e.fields) (hid : e'.id = e.id) :
    (v.fill e').depiction.edges = (v.fill e).depiction.edges := by
  simp only [Document.depiction, placed_fill, List.flatMap_append, List.flatMap_cons,
    Depiction.edges_congr h hid]

/-- The failure of a walk is that of its first entity that fails. -/
theorem failure?_fill (v : Vacancy) (e : Entity) :
    (v.fill e).failure? = (v.earlier.findSome? fun p => (Walk.ofEntity p.1 p.2).failure).or
      ((Walk.ofEntity v.bucket e).failure.or
        (v.later.findSome? fun p => (Walk.ofEntity p.1 p.2).failure)) := by
  rw [Document.failure?_eq, placed_fill, List.findSome?_append, List.findSome?_cons]
  cases (Walk.ofEntity v.bucket e).failure <;> rfl

/-- Walks through an entity and another one with the same fields fail alike. -/
theorem failure?_cases (v : Vacancy) (h : e'.fields = e.fields) :
    (v.fill e').failure? = (v.fill e).failure? ∨
      ∃ f ∈ v.bucket.references, e.Misuses f ∧
        (v.fill e).failure? = some (.malformedReference e.kind e.id f.name) ∧
        (v.fill e').failure? = some (.malformedReference e'.kind e'.id f.name) := by
  rw [failure?_fill, failure?_fill]
  cases v.earlier.findSome? fun p => (Walk.ofEntity p.1 p.2).failure with
  | some err => exact .inl rfl
  | none =>
    rcases Walk.ofEntity_failure_cases v.bucket h with
      ⟨hnone, hnone'⟩ | ⟨f, hf, hm, herr, herr'⟩
    · rw [hnone, hnone']
      exact .inl rfl
    · rw [herr, herr']
      exact .inr ⟨f, hf, hm, rfl, rfl⟩

/-- Entities with the same fields give graphs, or they give failures that name one or the other. -/
theorem outcomes_related (v : Vacancy) (h : e'.fields = e.fields) :
    Related (BuildError.Renames v.bucket e e')
      (fun g g' => g.graph = (v.fill e).depiction ∧ g'.graph = (v.fill e').depiction)
      (v.fill e).graph (v.fill e').graph := by
  by_cases hn : (v.fill e).IsNormalized
  · have hn' := (v.isNormalized_fill_iff e e').mp hn
    rcases v.failure?_cases h with hsame | ⟨f, hf, hm, herr, herr'⟩
    · cases hfailure : (v.fill e).failure? with
      | none =>
        have hm := Document.failure?_eq_none_iff.mp hfailure
        have hm' := Document.failure?_eq_none_iff.mp (hsame.trans hfailure)
        rw [Document.graph_eq_ok_iff.mpr ⟨hn, hm, rfl⟩,
          Document.graph_eq_ok_iff.mpr ⟨hn', hm', rfl⟩]
        exact .ok ⟨rfl, rfl⟩
      | some err =>
        rw [Document.graph_of_failure hn hfailure,
          Document.graph_of_failure hn' (hsame.trans hfailure)]
        exact .error (.same err)
    · rw [Document.graph_of_failure hn herr, Document.graph_of_failure hn' herr']
      exact .error (.own hf hm)
  · have hn' := fun hn' => hn ((v.isNormalized_fill_iff e e').mpr hn')
    rw [Document.graph_of_not_isNormalized hn, Document.graph_of_not_isNormalized hn']
    exact .error (.same _)

/-- With the same id as well, the graphs have the same edges. -/
theorem outcomes_related_of_id_eq (v : Vacancy) (h : e'.fields = e.fields) (hid : e'.id = e.id) :
    Related (BuildError.Renames v.bucket e e')
      (fun g g' => g.graph.Changes v e e' g'.graph ∧ g'.graph.edges = g.graph.edges)
      (v.fill e).graph (v.fill e').graph := by
  refine (outcomes_related v h).imp (fun _ _ herr => herr) fun g g' hg => ?_
  rw [hg.1, hg.2]
  exact ⟨changes_depiction h, edges_depiction h hid⟩

end Vacancy

/-! ## The kind, the stub mark and the id -/

namespace Entity

def withKind (e : Entity) (kind : Kind) : Entity := { e with kind }

def withId (e : Entity) (id : EntityId) : Entity := { e with id }

/-- The entity as a stub if it is none, and as none if it is one. -/
def flipped (e : Entity) : Entity := { e with isStub := !e.isStub }

/-- The mark of stubs is the end of a label, which is the same without it. -/
theorem label_flipped (bucket : Kind) (e : Entity) :
    if e.isStub then e.label bucket = e.flipped.label bucket ++ "\n(not parsed yet)"
    else e.flipped.label bucket = e.label bucket ++ "\n(not parsed yet)" := by
  have htitle : e.flipped.title? = e.title? := rfl
  have hid : e.flipped.id = e.id := rfl
  have hstub : e.flipped.isStub = !e.isStub := rfl
  cases h : e.isStub <;> simp [label, htitle, hid, hstub, h, stubMark]

/-- Another kind may make another title, but leaves the heading. -/
theorem firstLine_withKind (bucket : Kind) (e : Entity) (kind : Kind) :
    firstLine ((e.withKind kind).label bucket) = firstLine (e.label bucket) := by
  rw [firstLine_label, firstLine_label]
  rfl

/-- Another id makes another heading, and leaves what stands below. -/
theorem label_withId (bucket : Kind) (e : Entity) (id : EntityId) :
    (e.withId id).label bucket = heading bucket id ++ e.details :=
  label_eq_heading_append bucket (e.withId id)

end Entity

/-- What another owner changes in the edges of an entity. -/
theorem Depiction.withOwner_of_mem_edges {bucket : Kind} {e : Entity} {x : Edge}
    (hx : x ∈ edges (bucket, e)) (id : EntityId) :
    if x.label.isSome ∨ x.target.isSynthetic then
      x.source = .entity e.id ∧ x.withOwner id = { x with source := .entity id }
    else x.withOwner id = x := by
  have hsource := source_of_mem_edges hx
  split at hsource
  · rename_i h
    rw [if_pos h]
    refine ⟨hsource, if_neg ?_⟩
    rw [hsource]
    exact Bool.false_ne_true
  · rename_i h
    rw [if_neg h]
    exact if_pos hsource

namespace Vacancy

/-- Another kind changes no edge and of the nodes the entity's own one only, but not its id and not
the first line of its label; a failure is the same but for the kind. Another stub mark changes the
end of that label only. Another id changes the id and the first line of that label, and the source
of the entity's own labeled edges and edges to slots; a failure is the same but for the id. Every
entity of a document can be exchanged like this, wherever it stands. -/
theorem typed_members_framed :
    (∀ (v : Vacancy) (e : Entity) (kind : Kind),
      Related (BuildError.Renames v.bucket e (e.withKind kind))
        (fun g g' => g.graph.Changes v e (e.withKind kind) g'.graph ∧
          g'.graph.edges = g.graph.edges)
        (v.fill e).graph (v.fill (e.withKind kind)).graph ∧
      (Walk.entityNode v.bucket (e.withKind kind)).id = (Walk.entityNode v.bucket e).id ∧
      firstLine (Walk.entityNode v.bucket (e.withKind kind)).label =
        firstLine (Walk.entityNode v.bucket e).label) ∧
    (∀ (v : Vacancy) (e : Entity),
      Related Eq
        (fun g g' => g.graph.Changes v e e.flipped g'.graph ∧ g'.graph.edges = g.graph.edges)
        (v.fill e).graph (v.fill e.flipped).graph ∧
      (Walk.entityNode v.bucket e.flipped).id = (Walk.entityNode v.bucket e).id ∧
      (Walk.entityNode v.bucket e.flipped).attributes = (Walk.entityNode v.bucket e).attributes ∧
      if e.isStub then
        (Walk.entityNode v.bucket e).label =
          (Walk.entityNode v.bucket e.flipped).label ++ "\n(not parsed yet)"
      else
        (Walk.entityNode v.bucket e.flipped).label =
          (Walk.entityNode v.bucket e).label ++ "\n(not parsed yet)") ∧
    (∀ (v : Vacancy) (e : Entity) (id : EntityId),
      Related (BuildError.Renames v.bucket e (e.withId id))
        (fun g g' => g.graph.Changes v e (e.withId id) g'.graph)
        (v.fill e).graph (v.fill (e.withId id)).graph ∧
      (Walk.entityNode v.bucket (e.withId id)).id = .entity id ∧
      (Walk.entityNode v.bucket (e.withId id)).attributes =
        (Walk.entityNode v.bucket e).attributes ∧
      (∃ details, (Walk.entityNode v.bucket e).label = Entity.heading v.bucket e.id ++ details ∧
        (Walk.entityNode v.bucket (e.withId id)).label = Entity.heading v.bucket id ++ details) ∧
      firstLine (Walk.entityNode v.bucket e).label = Entity.heading v.bucket e.id ∧
      firstLine (Walk.entityNode v.bucket (e.withId id)).label = Entity.heading v.bucket id ∧
      ∀ x ∈ Depiction.edges (v.bucket, e),
        if x.label.isSome ∨ x.target.isSynthetic then
          x.source = .entity e.id ∧ x.withOwner id = { x with source := .entity id }
        else x.withOwner id = x) ∧
    ∀ d : Document,
      (∀ earlier p later, d.placed = earlier ++ p :: later →
        ∃ v : Vacancy, v.bucket = p.1 ∧ v.earlier = earlier ∧ v.later = later ∧ v.fill p.2 = d) ∧
      ∀ bucket key e, d.find? bucket key = some e →
        ∃ v : Vacancy, v.bucket = bucket ∧ v.fill e = d ∧
          ∀ e', v.fill e' = d.put bucket key e' := by
  refine ⟨fun v e kind => ?_, fun v e => ?_, fun v e id => ?_, fun d => ?_⟩
  · have hfields : (e.withKind kind).fields = e.fields := rfl
    exact ⟨outcomes_related_of_id_eq v hfields rfl, rfl, Entity.firstLine_withKind v.bucket e kind⟩
  · have hfields : e.flipped.fields = e.fields := rfl
    refine ⟨?_, rfl, rfl, Entity.label_flipped v.bucket e⟩
    refine (outcomes_related_of_id_eq v hfields rfl).imp (fun _ _ herr => ?_) fun _ _ hg => hg
    -- kind and id are the same, so a failure that names the entity is the same too
    cases herr <;> rfl
  · have hfields : (e.withId id).fields = e.fields := rfl
    refine ⟨?_, rfl, rfl, ⟨e.details, Entity.label_eq_heading_append _ _,
      Entity.label_withId _ _ _⟩, Entity.firstLine_label _ _, Entity.firstLine_label _ _,
      fun x hx => Depiction.withOwner_of_mem_edges hx id⟩
    refine (outcomes_related v hfields).imp (fun _ _ herr => herr) fun g g' hg => ?_
    rw [hg.1, hg.2]
    exact changes_depiction hfields
  · refine ⟨fun _ _ _ h => Document.exists_vacancy h, fun bucket key e h => ?_⟩
    obtain ⟨v, hbucket, hfill, hput, -⟩ := Document.exists_vacancy_of_find? h
    exact ⟨v, hbucket, hfill, hput⟩

/-- The number that the sample rule has among its operators. -/
def misfiledNumber : Entity :=
  ⟨.number, 3, true, [("operands", .array [.natural 1, .natural 9])]⟩

/-- The number becomes a parameter, and it gets the id of an entity that it refers to. -/
theorem typed_members_framed_sampleRule :
    (∃ v : Vacancy, v.earlier.length = 2 ∧ v.fill misfiledNumber = Document.sampleRule ∧
      ∃ g g', Document.sampleRule.graph = .ok g ∧
        (v.fill (misfiledNumber.withKind .parameter)).graph = .ok g' ∧
          g.graph.Changes v misfiledNumber (misfiledNumber.withKind .parameter) g'.graph ∧
          g'.graph.edges = g.graph.edges) ∧
    ∃ v : Vacancy, v.fill misfiledNumber = Document.sampleRule ∧
      ∃ g g', Document.sampleRule.graph = .ok g ∧
        (Document.sampleRule.put .arithmeticOperator "c" (misfiledNumber.withId 9)).graph = .ok g' ∧
          g.graph.Changes v misfiledNumber (misfiledNumber.withId 9) g'.graph ∧
          g'.graph.edges.map (fun x => (x.source.text, x.target.text)) =
            [("1", "2"), ("2", "3.base"), ("3.base", "3"), ("2", "3.1.5"), ("3.1.5", "3"),
              ("9", "1"), ("9", "9")] := by
  obtain ⟨hkind, -, hid, hvacancies⟩ := typed_members_framed
  obtain ⟨g, hg⟩ : ∃ g, Document.sampleRule.graph = .ok g := ⟨_, rfl⟩
  constructor
  · obtain ⟨v, -, hearlier, -, hfill⟩ := (hvacancies Document.sampleRule).1
      (Document.sampleRule.placed.take 2) (.arithmeticOperator, misfiledNumber) [] rfl
    have h := (hkind v misfiledNumber .parameter).1
    rw [hfill, hg] at h
    refine ⟨v, by rw [hearlier]; rfl, hfill, g, ?_⟩
    generalize (v.fill (misfiledNumber.withKind .parameter)).graph = outcome at h ⊢
    cases h with
    | ok h => exact ⟨_, hg, rfl, h⟩
  · obtain ⟨v, -, hfill, hput⟩ := (hvacancies Document.sampleRule).2 .arithmeticOperator "c"
      misfiledNumber rfl
    have h := (hid v misfiledNumber 9).1
    rw [hfill, hput, hg] at h
    obtain ⟨g', hg'⟩ : ∃ g', (Document.sampleRule.put .arithmeticOperator "c"
      (misfiledNumber.withId 9)).graph = .ok g' := ⟨_, rfl⟩
    rw [hg'] at h
    refine ⟨v, hfill, g, g', hg, hg', ?_, ?_⟩
    · cases h with
      | ok h => exact h
    · cases hg'
      decide

end Vacancy

end RuleGraph
