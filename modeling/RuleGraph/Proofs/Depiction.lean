import RuleGraph.Proofs.Walks

/-!
# The graph of a document, by description

`Document.depiction` describes the graph of a document without walking through it: its nodes and
its edges are two concatenations over the entities in order, and each part is read off the shape of
one field. `graph_eq_ok_iff` says that a document has a graph exactly if it is normalized and all
its references are usable, and that the graph is then the described one.
-/

namespace RuleGraph

open Json

/-! ## Fields of entities -/

namespace Entity

/-- A field is present with a value that is not `null`. -/
def Carries (e : Entity) (name : String) (v : Value) : Prop :=
  OrderedMap.find? name e.fields = some v ∧ v ≠ .null

theorem field?_eq_some_iff {e : Entity} {name : String} {v : Value} :
    e.field? name = some v ↔ e.Carries name v := by
  rw [field?, Option.filter_eq_some_iff, Carries]
  refine and_congr_right fun _ => ?_
  cases v <;> simp [Value.isNull]

/-- A reference field is present, but holds something else than references. -/
def Misuses (e : Entity) (f : ReferenceField) : Prop :=
  ∃ v, e.Carries f.name v ∧ ¬ Usable f.relation v

theorem not_misuses_iff {e : Entity} {f : ReferenceField} :
    ¬ e.Misuses f ↔ ∀ v, e.Carries f.name v → Usable f.relation v := by
  simp only [Misuses, not_exists, not_and, not_not]

end Entity

/-! ## The description -/

namespace Depiction

/-- How a scalar is written in a title: texts as they are, floating numbers in their shortest
digits and without an exponent, where a whole number has no point and a zero has no sign. -/
def scalarText : Value → Option String
  | .string s => some s
  | .number (.integer i) => some (toString i.val)
  | .number (.float x) => some (String.ofList (Layout.text ⟨fun _ => true, false, false, .up⟩ x))
  | .bool b => some (toString b)
  | .null | .array _ | .object _ => none

/-- How a path is written in a title, if all its segments are scalars. -/
def pathText : Value → Option String
  | .array segments =>
    if segments.all fun v => (scalarText v).isSome then
      some (".".intercalate (segments.filterMap scalarText))
    else none
  | _ => none

/-- The title of an entity: the symbol of an operator, the value of a number, the path of a
parameter or the name of a variable. -/
def title (e : Entity) : Option String :=
  match e.kind with
  | .arithmeticOperator | .periodOperator => (e.field? "operator").bind scalarText
  | .number => (e.field? "value").bind scalarText
  | .parameter => (e.field? "path").bind pathText
  | .ruleVariable => (e.field? "name").bind Value.string?
  | .parameterAtInstant | .period | .variableForPeriod => none

/-- The style table: parameters are filled boxes, numbers ovals, variables filled ovals, and all
else is a plain box. -/
def attributes : Kind → Attributes
  | .parameter => ⟨some .box, some .filled, none, none⟩
  | .number => ⟨some .oval, none, none, none⟩
  | .ruleVariable => ⟨some .oval, some .filled, none, none⟩
  | .arithmeticOperator | .periodOperator | .parameterAtInstant | .period | .variableForPeriod =>
    ⟨some .box, none, none, none⟩

/-- The lines of an entity's label: bucket and id, a title if there is one, a mark for stubs. -/
def labelLines (bucket : Kind) (e : Entity) : List String :=
  (bucket.name ++ " " ++ toString e.id.toNat) ::
    ((title e).toList ++ if e.isStub then ["(not parsed yet)"] else [])

def entityNode (bucket : Kind) (e : Entity) : Node where
  id := .entity e.id
  label := "\n".intercalate (labelLines bucket e)
  attributes := attributes e.kind

/-- The grey node of an entry of a keyed field, named after the entity it leads to and its key. -/
def slotNode (entry : String × Value) : Node where
  id := .synthetic (toString entry.2.target.toNat ++ "." ++ entry.1)
  label := entry.1
  attributes := ⟨some .cds, none, some .grey, some .grey⟩

/-- The entries of a field, if it is keyed. -/
def entries (e : Entity) (f : ReferenceField) : List (String × Value) :=
  match f.relation, e.field? f.name with
  | .sequence _, some (.object members) => members
  | _, _ => []

/-- The entries of all keyed fields of an entity. -/
def allEntries (p : Kind × Entity) : List (String × Value) := p.1.references.flatMap (entries p.2)

/-- The nodes of an entity: its own, then one for each entry. -/
def nodes (p : Kind × Entity) : List Node := entityNode p.1 p.2 :: (allEntries p).map slotNode

def referenceEdge (source target : EntityId) (label : String) : Edge :=
  ⟨.entity source, .entity target, true, some label, some 0, none⟩

def greyEdge (source target : NodeId) : Edge := ⟨source, target, true, none, none, some .grey⟩

/-- The edges of an entry: from its owner to its node, and on to the entity it leads to. -/
def entryEdges (owner : EntityId) (entry : String × Value) : List Edge :=
  [ greyEdge (.entity owner) (slotNode entry).id,
    greyEdge (slotNode entry).id (.entity entry.2.target) ]

/-- The edges of a field. -/
def fieldEdges (e : Entity) (f : ReferenceField) : List Edge :=
  match f.relation, e.field? f.name with
  | .single _, some v | .union _, some v => [referenceEdge e.id v.target f.name]
  | .sequence _, some (.array items) =>
    items.mapIdx fun i v => referenceEdge e.id v.target (f.name ++ "[" ++ toString i ++ "]")
  | .sequence _, some (.object members) => members.flatMap (entryEdges e.id)
  | _, _ => []

/-- The edges of an entity, field by field. -/
def edges (p : Kind × Entity) : List Edge := p.1.references.flatMap (fieldEdges p.2)

end Depiction

/-- The described graph of a document. -/
def Document.depiction (d : Document) : Graph where
  isDirected := true
  nodes := d.placed.flatMap Depiction.nodes
  edges := d.placed.flatMap Depiction.edges

/-! ## Labels follow the description -/

theorem ofList_integerText (i : Int) : String.ofList (integerText i) = toString i := by
  cases i with
  | ofNat n => rfl
  | negSucc n =>
    rw [integerText, if_pos (Int.negSucc_lt_zero n), String.ofList_cons]
    rfl

theorem Json.Value.scalarText?_eq (v : Value) : v.scalarText? = Depiction.scalarText v := by
  cases v with
  | number n =>
    cases n with
    | integer i => exact congrArg some (ofList_integerText i.val)
    | float x => rfl
  | bool b => cases b <;> rfl
  | null | string _ | array _ | object _ => rfl

theorem Entity.pathTitle?_eq (v : Value) : pathTitle? v = Depiction.pathText v := by
  cases v with
  | array segments =>
    rw [pathTitle?, funext Value.scalarText?_eq, mapM_eq_ite, Depiction.pathText]
    split <;> rfl
  | null | bool _ | number _ | string _ | object _ => rfl

theorem Entity.title?_eq (e : Entity) : e.title? = Depiction.title e := by
  unfold title? Depiction.title
  cases e.kind with
  | arithmeticOperator | periodOperator =>
    exact congrArg ((e.field? "operator").bind ·) (funext Value.scalarText?_eq)
  | number => exact congrArg ((e.field? "value").bind ·) (funext Value.scalarText?_eq)
  | parameter => exact congrArg ((e.field? "path").bind ·) (funext pathTitle?_eq)
  | ruleVariable | parameterAtInstant | period | variableForPeriod => rfl

theorem Kind.attributes_eq (k : Kind) : k.attributes = Depiction.attributes k := by
  cases k <;> rfl

namespace Walk

theorem label_eq (bucket : Kind) (e : Entity) :
    e.label bucket = "\n".intercalate (Depiction.labelLines bucket e) := by
  rw [Entity.label, Depiction.labelLines, Entity.title?_eq]
  cases Depiction.title e <;> cases e.isStub <;>
    simp [Entity.heading, NodeId.idText, Entity.stubMark, String.intercalate_cons_cons,
      String.append_assoc]

theorem entityNode_eq (bucket : Kind) (e : Entity) :
    entityNode bucket e = Depiction.entityNode bucket e := by
  rw [entityNode, Depiction.entityNode, label_eq, Kind.attributes_eq]

/-! ## The walk follows the description -/

/-- A field fails exactly if it is misused. -/
theorem ofField_failure_eq_some_iff {e : Entity} {f : ReferenceField} {err : BuildError} :
    (ofField e f).failure = some err ↔
      e.Misuses f ∧ err = .malformedReference e.kind e.id f.name := by
  unfold ofField Entity.Misuses
  simp only [← Entity.field?_eq_some_iff, ← References.ofValue?_eq_none_iff]
  cases hv : e.field? f.name with
  | none => simp
  | some v =>
    cases hr : References.ofValue? f.relation v with
    | none => simp [hr, eq_comm]
    | some refs => simp [hr]

theorem ofField_failure_eq_none_iff {e : Entity} {f : ReferenceField} :
    (ofField e f).failure = none ↔ ¬ e.Misuses f := by
  rw [Option.eq_none_iff_forall_ne_some]
  simp [ofField_failure_eq_some_iff]

theorem ofField_of_holds {e : Entity} {f : ReferenceField} {v : Value} {refs : References}
    (hv : e.field? f.name = some v) (hr : References.ofValue? f.relation v = some refs) :
    ofField e f = done (ofReferences e.id f.name refs) := by
  simp only [ofField, hv, hr]

section Parts

variable (owner : EntityId) (field : String)

theorem nodes_one (target : EntityId) :
    (ofReferences owner field (.one target)).filterMap Push.node? = [] := rfl

theorem nodes_ordered (items : List Value) :
    (ofReferences owner field (.ordered (items.map Value.target))).filterMap Push.node? = [] := by
  simp [ofReferences, List.mapIdx_eq_zipIdx_map, List.filterMap_eq_nil_iff, Push.node?]

theorem nodes_keyed (entries : List (String × Value)) :
    (ofReferences owner field (.keyed (entries.map fun m => (m.1, m.2.target)))).filterMap
        Push.node? = entries.map Depiction.slotNode := by
  rw [ofReferences, List.flatMap_map, List.filterMap_flatMap, List.map_eq_flatMap]
  rfl

end Parts

/-- The nodes and edges that a field pushes if it is not misused. -/
theorem ofField_pushes {e : Entity} {f : ReferenceField} (h : ¬ e.Misuses f) :
    (ofField e f).pushes.filterMap Push.node? =
        (Depiction.entries e f).map Depiction.slotNode ∧
      (ofField e f).pushes.filterMap Push.edge? = Depiction.fieldEdges e f := by
  unfold Depiction.entries Depiction.fieldEdges
  cases hv : e.field? f.name with
  | none => cases f.relation <;> simp [ofField, hv]
  | some v =>
    -- the shape of the value and the relation decide together what is pushed
    have hu := Entity.not_misuses_iff.mp h v (Entity.field?_eq_some_iff.mp hv)
    obtain ⟨name, relation⟩ := f
    cases hu with
    | single hid =>
      rw [ofField_of_holds hv (References.ofValue?_single hid)]
      exact ⟨nodes_one e.id name _, References.edges_one e.id name _⟩
    | union hid =>
      rw [ofField_of_holds hv (References.ofValue?_union hid)]
      exact ⟨nodes_one e.id name _, References.edges_one e.id name _⟩
    | array hids =>
      rw [ofField_of_holds hv (References.ofValue?_array hids)]
      exact ⟨nodes_ordered e.id name _,
        (References.edges_ordered e.id name _).trans (mapIdx_map ..)⟩
    | object hids =>
      rw [ofField_of_holds hv (References.ofValue?_object hids)]
      exact ⟨nodes_keyed e.id name _,
        (References.edges_keyed e.id name _).trans (List.flatMap_map ..)⟩

/-- The nodes and edges that an entity pushes if it misuses no field. -/
theorem ofEntity_pushes_filterMap {p : Kind × Entity}
    (h : ∀ f ∈ p.1.references, ¬ p.2.Misuses f) :
    (ofEntity p.1 p.2).pushes.filterMap Push.node? = Depiction.nodes p ∧
      (ofEntity p.1 p.2).pushes.filterMap Push.edge? = Depiction.edges p := by
  rw [ofEntity_pushes fun f hf => ofField_failure_eq_none_iff.mpr (h f hf)]
  constructor
  · have hfields := List.flatMap_congr fun f hf => (ofField_pushes (h f hf)).1
    simp only [List.filterMap_cons, Push.node?, List.filterMap_flatMap, hfields, entityNode_eq,
      Depiction.nodes, Depiction.allEntries, List.map_flatMap]
  · have hfields := List.flatMap_congr fun f hf => (ofField_pushes (h f hf)).2
    simp only [List.filterMap_cons, Push.edge?, List.filterMap_flatMap, hfields, Depiction.edges]

end Walk

namespace Document

/-- Some reference field of a document is misused. -/
def HasMisuse (d : Document) : Prop := ∃ p ∈ d.placed, ∃ f ∈ p.1.references, p.2.Misuses f

theorem not_hasMisuse_iff {d : Document} :
    ¬ d.HasMisuse ↔ ∀ p ∈ d.placed, ∀ f ∈ p.1.references, ¬ p.2.Misuses f := by
  simp only [HasMisuse, not_exists, not_and]

theorem failure?_eq_none_iff {d : Document} : d.failure? = none ↔ ¬ d.HasMisuse := by
  rw [not_hasMisuse_iff]
  simp only [failure?, List.findSome?_eq_none_iff, Walk.ofField_failure_eq_none_iff]
  exact forall_mem_referenceFields (P := fun e f => ¬ e.Misuses f)

/-- A document has a graph exactly if it is normalized and misuses no field; it is the described
one. -/
theorem graph_eq_ok_iff {d : Document} {g : GraphDocument} :
    d.graph = .ok g ↔ d.IsNormalized ∧ ¬ d.HasMisuse ∧ g = ⟨d.depiction⟩ := by
  by_cases hn : d.IsNormalized
  · rw [← failure?_eq_none_iff]
    cases hf : d.failure? with
    | some e => simp [graph_of_failure hn hf]
    | none =>
      -- the two concatenations of `graph_of_no_failure`, entity by entity
      have hnone := not_hasMisuse_iff.mp (failure?_eq_none_iff.mp hf)
      have hparts := fun p hp => Walk.ofEntity_pushes_filterMap (hnone p hp)
      have hnodes := List.flatMap_congr fun p hp => (hparts p hp).1
      have hedges := List.flatMap_congr fun p hp => (hparts p hp).2
      rw [graph_of_no_failure hn hf, hnodes, hedges]
      simp [hn, depiction, eq_comm]
  · simp [graph_of_not_isNormalized hn, hn]

/-- A normalized document whose references are usable has the graph of its description. -/
theorem graph_eq_depiction {d : Document} {result : Value} (hresult : d.result = some result)
    (htruthy : result.isTruthy) (hentities : d.entities.isSome)
    (husable : ∀ p ∈ d.placed, ∀ f ∈ p.1.references, ∀ v, p.2.Carries f.name v →
      Usable f.relation v) :
    d.graph = .ok ⟨d.depiction⟩ := by
  refine graph_eq_ok_iff.mpr ⟨⟨⟨result, hresult, htruthy⟩, hentities⟩, ?_, rfl⟩
  rw [not_hasMisuse_iff]
  intro p hp f hf
  exact Entity.not_misuses_iff.mpr (husable p hp f hf)

/-- A variable without a period, an operator with keyed operands, and a stub of another kind that
is filed among the operators. -/
def sampleRule : Document where
  result := some (.array [.natural 1])
  entities := some
    [ (.ruleVariable,
        [ ("a", ⟨.ruleVariable, 1, false,
            [("name", .string "salaire"), ("formula", .object [("id", .natural 2)]),
              ("output_period", .null)]⟩) ]),
      (.arithmeticOperator,
        [ ("b", ⟨.arithmeticOperator, 2, false,
            [("operands", .object [("base", .natural 3), ("1.5", .object [("id", .natural 3)])]),
              ("operator", .string "*")]⟩),
          ("c", ⟨.number, 3, true, [("operands", .array [.natural 1, .natural 9])]⟩) ]) ]

theorem graph_sampleRule :
    (∃ v, sampleRule.result = some v ∧ v.isTruthy) ∧ sampleRule.entities.isSome ∧
      sampleRule.graph = .ok ⟨sampleRule.depiction⟩ ∧
      sampleRule.depiction.nodes.map (·.label) =
        ["Variable 1\nsalaire", "ArithmeticOperator 2\n*", "base", "1.5",
          "ArithmeticOperator 3\n(not parsed yet)"] ∧
      sampleRule.depiction.edges.map (fun e => (e.source.text, e.target.text, e.label)) =
        [("1", "2", some "formula"), ("2", "3.base", none), ("3.base", "3", none),
          ("2", "3.1.5", none), ("3.1.5", "3", none), ("3", "1", some "operands[0]"),
          ("3", "9", some "operands[1]")] := by
  have hfailure : sampleRule.failure? = none := by decide
  have hnone := not_hasMisuse_iff.mp (failure?_eq_none_iff.mp hfailure)
  have husable := fun p hp f hf => Entity.not_misuses_iff.mp (hnone p hp f hf)
  exact ⟨⟨_, rfl, rfl⟩, rfl, graph_eq_depiction rfl rfl rfl husable, by decide, by decide⟩

end Document

end RuleGraph
