import RuleGraph.Graph.Schema
import RuleGraph.Proofs.Omission
import RuleGraph.Proofs.Validation

/-!
# The published schemas say what is written and read

The schema of each type of a graph is met by every value that is written for it (`Admits`), and the
schema of a record requires exactly the members without which the record is not decoded
(`RequiresAlike`). Both are put together for all types, and for what a conversion writes, in
`schemas_agree_with_formats`.
-/

namespace RuleGraph

open Json

namespace GraphSchema

/-! ## The schema of a name -/

theorem ordered_definitions : Ordered definitions := by decide

/-- Whether a value has the form of a name. -/
def describes (name : String) (v : Value) : Bool := meaning definitions name v

theorem describes_of_find? {name : String} {s : Schema}
    (h : OrderedMap.find? name definitions = some s) (v : Value) :
    describes name v = keywordsAccept describes s v :=
  congrFun (ordered_definitions.reads name s h) v

theorem accepts_published? {name : String} {p : PublishedSchema} (h : published? name = some p) :
    p.accepts = describes name := PublishedSchema.accepts_of? ordered_definitions h

/-! ## Building blocks -/

section Accept

variable {known : String → Value → Bool} {text name : String} {schema : Schema}
  {ps : List Property} {members : List (String × Value)} {v : Value}

@[simp] theorem accept_described : keywordsAccept known (described text schema) v =
    keywordsAccept known schema v := rfl

theorem accept_named : keywordsAccept known (named name) v = known name v := Bool.and_true _

theorem accept_namedOrNull (h : known name v) : keywordsAccept known (namedOrNull name) v := by
  rw [namedOrNull, keywordsAccept_cons, keywordsAccept_nil, Bool.and_true, accepts_anyOf]
  exact ⟨_, List.mem_cons_self, accept_named.trans h⟩

theorem accept_boolean (b : Bool) : keywordsAccept known [.types [.boolean]] (.bool b) := rfl

theorem accept_string (s : String) : keywordsAccept known [.types [.string]] (.string s) := rfl

theorem accept_stringOrNull (s : String) :
    keywordsAccept known [.types [.string, .null]] (.string s) := rfl

theorem accept_minimum_zero (n : UInt64) : (Keyword.minimum 0).accepts known (.natural n) := by
  simp [Keyword.accepts, Value.natural, Number.isAtLeast, Number.ofNatural]

theorem accept_word64 (n : UInt64) : keywordsAccept known word64 (.natural n) := by
  rw [word64, keywordsAccept_cons, keywordsAccept_cons, keywordsAccept_cons, accept_minimum_zero]
  rfl

theorem accept_word32OrNull (n : UInt64) : keywordsAccept known word32OrNull (.natural n) := by
  rw [word32OrNull, keywordsAccept_cons, keywordsAccept_cons, keywordsAccept_cons,
    accept_minimum_zero]
  rfl

theorem accept_listOf {α : Type} {toValue : α → Value} {as : List α}
    (h : ∀ a, known name (toValue a)) :
    keywordsAccept known (listOf name) (.array (as.map toValue)) := by
  have hitems : (Keyword.items (named name)).accepts known (.array (as.map toValue)) :=
    accepts_items.mpr <| List.forall_mem_map.mpr fun a _ => accept_named.trans (h a)
  rw [listOf, keywordsAccept_cons, keywordsAccept_cons, hitems]
  rfl

/-- A member meets the schemas of the properties of its name. -/
def MeetsProperties (known : String → Value → Bool) (ps : List Property) (m : String × Value) :
    Prop := ∀ p ∈ ps, p.name = m.1 → keywordsAccept known p.schema m.2

theorem MeetsProperties.cons {p : Property} {m : String × Value} (h : MeetsProperties known ps m)
    (hp : p.name ≠ m.1) : MeetsProperties known (p :: ps) m := by
  intro p' hp' hname
  rcases List.mem_cons.mp hp' with rfl | hp'
  · exact absurd hname hp
  · exact h p' hp' hname

/-- An object meets the schema of a record if its members meet those of their names, and no property
is missing that has to be there. -/
theorem accept_record (hmembers : ∀ m ∈ members, MeetsProperties known ps m)
    (hrequired : ∀ p ∈ ps, p.isRequired → p.name ∈ OrderedMap.keys members) :
    keywordsAccept known (record text ps) (.object members) := by
  have hproperties : (Keyword.properties (ps.map fun p => (p.name, p.schema))).accepts known
      (.object members) :=
    propertiesAccept_iff.mpr <| List.forall_mem_map.mpr fun p hp m hm hname =>
      hmembers m hm p hp hname.symm
  have hnames : (Keyword.required ((ps.filter (·.isRequired)).map (·.name))).accepts known
      (.object members) := by
    refine accepts_required.mpr <| List.forall_mem_map.mpr fun p hp => ?_
    obtain ⟨hp, hisRequired⟩ := List.mem_filter.mp hp
    exact hrequired p hp hisRequired
  rw [record, accept_described, keywordsAccept_cons, keywordsAccept_cons, hproperties]
  show keywordsAccept known (if _ then _ else _) _ = true
  split
  · rfl
  · rw [keywordsAccept_cons, hnames]
    rfl

end Accept

/-! ## What is written meets its schema -/

theorem describes_nodeId (id : NodeId) : describes "NodeId" id.toValue := by
  rw [describes_of_find? rfl]
  cases id with
  | entity id =>
    show keywordsAccept describes nodeId _
    rw [nodeId, accept_described, keywordsAccept_cons, keywordsAccept_nil, Bool.and_true,
      accepts_anyOf]
    have hid : keywordsAccept describes word64 (.natural id) := accept_word64 id
    exact ⟨_, List.mem_cons_self, hid⟩
  | synthetic s => rfl

theorem describes_shape (s : Shape) : describes "Shape" s.toValue := by cases s <;> decide

theorem describes_style (s : Style) : describes "Style" s.toValue := by cases s; decide

theorem describes_color (c : Color) : describes "Color" c.toValue := by cases c; decide

theorem meets_toMembers (a : Attributes) :
    ∀ m ∈ a.toMembers, MeetsProperties describes attributeProperties m := by
  simp only [Attributes.toMembers, List.forall_mem_append, forall_mem_setMember]
  refine ⟨fun s _ => ?_, fun s _ => ?_, fun c _ => ?_, fun c _ => ?_⟩
  · simpa [MeetsProperties, attributeProperties, optional] using
      accept_namedOrNull (describes_shape s)
  · simpa [MeetsProperties, attributeProperties, optional] using
      accept_namedOrNull (describes_style s)
  · simpa [MeetsProperties, attributeProperties, optional] using
      accept_namedOrNull (describes_color c)
  · simpa [MeetsProperties, attributeProperties, optional] using
      accept_namedOrNull (describes_color c)

theorem describes_attributes (a : Attributes) : describes "NodeAttributes" a.toValue := by
  rw [describes_of_find? rfl]
  exact accept_record (meets_toMembers a) (by simp [attributeProperties, optional])

theorem describes_node (n : Node) : describes "Node" n.toValue := by
  rw [describes_of_find? rfl]
  refine accept_record ?_ (by simp [attributeProperties, optional, needed, OrderedMap.keys])
  simp only [List.forall_mem_cons]
  refine ⟨?_, ?_, fun m hm => ?_⟩
  · simpa [MeetsProperties, attributeProperties, optional, needed] using
      accept_named.trans (describes_nodeId n.id)
  · simpa [MeetsProperties, attributeProperties, optional, needed] using accept_string n.label
  · -- no attribute has the name of one of the node's own members
    have hname := n.attributes.keys_sublist.subset (List.mem_map_of_mem hm)
    refine ((meets_toMembers _ m hm).cons fun heq => ?_).cons fun heq => ?_
    · rw [← heq] at hname
      revert hname
      decide
    · rw [← heq] at hname
      revert hname
      decide

theorem describes_edge (e : Edge) : describes "Edge" e.toValue := by
  rw [describes_of_find? rfl]
  refine accept_record ?_ (by simp [optional, needed, OrderedMap.keys])
  simp only [List.forall_mem_cons, List.forall_mem_append, forall_mem_setMember]
  refine ⟨?_, ?_, ?_, fun l _ => ?_, fun n _ => ?_, fun c _ => ?_⟩
  · simpa [MeetsProperties, optional, needed] using accept_named.trans (describes_nodeId e.source)
  · simpa [MeetsProperties, optional, needed] using accept_named.trans (describes_nodeId e.target)
  · simpa [MeetsProperties, optional, needed] using accept_boolean e.isDirected
  · simpa [MeetsProperties, optional, needed] using accept_stringOrNull l
  · simpa [MeetsProperties, optional, needed] using accept_word32OrNull n.toUInt64
  · simpa [MeetsProperties, optional, needed] using accept_namedOrNull (describes_color c)

example :
    describes "Edge" (.object [("source", .natural 1), ("directed", .bool true)]) = false := by
  decide

theorem describes_graph (g : Graph) : describes "Graph" g.toValue := by
  rw [describes_of_find? rfl]
  refine accept_record ?_ (by simp [needed, OrderedMap.keys])
  simp only [List.forall_mem_cons]
  refine ⟨?_, ?_, ?_, by simp⟩
  · simpa [MeetsProperties, needed] using accept_boolean g.isDirected
  · simpa [MeetsProperties, needed] using accept_listOf describes_node
  · simpa [MeetsProperties, needed] using accept_listOf describes_edge

theorem describes_document (d : GraphDocument) : describes "GraphDocument" d.toValue := by
  rw [describes_of_find? rfl]
  refine accept_record ?_ (by simp [needed, OrderedMap.keys])
  simp only [List.forall_mem_cons]
  refine ⟨?_, by simp⟩
  simpa [MeetsProperties, needed] using accept_named.trans (describes_graph d.graph)

/-! ## Required members -/

/-- A schema lists a member as required. -/
def Requires (s : Schema) (key : String) : Prop := ∃ names, .required names ∈ s ∧ key ∈ names

theorem requires_record {text : String} {ps : List Property} {key : String} :
    Requires (record text ps) key ↔ key ∈ (ps.filter (·.isRequired)).map (·.name) := by
  unfold Requires record described
  simp only
  split
  · rename_i hempty
    rw [List.isEmpty_iff.mp hempty]
    simp
  · simp

/-! ## The two descriptions of a type -/

/-- The schema that is published under a name explains itself, and it is met by all that is written
for a type. -/
def Admits {α : Type} (name : String) (toValue : α → Value) : Prop :=
  ∃ p, published? name = some p ∧ p.Explained ∧
    ∀ a, p.accepts (toValue a) ∧
      ∀ write ∈ writers, Value.ofText (write (toValue a)) = .ok (toValue a)

/-- What is written for a type is an object, and the schema that is published under a name lists
exactly those members without which the object is not decoded. -/
def RequiresAlike {α : Type} (name : String) (toValue : α → Value) (f : Format α) : Prop :=
  ∃ p, published? name = some p ∧ ∀ a, ∃ members, toValue a = .object members ∧
    ∀ key, ∀ result ∈ f.decodings (.object (OrderedMap.remove key members)),
      (∀ b, result ≠ .ok b) ↔ Requires p.schema key

section Agreement

variable {α : Type} {name : String} {toValue : α → Value} {toMembers : α → List (String × Value)}
  {f : Format α} {p : PublishedSchema} {names : List String} {n : Nat}

theorem admits_of_describes (hp : published? name = some p)
    (hlegible : ∀ a, (toValue a).Legible Tree.maxDepth) (h : ∀ a, describes name (toValue a)) :
    Admits name toValue := by
  refine ⟨p, hp, PublishedSchema.explained_of? ordered_definitions hp, fun a => ⟨?_, ?_⟩⟩
  · rw [accepts_published? hp]
    exact h a
  · intro write hwrite
    have hs := spelled_of_mem_writers hwrite (hlegible a).floatless
    exact hs.ofText_eq (hlegible a).distinct (hlegible a).depth_le

theorem requiresAlike_of_ofValue (hp : published? name = some p)
    (hrequires : ∀ key, Requires p.schema key ↔ key ∈ names) (hf : f.Agrees)
    (hlegible : ∀ a, (Value.object (toMembers a)).Legible (n + 1)) (hn : n + 1 ≤ Tree.maxDepth)
    (hmissing : ∀ a, ∀ key ∈ names, ∀ b,
      f.ofValue (.object (OrderedMap.remove key (toMembers a))) ≠ .ok b)
    (hothers : ∀ a, ∀ key ∉ names, ∃ b,
      f.ofValue (.object (OrderedMap.remove key (toMembers a))) = .ok b) :
    RequiresAlike name (fun a => .object (toMembers a)) f := by
  refine ⟨p, hp, fun a => ⟨toMembers a, rfl, fun key result hresult => ?_⟩⟩
  have hdecode := Format.eq_ok_iff_of_mem_decodings hf (((hlegible a).remove key).mono hn) hresult
  rw [hrequires]
  constructor
  · intro hfails
    by_contra hkey
    obtain ⟨b, hb⟩ := hothers a key hkey
    exact hfails b ((hdecode b).mpr hb)
  · intro hkey b hb
    exact hmissing a key hkey b ((hdecode b).mp hb)

end Agreement

theorem requiresAlike_attributes :
    RequiresAlike "NodeAttributes" Attributes.toValue Attributes.format :=
  requiresAlike_of_ofValue rfl (fun _ => requires_record) Attributes.agrees_format
    Attributes.legible (by decide) (fun _ _ hkey => nomatch hkey)
    (fun a key _ => ⟨_, a.ofValue_remove key⟩)

theorem requiresAlike_node : RequiresAlike "Node" Node.toValue Node.format :=
  requiresAlike_of_ofValue rfl (fun _ => requires_record) Node.agrees_format Node.legible
    (by decide)
    (fun n _ => Node.record.ofValue_remove_ne_ok (r := .direct) Node.needs n.distinct_toMembers)
    (fun n _ hkey => ⟨_, n.ofValue_remove hkey⟩)

theorem requiresAlike_edge : RequiresAlike "Edge" Edge.toValue Edge.format :=
  requiresAlike_of_ofValue rfl (fun _ => requires_record) Edge.agrees_format Edge.legible
    (by decide)
    (fun e _ => Edge.record.ofValue_remove_ne_ok (r := .direct) Edge.needs e.distinct_toMembers)
    (fun e _ hkey => ⟨_, e.ofValue_remove hkey⟩)

theorem requiresAlike_graph : RequiresAlike "Graph" Graph.toValue Graph.format :=
  requiresAlike_of_ofValue rfl (fun _ => requires_record) Graph.agrees_format Graph.legible
    (by decide)
    (fun g _ => Graph.record.ofValue_remove_ne_ok (r := .direct) Graph.needs g.distinct_toMembers)
    (fun g _ hkey => ⟨_, g.ofValue_remove hkey⟩)

theorem requiresAlike_document :
    RequiresAlike "GraphDocument" GraphDocument.toValue GraphDocument.format :=
  requiresAlike_of_ofValue rfl (fun _ => requires_record) GraphDocument.agrees_format
    GraphDocument.legible (by decide)
    (fun d _ => GraphDocument.record.ofValue_remove_ne_ok (r := .direct) GraphDocument.needs
      d.distinct_toMembers)
    (fun d _ hkey => ⟨_, d.ofValue_remove hkey⟩)

/-- What a conversion without an error writes is the text of a value that meets the schema of graph
documents. -/
theorem admits_written {source : Source} {sink : Sink} (h : (run source sink).error = none) :
    ∃ p text v, published? "GraphDocument" = some p ∧
      (run source sink).written = text.toUTF8.toList ∧ Value.ofText text = .ok v ∧ p.accepts v := by
  obtain ⟨-, -, g, -, -, -, hwritten⟩ := exists_graph_of_run h
  have hlegible := g.legible.mono (by decide : 4 ≤ Tree.maxDepth)
  have hs := spelled_prettyText_line hlegible.floatless
  have hp : published? "GraphDocument" = some _ := rfl
  refine ⟨_, g.text, g.toValue, hp, hwritten, hs.ofText_eq hlegible.distinct hlegible.depth_le, ?_⟩
  rw [accepts_published? hp]
  exact describes_document g

/-- The schema of every type of a graph is met by all that is written for it, and so is the schema
of graph documents by all that a conversion writes. The schema of a record lists those members as
required without which the record is not decoded. -/
theorem schemas_agree_with_formats :
    (Admits "NodeId" NodeId.toValue ∧ Admits "NodeAttributes" Attributes.toValue ∧
      Admits "Shape" Shape.toValue ∧ Admits "Style" Style.toValue ∧ Admits "Color" Color.toValue ∧
      Admits "Node" Node.toValue ∧ Admits "Edge" Edge.toValue ∧ Admits "Graph" Graph.toValue ∧
      Admits "GraphDocument" GraphDocument.toValue) ∧
    (∀ source sink, (run source sink).error = none →
      ∃ p text v, published? "GraphDocument" = some p ∧
        (run source sink).written = text.toUTF8.toList ∧ Value.ofText text = .ok v ∧
          p.accepts v) ∧
    RequiresAlike "NodeAttributes" Attributes.toValue Attributes.format ∧
      RequiresAlike "Node" Node.toValue Node.format ∧
      RequiresAlike "Edge" Edge.toValue Edge.format ∧
      RequiresAlike "Graph" Graph.toValue Graph.format ∧
      RequiresAlike "GraphDocument" GraphDocument.toValue GraphDocument.format := by
  refine ⟨?_, fun _ _ h => admits_written h, requiresAlike_attributes, requiresAlike_node,
    requiresAlike_edge, requiresAlike_graph, requiresAlike_document⟩
  exact ⟨admits_of_describes rfl (fun i => i.legible.mono (by decide)) describes_nodeId,
    admits_of_describes rfl (fun a => a.legible.mono (by decide)) describes_attributes,
    admits_of_describes rfl (fun s => s.legible.mono (by decide)) describes_shape,
    admits_of_describes rfl (fun s => s.legible.mono (by decide)) describes_style,
    admits_of_describes rfl (fun c => c.legible.mono (by decide)) describes_color,
    admits_of_describes rfl (fun n => n.legible.mono (by decide)) describes_node,
    admits_of_describes rfl (fun e => e.legible.mono (by decide)) describes_edge,
    admits_of_describes rfl (fun g => g.legible.mono (by decide)) describes_graph,
    admits_of_describes rfl (fun d => d.legible.mono (by decide)) describes_document⟩

/-- A document that is converted, and the edge of a reference, which has to have a target but not a
distance of its label. -/
theorem schemas_agree_with_formats_numberText :
    (run ⟨numberText.toUTF8, none⟩ ⟨none, ""⟩).error = none ∧
      (∃ p text v, published? "GraphDocument" = some p ∧
        (run ⟨numberText.toUTF8, none⟩ ⟨none, ""⟩).written = text.toUTF8.toList ∧
          Value.ofText text = .ok v ∧ p.accepts v) ∧
      ∃ members, (Edge.labeled (.entity 1) (.entity 0) "formula").toValue = .object members ∧
        (∀ e, Edge.format.readText (Value.object (OrderedMap.remove "target" members)).compactText ≠
          .ok e) ∧
        ∃ e, Edge.format.readText
          (Value.object (OrderedMap.remove "labeldistance" members)).compactText = .ok e := by
  have herror : (run ⟨numberText.toUTF8, none⟩ ⟨none, ""⟩).error = none := by
    obtain ⟨g, hg⟩ := run_numberText
    rw [hg]
    rfl
  obtain ⟨-, hrun, -, -, ⟨p, hp, hedge⟩, -⟩ := schemas_agree_with_formats
  obtain ⟨members, hmembers, hkeys⟩ := hedge (Edge.labeled (.entity 1) (.entity 0) "formula")
  have hrequires (key : String) :
      Requires p.schema key ↔ key ∈ ["source", "target", "directed"] := by
    cases hp
    exact requires_record
  have hreads (v : Value) : Edge.format.readText v.compactText ∈ Edge.format.decodings v :=
    List.mem_cons_of_mem _ List.mem_cons_self
  refine ⟨herror, hrun _ _ herror, members, hmembers, ?_, ?_⟩
  · exact (hkeys "target" _ (hreads _)).mpr ((hrequires _).mpr (by decide))
  · have hothers := mt (hkeys "labeldistance" _ (hreads _)).mp (mt (hrequires _).mp (by decide))
    simpa using hothers

end GraphSchema

end RuleGraph
