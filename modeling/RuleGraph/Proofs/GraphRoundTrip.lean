import RuleGraph.Proofs.Ending
import RuleGraph.Proofs.MemberOrder
import RuleGraph.Proofs.RoundTrip

/-!
# Graphs come back from their text

Each type that graphs are made of is read back from the value it is written as (`restores`), and
that value is legible; so it comes back from its text as well, on both routes. With it comes back
what a successful conversion writes (`graphs_round_trip`).
-/

namespace RuleGraph

open Json

/-! ## Members and lists -/

/-- A member that may be left out is read back from what it is written as. -/
theorem memberIn_of_find? {α : Type} {name : String} {toValue : α → Value} {a : Option α}
    {read : Value → Except Mismatch (Option α)} {entries : List (String × Value)}
    (h : OrderedMap.find? name entries = a.map toValue)
    (hread : ∀ x, read (toValue x) = .ok (some x)) :
    memberIn read name entries = .ok (a.map some) := by
  rw [memberIn, h]
  cases a with
  | none => rfl
  | some x => simp only [Option.map_some, hread, Except.map]

/-- A required member that is read back from what it is written as. -/
theorem memberIn_of_restores {α : Type} {f : Format α} {toValue : α → Value} {name : String}
    {entries : List (String × Value)} {a : α} (h : OrderedMap.find? name entries = some (toValue a))
    (ha : f.ofValue (toValue a) = .ok a) : memberIn f.ofValue name entries = .ok (some a) :=
  memberIn_eq_ok_some_iff.mpr ⟨_, h, ha⟩

theorem Json.Reading.direct_optional {α : Type} {f : Format α} {v : Value} {a : α}
    (hv : v.isNull = false) (h : f.ofValue v = .ok a) :
    Reading.direct.read (.optional f) v = .ok (some a) := by
  simp [Reading.direct, Format.optional, hv, h, Except.map]

theorem Json.Format.list_restores {α : Type} {f : Format α} {toValue : α → Value}
    (h : ∀ a, f.ofValue (toValue a) = .ok a) (as : List α) :
    (Format.list f).ofValue (.array (as.map toValue)) = .ok as := by
  show (as.map toValue).mapM f.ofValue = .ok as
  induction as with
  | nil => rfl
  | cons a as ih =>
    rw [List.map_cons, List.mapM_cons, h, ih]
    rfl

/-! ## Ids, names and numbers -/

namespace NodeId

theorem restores (id : NodeId) : format.ofValue id.toValue = .ok id := by
  cases id with
  | entity id =>
    show ofValue (.natural id) = _
    have hid : (Value.natural id).natural? = some id :=
      natural?_eq_some_iff.mpr ⟨_, rfl, rfl⟩
    simp only [ofValue, hid]
  | synthetic s => rfl

theorem legible (id : NodeId) : id.toValue.Legible 0 := by
  cases id with
  | entity id => exact Value.legible_natural id
  | synthetic s => exact Value.legible_string s

end NodeId

theorem Shape.restores (s : Shape) : format.ofValue s.toValue = .ok s := by cases s <;> rfl

theorem Style.restores (s : Style) : format.ofValue s.toValue = .ok s := by cases s; rfl

theorem Color.restores (c : Color) : format.ofValue c.toValue = .ok c := by cases c; rfl

theorem Shape.legible (s : Shape) : s.toValue.Legible 0 := Value.legible_string _

theorem Style.legible (s : Style) : s.toValue.Legible 0 := by
  cases s
  exact Value.legible_string _

theorem Color.legible (c : Color) : c.toValue.Legible 0 := by
  cases c
  exact Value.legible_string _

theorem Json.Format.word32_ofValue (v : Value) :
    Format.word32.ofValue v = (Format.natural? 32 v).map UInt32.ofNat := rfl

theorem Json.Format.word32_restores (n : UInt32) :
    Format.word32.ofValue (.natural n.toUInt64) = .ok n := by
  have hlt : (n.toUInt64.toNat : Int) < Nat.pow 2 32 := by
    have h := n.toNat_lt
    rw [UInt32.toNat_toUInt64]
    exact Int.ofNat_lt.mpr h
  have hnatural : Format.natural? 32 (.natural n.toUInt64) = .ok n.toNat := by
    simp only [Value.natural, Number.ofNatural, Format.natural?]
    rw [if_pos ⟨Int.natCast_nonneg _, hlt⟩, Int.toNat_natCast, UInt32.toNat_toUInt64]
  rw [word32_ofValue, hnatural]
  exact congrArg Except.ok UInt32.ofNat_toNat

/-! ## Attributes -/

namespace Attributes

variable {r : Reading} {a : Attributes}

theorem apart_members : members.Pairwise Member.Apart := by simp [members]

theorem keys_sublist (a : Attributes) :
    (OrderedMap.keys a.toMembers).Sublist ["shape", "style", "fontcolor", "color"] := by
  simp only [toMembers, OrderedMap.keys, List.map_append]
  exact keys_setMember_sublist.append (keys_setMember_sublist.append
    (keys_setMember_sublist.append keys_setMember_sublist))

theorem distinct_toMembers (a : Attributes) : OrderedMap.Distinct a.toMembers :=
  (by decide : ["shape", "style", "fontcolor", "color"].Nodup).sublist a.keys_sublist

/-- Attributes are read back in any way that reads back what they hold. -/
theorem restores_of (hshape : ∀ s, r.read (.optional Shape.format) s.toValue = .ok (some s))
    (hstyle : ∀ s, r.read (.optional Style.format) s.toValue = .ok (some s))
    (hcolor : ∀ c, r.read (.optional Color.format) c.toValue = .ok (some c)) (a : Attributes) :
    record.ofValue r.read a.toValue = .ok a := by
  have hblank : ∀ m ∈ record.members, m.isFilled record.blank = false := by
    simp [record, members, Member.required, Member.defaulted]
  have hfind : OrderedMap.find? "shape" a.toMembers = a.shape.map Shape.toValue ∧
      OrderedMap.find? "style" a.toMembers = a.style.map Style.toValue ∧
        OrderedMap.find? "fontcolor" a.toMembers = a.fontColor.map Color.toValue ∧
          OrderedMap.find? "color" a.toMembers = a.color.map Color.toValue := by
    simp [toMembers, OrderedMap.find?_append]
  rw [toValue, Record.ofValue_object_eq_ok_iff record apart_members hblank a.distinct_toMembers]
  refine ⟨⟨a.shape.map some, a.style.map some, a.fontColor.map some, a.color.map some⟩, ?_, ?_⟩
  · simp only [record, members, Record.fillDeclared_defaulted, Record.fillDeclared_nil]
    exact ⟨_, memberIn_of_find? hfind.1 hshape, _, memberIn_of_find? hfind.2.1 hstyle,
      _, memberIn_of_find? hfind.2.2.1 hcolor, _, memberIn_of_find? hfind.2.2.2 hcolor, rfl⟩
  · obtain ⟨shape, style, fontColor, color⟩ := a
    cases shape <;> cases style <;> cases fontColor <;> cases color <;> rfl

theorem restores (a : Attributes) : format.ofValue a.toValue = .ok a :=
  restores_of (r := .direct) (fun s => Reading.direct_optional rfl s.restores)
    (fun s => Reading.direct_optional (by cases s; rfl) s.restores)
    (fun c => Reading.direct_optional (by cases c; rfl) c.restores) a

theorem ofMembers_toMembers (a : Attributes) : record.ofMembers a.toMembers = .ok a :=
  restores_of (r := .held) (fun s => by cases s <;> rfl) (fun s => by cases s; rfl)
    (fun c => by cases c; rfl) a

theorem legible_of_mem (a : Attributes) : ∀ m ∈ a.toMembers, m.2.Legible 0 := by
  simp only [toMembers, List.forall_mem_append, forall_mem_setMember]
  exact ⟨fun s _ => s.legible, fun s _ => s.legible, fun c _ => c.legible, fun c _ => c.legible⟩

theorem legible (a : Attributes) : a.toValue.Legible 1 :=
  Value.legible_object a.distinct_toMembers a.legible_of_mem

end Attributes

/-! ## Nodes and edges -/

namespace Node

theorem apart_members : members.Pairwise Member.Apart := by simp [members]

def toMembers (n : Node) : List (String × Value) :=
  ("id", n.id.toValue) :: ("label", .string n.label) :: n.attributes.toMembers

theorem distinct_toMembers (n : Node) : OrderedMap.Distinct n.toMembers := by
  have hsublist : (OrderedMap.keys n.toMembers).Sublist
      ["id", "label", "shape", "style", "fontcolor", "color"] :=
    (n.attributes.keys_sublist.cons_cons _).cons_cons _
  exact (by decide : List.Nodup _).sublist hsublist

/-- What a node does not read itself are its attributes. -/
theorem others_toMembers (n : Node) :
    OpenRecord.others members n.toMembers = n.attributes.toMembers := by
  have hothers : ∀ name ∈ ["shape", "style", "fontcolor", "color"],
      (members.find? (·.name = name)).isNone := by decide
  show n.attributes.toMembers.filter _ = _
  rw [List.filter_eq_self]
  intro m hm
  exact hothers m.1 (n.attributes.keys_sublist.subset (List.mem_map_of_mem hm))

theorem restores (n : Node) : format.ofValue n.toValue = .ok n := by
  have hblank : ∀ m ∈ record.members, m.isFilled record.blank = false := by
    simp [record, members, Member.required]
  show record.ofValue Reading.direct.read (.object n.toMembers) = _
  rw [OpenRecord.ofValue_object_eq_ok_iff record apart_members hblank n.distinct_toMembers]
  refine ⟨⟨some n.id, some n.label⟩, ?_, ?_⟩
  · have hlabel : memberIn Format.string.ofValue "label" n.toMembers = .ok (some n.label) := rfl
    simp only [record, members, Record.fillDeclared_required, Record.fillDeclared_nil]
    exact ⟨_, memberIn_of_restores rfl n.id.restores, _, hlabel, rfl⟩
  · show (do return Node.mk n.id n.label (← Attributes.record.ofMembers
      (OpenRecord.others members n.toMembers))) = _
    rw [others_toMembers, Attributes.ofMembers_toMembers]
    rfl

theorem legible (n : Node) : n.toValue.Legible 1 := by
  apply Value.legible_object n.distinct_toMembers
  simp only [toMembers, List.forall_mem_cons]
  exact ⟨n.id.legible, Value.legible_string _, n.attributes.legible_of_mem⟩

end Node

namespace Edge

theorem apart_members : members.Pairwise Member.Apart := by simp [members]

/-- The members of an edge that may be left out. -/
def restMembers (e : Edge) : List (String × Value) :=
  setMember "label" Value.string e.label ++
    (setMember "labeldistance" (fun n => Value.natural n.toUInt64) e.labelDistance ++
      setMember "color" Color.toValue e.color)

def toMembers (e : Edge) : List (String × Value) :=
  ("source", e.source.toValue) :: ("target", e.target.toValue) ::
    ("directed", .bool e.isDirected) :: e.restMembers

theorem distinct_toMembers (e : Edge) : OrderedMap.Distinct e.toMembers := by
  have hrest : (OrderedMap.keys e.restMembers).Sublist ["label", "labeldistance", "color"] := by
    simp only [restMembers, OrderedMap.keys, List.map_append]
    exact keys_setMember_sublist.append (keys_setMember_sublist.append keys_setMember_sublist)
  have hsublist : (OrderedMap.keys e.toMembers).Sublist
      ["source", "target", "directed", "label", "labeldistance", "color"] :=
    ((hrest.cons_cons _).cons_cons _).cons_cons _
  exact (by decide : List.Nodup _).sublist hsublist

theorem restores (e : Edge) : format.ofValue e.toValue = .ok e := by
  have hblank : ∀ m ∈ record.members, m.isFilled record.blank = false := by
    simp [record, members, Member.required, Member.defaulted]
  have hfind : OrderedMap.find? "label" e.toMembers = e.label.map Value.string ∧
      OrderedMap.find? "labeldistance" e.toMembers =
        e.labelDistance.map (fun n => Value.natural n.toUInt64) ∧
      OrderedMap.find? "color" e.toMembers = e.color.map Color.toValue := by
    simp [toMembers, restMembers, OrderedMap.find?_cons, OrderedMap.find?_append]
  have hdirected : memberIn Format.bool.ofValue "directed" e.toMembers = .ok (some e.isDirected) :=
    rfl
  have hlabel : ∀ s, Reading.direct.read (.optional .string) (.string s) = .ok (some s) :=
    fun _ => rfl
  have hdistance : ∀ n : UInt32,
      Reading.direct.read (.optional .word32) (.natural n.toUInt64) = .ok (some n) :=
    fun n => Reading.direct_optional rfl (Format.word32_restores n)
  have hcolor : ∀ c : Color,
      Reading.direct.read (.optional Color.format) c.toValue = .ok (some c) :=
    fun c => Reading.direct_optional (by cases c; rfl) c.restores
  show record.ofValue Reading.direct.read (.object e.toMembers) = _
  rw [Record.ofValue_object_eq_ok_iff record apart_members hblank e.distinct_toMembers]
  refine ⟨⟨some e.source, some e.target, some e.isDirected, e.label.map some,
    e.labelDistance.map some, e.color.map some⟩, ?_, ?_⟩
  · simp only [record, members, Record.fillDeclared_required, Record.fillDeclared_defaulted,
      Record.fillDeclared_nil]
    exact ⟨_, memberIn_of_restores rfl e.source.restores,
      _, memberIn_of_restores rfl e.target.restores, _, hdirected,
      _, memberIn_of_find? hfind.1 hlabel, _, memberIn_of_find? hfind.2.1 hdistance,
      _, memberIn_of_find? hfind.2.2 hcolor, rfl⟩
  · obtain ⟨source, target, isDirected, label, labelDistance, color⟩ := e
    cases label <;> cases labelDistance <;> cases color <;> rfl

theorem legible (e : Edge) : e.toValue.Legible 1 := by
  apply Value.legible_object e.distinct_toMembers
  simp only [toMembers, restMembers, List.forall_mem_cons, List.forall_mem_append,
    forall_mem_setMember]
  exact ⟨e.source.legible, e.target.legible, Value.legible_bool _,
    fun _ _ => Value.legible_string _, fun _ _ => Value.legible_natural _, fun c _ => c.legible⟩

end Edge

/-! ## Graphs -/

namespace Graph

theorem apart_members : members.Pairwise Member.Apart := by simp [members]

def toMembers (g : Graph) : List (String × Value) :=
  [("directed", .bool g.isDirected), ("nodes", .array (g.nodes.map Node.toValue)),
    ("edges", .array (g.edges.map Edge.toValue))]

theorem distinct_toMembers (g : Graph) : OrderedMap.Distinct g.toMembers :=
  (by decide : ["directed", "nodes", "edges"].Nodup)

theorem restores (g : Graph) : format.ofValue g.toValue = .ok g := by
  have hblank : ∀ m ∈ record.members, m.isFilled record.blank = false := by
    simp [record, members, Member.required]
  have hdirected : memberIn Format.bool.ofValue "directed" g.toMembers = .ok (some g.isDirected) :=
    rfl
  have hnodes := Format.list_restores Node.restores g.nodes
  have hedges := Format.list_restores Edge.restores g.edges
  show record.ofValue Reading.direct.read (.object g.toMembers) = _
  rw [Record.ofValue_object_eq_ok_iff record apart_members hblank g.distinct_toMembers]
  refine ⟨⟨some g.isDirected, some g.nodes, some g.edges⟩, ?_, rfl⟩
  simp only [record, members, Record.fillDeclared_required, Record.fillDeclared_nil]
  exact ⟨_, hdirected, _, memberIn_eq_ok_some_iff.mpr ⟨_, rfl, hnodes⟩,
    _, memberIn_eq_ok_some_iff.mpr ⟨_, rfl, hedges⟩, rfl⟩

theorem legible (g : Graph) : g.toValue.Legible 3 := by
  have hnodes : (Value.array (g.nodes.map Node.toValue)).Legible 2 :=
    Value.legible_array (List.forall_mem_map.mpr fun n _ => n.legible)
  have hedges : (Value.array (g.edges.map Edge.toValue)).Legible 2 :=
    Value.legible_array (List.forall_mem_map.mpr fun e _ => e.legible)
  apply Value.legible_object g.distinct_toMembers
  simp only [toMembers, List.forall_mem_cons]
  exact ⟨(Value.legible_bool _).mono (Nat.zero_le _), hnodes, hedges, by simp⟩

end Graph

namespace GraphDocument

theorem distinct_toMembers (d : GraphDocument) :
    OrderedMap.Distinct [("graph", d.graph.toValue)] := (by decide : ["graph"].Nodup)

theorem restores (d : GraphDocument) : format.ofValue d.toValue = .ok d := by
  have hblank : ∀ m ∈ record.members, m.isFilled record.blank = false := by
    simp [record, members, Member.required]
  have hgraph := d.graph.restores
  show record.ofValue Reading.direct.read (.object [("graph", d.graph.toValue)]) = _
  rw [Record.ofValue_object_eq_ok_iff record (List.pairwise_singleton _ _) hblank
    d.distinct_toMembers]
  refine ⟨⟨some d.graph⟩, ?_, rfl⟩
  simp only [record, members, Record.fillDeclared_required, Record.fillDeclared_nil]
  exact ⟨_, memberIn_eq_ok_some_iff.mpr ⟨_, rfl, hgraph⟩, rfl⟩

theorem legible (d : GraphDocument) : d.toValue.Legible 4 := by
  apply Value.legible_object d.distinct_toMembers
  simp only [List.forall_mem_cons]
  exact ⟨d.graph.legible, by simp⟩

/-- The text that is written for a graph document is read back on both routes. -/
theorem read_text (d : GraphDocument) :
    format.readText d.text = .ok d ∧ format.readValue d.text = .ok d := by
  have hlegible := d.legible.mono (by decide : 4 ≤ Tree.maxDepth)
  exact hlegible.read (spelled_prettyText_line hlegible.floatless) agrees_format d.restores

end GraphDocument

/-! ## What a conversion writes -/

theorem Sink.written_of_no_error {sink : Sink} {text : String}
    (h : (sink.outcome text).error = none) : (sink.outcome text).written = text.toUTF8.toList := by
  unfold outcome at h ⊢
  cases hroom : sink.room with
  | none => rfl
  | some room =>
    simp only [hroom] at h ⊢
    split at h
    · rename_i hle
      exact List.take_of_length_le hle
    · split at h <;> cases h

/-- A conversion without error has built a graph and written all of its text. -/
theorem exists_graph_of_run {source : Source} {sink : Sink} (h : (run source sink).error = none) :
    ∃ text d g, source.Holds text ∧ Document.ofText text = .ok d ∧ d.graph = .ok g ∧
      (run source sink).written = g.text.toUTF8.toList := by
  rcases run_cases source with ⟨e, hrun⟩ | ⟨text, d, g, ht, hd, hg, hrun⟩
  · rw [hrun] at h
    cases h
  · rw [hrun] at h
    refine ⟨text, d, g, ht, hd, hg, ?_⟩
    rw [hrun]
    exact Sink.written_of_no_error h

/-- Every type of a graph comes back from its text on both routes, and so does the graph that a
conversion without error writes. -/
theorem graphs_round_trip :
    (GraphDocument.format.RoundTrips GraphDocument.toValue ∧
      Graph.format.RoundTrips Graph.toValue ∧ Node.format.RoundTrips Node.toValue ∧
      Edge.format.RoundTrips Edge.toValue ∧ NodeId.format.RoundTrips NodeId.toValue ∧
      Attributes.format.RoundTrips Attributes.toValue ∧ Shape.format.RoundTrips Shape.toValue ∧
      Style.format.RoundTrips Style.toValue ∧ Color.format.RoundTrips Color.toValue) ∧
    ∀ source sink, (run source sink).error = none →
      ∃ text d g written, source.Holds text ∧ Document.ofText text = .ok d ∧ d.graph = .ok g ∧
        (run source sink).written = written.toUTF8.toList ∧
          GraphDocument.format.readText written = .ok g ∧
            GraphDocument.format.readValue written = .ok g := by
  constructor
  · exact ⟨Format.roundTrips GraphDocument.agrees_format
        (fun d => d.legible.mono (by decide)) GraphDocument.restores,
      Format.roundTrips Graph.agrees_format (fun g => g.legible.mono (by decide)) Graph.restores,
      Format.roundTrips Node.agrees_format (fun n => n.legible.mono (by decide)) Node.restores,
      Format.roundTrips Edge.agrees_format (fun e => e.legible.mono (by decide)) Edge.restores,
      Format.roundTrips NodeId.agrees_format (fun i => i.legible.mono (by decide)) NodeId.restores,
      Format.roundTrips Attributes.agrees_format (fun a => a.legible.mono (by decide))
        Attributes.restores,
      Format.roundTrips Shape.agrees_format (fun s => s.legible.mono (by decide)) Shape.restores,
      Format.roundTrips Style.agrees_format (fun s => s.legible.mono (by decide)) Style.restores,
      Format.roundTrips Color.agrees_format (fun c => c.legible.mono (by decide)) Color.restores⟩
  · intro source sink h
    obtain ⟨text, d, g, ht, hd, hg, hwritten⟩ := exists_graph_of_run h
    exact ⟨text, d, g, g.text, ht, hd, hg, hwritten, g.read_text⟩

/-- The number text is a document with a graph. -/
theorem run_numberText :
    ∃ g : GraphDocument, ∀ sink, run ⟨numberText.toUTF8, none⟩ sink = sink.outcome g.text := by
  have hholds : Source.Holds ⟨numberText.toUTF8, none⟩ numberText :=
    ⟨rfl, fromUTF8?_toUTF8 numberText⟩
  have hdocument : ∃ d g, Document.ofText numberText = .ok d ∧ d.graph = .ok g := by
    rw [Document.ofText, ofText_numberText]
    exact ⟨_, _, rfl, rfl⟩
  obtain ⟨d, g, hd, hg⟩ := hdocument
  exact ⟨g, fun _ => run_of_graph hholds hd hg⟩

theorem graphs_round_trip_numberText :
    (run ⟨numberText.toUTF8, none⟩ ⟨none, ""⟩).error = none ∧
      (∃ g written, (run ⟨numberText.toUTF8, none⟩ ⟨none, ""⟩).written = written.toUTF8.toList ∧
        GraphDocument.format.readText written = .ok g) ∧
      NodeId.format.readText (NodeId.toValue (.synthetic "7")).compactText =
        .ok (.synthetic "7") := by
  have herror : (run ⟨numberText.toUTF8, none⟩ ⟨none, ""⟩).error = none := by
    obtain ⟨g, hg⟩ := run_numberText
    rw [hg]
    rfl
  obtain ⟨⟨-, -, -, -, hid, -⟩, hrun⟩ := graphs_round_trip
  obtain ⟨-, -, g, written, -, -, -, hwritten, hread, -⟩ := hrun _ _ herror
  exact ⟨herror, ⟨g, written, hwritten, hread⟩,
    (hid (.synthetic "7") Value.compactText List.mem_cons_self).1.1⟩

end RuleGraph
