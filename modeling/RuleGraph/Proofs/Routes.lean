import RuleGraph.Conversion
import RuleGraph.Proofs.DistinctNames
import RuleGraph.Proofs.FormatAgreement
import RuleGraph.Proofs.WrittenText

/-!
# The two routes from a text to a type

A text can be read as a type directly, or as a value first and then as the type. Where no object of
the text repeats a member name, both routes succeed alike and give the same (`Format.RoutesAgree`),
for every type of this library that is read from a text. So a document has the same graph, or is
refused for the same reason, on either route (`decoding_routes_agree`).
-/

namespace RuleGraph

namespace Json

/-- The value of a text, repeated members as they are written. -/
def Value.asWritten (text : String) : Except Fault Value :=
  let p := Parsed.ofText text
  p.finish id (p.root.read Tree.maxDepth)

section Text

variable {α : Type} {text : String} {v : Value}

theorem Value.asWritten_eq_ok_iff :
    Value.asWritten text = .ok v ↔ Spelled text v ∧ v.depth ≤ Tree.maxDepth := by
  rw [Value.asWritten, Parsed.finish_eq_ok_iff]
  constructor
  · rintro ⟨hread, htrailing⟩
    obtain ⟨hroot, hdepth⟩ := Parsed.spells_of_read hread
    exact ⟨⟨hroot, htrailing⟩, hdepth⟩
  · rintro ⟨h, hdepth⟩
    exact ⟨h.root.read hdepth, h.trailing⟩

theorem Spelled.ofText_eq (h : Spelled text v) (hdistinct : v.Distinct)
    (hdepth : v.depth ≤ Tree.maxDepth) : Value.ofText text = .ok v :=
  Value.ofText_eq_ok_iff.mpr ⟨v, h, hdepth, Value.merged_of_distinct v hdistinct⟩

theorem Format.readValue_eq_ok_iff {f : Format α} {a : α} :
    f.readValue text = .ok a ↔ ∃ v, Value.ofText text = .ok v ∧ f.ofValue v = .ok a := by
  unfold readValue
  cases Value.ofText text with
  | error fault => simp
  | ok v => simp [mapError_eq_ok_iff]

theorem Spelled.readValue_eq_ok_iff (h : Spelled text v) (hdistinct : v.Distinct)
    (hdepth : v.depth ≤ Tree.maxDepth) (f : Format α) (a : α) :
    f.readValue text = .ok a ↔ f.ofValue v = .ok a := by
  rw [Format.readValue_eq_ok_iff, h.ofText_eq hdistinct hdepth]
  simp

theorem Spelled.readText_eq_ok_iff (h : Spelled text v) (hdistinct : v.Distinct)
    (hdepth : v.depth ≤ Tree.maxDepth) {f : Format α} (hf : f.Agrees) (a : α) :
    f.readText text = .ok a ↔ f.ofValue v = .ok a := by
  rw [Format.readText, Parsed.finish_eq_ok_iff, hf h.root hdistinct hdepth]
  exact and_iff_left h.trailing

/-- A text is read as a type directly exactly if it is read so as a value first. -/
def Format.RoutesAgree (f : Format α) (text : String) : Prop :=
  ∀ a, f.readText text = .ok a ↔ f.readValue text = .ok a

theorem Format.Agrees.routesAgree {f : Format α} (hf : f.Agrees) (h : Spelled text v)
    (hdistinct : v.Distinct) (hdepth : v.depth ≤ Tree.maxDepth) : f.RoutesAgree text := by
  intro a
  rw [h.readText_eq_ok_iff hdistinct hdepth hf, h.readValue_eq_ok_iff hdistinct hdepth]

end Text

end Json

open Json

/-! ## The formats agree -/

theorem Kind.agrees_format : Kind.format.Agrees := Format.agrees_choice _

theorem Entity.agrees_format : Entity.format.Agrees := by
  apply OpenRecord.agrees_format
  simp only [record, members, List.forall_mem_cons]
  exact ⟨Member.agrees_required Kind.agrees_format, Member.agrees_required Format.agrees_word64,
    Member.agrees_defaulted Format.agrees_bool, by simp⟩

theorem Document.agrees_format : Document.format.Agrees := by
  apply Record.agrees_format
  simp only [record, members, List.forall_mem_cons]
  exact ⟨Member.agrees_defaulted (Format.agrees_whole _).optional,
    Member.agrees_defaulted (Format.agrees_whole _), by simp⟩

theorem NodeId.agrees_format : NodeId.format.Agrees := Format.agrees_whole _

theorem Shape.agrees_format : Shape.format.Agrees := Format.agrees_choice _

theorem Style.agrees_format : Style.format.Agrees := Format.agrees_choice _

theorem Color.agrees_format : Color.format.Agrees := Format.agrees_choice _

theorem Attributes.agrees_format : Attributes.format.Agrees := by
  apply Record.agrees_format
  simp only [record, members, List.forall_mem_cons]
  exact ⟨Member.agrees_defaulted Shape.agrees_format.optional,
    Member.agrees_defaulted Style.agrees_format.optional,
    Member.agrees_defaulted Color.agrees_format.optional,
    Member.agrees_defaulted Color.agrees_format.optional, by simp⟩

theorem Node.agrees_format : Node.format.Agrees := by
  apply OpenRecord.agrees_format
  simp only [record, members, List.forall_mem_cons]
  exact ⟨Member.agrees_required NodeId.agrees_format, Member.agrees_required Format.agrees_string,
    by simp⟩

theorem Edge.agrees_format : Edge.format.Agrees := by
  apply Record.agrees_format
  simp only [record, members, List.forall_mem_cons]
  exact ⟨Member.agrees_required NodeId.agrees_format, Member.agrees_required NodeId.agrees_format,
    Member.agrees_required Format.agrees_bool,
    Member.agrees_defaulted Format.agrees_string.optional,
    Member.agrees_defaulted Format.agrees_word32.optional,
    Member.agrees_defaulted Color.agrees_format.optional, by simp⟩

theorem Graph.agrees_format : Graph.format.Agrees := by
  apply Record.agrees_format
  simp only [record, members, List.forall_mem_cons]
  exact ⟨Member.agrees_required Format.agrees_bool,
    Member.agrees_required Node.agrees_format.list,
    Member.agrees_required Edge.agrees_format.list, by simp⟩

theorem GraphDocument.agrees_format : GraphDocument.format.Agrees := by
  apply Record.agrees_format
  simp only [record, members, List.forall_mem_cons]
  exact ⟨Member.agrees_required Graph.agrees_format, by simp⟩

/-! ## Building on either route -/

theorem fromUTF8?_toUTF8 (text : String) : String.fromUTF8? text.toUTF8 = some text := by
  unfold String.fromUTF8?
  rw [String.toUTF8_eq_toByteArray, dif_pos text.isValidUTF8]
  rfl

theorem graphOf_toUTF8 {text : String} {entries : List (String × Value)}
    (h : Value.ofText text = .ok (.object entries)) :
    graphOf text.toUTF8 = ((Document.format.ofValue (.object entries)).mapError .notDocument).bind
      fun d => d.graph.mapError .noGraph := by
  rw [graphOf, fromUTF8?_toUTF8]
  simp only [Document.ofText, h]
  cases Document.format.ofValue (.object entries) <;> rfl

/-- From a document or none, an outcome is reached exactly if a document has it. -/
theorem graphOf_eq_iff {text : String} {entries : List (String × Value)}
    (h : Value.ofText text = .ok (.object entries)) (outcome : Except BuildError GraphDocument) :
    graphOf text.toUTF8 = outcome.mapError .noGraph ↔
      ∃ d, Document.format.ofValue (.object entries) = .ok d ∧ d.graph = outcome := by
  rw [graphOf_toUTF8 h]
  cases Document.format.ofValue (.object entries) with
  | error m => exact iff_of_false (by cases outcome <;> rintro ⟨⟩) (by rintro ⟨_, ⟨⟩, -⟩)
  | ok d =>
    show d.graph.mapError ConversionError.noGraph = outcome.mapError .noGraph ↔ _
    simp only [Except.ok.injEq, exists_eq_left']
    constructor
    · intro h
      cases hd : d.graph <;> cases outcome <;> rw [hd] at h <;> cases h <;> rfl
    · rintro rfl
      rfl

/-- On a text without repeated member names, both routes agree for every type that is read from
a text. With an object at its root, building ends alike on both. -/
theorem decoding_routes_agree {text : String} {v : Value} (hv : Value.asWritten text = .ok v)
    (hdistinct : v.Distinct) :
    (Kind.format.RoutesAgree text ∧ Entity.format.RoutesAgree text ∧
      Document.format.RoutesAgree text ∧ NodeId.format.RoutesAgree text ∧
      Attributes.format.RoutesAgree text ∧ Shape.format.RoutesAgree text ∧
      Style.format.RoutesAgree text ∧ Color.format.RoutesAgree text ∧
      Node.format.RoutesAgree text ∧ Edge.format.RoutesAgree text ∧
      Graph.format.RoutesAgree text ∧ GraphDocument.format.RoutesAgree text) ∧
    ∀ entries, v = .object entries → ∀ outcome,
      (Document.format.readText text).map Document.graph = .ok outcome ↔
        graphOf text.toUTF8 = outcome.mapError .noGraph := by
  obtain ⟨h, hdepth⟩ := Value.asWritten_eq_ok_iff.mp hv
  constructor
  · exact ⟨Kind.agrees_format.routesAgree h hdistinct hdepth,
      Entity.agrees_format.routesAgree h hdistinct hdepth,
      Document.agrees_format.routesAgree h hdistinct hdepth,
      NodeId.agrees_format.routesAgree h hdistinct hdepth,
      Attributes.agrees_format.routesAgree h hdistinct hdepth,
      Shape.agrees_format.routesAgree h hdistinct hdepth,
      Style.agrees_format.routesAgree h hdistinct hdepth,
      Color.agrees_format.routesAgree h hdistinct hdepth,
      Node.agrees_format.routesAgree h hdistinct hdepth,
      Edge.agrees_format.routesAgree h hdistinct hdepth,
      Graph.agrees_format.routesAgree h hdistinct hdepth,
      GraphDocument.agrees_format.routesAgree h hdistinct hdepth⟩
  · rintro entries rfl outcome
    have hread := h.readText_eq_ok_iff hdistinct hdepth Document.agrees_format
    rw [map_eq_ok_iff, graphOf_eq_iff (h.ofText_eq hdistinct hdepth)]
    simp only [hread]

/-- A document with one number and a member that documents do not have. -/
def numberText : String :=
  "\x7b\"result\":[1],\"note\":null,\"entities\":" ++
    "\x7b\"Number\":\x7b\"1\":\x7b\"type\":\"Number\",\"id\":1\x7d\x7d\x7d\x7d"

/-- The value of that text. -/
def numberValue : Value :=
  .object [("result", .array [.natural 1]), ("note", .null),
    ("entities", .object [("Number", .object [("1",
      .object [("type", .string "Number"), ("id", .natural 1)])])])]

theorem spelled_numberText : Spelled numberText numberValue := by
  have htext : numberText = numberValue.compactText := by decide
  rw [htext]
  exact spelled_compactText (by decide)

theorem ofText_numberText : Value.ofText numberText = .ok numberValue :=
  spelled_numberText.ofText_eq (by decide) (by decide)

theorem decoding_routes_agree_numberText :
    Value.asWritten numberText = .ok numberValue ∧ numberValue.Distinct ∧
      Document.format.RoutesAgree numberText ∧
      (Document.format.readText numberText).map Document.graph =
        .ok (.ok ⟨true, [⟨.entity 1, "Number 1", Attributes.shaped .oval⟩], []⟩) := by
  have hvalue := Value.asWritten_eq_ok_iff.mpr
    ⟨spelled_numberText, (by decide : numberValue.depth ≤ Tree.maxDepth)⟩
  have hdistinct : numberValue.Distinct := by decide
  obtain ⟨hroutes, hbuild⟩ := decoding_routes_agree hvalue hdistinct
  refine ⟨hvalue, hdistinct, hroutes.2.2.1, ?_⟩
  rw [hbuild _ rfl, graphOf_toUTF8 ofText_numberText]
  rfl

end RuleGraph
