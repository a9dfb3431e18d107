import RuleGraph.Proofs.DocumentFormat
import RuleGraph.Proofs.Refusal
import RuleGraph.Proofs.Writing

/-!
# How a conversion ends

`Ends` has one rule for each way in which a conversion ends if its sink takes everything. The rules
exclude each other: each demands that those before it do not apply. `run_ends_iff` says that a
conversion ends as the rules say, in its category of error and in what is written.
-/

namespace RuleGraph

open Json

/-! ## The rules -/

/-- A source can be read to its end, and its bytes are those of a text. -/
def Source.Holds (source : Source) (text : String) : Prop :=
  source.failure = none ∧ String.fromUTF8? source.bytes = some text

/-- A member is present and truthy. -/
def HasTruthy (entries : List (String × Value)) (name : String) : Prop :=
  ∃ v, OrderedMap.find? name entries = some v ∧ v.isTruthy

/-- The entities are truthy, but they are no buckets of entities. -/
def HasBadEntities (entries : List (String × Value)) : Prop :=
  ∃ v m, OrderedMap.find? "entities" entries = some v ∧ v.isTruthy ∧
    Document.readBuckets v = .error m

/-- The members of an object hold a document with a truthy result and entities. -/
structure Document.StandsIn (d : Document) (entries : List (String × Value)) : Prop where
  result : ∃ v, OrderedMap.find? "result" entries = some v ∧ v.isTruthy ∧ d.result = some v
  entities : ∃ v bs, OrderedMap.find? "entities" entries = some v ∧ v.isTruthy ∧
    Document.readBuckets v = .ok bs ∧ d.entities = some bs

/-- How a conversion ends: the category of its error, if there is one, and what is written. -/
inductive Ends (source : Source) : Option ErrorCategory → List UInt8 → Prop
  /-- The source fails, or its bytes are not those of a text. -/
  | unreadable (h : ∀ text, ¬ source.Holds text) : Ends source (some .io) []
  /-- The text is not JSON. -/
  | notJson {text : String} (ht : source.Holds text) (h : ∀ root, Value.ofText text ≠ .ok root) :
      Ends source (some .deserialization) []
  /-- The root is no object. -/
  | notObject {text : String} {root : Value} (ht : source.Holds text)
      (hr : Value.ofText text = .ok root) (h : ∀ entries, root ≠ .object entries) :
      Ends source (some .invalidInput) []
  /-- The entities are truthy but no buckets, whatever the result is. -/
  | badEntities {text : String} {entries : List (String × Value)} (ht : source.Holds text)
      (hr : Value.ofText text = .ok (.object entries)) (h : HasBadEntities entries) :
      Ends source (some .deserialization) []
  /-- The result or the entities are absent or falsy. -/
  | incomplete {text : String} {entries : List (String × Value)} (ht : source.Holds text)
      (hr : Value.ofText text = .ok (.object entries)) (hb : ¬ HasBadEntities entries)
      (h : ¬ (HasTruthy entries "result" ∧ HasTruthy entries "entities")) :
      Ends source (some .invalidInput) []
  /-- A reference field is misused. -/
  | malformed {text : String} {entries : List (String × Value)} {d : Document}
      (ht : source.Holds text) (hr : Value.ofText text = .ok (.object entries))
      (hd : d.StandsIn entries) (h : d.HasMisuse) : Ends source (some .malformedReference) []
  /-- The document has a graph. -/
  | converted {text : String} {entries : List (String × Value)} {d : Document} {g : GraphDocument}
      (ht : source.Holds text) (hr : Value.ofText text = .ok (.object entries))
      (hd : d.StandsIn entries) (h : ¬ d.HasMisuse) (hg : d.graph = .ok g) :
      Ends source none (g.toValue.prettyText ++ "\n").toUTF8.toList

/-! ## Reading a document's text -/

theorem Value.not_isNull_of_isTruthy {v : Value} (h : v.isTruthy) : v.isNull = false := by
  cases v with
  | null => cases h
  | _ => rfl

namespace Document

theorem ofText_of_fault {text : String} {f : Fault} (hr : Value.ofText text = .error f) :
    ofText text = .error (.notJson f (Fault.position text f)) := by
  rw [ofText, hr]

theorem ofText_of_not_object {text : String} {root : Value} (hr : Value.ofText text = .ok root)
    (h : ∀ entries, root ≠ .object entries) :
    ofText text = .error (.noGraph .notNormalized) := by
  rw [ofText, hr]
  cases root with
  | object entries => exact absurd rfl (h entries)
  | _ => rfl

theorem ofText_object {text : String} {entries : List (String × Value)}
    (hr : Value.ofText text = .ok (.object entries)) :
    ofText text = ((entitiesIn entries).map fun entities =>
      ⟨resultIn entries, entities⟩).mapError .notDocument := by
  have hd := Value.distinct_of_ofText hr
  rw [Value.Distinct] at hd
  rw [ofText, hr]
  show (format.ofValue (.object entries)).mapError _ = _
  rw [ofValue_object hd.1]

theorem entitiesIn_of_not_hasTruthy {entries : List (String × Value)}
    (h : ¬ HasTruthy entries "entities") : entitiesIn entries = .ok none := by
  unfold entitiesIn
  cases hv : OrderedMap.find? "entities" entries with
  | none => rfl
  | some v => exact if_neg fun htruthy => h ⟨v, hv, htruthy⟩

theorem entitiesIn_of_bad {entries : List (String × Value)} (h : HasBadEntities entries) :
    ∃ m, entitiesIn entries = .error m := by
  obtain ⟨v, m, hv, htruthy, hread⟩ := h
  refine ⟨m, ?_⟩
  rw [entitiesIn_of_isTruthy hv htruthy, hread]
  rfl

/-- Entities that are not bad are read as some if they are truthy, and as none otherwise. -/
theorem entitiesIn_of_not_bad {entries : List (String × Value)} (h : ¬ HasBadEntities entries) :
    ∃ entities, entitiesIn entries = .ok entities ∧
      (entities.isSome ↔ HasTruthy entries "entities") := by
  by_cases htruthy : HasTruthy entries "entities"
  · obtain ⟨v, hv, hv'⟩ := htruthy
    rw [entitiesIn_of_isTruthy hv hv']
    cases hread : readBuckets v with
    | error m => exact absurd ⟨v, m, hv, hv', hread⟩ h
    | ok bs => exact ⟨some bs, rfl, fun _ => ⟨v, hv, hv'⟩, fun _ => rfl⟩
  · refine ⟨none, entitiesIn_of_not_hasTruthy htruthy, ?_⟩
    simp [htruthy]

theorem isNormalized_iff_hasTruthy {entries : List (String × Value)} {entities : Option Buckets}
    (h : entities.isSome ↔ HasTruthy entries "entities") :
    (⟨resultIn entries, entities⟩ : Document).IsNormalized ↔
      HasTruthy entries "result" ∧ HasTruthy entries "entities" := by
  constructor
  · rintro ⟨⟨v, hv, htruthy⟩, hentities⟩
    exact ⟨⟨v, (Option.filter_eq_some_iff.mp hv).1, htruthy⟩, h.mp hentities⟩
  · rintro ⟨⟨v, hv, htruthy⟩, hentities⟩
    refine ⟨⟨v, ?_, htruthy⟩, h.mpr hentities⟩
    exact Option.filter_eq_some_iff.mpr ⟨hv, by rw [Value.not_isNull_of_isTruthy htruthy]; rfl⟩

namespace StandsIn

variable {d : Document} {entries : List (String × Value)}

theorem isNormalized (h : d.StandsIn entries) : d.IsNormalized := by
  obtain ⟨v, -, htruthy, hv⟩ := h.result
  obtain ⟨_, bs, -, -, -, hbs⟩ := h.entities
  exact ⟨⟨v, hv, htruthy⟩, by rw [hbs]; rfl⟩

/-- The document that stands in an object is the one that is read from it. -/
theorem ofText_eq {text : String} (h : d.StandsIn entries)
    (hr : Value.ofText text = .ok (.object entries)) : ofText text = .ok d := by
  obtain ⟨v, hv, htruthy, hresult⟩ := h.result
  obtain ⟨v', bs, hv', htruthy', hread, hentities⟩ := h.entities
  have hin : resultIn entries = d.result := by
    simp [resultIn, hv, hresult, Value.not_isNull_of_isTruthy htruthy]
  have hes : entitiesIn entries = .ok d.entities := by
    rw [entitiesIn_of_isTruthy hv' htruthy', hread, hentities]
    rfl
  rw [ofText_object hr, hes, hin]
  rfl

theorem exists_of_hasTruthy (hb : ¬ HasBadEntities entries) (hr : HasTruthy entries "result")
    (he : HasTruthy entries "entities") : ∃ d : Document, d.StandsIn entries := by
  obtain ⟨v, hv, htruthy⟩ := hr
  obtain ⟨v', hv', htruthy'⟩ := he
  cases hread : readBuckets v' with
  | error m => exact absurd ⟨v', m, hv', htruthy', hread⟩ hb
  | ok bs => exact ⟨⟨some v, some bs⟩, ⟨v, hv, htruthy, rfl⟩, ⟨v', bs, hv', htruthy', hread, rfl⟩⟩

end StandsIn

end Document

/-! ## The rules describe the conversion -/

section Run

variable {source : Source} {sink : Sink} {text : String}

theorem run_of_unreadable (h : ∀ text, ¬ source.Holds text) :
    ∃ reason, ∀ sink, run source sink = ⟨[], some (.unreadable reason)⟩ := by
  unfold run Source.read
  cases hf : source.failure with
  | some reason => exact ⟨reason, fun _ => rfl⟩
  | none =>
    cases hu : String.fromUTF8? source.bytes with
    | some text => exact absurd ⟨hf, hu⟩ (h text)
    | none => exact ⟨notUtf8, fun _ => by simp only [Except.bind, graphOf, hu]⟩

theorem read_bind_graphOf (h : source.Holds text) :
    source.read.bind graphOf =
      (Document.ofText text).bind fun d => d.graph.mapError .noGraph := by
  simp only [Source.read, h.1, Except.bind, graphOf, h.2]
  cases Document.ofText text <;> rfl

theorem run_of_ofText_error (h : source.Holds text) {e : ConversionError}
    (he : Document.ofText text = .error e) : run source sink = ⟨[], some e⟩ := by
  rw [run, read_bind_graphOf h, he]
  rfl

theorem run_of_graph_error (h : source.Holds text) {d : Document} {e : BuildError}
    (hd : Document.ofText text = .ok d) (he : d.graph = .error e) :
    run source sink = ⟨[], some (.noGraph e)⟩ := by
  rw [run, read_bind_graphOf h, hd, Except.bind, he]
  rfl

theorem run_of_graph (h : source.Holds text) {d : Document} {g : GraphDocument}
    (hd : Document.ofText text = .ok d) (hg : d.graph = .ok g) :
    run source sink = sink.outcome g.text := by
  rw [run, read_bind_graphOf h, hd, Except.bind, hg]
  exact g.writeTo_eq sink

/-- A conversion fails before it writes, in the same way at every sink, or it has built a graph. -/
theorem run_cases (source : Source) :
    (∃ e, ∀ sink, run source sink = ⟨[], some e⟩) ∨
      ∃ text d g, source.Holds text ∧ Document.ofText text = .ok d ∧ d.graph = .ok g ∧
        ∀ sink, run source sink = sink.outcome g.text := by
  by_cases hholds : ∃ text, source.Holds text
  · obtain ⟨text, ht⟩ := hholds
    cases hd : Document.ofText text with
    | error e => exact .inl ⟨e, fun _ => run_of_ofText_error ht hd⟩
    | ok d =>
      cases hg : d.graph with
      | error e => exact .inl ⟨.noGraph e, fun _ => run_of_graph_error ht hd hg⟩
      | ok g => exact .inr ⟨text, d, g, ht, hd, hg, fun _ => run_of_graph ht hd hg⟩
  · obtain ⟨reason, hrun⟩ := run_of_unreadable (not_exists.mp hholds)
    exact .inl ⟨.unreadable reason, hrun⟩

end Run

/-- A conversion ends as each rule says that applies. -/
theorem Ends.run {source : Source} {category : Option ErrorCategory} {written : List UInt8}
    (h : Ends source category written) (reason : String) :
    (RuleGraph.run source ⟨none, reason⟩).error.map ConversionError.category = category ∧
      (RuleGraph.run source ⟨none, reason⟩).written = written := by
  cases h with
  | unreadable h =>
    obtain ⟨_, hrun⟩ := run_of_unreadable h
    rw [hrun]
    exact ⟨rfl, rfl⟩
  | notJson ht h =>
    cases hroot : Value.ofText _ with
    | ok root => exact absurd hroot (h root)
    | error fault =>
      have hd := Document.ofText_of_fault hroot
      rw [run_of_ofText_error ht hd]
      exact ⟨rfl, rfl⟩
  | notObject ht hr h =>
    rw [run_of_ofText_error ht (Document.ofText_of_not_object hr h)]
    exact ⟨rfl, rfl⟩
  | badEntities ht hr h =>
    obtain ⟨m, hm⟩ := Document.entitiesIn_of_bad h
    have hd := Document.ofText_object hr
    rw [hm] at hd
    rw [run_of_ofText_error ht hd]
    exact ⟨rfl, rfl⟩
  | incomplete ht hr hb h =>
    obtain ⟨entities, he, hsome⟩ := Document.entitiesIn_of_not_bad hb
    have hd := Document.ofText_object hr
    rw [he] at hd
    have hnot := mt (Document.isNormalized_iff_hasTruthy hsome).mp h
    rw [run_of_graph_error ht hd (Document.graph_of_not_isNormalized hnot)]
    exact ⟨rfl, rfl⟩
  | malformed ht hr hd h =>
    obtain ⟨e, f, hfirst⟩ := Document.hasMisuse_iff.mp h
    have hgraph := Document.graph_of_failure hd.isNormalized
      (Document.failure?_eq_some_iff.mpr ⟨e, f, hfirst, rfl⟩)
    rw [run_of_graph_error ht (hd.ofText_eq hr) hgraph]
    exact ⟨rfl, rfl⟩
  | converted ht hr hd h hg =>
    rw [run_of_graph ht (hd.ofText_eq hr) hg]
    exact ⟨rfl, rfl⟩

/-- Some rule applies to every source. -/
theorem exists_ends (source : Source) : ∃ category written, Ends source category written := by
  by_cases ht : ∃ text, source.Holds text
  · obtain ⟨text, ht⟩ := ht
    cases hr : Value.ofText text with
    | error fault => exact ⟨_, _, .notJson ht (by simp [hr])⟩
    | ok root =>
      by_cases hobject : ∃ entries, root = .object entries
      · obtain ⟨entries, rfl⟩ := hobject
        by_cases hb : HasBadEntities entries
        · exact ⟨_, _, .badEntities ht hr hb⟩
        · by_cases htruthy : HasTruthy entries "result" ∧ HasTruthy entries "entities"
          · obtain ⟨d, hd⟩ := Document.StandsIn.exists_of_hasTruthy hb htruthy.1 htruthy.2
            by_cases hm : d.HasMisuse
            · exact ⟨_, _, .malformed ht hr hd hm⟩
            · have hg := Document.graph_eq_ok_iff.mpr ⟨hd.isNormalized, hm, rfl⟩
              exact ⟨_, _, .converted ht hr hd hm hg⟩
          · exact ⟨_, _, .incomplete ht hr hb htruthy⟩
      · exact ⟨_, _, .notObject ht hr (not_exists.mp hobject)⟩
  · exact ⟨_, _, .unreadable (not_exists.mp ht)⟩

/-- Into a sink that takes everything, a conversion ends exactly as the rules say. -/
theorem run_ends_iff (source : Source) (reason : String) (category : Option ErrorCategory)
    (written : List UInt8) :
    Ends source category written ↔
      (run source ⟨none, reason⟩).error.map ConversionError.category = category ∧
        (run source ⟨none, reason⟩).written = written := by
  constructor
  · intro h
    exact h.run reason
  · -- the rule that applies has to give what the conversion gives
    rintro ⟨rfl, rfl⟩
    obtain ⟨category, written, h⟩ := exists_ends source
    rw [(h.run reason).1, (h.run reason).2]
    exact h

/-- A text without a result, whose entities are no buckets. -/
def textOfTwoDefects : String := "\x7b\"entities\":5\x7d"

/-- Where a result is missing and the entities are no buckets, the entities decide. -/
theorem run_ends_iff_textOfTwoDefects :
    ∃ entries, Value.ofText textOfTwoDefects = .ok (.object entries) ∧
      ¬ HasTruthy entries "result" ∧ HasBadEntities entries ∧
      (run ⟨textOfTwoDefects.toUTF8, none⟩ ⟨none, ""⟩).error.map ConversionError.category =
          some .deserialization ∧
        (run ⟨textOfTwoDefects.toUTF8, none⟩ ⟨none, ""⟩).written = [] := by
  have hread : Value.ofText textOfTwoDefects = .ok (.object [("entities", .natural 5)]) := by
    decide +kernel
  have hholds : Source.Holds ⟨textOfTwoDefects.toUTF8, none⟩ textOfTwoDefects :=
    ⟨rfl, by decide +kernel⟩
  have hbad : HasBadEntities [("entities", .natural 5)] := ⟨_, _, rfl, rfl, rfl⟩
  refine ⟨_, hread, ?_, hbad, (run_ends_iff _ _ _ _).mp (.badEntities hholds hread hbad)⟩
  rintro ⟨v, hv, -⟩
  cases hv

end RuleGraph
