import RuleGraph.Proofs.Depiction

/-!
# Why a document has no graph

A document is refused because it is not normalized, whatever its references are; or else because
of the first misused field in the order of the walk (`FirstMisuse`), and then the error names the
entity by its own kind and id, and the field.
-/

namespace RuleGraph

namespace Document

/-- A field is misused, and none before it in the order of the walk. -/
def FirstMisuse (d : Document) (e : Entity) (f : ReferenceField) : Prop :=
  ∃ before after, d.referenceFields = before ++ (e, f) :: after ∧
    (∀ q ∈ before, ¬ q.1.Misuses q.2) ∧ e.Misuses f

theorem failure?_eq_some_iff {d : Document} {err : BuildError} :
    d.failure? = some err ↔
      ∃ e f, d.FirstMisuse e f ∧ err = .malformedReference e.kind e.id f.name := by
  simp only [failure?, List.findSome?_eq_some_iff, Walk.ofField_failure_eq_some_iff,
    Walk.ofField_failure_eq_none_iff, FirstMisuse]
  constructor
  · rintro ⟨before, ⟨e, f⟩, after, hsplit, ⟨hmisuse, rfl⟩, hbefore⟩
    exact ⟨e, f, ⟨before, after, hsplit, hbefore, hmisuse⟩, rfl⟩
  · rintro ⟨e, f, ⟨before, after, hsplit, hbefore, hmisuse⟩, rfl⟩
    exact ⟨before, (e, f), after, hsplit, ⟨hmisuse, rfl⟩, hbefore⟩

/-- Some field is misused exactly if there is a first one. -/
theorem hasMisuse_iff {d : Document} : d.HasMisuse ↔ ∃ e f, d.FirstMisuse e f := by
  rw [← not_iff_not, ← failure?_eq_none_iff, Option.eq_none_iff_forall_ne_some]
  simp only [ne_eq, failure?_eq_some_iff, not_exists, not_and]
  constructor
  · intro h e f hfirst
    exact h _ e f hfirst rfl
  · intro h _ e f hfirst
    exact absurd hfirst (h e f)

theorem graph_eq_error_iff {d : Document} {err : BuildError} :
    d.graph = .error err ↔
      ¬ d.IsNormalized ∧ err = .notNormalized ∨ d.IsNormalized ∧ d.failure? = some err := by
  by_cases hn : d.IsNormalized
  · cases hf : d.failure? with
    | none => simp [graph_of_no_failure hn hf, hn]
    | some e => simp [graph_of_failure hn hf, hn]
  · simp [graph_of_not_isNormalized hn, hn, eq_comm]

/-- What a document is refused for, and when it is refused at all. -/
theorem graph_refused_iff (d : Document) :
    (∀ err, d.graph = .error err ↔
      ¬ d.IsNormalized ∧ err = .notNormalized ∨
        d.IsNormalized ∧
          ∃ e f, d.FirstMisuse e f ∧ err = .malformedReference e.kind e.id f.name) ∧
      ((∃ err, d.graph = .error err) ↔ ¬ d.IsNormalized ∨ d.HasMisuse) := by
  constructor
  · intro err
    rw [graph_eq_error_iff, failure?_eq_some_iff]
  · simp only [graph_eq_error_iff, hasMisuse_iff, failure?_eq_some_iff]
    constructor
    · rintro ⟨err, ⟨hn, -⟩ | ⟨-, e, f, hfirst, -⟩⟩
      · exact .inl hn
      · exact .inr ⟨e, f, hfirst⟩
    · rintro (hn | ⟨e, f, hfirst⟩)
      · exact ⟨_, .inl ⟨hn, rfl⟩⟩
      · by_cases hn : d.IsNormalized
        · exact ⟨_, .inr ⟨hn, e, f, hfirst, rfl⟩⟩
        · exact ⟨_, .inl ⟨hn, rfl⟩⟩

/-- A number that is filed among the variables and misuses two fields, then an operator that misuses
one. -/
def manyMisuses : Document where
  result := some (.natural 1)
  entities := some
    [ (.ruleVariable,
        [ ("a", ⟨.number, 4, false,
            [("output_period", .string "month"), ("formula", .array [.natural 5])]⟩) ]),
      (.arithmeticOperator,
        [ ("b", ⟨.arithmeticOperator, 5, false, [("operands", .bool true)]⟩) ]) ]

/-- The first field in the order of the bucket's references decides, wherever it stands in the
entity; but a result that is falsy decides before all fields. -/
theorem graph_refused_iff_manyMisuses :
    manyMisuses.graph = .error (.malformedReference .number 4 "formula") ∧
      Document.graph { manyMisuses with result := some (.bool false) } = .error .notNormalized := by
  constructor
  · have hfailure : manyMisuses.failure? = some (.malformedReference .number 4 "formula") := by
      decide
    exact ((graph_refused_iff manyMisuses).1 _).mpr
      (.inr ⟨⟨⟨_, rfl, rfl⟩, rfl⟩, failure?_eq_some_iff.mp hfailure⟩)
  · refine ((graph_refused_iff _).1 _).mpr (.inl ⟨?_, rfl⟩)
    rintro ⟨⟨v, hv, htruthy⟩, -⟩
    cases hv
    cases htruthy

end Document

end RuleGraph
