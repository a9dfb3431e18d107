import Mathlib.Logic.Relation
import RuleGraph.Proofs.Depiction
import RuleGraph.Proofs.DistinctNames
import RuleGraph.Proofs.Vacancy

/-!
# Edits are local

An entity adds to a graph one run of nodes and one run of edges, whatever other entities there are
(`Graph.GainsRun`). So a document that gains an entity gains its runs or is refused because of that
entity, one that loses an entity loses them, and one whose buckets or entities change places has the
same runs in another order (`Document.graph_local`).
-/

namespace RuleGraph

/-! ## Documents that gain an entity or change their order -/

namespace Document

/-- A document gains an entity: at some place of a bucket, or in a bucket of its own. -/
inductive Gains (bucket : Kind) (e : Entity) : Document → Document → Prop
  | inBucket {result : Option Json.Value} {before after : Buckets} {first last : Bucket}
      {key : String} :
      Gains bucket e ⟨result, some (before ++ (bucket, first ++ last) :: after)⟩
        ⟨result, some (before ++ (bucket, first ++ (key, e) :: last) :: after)⟩
  | newBucket {result : Option Json.Value} {before after : Buckets} {key : String} :
      Gains bucket e ⟨result, some (before ++ after)⟩
        ⟨result, some (before ++ (bucket, [(key, e)]) :: after)⟩

/-- The buckets of a document, or the entities of one bucket, are put in another order. -/
inductive Reorders : Document → Document → Prop
  | buckets {result : Option Json.Value} {bs bs' : Buckets} (h : bs.Perm bs') :
      Reorders ⟨result, some bs⟩ ⟨result, some bs'⟩
  | entities {result : Option Json.Value} {before after : Buckets} {bucket : Kind} {b b' : Bucket}
      (h : b.Perm b') :
      Reorders ⟨result, some (before ++ (bucket, b) :: after)⟩
        ⟨result, some (before ++ (bucket, b') :: after)⟩

variable {bucket : Kind} {key : String} {e : Entity} {d d' : Document}

/-- A document gains back an entity that is removed from it. -/
theorem gains_remove (h : d.find? bucket key = some e) :
    Gains bucket e (d.remove bucket key) d := by
  obtain ⟨v, hbucket, hfill, -, hemptied⟩ := exists_vacancy_of_find? h
  rw [← hemptied, ← hfill, ← hbucket]
  exact .inBucket

/-- A document gains an entity that is put under a new key. -/
theorem gains_put (hd : d.entities.isSome) (h : d.find? bucket key = none) :
    Gains bucket e d (d.put bucket key e) := by
  obtain ⟨result, entities⟩ := d
  obtain ⟨bs, rfl⟩ := Option.isSome_iff_exists.mp hd
  simp only [find?, buckets, Option.getD_some] at h
  cases hb : OrderedMap.find? bucket bs with
  | none =>
    have hnew : bucket ∉ OrderedMap.keys bs := OrderedMap.find?_eq_none_iff.mp hb
    simp only [put, buckets, Option.getD_some, hb, Option.getD_none, OrderedMap.put_of_not_mem hnew]
    have hgains : Gains bucket e ⟨result, some (bs ++ [])⟩
        ⟨result, some (bs ++ [(bucket, [(key, e)])])⟩ := .newBucket
    rwa [List.append_nil] at hgains
  | some b =>
    rw [hb, Option.bind_some] at h
    obtain ⟨before, after, hbs, hput, -⟩ := OrderedMap.exists_cut hb
    have hnew : key ∉ OrderedMap.keys b := OrderedMap.find?_eq_none_iff.mp h
    simp only [put, buckets, Option.getD_some, hb, hput, OrderedMap.put_of_not_mem hnew]
    have hgains : Gains bucket e ⟨result, some (before ++ (bucket, b ++ []) :: after)⟩
        ⟨result, some (before ++ (bucket, b ++ [(key, e)]) :: after)⟩ := .inBucket
    rw [List.append_nil] at hgains
    rwa [hbs]

/-- Every entity of a document can be taken away. -/
theorem exists_gains {p : Kind × Entity} (h : p ∈ d.placed) : ∃ d', Gains p.1 p.2 d' d := by
  obtain ⟨earlier, later, hplaced⟩ := List.append_of_mem h
  obtain ⟨v, hbucket, -, -, hfill⟩ := exists_vacancy hplaced
  rw [← hbucket, ← hfill]
  exact ⟨v.emptied, .inBucket⟩

theorem Gains.isNormalized_iff (h : Gains bucket e d d') : d.IsNormalized ↔ d'.IsNormalized := by
  cases h <;> exact ⟨fun hn => hn.of_result_eq rfl rfl, fun hn => hn.of_result_eq rfl rfl⟩

/-- The entity stands in the order of the walk between those before it and those behind it. -/
theorem Gains.exists_placed (h : Gains bucket e d d') :
    ∃ earlier later, d.placed = earlier ++ later ∧ d'.placed = earlier ++ (bucket, e) :: later := by
  cases h with
  | @inBucket result before after first last key =>
    let v : Vacancy := ⟨result, before, bucket, first, key, last, after⟩
    exact ⟨v.earlier, v.later, v.placed_emptied, v.placed_fill e⟩
  | @newBucket _ before after key =>
    refine ⟨before.flatMap fun b => b.2.map fun x => (b.1, x.2),
      after.flatMap fun b => b.2.map fun x => (b.1, x.2), ?_, ?_⟩ <;> simp [placed, buckets]

theorem Reorders.isNormalized (h : Reorders d d') (hn : d.IsNormalized) : d'.IsNormalized := by
  cases h <;> exact hn.of_result_eq rfl rfl

theorem Reorders.placed_perm (h : Reorders d d') : d.placed.Perm d'.placed := by
  cases h with
  | buckets h => exact h.flatMap_right _
  | entities h =>
    simp only [placed, Document.buckets, Option.getD_some, List.flatMap_append, List.flatMap_cons]
    exact ((h.map _).append_right _).append_left _

end Document

/-! ## Runs of nodes and edges -/

/-- The second graph has, besides the nodes and edges of the first, those of one more entity: in one
run each, between the runs of earlier entities and those of later ones. -/
structure Graph.GainsRun (earlier : List (Kind × Entity)) (p : Kind × Entity)
    (later : List (Kind × Entity)) (g g' : Graph) : Prop where
  isDirected : g'.isDirected = g.isDirected
  nodes : g.nodes = earlier.flatMap Depiction.nodes ++ later.flatMap Depiction.nodes
  edges : g.edges = earlier.flatMap Depiction.edges ++ later.flatMap Depiction.edges
  moreNodes : g'.nodes =
    earlier.flatMap Depiction.nodes ++ Depiction.nodes p ++ later.flatMap Depiction.nodes
  moreEdges : g'.edges =
    earlier.flatMap Depiction.edges ++ Depiction.edges p ++ later.flatMap Depiction.edges

namespace Document

variable {bucket : Kind} {e : Entity} {d d' : Document} {earlier later : List (Kind × Entity)}

theorem gainsRun_depiction {p : Kind × Entity} (h : d.placed = earlier ++ later)
    (h' : d'.placed = earlier ++ p :: later) :
    Graph.GainsRun earlier p later d.depiction d'.depiction where
  isDirected := rfl
  nodes := by simp only [depiction, h, List.flatMap_append]
  edges := by simp only [depiction, h, List.flatMap_append]
  moreNodes := by
    simp only [depiction, h', List.flatMap_append, List.flatMap_cons, List.append_assoc]
  moreEdges := by
    simp only [depiction, h', List.flatMap_append, List.flatMap_cons, List.append_assoc]

/-- Misused fields are those of the entity that is gained and those there were. -/
theorem not_hasMisuse_gained {p : Kind × Entity} (h : d.placed = earlier ++ later)
    (h' : d'.placed = earlier ++ p :: later) :
    ¬ d'.HasMisuse ↔ ¬ d.HasMisuse ∧ ∀ f ∈ p.1.references, ¬ p.2.Misuses f := by
  simp only [not_hasMisuse_iff, h, h', List.forall_mem_append, List.forall_mem_cons]
  constructor
  · rintro ⟨hearlier, hp, hlater⟩
    exact ⟨⟨hearlier, hlater⟩, hp⟩
  · rintro ⟨⟨hearlier, hlater⟩, hp⟩
    exact ⟨hearlier, hp, hlater⟩

/-- Where only the gained entity misuses a field, the walk fails at that entity. -/
theorem failure?_gained (h : d.placed = earlier ++ later)
    (h' : d'.placed = earlier ++ (bucket, e) :: later) (hd : ¬ d.HasMisuse)
    (hd' : d'.HasMisuse) :
    ∃ f ∈ bucket.references, e.Misuses f ∧
      d'.failure? = some (.malformedReference e.kind e.id f.name) := by
  have hold : ∀ p ∈ earlier ++ later, (Walk.ofEntity p.1 p.2).failure = none := by
    rw [← List.findSome?_eq_none_iff, ← h, ← failure?_eq, failure?_eq_none_iff]
    exact hd
  rw [List.forall_mem_append] at hold
  have hfailure : d'.failure? = (Walk.ofEntity bucket e).failure := by
    rw [failure?_eq, h', List.findSome?_append, List.findSome?_cons,
      List.findSome?_eq_none_iff.mpr hold.1, List.findSome?_eq_none_iff.mpr hold.2]
    cases (Walk.ofEntity bucket e).failure <;> rfl
  cases herr : d'.failure? with
  | none => exact absurd hd' (failure?_eq_none_iff.mp herr)
  | some err =>
    rw [hfailure, Walk.ofEntity_failure] at herr
    obtain ⟨f, hf, hfield⟩ := List.exists_of_findSome?_eq_some herr
    obtain ⟨hmisuse, rfl⟩ := Walk.ofField_failure_eq_some_iff.mp hfield
    exact ⟨f, hf, hmisuse, rfl⟩

/-! ## Edits and graphs -/

/-- A document that loses an entity keeps its graph but for the runs of that entity. -/
theorem Gains.graph_before (h : Gains bucket e d d') (hplaced : d.placed = earlier ++ later)
    (hplaced' : d'.placed = earlier ++ (bucket, e) :: later) {g' : GraphDocument}
    (hg' : d'.graph = .ok g') :
    ∃ g, d.graph = .ok g ∧ g.graph.GainsRun earlier (bucket, e) later g'.graph := by
  obtain ⟨hn, hm, rfl⟩ := graph_eq_ok_iff.mp hg'
  obtain ⟨hm, -⟩ := (not_hasMisuse_gained hplaced hplaced').mp hm
  exact ⟨_, graph_eq_ok_iff.mpr ⟨h.isNormalized_iff.mpr hn, hm, rfl⟩,
    gainsRun_depiction hplaced hplaced'⟩

/-- A document that gains an entity gains its runs, or it is refused because of that entity. -/
theorem Gains.graph_after (h : Gains bucket e d d') (hplaced : d.placed = earlier ++ later)
    (hplaced' : d'.placed = earlier ++ (bucket, e) :: later) {g : GraphDocument}
    (hg : d.graph = .ok g) :
    (∃ g', d'.graph = .ok g' ∧ g.graph.GainsRun earlier (bucket, e) later g'.graph) ∨
      ∃ f ∈ bucket.references, e.Misuses f ∧
        d'.graph = .error (.malformedReference e.kind e.id f.name) := by
  obtain ⟨hn, hm, rfl⟩ := graph_eq_ok_iff.mp hg
  have hn' := h.isNormalized_iff.mp hn
  by_cases hm' : d'.HasMisuse
  · obtain ⟨f, hf, hmisuse, hfailure⟩ := failure?_gained hplaced hplaced' hm hm'
    exact .inr ⟨f, hf, hmisuse, graph_of_failure hn' hfailure⟩
  · exact .inl ⟨_, graph_eq_ok_iff.mpr ⟨hn', hm', rfl⟩, gainsRun_depiction hplaced hplaced'⟩

/-- A document in another order has the same runs in another order. -/
theorem graph_of_reorders (h : Relation.ReflTransGen Reorders d d') {g : GraphDocument}
    (hg : d.graph = .ok g) :
    d.placed.Perm d'.placed ∧ g.graph = d.depiction ∧ d'.graph = .ok ⟨d'.depiction⟩ := by
  obtain ⟨hn, hm, rfl⟩ := graph_eq_ok_iff.mp hg
  have hboth : d'.IsNormalized ∧ d.placed.Perm d'.placed := by
    induction h with
    | refl => exact ⟨hn, .refl _⟩
    | tail _ hstep ih => exact ⟨hstep.isNormalized ih.1, ih.2.trans hstep.placed_perm⟩
  have hm' : ¬ d'.HasMisuse := by
    rw [not_hasMisuse_iff] at hm ⊢
    exact fun p hp => hm p (hboth.2.mem_iff.mpr hp)
  exact ⟨hboth.2, rfl, graph_eq_ok_iff.mpr ⟨hboth.1, hm', rfl⟩⟩

/-- An entity that is gained or lost adds or takes away one run of nodes and one of edges, at its
place, and nothing else; it is refused only for its own fields. This is so for every entity of a
document and for the entities that are removed from it or put into it under a key. In another order
of buckets or entities the runs are the same. -/
theorem graph_local :
    (∀ bucket e d d', Gains bucket e d d' →
      ∃ earlier later,
        d.placed = earlier ++ later ∧ d'.placed = earlier ++ (bucket, e) :: later ∧
          (∀ g', d'.graph = .ok g' →
            ∃ g, d.graph = .ok g ∧ g.graph.GainsRun earlier (bucket, e) later g'.graph) ∧
          ∀ g, d.graph = .ok g →
            (∃ g', d'.graph = .ok g' ∧ g.graph.GainsRun earlier (bucket, e) later g'.graph) ∨
              ∃ f ∈ bucket.references, e.Misuses f ∧
                d'.graph = .error (.malformedReference e.kind e.id f.name)) ∧
    (∀ d : Document, (∀ p ∈ d.placed, ∃ d', Gains p.1 p.2 d' d) ∧
      ∀ bucket key e,
        (d.find? bucket key = some e → Gains bucket e (d.remove bucket key) d) ∧
          (d.entities.isSome → d.find? bucket key = none → Gains bucket e d (d.put bucket key e))) ∧
    ∀ d d', Relation.ReflTransGen Reorders d d' → ∀ g, d.graph = .ok g →
      ∃ g', d'.graph = .ok g' ∧ d.placed.Perm d'.placed ∧
        g.graph = d.depiction ∧ g'.graph = d'.depiction ∧
          g.graph.nodes.Perm g'.graph.nodes ∧ g.graph.edges.Perm g'.graph.edges := by
  refine ⟨fun bucket e d d' h => ?_, fun d => ⟨fun p hp => exists_gains hp, fun bucket key e => ?_⟩,
    fun d d' h g hg => ?_⟩
  · obtain ⟨earlier, later, hplaced, hplaced'⟩ := h.exists_placed
    exact ⟨earlier, later, hplaced, hplaced', fun g' hg' => h.graph_before hplaced hplaced' hg',
      fun g hg => h.graph_after hplaced hplaced' hg⟩
  · exact ⟨gains_remove, gains_put⟩
  · obtain ⟨hperm, hdepiction, hg'⟩ := graph_of_reorders h hg
    refine ⟨_, hg', hperm, hdepiction, rfl, ?_, ?_⟩
    · rw [hdepiction]
      exact hperm.flatMap_right _
    · rw [hdepiction]
      exact hperm.flatMap_right _

/-- The sample rule without its keyed operator, with a variable whose formula is no reference, and
with its buckets in another order. -/
theorem graph_local_sampleRule :
    (∃ e earlier later g g', sampleRule.find? .arithmeticOperator "b" = some e ∧
      (sampleRule.remove .arithmeticOperator "b").graph = .ok g ∧ sampleRule.graph = .ok g' ∧
      g.graph.GainsRun earlier (.arithmeticOperator, e) later g'.graph ∧
      (Depiction.nodes (.arithmeticOperator, e)).map (·.id.text) = ["2", "3.base", "3.1.5"]) ∧
    (∃ f ∈ Kind.references .ruleVariable,
      (sampleRule.put .ruleVariable "z" ⟨.period, 7, false, [("formula", .string "2")]⟩).graph =
        .error (.malformedReference .period 7 f.name)) ∧
    ∃ d g g', Relation.ReflTransGen Reorders sampleRule d ∧ sampleRule.graph = .ok g ∧
      d.graph = .ok g' ∧ g.graph.nodes.Perm g'.graph.nodes ∧ g.graph.nodes ≠ g'.graph.nodes := by
  obtain ⟨hgains, hedits, hreorders⟩ := graph_local
  obtain ⟨g', hg'⟩ : ∃ g, sampleRule.graph = .ok g := ⟨_, rfl⟩
  refine ⟨?_, ?_, ?_⟩
  · have hremove := ((hedits sampleRule).2 .arithmeticOperator "b" _).1 rfl
    obtain ⟨earlier, later, -, -, hbefore, -⟩ := hgains _ _ _ _ hremove
    obtain ⟨g, hg, hrun⟩ := hbefore g' hg'
    exact ⟨_, earlier, later, g, g', rfl, hg, hg', hrun, by decide⟩
  · have hput := ((hedits sampleRule).2 .ruleVariable "z"
      ⟨.period, 7, false, [("formula", .string "2")]⟩).2 rfl rfl
    obtain ⟨earlier, later, -, -, -, hafter⟩ := hgains _ _ _ _ hput
    rcases hafter g' hg' with ⟨g, hg, -⟩ | ⟨f, hf, -, hrefused⟩
    · have hfails : ∀ g, (sampleRule.put .ruleVariable "z"
          ⟨.period, 7, false, [("formula", .string "2")]⟩).graph ≠ .ok g := by
        intro g h
        cases h
      exact absurd hg (hfails g)
    · exact ⟨f, hf, hrefused⟩
  · have hswap : Reorders sampleRule
        ⟨sampleRule.result, some (sampleRule.buckets.reverse)⟩ :=
      .buckets (List.reverse_perm _).symm
    obtain ⟨g, hg, -, hg₁, hg₂, hnodes, -⟩ := hreorders _ _ (.single hswap) g' hg'
    refine ⟨_, g', g, .single hswap, hg', hg, hnodes, ?_⟩
    rw [hg₁, hg₂]
    decide

end Document

end RuleGraph
