import RuleGraph.Document.Json
import RuleGraph.Proofs.DistinctNames

/-!
# Reading a document from an object

An object with distinct member names is a document exactly if what it holds under `entities` is
falsy or can be read as buckets, whatever its other members are (`Document.ofValue_object`). A
`null` result counts as none.
-/

namespace RuleGraph

open Json

namespace Document

/-- The result under the members of an object, if it is not `null`. -/
def resultIn (entries : List (String × Value)) : Option Value :=
  (OrderedMap.find? "result" entries).filter (!·.isNull)

/-- The entities under the members of an object. -/
def entitiesIn (entries : List (String × Value)) : Except Mismatch (Option Buckets) :=
  match OrderedMap.find? "entities" entries with
  | none => .ok none
  | some v => readEntities v

theorem entitiesIn_of_isTruthy {entries : List (String × Value)} {v : Value}
    (hv : OrderedMap.find? "entities" entries = some v) (h : v.isTruthy) :
    entitiesIn entries = (readBuckets v).map some := by
  rw [entitiesIn, hv]
  exact if_pos h

section Fill

variable {entries : List (String × Value)} {draft : Draft} {v : Value}

theorem fillMembers_result (h : draft.result = none) :
    Record.fillMembers members (·.ofValue) (("result", v) :: entries) draft =
      Record.fillMembers members (·.ofValue) entries
        { draft with result := some ((some v).filter (!·.isNull)) } := by
  have hread : (Format.optional Format.value).ofValue v =
      .ok ((some v).filter (!·.isNull)) := by
    cases v <;> rfl
  have hfind : members.find? (·.name = "result") = members.head? := rfl
  rw [Record.fillMembers, hfind]
  simp only [members, List.head?_cons, Member.defaulted, Member.required, h, Option.isSome_none,
    Bool.false_eq_true, if_false, Format.map, hread]
  rfl

theorem fillMembers_entities (h : draft.entities = none) :
    Record.fillMembers members (·.ofValue) (("entities", v) :: entries) draft =
      (readEntities v).bind fun bs =>
        Record.fillMembers members (·.ofValue) entries { draft with entities := some bs } := by
  have hfind : members.find? (·.name = "entities") = members[1]? := rfl
  rw [Record.fillMembers, hfind]
  simp only [members, List.getElem?_cons_succ, List.getElem?_cons_zero, Member.defaulted,
    Member.required, h, Option.isSome_none, Bool.false_eq_true, if_false, Format.map, Format.whole]
  cases readEntities v <;> rfl

theorem fillMembers_other {name : String} (hr : name ≠ "result") (he : name ≠ "entities") :
    Record.fillMembers members (·.ofValue) ((name, v) :: entries) draft =
      Record.fillMembers members (·.ofValue) entries draft := by
  have hfind : members.find? (·.name = name) = none := by
    simp [members, Member.defaulted, Member.required, hr.symm, he.symm]
  rw [Record.fillMembers, hfind]

/-- The draft behind the members of an object, if none of them repeats what it has already. -/
theorem fillMembers_eq (hd : OrderedMap.Distinct entries)
    (hr : draft.result.isSome → "result" ∉ OrderedMap.keys entries)
    (he : draft.entities.isSome → "entities" ∉ OrderedMap.keys entries) :
    Record.fillMembers members (·.ofValue) entries draft =
      ((OrderedMap.find? "entities" entries).elim (.ok draft.entities) fun v =>
        (readEntities v).map some).map fun entities =>
          ⟨((OrderedMap.find? "result" entries).map fun v => (some v).filter (!·.isNull)).or
            draft.result, entities⟩ := by
  -- what is filled already does not come again, so no member is refused as a repetition
  induction entries generalizing draft with
  | nil => rfl
  | cons entry entries ih =>
    obtain ⟨name, v⟩ := entry
    obtain ⟨hname, hrest⟩ := List.nodup_cons.mp hd
    simp only [OrderedMap.keys, List.map_cons, List.mem_cons, not_or] at hr he
    by_cases hresult : name = "result"
    · subst hresult
      have hnone : draft.result = none := by
        rw [← Option.not_isSome_iff_eq_none]
        exact fun h => (hr h).1 rfl
      have hfind := OrderedMap.find?_eq_none_iff.mpr hname
      rw [fillMembers_result hnone, ih hrest]
      · simp [OrderedMap.find?_cons, hfind]
      · exact fun _ => hname
      · exact fun h => (he h).2
    · by_cases hentities : name = "entities"
      · subst hentities
        have hnone : draft.entities = none := by
          rw [← Option.not_isSome_iff_eq_none]
          exact fun h => (he h).1 rfl
        have hfind := OrderedMap.find?_eq_none_iff.mpr hname
        rw [fillMembers_entities hnone]
        cases hread : readEntities v with
        | error m => simp [OrderedMap.find?_cons, hread, Except.bind, Except.map]
        | ok bs =>
          rw [Except.bind, ih hrest]
          · simp [OrderedMap.find?_cons, hfind, hread, Except.map]
          · exact fun h => (hr h).2
          · exact fun _ => hname
      · rw [fillMembers_other hresult hentities, ih hrest (fun h => (hr h).2) (fun h => (he h).2)]
        simp [OrderedMap.find?_cons, hresult, hentities]

end Fill

/-- A document is read from an object as its result and its entities. -/
theorem ofValue_object {entries : List (String × Value)} (h : OrderedMap.Distinct entries) :
    format.ofValue (.object entries) =
      (entitiesIn entries).map fun entities => ⟨resultIn entries, entities⟩ := by
  show (Record.fillMembers members (·.ofValue) entries ⟨none, none⟩).bind record.finish = _
  rw [fillMembers_eq h (by simp) (by simp), entitiesIn, resultIn]
  cases OrderedMap.find? "entities" entries with
  | none => cases OrderedMap.find? "result" entries <;> rfl
  | some v =>
    cases hread : readEntities v with
    | error m => simp [Except.bind, Except.map, hread]
    | ok bs => cases OrderedMap.find? "result" entries <;>
        simp [Except.bind, Except.map, record, hread]

end Document

end RuleGraph
