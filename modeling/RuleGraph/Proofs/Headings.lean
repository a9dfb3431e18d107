import RuleGraph.Proofs.NodeIds

/-!
# Labels tell the bucket and the id

A title may be any text, but it begins on a line of its own. No line break occurs in the heading of
a label, so the heading is the label's first line (`Entity.firstLine_label`). The name of a kind
holds no blank, so the first blank of a heading ends the name even where one name begins with
another, and what follows it is the id (`Entity.heading_inj`). Hence entities with the same label
have the same id and stand in buckets of one kind (`Entity.label_tells_heading`).
-/

namespace RuleGraph

/-! ## Lines -/

/-- The text before the first line break. -/
def firstLine (text : String) : String := String.ofList (text.toList.takeWhile (· ≠ '\n'))

/-- Behind a text without line breaks, nothing but a new line ends the first line. -/
theorem firstLine_append {text rest : String} (htext : '\n' ∉ text.toList)
    (hrest : rest = "" ∨ ∃ lines, rest = "\n" ++ lines) : firstLine (text ++ rest) = text := by
  have hstop : rest.toList.takeWhile (· ≠ '\n') = [] := by
    rcases hrest with rfl | ⟨lines, rfl⟩
    · rfl
    · rw [String.toList_append]
      rfl
  have htext' : ∀ c ∈ text.toList, decide (c ≠ '\n') = true := by
    intro c hc
    refine decide_eq_true fun heq => htext ?_
    rwa [heq] at hc
  rw [firstLine, String.toList_append, List.takeWhile_append_of_pos htext', hstop, List.append_nil,
    String.ofList_toList]

/-! ## Headings -/

/-- The name of a kind is one word. -/
theorem Kind.notMem_name (k : Kind) : ' ' ∉ k.name.toList ∧ '\n' ∉ k.name.toList := by
  cases k <;> decide

namespace Entity

variable {bucket bucket' : Kind} {id id' : EntityId} {e e' : Entity}

theorem toList_heading (bucket : Kind) (id : EntityId) :
    (heading bucket id).toList = bucket.name.toList ++ ' ' :: (NodeId.idText id).toList := by
  simp [heading, String.toList_append]

theorem notMem_heading (bucket : Kind) (id : EntityId) : '\n' ∉ (heading bucket id).toList := by
  rw [toList_heading, List.mem_append, List.mem_cons]
  rintro (hname | hblank | hid)
  · exact bucket.notMem_name.2 hname
  · exact absurd hblank (by decide)
  · exact absurd (NodeId.isDigit_of_mem_idText hid) (by decide)

/-- A heading tells the bucket and the id. -/
theorem heading_inj : heading bucket id = heading bucket' id' ↔ bucket = bucket' ∧ id = id' := by
  constructor
  · intro h
    have hlist := congrArg String.toList h
    rw [toList_heading, toList_heading] at hlist
    -- some names begin with others, but the blank stands behind the whole name
    obtain ⟨hname, hid⟩ :=
      append_cons_inj bucket.notMem_name.1 bucket'.notMem_name.1 hlist
    exact ⟨Kind.name_injective (String.toList_inj.mp hname),
      NodeId.idText_injective (String.toList_inj.mp hid)⟩
  · rintro ⟨rfl, rfl⟩
    rfl

/-! ## Labels -/

/-- What a label says below its heading: a title if there is one, and a mark for stubs. -/
def details (e : Entity) : String :=
  (e.title?.map ("\n" ++ ·)).getD "" ++ if e.isStub then "\n" ++ stubMark else ""

theorem label_eq_heading_append (bucket : Kind) (e : Entity) :
    e.label bucket = heading bucket e.id ++ e.details := String.append_assoc ..

/-- Details begin on a new line. -/
theorem details_cases (e : Entity) : e.details = "" ∨ ∃ lines, e.details = "\n" ++ lines := by
  unfold details
  cases e.title? with
  | some title => exact .inr ⟨_, String.append_assoc ..⟩
  | none =>
    cases e.isStub with
    | true => exact .inr ⟨stubMark, rfl⟩
    | false => exact .inl rfl

/-- The first line of a label is its heading. -/
theorem firstLine_label (bucket : Kind) (e : Entity) :
    firstLine (e.label bucket) = heading bucket e.id := by
  rw [label_eq_heading_append]
  exact firstLine_append (notMem_heading bucket e.id) e.details_cases

/-- The first line of a label is the name of the bucket, a blank and the id, and it tells both. So
entities with the same label have the same id and are found in the same bucket. -/
theorem label_tells_heading :
    (∀ (bucket : Kind) (e : Entity),
      firstLine (e.label bucket) = bucket.name ++ " " ++ toString e.id.toNat) ∧
    ∀ (bucket bucket' : Kind) (e e' : Entity),
      (firstLine (e.label bucket) = firstLine (e'.label bucket') ↔
        bucket = bucket' ∧ e.id = e'.id) ∧
      (e.label bucket = e'.label bucket' → bucket = bucket' ∧ e.id = e'.id) := by
  refine ⟨firstLine_label, fun bucket bucket' e e' => ?_⟩
  have hiff : firstLine (e.label bucket) = firstLine (e'.label bucket') ↔
      bucket = bucket' ∧ e.id = e'.id := by
    rw [firstLine_label, firstLine_label, heading_inj]
  exact ⟨hiff, fun h => hiff.mp (congrArg firstLine h)⟩

/-- A stub without a title and a variable that is named like the mark of stubs. -/
theorem label_tells_heading_stubMark :
    ∃ (bucket bucket' : Kind) (e e' : Entity), e ≠ e' ∧
      e.label bucket = "Parameter 10\n(not parsed yet)" ∧ e.label bucket = e'.label bucket' ∧
        bucket = bucket' ∧ e.id = e'.id := by
  refine ⟨.parameter, .parameter, ⟨.parameterAtInstant, 10, true, []⟩,
    ⟨.ruleVariable, 10, false, [("name", .string "(not parsed yet)")]⟩,
    by decide, by decide, by decide, ?_⟩
  exact (label_tells_heading.2 _ _ _ _).2 (by decide)

end Entity

end RuleGraph
