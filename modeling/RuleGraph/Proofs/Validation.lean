import RuleGraph.Json.Schema
import RuleGraph.Proofs.DistinctNames

/-!
# What a schema says

A value meets a schema if it meets every keyword of it. What a reference says is given from outside
(`keywordsAccept`). In a published schema it is what the definition of its name says
(`PublishedSchema.accepts`); where definitions refer to later ones only, there is one way to read
them so, and leaving out those that are not used changes nothing.
-/

namespace RuleGraph.Json

/-! ## Types and bounds -/

/-- Whether a value has a type. A number without a fraction is an integer, however it is written. -/
def SchemaType.admits : SchemaType → Value → Bool
  | null, .null | boolean, .bool _ | integer, .number (.integer _) | string, .string _
  | array, .array _ | object, .object _ => true
  | integer, .number (.float x) => x.units % Binary64.unitsPerOne = 0
  | _, _ => false

/-- Whether a number is at least a natural. -/
def Number.isAtLeast (n : Nat) : Number → Bool
  | .integer i => n ≤ i.val
  | .float x => if x.negative then x.units + n = 0 else n * Binary64.unitsPerOne ≤ x.units

/-! ## Keywords -/

mutual

/-- Whether a value meets a keyword, where `known` says what the names of schemas mean. Constants
are compared as they are, since those in use are strings. -/
def Keyword.accepts (known : String → Value → Bool) : Keyword → Value → Bool
  | .description _, _ | .format _, _ => true
  | .types ts, v => ts.any (·.admits v)
  | .const c, v => c = v
  | .minimum n, .number m => m.isAtLeast n.toNat
  | .reference name, v => known name v
  | .anyOf schemas, v => acceptingCount known schemas v ≠ 0
  | .oneOf schemas, v => acceptingCount known schemas v = 1
  | .items schema, .array items => items.all fun v => keywordsAccept known schema v
  | .properties schemas, .object members => propertiesAccept known schemas members
  | .required names, .object members => names.all (OrderedMap.keys members).contains
  | .minimum _, _ | .items _, _ | .properties _, _ | .required _, _ => true

/-- Whether a value meets all of some keywords. -/
def keywordsAccept (known : String → Value → Bool) : List Keyword → Value → Bool
  | [], _ => true
  | k :: ks, v => k.accepts known v && keywordsAccept known ks v

/-- How many of some schemas a value meets. -/
def acceptingCount (known : String → Value → Bool) : List (List Keyword) → Value → Nat
  | [], _ => 0
  | s :: ss, v => (keywordsAccept known s v).toNat + acceptingCount known ss v

/-- Whether the members of an object meet the schemas of their names. -/
def propertiesAccept (known : String → Value → Bool) :
    List (String × List Keyword) → List (String × Value) → Bool
  | [], _ => true
  | (name, s) :: ss, members =>
    (members.all fun m => m.1 ≠ name || keywordsAccept known s m.2) &&
      propertiesAccept known ss members

end

/-! ## What keywords come to -/

section Accept

variable {known known' : String → Value → Bool} {v : Value} {members : List (String × Value)}

@[simp] theorem keywordsAccept_nil : keywordsAccept known [] v = true := rfl

@[simp] theorem keywordsAccept_cons {k : Keyword} {ks : Schema} :
    keywordsAccept known (k :: ks) v = (k.accepts known v && keywordsAccept known ks v) := rfl

theorem acceptingCount_eq_zero_iff {schemas : List Schema} :
    acceptingCount known schemas v = 0 ↔ ∀ s ∈ schemas, keywordsAccept known s v = false := by
  induction schemas with
  | nil => exact iff_of_true rfl fun _ h => nomatch h
  | cons s ss ih =>
    rw [acceptingCount, Nat.add_eq_zero_iff, ih, List.forall_mem_cons]
    cases keywordsAccept known s v <;> simp

theorem accepts_anyOf {schemas : List Schema} :
    (Keyword.anyOf schemas).accepts known v ↔ ∃ s ∈ schemas, keywordsAccept known s v := by
  show decide (acceptingCount known schemas v ≠ 0) = true ↔ _
  rw [decide_eq_true_iff, Ne, acceptingCount_eq_zero_iff]
  simp

theorem accepts_items {schema : Schema} {items : List Value} :
    (Keyword.items schema).accepts known (.array items) ↔
      ∀ v ∈ items, keywordsAccept known schema v := List.all_eq_true

theorem propertiesAccept_iff {schemas : List (String × Schema)} :
    propertiesAccept known schemas members ↔
      ∀ p ∈ schemas, ∀ m ∈ members, m.1 = p.1 → keywordsAccept known p.2 m.2 := by
  induction schemas with
  | nil => exact iff_of_true rfl fun _ h => nomatch h
  | cons p ps ih =>
    rw [propertiesAccept, Bool.and_eq_true, ih, List.all_eq_true, List.forall_mem_cons]
    simp only [Bool.or_eq_true, decide_eq_true_eq, ne_eq, Decidable.imp_iff_not_or]

theorem accepts_required {names : List String} :
    (Keyword.required names).accepts known (.object members) ↔
      ∀ name ∈ names, name ∈ OrderedMap.keys members := by
  show names.all (OrderedMap.keys members).contains = true ↔ _
  simp

/-! ## Only the names that a schema refers to matter -/

mutual

theorem Keyword.accepts_congr : ∀ (k : Keyword), (∀ name ∈ k.references, known name = known' name) →
    ∀ v, k.accepts known v = k.accepts known' v
  | .description _, _, _ | .format _, _, _ | .types _, _, _ | .const _, _, _ => rfl
  | .minimum _, _, v | .required _, _, v => by cases v <;> rfl
  | .reference name, h, v => congrFun (h name List.mem_cons_self) v
  | .anyOf schemas, h, v => by
    rw [Keyword.accepts, Keyword.accepts, acceptingCount_congr schemas h v]
  | .oneOf schemas, h, v => by
    rw [Keyword.accepts, Keyword.accepts, acceptingCount_congr schemas h v]
  | .items schema, h, v => by
    cases v with
    | array items =>
      exact congrArg items.all (funext fun v => keywordsAccept_congr schema h v)
    | _ => rfl
  | .properties schemas, h, v => by
    cases v with
    | object members => exact propertiesAccept_congr schemas h members
    | _ => rfl

theorem keywordsAccept_congr : ∀ (s : List Keyword),
    (∀ name ∈ schemaReferences s, known name = known' name) →
      ∀ v, keywordsAccept known s v = keywordsAccept known' s v
  | [], _, _ => rfl
  | k :: ks, h, v => by
    rw [schemaReferences, List.forall_mem_append] at h
    rw [keywordsAccept, keywordsAccept, k.accepts_congr h.1 v, keywordsAccept_congr ks h.2 v]

theorem acceptingCount_congr : ∀ (ss : List (List Keyword)),
    (∀ name ∈ alternativeReferences ss, known name = known' name) →
      ∀ v, acceptingCount known ss v = acceptingCount known' ss v
  | [], _, _ => rfl
  | s :: ss, h, v => by
    rw [alternativeReferences, List.forall_mem_append] at h
    rw [acceptingCount, acceptingCount, keywordsAccept_congr s h.1 v, acceptingCount_congr ss h.2 v]

theorem propertiesAccept_congr : ∀ (ss : List (String × List Keyword)),
    (∀ name ∈ propertyReferences ss, known name = known' name) →
      ∀ members, propertiesAccept known ss members = propertiesAccept known' ss members
  | [], _, _ => rfl
  | (_, s) :: ss, h, members => by
    rw [propertyReferences, List.forall_mem_append] at h
    simp only [propertiesAccept, keywordsAccept_congr s h.1, propertiesAccept_congr ss h.2 members]

end

end Accept

/-! ## Names that are defined -/

/-- What names mean by their definitions, each of which knows those behind it; a name that is not
defined means nothing. -/
def meaning : List (String × Schema) → String → Value → Bool
  | [], _, _ => false
  | (n, s) :: rest, name, v =>
    if n = name then keywordsAccept (meaning rest) s v else meaning rest name v

/-- No name is defined twice, and each definition refers to names that are defined behind it. -/
def Ordered : List (String × Schema) → Prop
  | [] => True
  | (n, s) :: rest =>
    (n ∉ OrderedMap.keys rest ∧ ∀ name ∈ schemaReferences s, name ∈ OrderedMap.keys rest) ∧
      Ordered rest

instance decidableOrdered : (defs : List (String × Schema)) → Decidable (Ordered defs)
  | [] => isTrue trivial
  | (_, _) :: rest => @instDecidableAnd _ _ _ (decidableOrdered rest)

/-- In a reading of names, each one means what its definition says. -/
def Reads (known : String → Value → Bool) (defs : List (String × Schema)) : Prop :=
  ∀ name s, OrderedMap.find? name defs = some s → known name = keywordsAccept known s

section Meaning

variable {known : String → Value → Bool} {defs rest : List (String × Schema)} {n name : String}
  {s : Schema}

theorem meaning_cons_self : meaning ((name, s) :: rest) name = keywordsAccept (meaning rest) s :=
  funext fun _ => if_pos rfl

theorem meaning_cons_of_ne (h : n ≠ name) : meaning ((n, s) :: rest) name = meaning rest name :=
  funext fun _ => if_neg h

/-- What a definition refers to is defined as well. -/
theorem Ordered.mem_keys (h : Ordered defs) (hfind : OrderedMap.find? name defs = some s) :
    ∀ r ∈ schemaReferences s, r ∈ OrderedMap.keys defs := by
  induction defs with
  | nil => cases hfind
  | cons d rest ih =>
    obtain ⟨n, s'⟩ := d
    obtain ⟨⟨-, hrefs⟩, hrest⟩ := h
    intro r hr
    rw [OrderedMap.find?_cons] at hfind
    split at hfind
    · cases hfind
      exact List.mem_cons_of_mem _ (hrefs r hr)
    · exact List.mem_cons_of_mem _ (ih hrest hfind r hr)

/-- Each name means what its definition says. -/
theorem Ordered.reads (h : Ordered defs) : Reads (meaning defs) defs := by
  intro name s hfind
  induction defs with
  | nil => cases hfind
  | cons d rest ih =>
    obtain ⟨n, s'⟩ := d
    obtain ⟨⟨hn, hrefs⟩, hrest⟩ := h
    -- the first definition is met by no name that is defined behind it
    have hcongr (hs : ∀ r ∈ schemaReferences s, r ∈ OrderedMap.keys rest) :
        keywordsAccept (meaning ((n, s') :: rest)) s = keywordsAccept (meaning rest) s :=
      funext <| keywordsAccept_congr s fun r hr => meaning_cons_of_ne fun heq => hn (heq ▸ hs r hr)
    rw [OrderedMap.find?_cons] at hfind
    split at hfind
    · rename_i heq
      subst heq
      cases hfind
      rw [meaning_cons_self, hcongr hrefs]
    · rename_i hne
      rw [meaning_cons_of_ne hne, ih hrest hfind, hcongr (hrest.mem_keys hfind)]

/-- There is no other reading of the names that are defined. -/
theorem Ordered.eq_meaning (h : Ordered defs) (hknown : Reads known defs) :
    ∀ name ∈ OrderedMap.keys defs, known name = meaning defs name := by
  induction defs with
  | nil => exact fun _ hname => nomatch hname
  | cons d rest ih =>
    obtain ⟨n, s⟩ := d
    obtain ⟨⟨hn, hrefs⟩, hrest⟩ := h
    have hbehind : Reads known rest := by
      intro name s' hfind
      refine hknown name s' ?_
      have hne : n ≠ name := by
        rintro rfl
        exact hn (List.mem_map_of_mem (OrderedMap.mem_of_find? hfind))
      rw [OrderedMap.find?_cons, if_neg hne, hfind]
    intro name hname
    rcases List.mem_cons.mp hname with rfl | hname
    · rw [meaning_cons_self, hknown _ s (if_pos rfl)]
      exact funext <| keywordsAccept_congr s fun r hr => ih hrest hbehind r (hrefs r hr)
    · have hne : n ≠ name := fun heq => hn (heq ▸ hname)
      rw [meaning_cons_of_ne hne, ih hrest hbehind name hname]

end Meaning

/-! ## Published schemas -/

namespace PublishedSchema

variable {defs : List (String × Schema)} {names : List String} {name : String} {s : Schema}
  {p : PublishedSchema}

/-- Whether a value meets a published schema. -/
def accepts (p : PublishedSchema) (v : Value) : Bool :=
  keywordsAccept (meaning p.definitions) p.schema v

/-- A published schema explains all names that it uses, in the one way in which each name means
what its definition says. -/
structure Explained (p : PublishedSchema) : Prop where
  closed : ∀ name ∈ schemaReferences p.schema, name ∈ OrderedMap.keys p.definitions
  closed_definitions : ∀ name s, OrderedMap.find? name p.definitions = some s →
    ∀ r ∈ schemaReferences s, r ∈ OrderedMap.keys p.definitions
  reads : Reads (meaning p.definitions) p.definitions
  unique : ∀ known, Reads known p.definitions →
    ∀ name ∈ OrderedMap.keys p.definitions, known name = meaning p.definitions name

theorem used_sublist : (used names defs).Sublist defs := by
  induction defs generalizing names with
  | nil => exact .slnil
  | cons d rest ih =>
    rw [used]
    split
    · exact ih.cons_cons _
    · exact ih.cons _

theorem mem_keys_used (h : name ∈ names) (hdef : name ∈ OrderedMap.keys defs) :
    name ∈ OrderedMap.keys (used names defs) := by
  induction defs generalizing names with
  | nil => cases hdef
  | cons d rest ih =>
    rw [used]
    split
    · rcases List.mem_cons.mp hdef with rfl | hdef
      · exact List.mem_cons_self
      · exact List.mem_cons_of_mem _ (ih (List.mem_append_left _ h) hdef)
    · rename_i hunused
      rcases List.mem_cons.mp hdef with rfl | hdef
      · exact absurd (List.contains_iff_mem.mpr h) hunused
      · exact ih h hdef

theorem ordered_used (h : Ordered defs) : Ordered (used names defs) := by
  induction defs generalizing names with
  | nil => trivial
  | cons d rest ih =>
    obtain ⟨⟨hd, hrefs⟩, hrest⟩ := h
    rw [used]
    split
    · refine ⟨⟨fun hmem => hd (used_sublist.map _ |>.subset hmem), fun r hr => ?_⟩, ih hrest⟩
      exact mem_keys_used (List.mem_append_right _ hr) (hrefs r hr)
    · exact ih hrest

/-- Definitions that are left out are not missed. -/
theorem meaning_used (h : name ∈ names) : meaning (used names defs) name = meaning defs name := by
  induction defs generalizing names name with
  | nil => rfl
  | cons d rest ih =>
    obtain ⟨n, s⟩ := d
    rw [used]
    split
    · by_cases hn : n = name
      · subst hn
        rw [meaning_cons_self, meaning_cons_self]
        exact funext <| keywordsAccept_congr s fun r hr => ih (List.mem_append_right _ hr)
      · rw [meaning_cons_of_ne hn, meaning_cons_of_ne hn, ih (List.mem_append_left _ h)]
    · rename_i hunused
      have hn : n ≠ name := by
        rintro rfl
        exact hunused (List.contains_iff_mem.mpr h)
      rw [meaning_cons_of_ne hn, ih h]

theorem of?_eq_some_iff :
    of? defs name = some p ↔
      ∃ s, OrderedMap.find? name defs = some s ∧ ⟨name, s, used (schemaReferences s) defs⟩ = p := by
  rw [of?, Option.map_eq_some_iff]

theorem explained_of? (h : Ordered defs) (hp : of? defs name = some p) : p.Explained := by
  obtain ⟨s, hfind, rfl⟩ := of?_eq_some_iff.mp hp
  have hused : Ordered (used (schemaReferences s) defs) := ordered_used h
  exact ⟨fun r hr => mem_keys_used hr (h.mem_keys hfind r hr), fun _ _ => hused.mem_keys,
    hused.reads, fun _ => hused.eq_meaning⟩

/-- A published schema is met by the values that its name means. -/
theorem accepts_of? (h : Ordered defs) (hp : of? defs name = some p) :
    p.accepts = meaning defs name := by
  obtain ⟨s, hfind, rfl⟩ := of?_eq_some_iff.mp hp
  rw [h.reads name s hfind]
  exact funext <| keywordsAccept_congr s fun r hr => meaning_used hr

end PublishedSchema

end RuleGraph.Json
