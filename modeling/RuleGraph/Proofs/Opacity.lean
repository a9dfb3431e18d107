import Mathlib.Logic.Relation
import RuleGraph.Proofs.DistinctNames
import RuleGraph.Proofs.Resolution

/-!
# What a graph does not depend on

A graph shows of an entity its kind, its id, whether it is a stub, its title, and what the reference
fields of its bucket resolve to. Documents that agree in these (`Document.Agrees`) have the same
graph or are refused for the same reason, whatever else they hold. So no edit of anything else
matters, in any number (`Document.OpaqueEdit`): of the result, of the keys in buckets, of the order
of fields, of fields that are no title and no reference, of a field that is `null`, and of the
spelling of references.
-/

namespace RuleGraph

open Json

/-! ## Entities that look alike -/

namespace Entity

variable {bucket : Kind} {e e' : Entity} {f : ReferenceField}

/-- Two entities have the same in a reference field: nothing, something unusable, or references. -/
inductive SameIn (e e' : Entity) (f : ReferenceField) : Prop
  | absent (h : e.Lacks f) (h' : e'.Lacks f)
  | misused (h : e.Misuses f) (h' : e'.Misuses f)
  | resolved {refs : References} (h : e.Resolves f refs) (h' : e'.Resolves f refs)

/-- Two entities of a bucket agree in all that a graph shows of them. -/
structure Agrees (bucket : Kind) (e e' : Entity) : Prop where
  kind : e.kind = e'.kind
  id : e.id = e'.id
  isStub : e.isStub = e'.isStub
  title : ∀ name, titleField? e.kind = some name → ∀ v, e.Carries name v ↔ e'.Carries name v
  references : ∀ f ∈ bucket.references, e.SameIn e' f

theorem sameIn_iff : e.SameIn e' f ↔ e.resolution f = e'.resolution f := by
  constructor
  · intro h
    cases h with
    | absent h h' => rw [lacks_iff.mp h, lacks_iff.mp h']
    | misused h h' => rw [misuses_iff.mp h, misuses_iff.mp h']
    | resolved h h' => rw [resolves_iff.mp h, resolves_iff.mp h']
  · intro h
    rcases e.field_cases f with hl | hm | ⟨refs, hr⟩
    · exact .absent hl (lacks_iff.mpr (h ▸ lacks_iff.mp hl))
    · exact .misused hm (misuses_iff.mpr (h ▸ misuses_iff.mp hm))
    · exact .resolved hr (resolves_iff.mpr (h ▸ resolves_iff.mp hr))

theorem field?_eq_iff {name : String} :
    e.field? name = e'.field? name ↔ ∀ v, e.Carries name v ↔ e'.Carries name v := by
  rw [Option.ext_iff]
  simp only [field?_eq_some_iff]

theorem agrees_iff : e.Agrees bucket e' ↔
    e.kind = e'.kind ∧ e.id = e'.id ∧ e.isStub = e'.isStub ∧
      (∀ name ∈ titleField? e.kind, e.field? name = e'.field? name) ∧
      ∀ f ∈ bucket.references, e.resolution f = e'.resolution f := by
  simp only [Option.mem_def, field?_eq_iff, ← sameIn_iff]
  exact ⟨fun ⟨h1, h2, h3, h4, h5⟩ => ⟨h1, h2, h3, h4, h5⟩,
    fun ⟨h1, h2, h3, h4, h5⟩ => ⟨h1, h2, h3, h4, h5⟩⟩

instance (bucket : Kind) : DecidableRel (Agrees bucket) :=
  fun _ _ => decidable_of_iff _ agrees_iff.symm

theorem SameIn.refl (e : Entity) (f : ReferenceField) : e.SameIn e f := sameIn_iff.mpr rfl

/-- What an entity has in a field depends on what it carries there only. -/
theorem SameIn.of_carries_iff (h : ∀ v, e.Carries f.name v ↔ e'.Carries f.name v) :
    e.SameIn e' f := by
  rw [sameIn_iff, resolution, resolution, field?_eq_iff.mpr h]

theorem Agrees.refl (bucket : Kind) (e : Entity) : Agrees bucket e e :=
  ⟨rfl, rfl, rfl, fun _ _ _ => Iff.rfl, fun f _ => .refl e f⟩

theorem Agrees.title?_eq (h : Agrees bucket e e') : e.title? = e'.title? := by
  unfold title?
  rw [← h.kind]
  cases hname : titleField? e.kind with
  | none => rfl
  | some name =>
    show (e.field? name).bind (titleOf? e.kind) = (e'.field? name).bind (titleOf? e.kind)
    rw [field?_eq_iff.mpr (h.title name hname)]

end Entity

namespace Walk

variable {bucket : Kind} {e e' : Entity}

theorem ofField_congr {f : ReferenceField} (hkind : e.kind = e'.kind) (hid : e.id = e'.id)
    (h : e.SameIn e' f) : ofField e f = ofField e' f := by
  cases h with
  | absent h h' => rw [ofField_of_lacks h, ofField_of_lacks h']
  | misused h h' => rw [ofField_of_misuses h, ofField_of_misuses h', hkind, hid]
  | resolved h h' => rw [ofField_of_resolves h, ofField_of_resolves h', hid]

theorem entityNode_congr (h : e.Agrees bucket e') : entityNode bucket e = entityNode bucket e' := by
  rw [entityNode, entityNode, Entity.label, Entity.label, h.title?_eq, h.id, h.isStub, h.kind]

theorem forEach_congr {α β : Type} {f : α → Walk} {g : β → Walk} {as : List α} {bs : List β}
    (h : List.Forall₂ (fun a b => f a = g b) as bs) : forEach f as = forEach g bs := by
  induction h with
  | nil => rfl
  | cons hab _ ih => rw [forEach, forEach, hab, ih]

/-- Entities that agree are walked through alike. -/
theorem ofEntity_congr (h : e.Agrees bucket e') : ofEntity bucket e = ofEntity bucket e' := by
  have hfields :
      forEach (ofField e) bucket.references = forEach (ofField e') bucket.references := by
    apply forEach_congr
    rw [List.forall₂_same]
    intro f hf
    exact ofField_congr h.kind h.id (h.references f hf)
  rw [ofEntity, ofEntity, entityNode_congr h, hfields]

end Walk

/-! ## Documents that look alike -/

namespace Document

/-- Two buckets are of one kind and hold entities that agree, under any keys. -/
def BucketsAgree (b b' : Kind × Bucket) : Prop :=
  b.1 = b'.1 ∧ List.Forall₂ (fun x x' => x.2.Agrees b.1 x'.2) b.2 b'.2

/-- Two normalized documents agree in all that a graph shows of them. -/
structure Agrees (d d' : Document) : Prop where
  left : d.IsNormalized
  right : d'.IsNormalized
  buckets : List.Forall₂ BucketsAgree d.buckets d'.buckets

instance : DecidableRel BucketsAgree := fun _ _ => inferInstanceAs (Decidable (_ ∧ _))

theorem BucketsAgree.refl (b : Kind × Bucket) : BucketsAgree b b :=
  ⟨rfl, List.forall₂_same.mpr fun x _ => .refl b.1 x.2⟩

theorem BucketsAgree.ofBucket_eq {b b' : Kind × Bucket} (h : BucketsAgree b b') :
    Walk.ofBucket b = Walk.ofBucket b' := by
  rw [Walk.ofBucket, Walk.ofBucket]
  apply Walk.forEach_congr
  refine h.2.imp fun x x' hx => ?_
  rw [Walk.ofEntity_congr hx, h.1]

theorem Agrees.graph_eq {d d' : Document} (h : d.Agrees d') : d.graph = d'.graph := by
  have hwalk : Walk.ofBuckets d.buckets = Walk.ofBuckets d'.buckets :=
    Walk.forEach_congr (h.buckets.imp fun _ _ hb => hb.ofBucket_eq)
  simp only [graph, buildable?_of_isNormalized h.left, buildable?_of_isNormalized h.right, hwalk]

end Document

/-! ## Edits that a graph does not show -/

namespace OrderedMap

variable {κ α : Type} [DecidableEq κ] {m m' : OrderedMap κ α} {key other : κ}

theorem find?_remove_of_ne (h : other ≠ key) : find? other (remove key m) = find? other m := by
  induction m with
  | nil => rfl
  | cons entry m ih =>
    obtain ⟨k, a⟩ := entry
    by_cases hk : k = key
    · subst hk
      rw [remove, if_pos rfl, find?_cons, if_neg (Ne.symm h)]
    · rw [remove, if_neg hk, find?_cons, find?_cons, ih]

theorem find?_eq_some_iff_mem (hd : Distinct m) {a : α} :
    find? key m = some a ↔ (key, a) ∈ m := by
  constructor
  · exact mem_of_find?
  · intro h
    induction m with
    | nil => cases h
    | cons entry m ih =>
      obtain ⟨hnotin, hd'⟩ := List.nodup_cons.mp hd
      rcases List.mem_cons.mp h with rfl | hmem
      · exact if_pos rfl
      · have hne : entry.1 ≠ key := fun hk => hnotin (hk ▸ List.mem_map_of_mem hmem)
        rw [find?_cons, if_neg hne, ih hd' hmem]

theorem find?_perm (hd : Distinct m) (h : m.Perm m') : find? key m = find? key m' := by
  have hd' : Distinct m' := (h.map Prod.fst).nodup_iff.mp hd
  ext a
  rw [find?_eq_some_iff_mem hd, find?_eq_some_iff_mem hd', h.mem_iff]

end OrderedMap

theorem StandsFor.ne_null {r : Relation} {v : Value} {refs : References} (h : StandsFor r v refs) :
    v ≠ .null := by
  rintro rfl
  cases h with
  | single h => cases h
  | union h => cases h

namespace Entity

variable {bucket : Kind} {e : Entity} {fields : OrderedMap String Value} {name : String}

/-- A field is neither the title of an entity nor a reference field of its bucket. -/
def IsOpaque (bucket : Kind) (e : Entity) (name : String) : Prop :=
  titleField? e.kind ≠ some name ∧ ∀ f ∈ bucket.references, f.name ≠ name

/-- Fields of an entity in a bucket after an edit that a graph does not show. -/
inductive OpaqueEdit (bucket : Kind) (e : Entity) : OrderedMap String Value → Prop
  /-- The fields are put in another order. -/
  | order {fields : OrderedMap String Value} (hd : OrderedMap.Distinct e.fields)
      (h : e.fields.Perm fields) : OpaqueEdit bucket e fields
  /-- A field that says nothing is put. -/
  | put {name : String} (v : Value) (h : IsOpaque bucket e name) :
      OpaqueEdit bucket e (OrderedMap.put name v e.fields)
  /-- A field that says nothing is removed. -/
  | remove {name : String} (h : IsOpaque bucket e name) :
      OpaqueEdit bucket e (OrderedMap.remove name e.fields)
  /-- A field that is missing becomes `null`. -/
  | null {name : String} (h : OrderedMap.find? name e.fields = none) :
      OpaqueEdit bucket e (OrderedMap.put name .null e.fields)
  /-- References are spelled in another way. -/
  | spelling {f : ReferenceField} {v v' : Value} {refs : References} (hf : f ∈ bucket.references)
      (hv : e.Carries f.name v) (h : StandsFor f.relation v refs)
      (h' : StandsFor f.relation v' refs) :
      OpaqueEdit bucket e (OrderedMap.put f.name v' e.fields)

theorem carries_iff_of_find?_eq
    (h : OrderedMap.find? name fields = OrderedMap.find? name e.fields) (v : Value) :
    e.Carries name v ↔ ({ e with fields } : Entity).Carries name v := by
  simp only [Carries, h]

/-- An edit keeps what an entity shows if it changes no title and keeps what references stand
for. -/
theorem agrees_of_fields
    (htitle : ∀ name, titleField? e.kind = some name →
      ∀ v, e.Carries name v ↔ ({ e with fields } : Entity).Carries name v)
    (hrefs : ∀ f ∈ bucket.references, e.SameIn { e with fields } f) :
    e.Agrees bucket { e with fields } :=
  ⟨rfl, rfl, rfl, htitle, hrefs⟩

/-- Fields that carry the same under all names show the same. -/
theorem agrees_of_carries_iff
    (h : ∀ name v, e.Carries name v ↔ ({ e with fields } : Entity).Carries name v) :
    e.Agrees bucket { e with fields } :=
  agrees_of_fields (fun name _ => h name) fun f _ => .of_carries_iff (h f.name)

/-- Changing a field that says nothing keeps what an entity shows. -/
theorem IsOpaque.agrees (h : IsOpaque bucket e name)
    (hfind : ∀ other, other ≠ name →
      OrderedMap.find? other fields = OrderedMap.find? other e.fields) :
    e.Agrees bucket { e with fields } := by
  refine agrees_of_fields (fun other hother => ?_) fun f hf => .of_carries_iff ?_
  · have hne : other ≠ name := fun heq => h.1 (heq ▸ hother)
    exact carries_iff_of_find?_eq (hfind other hne)
  · exact carries_iff_of_find?_eq (hfind f.name (h.2 f hf))

/-- No title is taken from a reference field. -/
theorem name_ne_titleField {kind : Kind} {f : ReferenceField} (hf : f ∈ bucket.references)
    (h : titleField? kind = some name) : f.name ≠ name := by
  have hall : ∀ b ∈ Kind.all, ∀ f ∈ b.references, ∀ k ∈ Kind.all, titleField? k ≠ some f.name := by
    decide
  rintro rfl
  exact hall bucket bucket.mem_all f hf kind kind.mem_all h

theorem OpaqueEdit.agrees (h : OpaqueEdit bucket e fields) :
    e.Agrees bucket { e with fields } := by
  cases h with
  | order hd h =>
    exact agrees_of_carries_iff fun _ =>
      carries_iff_of_find?_eq (OrderedMap.find?_perm hd h).symm
  | @put name v h => exact h.agrees fun other hother => OrderedMap.find?_put_of_ne hother _ _
  | @remove name h => exact h.agrees fun other hother => OrderedMap.find?_remove_of_ne hother
  | @null name h =>
    -- the field is carried by neither entity, and every other one is as it was
    refine agrees_of_carries_iff fun other v => ?_
    by_cases hother : other = name
    · subst hother
      simp [Carries, h, OrderedMap.find?_put_self, eq_comm]
    · exact carries_iff_of_find?_eq (OrderedMap.find?_put_of_ne hother _ _) v
  | @spelling f v v' refs hf hv h h' =>
    refine agrees_of_fields (fun other hother => ?_) fun g hg => ?_
    · have hne := (name_ne_titleField hf hother).symm
      exact carries_iff_of_find?_eq (OrderedMap.find?_put_of_ne hne _ _)
    · by_cases hname : g.name = f.name
      · obtain rfl := (Kind.eq_of_name_eq hg hf hname).2
        exact .resolved ⟨v, hv, h⟩ ⟨v', ⟨OrderedMap.find?_put_self _ _ _, h'.ne_null⟩, h'⟩
      · exact .of_carries_iff (carries_iff_of_find?_eq (OrderedMap.find?_put_of_ne hname _ _))

end Entity

namespace Document

/-- Edits of a document that its graph does not show. -/
inductive OpaqueEdit : Document → Document → Prop
  /-- The result is replaced by a truthy one. -/
  | result {d : Document} {v : Value} (h : v.isTruthy) :
      OpaqueEdit d { d with result := some v }
  /-- The entities are filed under other keys of their buckets. -/
  | keys {d : Document} {bs bs' : Buckets} (hbs : d.entities = some bs)
      (h : List.Forall₂ (fun b b' => b.1 = b'.1 ∧ b.2.map Prod.snd = b'.2.map Prod.snd) bs bs') :
      OpaqueEdit d { d with entities := some bs' }
  /-- The fields of one entity are edited. -/
  | fields {result : Option Value} {before after : Buckets} {bucket : Kind} {first last : Bucket}
      {key : String} {e : Entity} {fields : OrderedMap String Value}
      (h : e.OpaqueEdit bucket fields) :
      OpaqueEdit ⟨result, some (before ++ (bucket, first ++ (key, e) :: last) :: after)⟩
        ⟨result, some (before ++ (bucket, first ++ (key, { e with fields }) :: last) :: after)⟩

theorem BucketsAgree.of_map_snd_eq {b b' : Kind × Bucket} (hkind : b.1 = b'.1)
    (h : b.2.map Prod.snd = b'.2.map Prod.snd) : BucketsAgree b b' := by
  refine ⟨hkind, (map_eq_map_iff_forall₂.mp h).imp fun x x' hx => ?_⟩
  rw [hx]
  exact .refl b.1 x'.2

/-- An edit that a graph does not show leaves a document that agrees. -/
theorem OpaqueEdit.agrees {d d' : Document} (hn : d.IsNormalized) (h : OpaqueEdit d d') :
    d.Agrees d' := by
  cases h with
  | result h =>
    exact ⟨hn, ⟨⟨_, rfl, h⟩, hn.entities⟩, List.forall₂_same.mpr fun b _ => .refl b⟩
  | @keys _ bs bs' hbs h =>
    refine ⟨hn, ⟨hn.result, rfl⟩, ?_⟩
    rw [Document.buckets, hbs]
    exact h.imp fun b b' hb => .of_map_snd_eq hb.1 hb.2
  | @fields _ before after bucket first last key e fields h =>
    have hbucket : BucketsAgree (bucket, first ++ (key, e) :: last)
        (bucket, first ++ (key, { e with fields }) :: last) :=
      ⟨rfl, forall₂_replace (fun x : String × Entity => .refl bucket x.2) h.agrees first last⟩
    exact ⟨hn, ⟨hn.result, rfl⟩, forall₂_replace BucketsAgree.refl hbucket before after⟩

theorem graph_eq_of_edits {d d' : Document} (hn : d.IsNormalized)
    (h : Relation.ReflTransGen OpaqueEdit d d') : d.graph = d'.graph := by
  have hboth : d'.IsNormalized ∧ d.graph = d'.graph := by
    induction h with
    | refl => exact ⟨hn, rfl⟩
    | tail _ hedit ih =>
      have hagrees := hedit.agrees ih.1
      exact ⟨hagrees.right, ih.2.trans hagrees.graph_eq⟩
  exact hboth.2

/-- Documents have the same graph, or are refused for the same reason, if they agree in what a graph
shows; and so they do if one arises from the other by edits of what it does not show. -/
theorem graph_noninterference (d d' : Document) :
    (d.Agrees d' → d.graph = d'.graph) ∧
      (d.IsNormalized → Relation.ReflTransGen OpaqueEdit d d' → d.graph = d'.graph) :=
  ⟨Agrees.graph_eq, graph_eq_of_edits⟩

/-- The sample rule with another result, other keys, and its fields in another order and
spelling. -/
def sampleRuleRespelled : Document where
  result := some (.string "2")
  entities := some
    [ (.ruleVariable,
        [ ("1", ⟨.ruleVariable, 1, false,
            [("formula", .natural 2), ("unit", .array [.null]), ("name", .string "salaire")]⟩) ]),
      (.arithmeticOperator,
        [ ("2", ⟨.arithmeticOperator, 2, false,
            [("operator", .string "*"),
              ("operands", .object
                [ ("base", .object [("schema", .string "Number"), ("id", .natural 3)]),
                  ("1.5", .natural 3) ])]⟩),
          ("3", ⟨.number, 3, true,
            [ ("value", .null),
              ("operands", .array [.object [("id", .natural 1)], .natural 9]) ]⟩) ]) ]

theorem graph_noninterference_sampleRule :
    (sampleRule.Agrees sampleRuleRespelled ∧ sampleRule ≠ sampleRuleRespelled ∧
      sampleRule.graph = sampleRuleRespelled.graph) ∧
    ∃ d, d ≠ sampleRule ∧ Relation.ReflTransGen OpaqueEdit sampleRule d ∧
      sampleRule.graph = d.graph := by
  have hnormalized : sampleRule.IsNormalized := ⟨⟨_, rfl, rfl⟩, rfl⟩
  have hagrees : sampleRule.Agrees sampleRuleRespelled :=
    ⟨hnormalized, ⟨⟨_, rfl, rfl⟩, rfl⟩, by decide⟩
  -- another result, then a `null` in a field that was missing
  have hresult : OpaqueEdit sampleRule { sampleRule with result := some (.string "2") } :=
    .result rfl
  have hnull : OpaqueEdit { sampleRule with result := some (.string "2") } _ :=
    @OpaqueEdit.fields _ [] _ .ruleVariable [] [] "a" _ _ (@Entity.OpaqueEdit.null _ _ "unit" rfl)
  have hedits := Relation.ReflTransGen.tail (.single hresult) hnull
  refine ⟨⟨hagrees, by decide, (graph_noninterference _ _).1 hagrees⟩, _, ?_, hedits,
    (graph_noninterference _ _).2 hnormalized hedits⟩
  exact fun heq => absurd (congrArg Document.result heq) (by decide)

end Document

end RuleGraph
