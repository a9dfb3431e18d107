import RuleGraph.OrderedMap
import RuleGraph.Numeral.Binary64

/-!
# JSON values

An object is the list of its members in order. A value that was read has distinct member names
(`Value.Distinct`); the type itself admits repeated ones, which is what a text may hold and what a
record with an open part may write. `Value.merged` resolves them: the last value wins, at the
first place.
-/

namespace RuleGraph.Json

/-- An integer that fits 64 bits, signed or unsigned. -/
structure Integer where
  val : Int
  lower : -0x8000000000000000 ≤ val
  upper : val < 0x10000000000000000
deriving DecidableEq, Repr

/-- A number: an integer where it fits, else binary64. -/
inductive Number where
  | integer (i : Integer)
  | float (x : Binary64)
deriving DecidableEq, Repr

/-- The number of a 64-bit natural. -/
def Number.ofNatural (n : UInt64) : Number :=
  .integer ⟨n.toNat, by omega, by have := n.toNat_lt; omega⟩

/-- The natural a number is, if it is one of 64 bits. -/
def Number.natural? : Number → Option UInt64
  | .integer i => if 0 ≤ i.val then some (UInt64.ofNat i.val.toNat) else none
  | .float _ => none

/-- Whether a number differs from zero. -/
def Number.isNonzero : Number → Bool
  | .integer i => i.val ≠ 0
  | .float x => x.units ≠ 0

/-- A JSON value. -/
inductive Value where
  | null
  | bool (b : Bool)
  | number (n : Number)
  | string (s : String)
  | array (items : List Value)
  | object (members : List (String × Value))
deriving Repr, Inhabited

namespace Value

/-! ## Equality -/

mutual

def decEq : (a b : Value) → Decidable (a = b)
  | .null, .null => isTrue rfl
  | .bool a, .bool b => if h : a = b then isTrue (by rw [h]) else isFalse (by simpa using h)
  | .number a, .number b => if h : a = b then isTrue (by rw [h]) else isFalse (by simpa using h)
  | .string a, .string b => if h : a = b then isTrue (by rw [h]) else isFalse (by simpa using h)
  | .array a, .array b =>
    match decEqItems a b with
    | isTrue h => isTrue (by rw [h])
    | isFalse h => isFalse (by simpa using h)
  | .object a, .object b =>
    match decEqMembers a b with
    | isTrue h => isTrue (by rw [h])
    | isFalse h => isFalse (by simpa using h)
  | .null, .bool _ | .null, .number _ | .null, .string _ | .null, .array _ | .null, .object _
  | .bool _, .null | .bool _, .number _ | .bool _, .string _ | .bool _, .array _
  | .bool _, .object _ | .number _, .null | .number _, .bool _ | .number _, .string _
  | .number _, .array _ | .number _, .object _ | .string _, .null | .string _, .bool _
  | .string _, .number _ | .string _, .array _ | .string _, .object _ | .array _, .null
  | .array _, .bool _ | .array _, .number _ | .array _, .string _ | .array _, .object _
  | .object _, .null | .object _, .bool _ | .object _, .number _ | .object _, .string _
  | .object _, .array _ => isFalse (by simp)

def decEqItems : (a b : List Value) → Decidable (a = b)
  | [], [] => isTrue rfl
  | a :: as, b :: bs =>
    match decEq a b, decEqItems as bs with
    | isTrue h, isTrue h' => isTrue (by rw [h, h'])
    | isFalse h, _ => isFalse (by simp [h])
    | _, isFalse h => isFalse (by simp [h])
  | [], _ :: _ | _ :: _, [] => isFalse (by simp)

def decEqMembers : (a b : List (String × Value)) → Decidable (a = b)
  | [], [] => isTrue rfl
  | (m, a) :: as, (n, b) :: bs =>
    match decEq a b, decEqMembers as bs with
    | isTrue h, isTrue h' =>
      if hn : m = n then isTrue (by rw [h, h', hn]) else isFalse (by simp [hn])
    | isFalse h, _ => isFalse (by simp [h])
    | _, isFalse h => isFalse (by simp [h])
  | [], _ :: _ | _ :: _, [] => isFalse (by simp)

end

instance : DecidableEq Value := decEq

/-! ## Looking into a value -/

def natural (n : UInt64) : Value := .number (.ofNatural n)

def isNull : Value → Bool
  | .null => true
  | _ => false

/-- The natural a value is, if it is one of 64 bits. -/
def natural? : Value → Option UInt64
  | .number n => n.natural?
  | _ => none

/-- The text a value is, if it is a string. -/
def string? : Value → Option String
  | .string s => some s
  | _ => none

/--
Whether a value counts as present: `null`, `false`, zero of either sign and the empty string do
not; arrays and objects do, even when empty.
-/
def isTruthy : Value → Bool
  | .null => false
  | .bool b => b
  | .number n => n.isNonzero
  | .string s => s ≠ ""
  | .array _ | .object _ => true

/-! ## Repeated member names -/

mutual

/-- The value with repeated members merged at every depth. -/
def merged : Value → Value
  | .array items => .array (mergedItems items)
  | .object members => .object (OrderedMap.ofEntries (mergedMembers members))
  | .null => .null
  | .bool b => .bool b
  | .number n => .number n
  | .string s => .string s

def mergedItems : List Value → List Value
  | [] => []
  | v :: items => merged v :: mergedItems items

def mergedMembers : List (String × Value) → List (String × Value)
  | [] => []
  | (name, v) :: members => (name, merged v) :: mergedMembers members

end

mutual

/-- No object at any depth repeats a member name. -/
def Distinct : Value → Prop
  | .array items => DistinctItems items
  | .object members => OrderedMap.Distinct members ∧ DistinctMembers members
  | .null | .bool _ | .number _ | .string _ => True

def DistinctItems : List Value → Prop
  | [] => True
  | v :: items => Distinct v ∧ DistinctItems items

def DistinctMembers : List (String × Value) → Prop
  | [] => True
  | (_, v) :: members => Distinct v ∧ DistinctMembers members

end

mutual

/-- Merging changes nothing where names are distinct. -/
theorem merged_of_distinct : ∀ (v : Value), v.Distinct → v.merged = v
  | .null, _ | .bool _, _ | .number _, _ | .string _, _ => by simp [merged]
  | .array items, h => by
    rw [Distinct] at h
    rw [merged, mergedItems_of_distinct items h]
  | .object members, h => by
    rw [Distinct] at h
    rw [merged, mergedMembers_of_distinct members h.2, OrderedMap.ofEntries_of_distinct h.1]

theorem mergedItems_of_distinct : ∀ (items : List Value), DistinctItems items →
    mergedItems items = items
  | [], _ => by rw [mergedItems]
  | v :: items, h => by
    rw [DistinctItems] at h
    rw [mergedItems, merged_of_distinct v h.1, mergedItems_of_distinct items h.2]

theorem mergedMembers_of_distinct : ∀ (members : List (String × Value)),
    DistinctMembers members → mergedMembers members = members
  | [], _ => by rw [mergedMembers]
  | (name, v) :: members, h => by
    rw [DistinctMembers] at h
    rw [mergedMembers, merged_of_distinct v h.1, mergedMembers_of_distinct members h.2]

end

end Value

end RuleGraph.Json
