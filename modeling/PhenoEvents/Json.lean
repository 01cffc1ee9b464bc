import Mathlib.Data.List.Basic
import Mathlib.Data.Rat.Defs
import Mathlib.Algebra.Order.Ring.Rat
import Mathlib.Tactic.Push

/-!
# JSON values

`serde_json::Value`, as far as the schema registry, the projection and the envelope use it.

* An object is a `BTreeMap<String, Value>`: its keys are a strictly increasing list (`Keys`), so an
  object with a repeated key cannot be built, two objects with the same entries are equal, and
  iterating over the keys visits them in that order.
* A number remembers how it was parsed: `u64`, negative `i64`, or `f64`.  `asI64` and `asU64`
  therefore differ on where they answer, and a float is never an integer, `1.0` included.

Arrays and objects hold their members as a function on indices and keys, so that a recursion over a
value is structural.

## What is here

* `Value` and `Map`, with the constructors `ofElems` and `ofEntries` for a value that is written
  out.
* The readers of `serde_json`, each under its own name.  A reader that does not apply answers
  `none`.
* `nesting` and `hasFloat`: the two things about a value that its text may not survive.
* `beq` and the decidable equality of values.  Equality compares numbers by how they were parsed, so
  an integer and a float are never equal.
-/

set_option autoImplicit false

namespace PhenoEvents

/-- A finite `f64`, by its value: `0.0` and `-0.0` compare equal and are the same here. -/
structure Float64 where
  /-- The value. -/
  val : ℚ
  /-- A 53-bit significand and an exponent in range. -/
  finite : ∃ m e : ℤ, |m| < 2 ^ 53 ∧ -1074 ≤ e ∧ e ≤ 971 ∧ val = m * 2 ^ e
  deriving DecidableEq

/-- `serde_json::Number`. -/
inductive Number
  /-- A non-negative integer literal that fits `u64`. -/
  | posInt (n : UInt64)
  /-- A negative integer literal that fits `i64`. -/
  | negInt (n : Int64) (neg : n < 0)
  /-- Any other literal. -/
  | float (x : Float64)
  deriving DecidableEq

/-- The keys of a `BTreeMap<String, _>`. -/
structure Keys where
  /-- The keys, in the order the map iterates over them. -/
  list : List String
  /-- No key is repeated, and the order is that of the strings. -/
  sorted : list.Pairwise (· < ·)
  deriving DecidableEq

/-- `serde_json::Value`. -/
inductive Value
  /-- `null`. -/
  | null
  /-- A boolean. -/
  | bool (b : Bool)
  /-- A number. -/
  | number (n : Number)
  /-- A string. -/
  | string (s : String)
  /-- An array of length `n`. -/
  | array (n : ℕ) (elems : Fin n → Value)
  /-- An object. -/
  | object (keys : Keys) (vals : {k // k ∈ keys.list} → Value)

/-- `serde_json::Map<String, Value>`: what is inside an object. -/
structure Map where
  /-- The keys. -/
  keys : Keys
  /-- The value of each key. -/
  vals : {k // k ∈ keys.list} → Value

namespace Map

/-- `Map::new`. -/
def empty : Map := ⟨⟨[], List.Pairwise.nil⟩, fun k ↦ absurd k.2 List.not_mem_nil⟩

/-- `Map::get`. -/
def get (m : Map) (k : String) : Option Value :=
  if h : k ∈ m.keys.list then some (m.vals ⟨k, h⟩) else none

/-- `Map::contains_key`. -/
def containsKey (m : Map) (k : String) : Bool := decide (k ∈ m.keys.list)

theorem isSome_get {m : Map} {k : String} : (m.get k).isSome ↔ k ∈ m.keys.list := by
  rw [get]
  split <;> simp_all

theorem mem_keys_of_get {m : Map} {k : String} {v : Value} (h : m.get k = some v) :
    k ∈ m.keys.list :=
  isSome_get.1 (by rw [h]; rfl)

/-- The map with the given entries, which must come in the order of their keys. -/
def ofList (entries : List (String × Value)) (h : (entries.map Prod.fst).Pairwise (· < ·)) : Map :=
  ⟨⟨entries.map Prod.fst, h⟩,
    fun k ↦ ((entries.find? fun e ↦ e.1 = k.1).map Prod.snd).getD .null⟩

theorem get_ofList (entries : List (String × Value))
    (h : (entries.map Prod.fst).Pairwise (· < ·)) (k : String) :
    (ofList entries h).get k = (entries.find? fun e ↦ e.1 = k).map Prod.snd := by
  rw [get]
  split
  · rename_i hk
    obtain ⟨e, he, rfl⟩ := List.mem_map.1 hk
    have hfound : (entries.find? fun e' ↦ e'.1 = e.1).isSome :=
      List.find?_isSome.2 ⟨e, he, decide_eq_true rfl⟩
    obtain ⟨e', he'⟩ := Option.isSome_iff_exists.1 hfound
    show some (((entries.find? _).map Prod.snd).getD .null) = _
    rw [he', Option.map_some, Option.getD_some]
  · rename_i hk
    rw [List.find?_eq_none.2 fun e he ↦ ?_]
    · rfl
    · simpa using fun h' : e.1 = k ↦ hk (List.mem_map.2 ⟨e, he, h'⟩)

end Map

namespace Value

/-- An array from the list of its elements. -/
def ofElems (elems : List Value) : Value := .array elems.length elems.get

/-- An object from its entries, which must come in the order of their keys. -/
def ofEntries (entries : List (String × Value)) (h : (entries.map Prod.fst).Pairwise (· < ·)) :
    Value :=
  .object (Map.ofList entries h).keys (Map.ofList entries h).vals

/-- `{}`. -/
def emptyObject : Value := .ofEntries [] List.Pairwise.nil

/-! ## Readers

The accessors of `serde_json` that the registry and the projection use. -/

/-- `Value::as_object`. -/
def asObject : Value → Option Map
  | .object keys vals => some ⟨keys, vals⟩
  | _ => none

@[simp] theorem asObject_ofEntries (entries : List (String × Value))
    (h : (entries.map Prod.fst).Pairwise (· < ·)) :
    (ofEntries entries h).asObject = some (Map.ofList entries h) := rfl

/-- `Value::as_array`. -/
def asArray : Value → Option (List Value)
  | .array _ elems => some (List.ofFn elems)
  | _ => none

/-- `Value::as_str`. -/
def asStr : Value → Option String
  | .string s => some s
  | _ => none

/-- `Value::as_bool`. -/
def asBool : Value → Option Bool
  | .bool b => some b
  | _ => none

/-- `Value::as_i64`: the integers up to `i64::MAX`, and the negative ones. -/
def asI64 : Value → Option Int64
  | .number (.posInt n) => if n.toNat < 2 ^ 63 then some (Int64.ofNat n.toNat) else none
  | .number (.negInt n _) => some n
  | _ => none

/-- `Value::as_u64`: the non-negative integers. -/
def asU64 : Value → Option UInt64
  | .number (.posInt n) => some n
  | _ => none

/-- `Value::is_null`. -/
def isNull : Value → Bool
  | .null => true
  | _ => false

/-- `Value::is_boolean`. -/
def isBoolean (v : Value) : Bool := v.asBool.isSome

/-- `Value::is_number`. -/
def isNumber : Value → Bool
  | .number _ => true
  | _ => false

/-- `Value::is_string`. -/
def isString (v : Value) : Bool := v.asStr.isSome

/-- `Value::is_array`. -/
def isArray (v : Value) : Bool := v.asArray.isSome

/-- `Value::is_object`. -/
def isObject (v : Value) : Bool := v.asObject.isSome

/-- `Value::get` with a string: the entry of an object, and `None` for anything else. -/
def get (v : Value) (k : String) : Option Value := v.asObject.bind fun m ↦ m.get k

theorem get_ofEntries (entries : List (String × Value))
    (h : (entries.map Prod.fst).Pairwise (· < ·)) (k : String) :
    (ofEntries entries h).get k = (entries.find? fun e ↦ e.1 = k).map Prod.snd :=
  Map.get_ofList entries h k

/-! ## Nesting

`serde_json` counts the containers that are open when it reads a text.  An empty array is one level.
-/

/-- How deep the arrays and objects of a value nest. -/
def nesting : Value → ℕ
  | .array n elems => (List.ofFn fun i : Fin n ↦ (elems i).nesting).foldr max 0 + 1
  | .object keys vals => (keys.list.attach.map fun k ↦ (vals k).nesting).foldr max 0 + 1
  | _ => 0

/-- Some number in the value is a float. -/
def hasFloat : Value → Bool
  | .number (.float _) => true
  | .array n elems => (List.ofFn fun i : Fin n ↦ (elems i).hasFloat).any id
  | .object keys vals => (keys.list.attach.map fun k ↦ (vals k).hasFloat).any id
  | _ => false

/-- `[[…[]…]]`, with `n + 1` pairs of brackets. -/
def brackets : ℕ → Value
  | 0 => .array 0 Fin.elim0
  | n + 1 => .array 1 fun _ ↦ brackets n

theorem nesting_brackets (n : ℕ) : (brackets n).nesting = n + 1 := by
  induction n with
  | zero => rfl
  | succ n ih =>
    show max (brackets n).nesting 0 + 1 = n + 1 + 1
    rw [ih, Nat.max_zero]

theorem hasFloat_brackets (n : ℕ) : (brackets n).hasFloat = false := by
  induction n with
  | zero => rfl
  | succ n ih =>
    show ((brackets n).hasFloat || false) = false
    rw [ih]
    rfl

/-! ## Equality

The registry compares properties by `!=`, which is structural equality. -/

/-- `impl PartialEq for Value`. -/
def beq : Value → Value → Bool
  | .null, .null => true
  | .bool a, .bool b => a == b
  | .number a, .number b => a == b
  | .string a, .string b => a == b
  | .array n xs, .array m ys =>
    if h : n = m then decide (∀ i : Fin n, (xs i).beq (ys (i.cast h)) = true) else false
  | .object ks xs, .object ls ys =>
    if h : ks = ls then ks.list.attach.all fun k ↦ (xs k).beq (ys ⟨k.1, h ▸ k.2⟩) else false
  | _, _ => false

theorem beq_iff_eq (a b : Value) : a.beq b = true ↔ a = b := by
  induction a generalizing b with
  | null => cases b <;> simp [beq]
  | bool a => cases b <;> simp [beq]
  | number a => cases b <;> simp [beq]
  | string a => cases b <;> simp [beq]
  | array n xs ih =>
    cases b with
    | array m ys =>
      rw [beq]
      split
      · rename_i h
        subst h
        change decide (∀ i, (xs i).beq (ys i) = true) = true ↔ _
        simp only [ih, decide_eq_true_eq, array.injEq, heq_eq_eq, true_and]
        exact funext_iff.symm
      · rename_i h
        simp [h]
    | _ => simp [beq]
  | object ks xs ih =>
    cases b with
    | object ls ys =>
      rw [beq]
      split
      · rename_i h
        subst h
        simp only [ih, List.all_eq_true, List.mem_attach, forall_const, object.injEq, heq_eq_eq,
          true_and]
        exact funext_iff.symm
      · rename_i h
        simp [h]
    | _ => simp [beq]

instance : DecidableEq Value := fun a b ↦ decidable_of_iff (a.beq b = true) (beq_iff_eq a b)

end Value

end PhenoEvents
