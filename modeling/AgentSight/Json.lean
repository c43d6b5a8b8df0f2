import Mathlib.Algebra.Ring.Int.Defs
import Mathlib.Algebra.Ring.Nat
import Mathlib.Data.Countable.Basic
import Mathlib.Data.Rat.Encodable
import Mathlib.Logic.Equiv.List
import Mathlib.Tactic.DeriveCountable

/-!
# JSON values

The `serde_json::Value` tree the capture pipeline carries. Numbers keep the three forms
`serde_json` keeps apart, because `as_u64` and `as_i64` accept only two of them; a floating
point number is its exact rational value. An object is the list of its fields, as a map
iterates over them.
-/

namespace AgentSight.Json

/-- The three representations of `serde_json::Number`. -/
inductive Number where
  | posInt (n : ℕ)
  | negInt (n : ℤ)
  | float (q : ℚ)
  deriving DecidableEq

inductive Value where
  | null
  | bool (b : Bool)
  | number (n : Number)
  | string (s : String)
  | array (items : List Value)
  | object (fields : List (String × Value))
  deriving Inhabited

/-! ### Decidable equality

`Value` is nested through `List`, so the instance is written by hand: one function on values
and one on each of the two kinds of list. -/

mutual

protected def Value.decEq : (a b : Value) → Decidable (a = b)
  | .null, .null => isTrue rfl
  | .bool a, .bool b => decidable_of_iff (a = b) (by simp)
  | .number a, .number b => decidable_of_iff (a = b) (by simp)
  | .string a, .string b => decidable_of_iff (a = b) (by simp)
  | .array xs, .array ys =>
    match Value.decEqList xs ys with
    | isTrue h => isTrue (by rw [h])
    | isFalse h => isFalse (by simpa using h)
  | .object xs, .object ys =>
    match Value.decEqFields xs ys with
    | isTrue h => isTrue (by rw [h])
    | isFalse h => isFalse (by simpa using h)
  | .null, .bool _ | .null, .number _ | .null, .string _ | .null, .array _ | .null, .object _
  | .bool _, .null | .bool _, .number _ | .bool _, .string _ | .bool _, .array _
  | .bool _, .object _ | .number _, .null | .number _, .bool _ | .number _, .string _
  | .number _, .array _ | .number _, .object _ | .string _, .null | .string _, .bool _
  | .string _, .number _ | .string _, .array _ | .string _, .object _ | .array _, .null
  | .array _, .bool _ | .array _, .number _ | .array _, .string _ | .array _, .object _
  | .object _, .null | .object _, .bool _ | .object _, .number _ | .object _, .string _
  | .object _, .array _ => isFalse (by simp)

protected def Value.decEqList : (xs ys : List Value) → Decidable (xs = ys)
  | [], [] => isTrue rfl
  | [], _ :: _ | _ :: _, [] => isFalse (by simp)
  | x :: xs, y :: ys =>
    match Value.decEq x y, Value.decEqList xs ys with
    | isTrue h₁, isTrue h₂ => isTrue (by rw [h₁, h₂])
    | isFalse h, _ => isFalse (by simp [h])
    | _, isFalse h => isFalse (by simp [h])

protected def Value.decEqFields : (xs ys : List (String × Value)) → Decidable (xs = ys)
  | [], [] => isTrue rfl
  | [], _ :: _ | _ :: _, [] => isFalse (by simp)
  | (k, x) :: xs, (l, y) :: ys =>
    match decEq k l, Value.decEq x y, Value.decEqFields xs ys with
    | isTrue h₁, isTrue h₂, isTrue h₃ => isTrue (by rw [h₁, h₂, h₃])
    | isFalse h, _, _ => isFalse (by simp [h])
    | _, isFalse h, _ => isFalse (by simp [h])
    | _, _, isFalse h => isFalse (by simp [h])

end

instance : DecidableEq Value := Value.decEq

/-! ### Accessors -/

namespace Value

/-- `Value::get` with a string: the field of an object. -/
def get (v : Value) (key : String) : Option Value :=
  match v with
  | .object fields => (fields.find? (·.1 == key)).map (·.2)
  | _ => none

/-- `Value::get` with an index: the item of an array. -/
def getIdx (v : Value) (i : ℕ) : Option Value :=
  match v with
  | .array items => items[i]?
  | _ => none

/-- `Value::pointer`, for a pointer none of whose tokens is a number. -/
def pointer (v : Value) (tokens : List String) : Option Value :=
  tokens.foldl (fun current key => current.bind (·.get key)) (some v)

def isNull : Value → Bool
  | .null => true
  | _ => false

def asBool : Value → Option Bool
  | .bool b => some b
  | _ => none

def asStr : Value → Option String
  | .string s => some s
  | _ => none

def asArray : Value → Option (List Value)
  | .array items => some items
  | _ => none

def asObject : Value → Option (List (String × Value))
  | .object fields => some fields
  | _ => none

def asU64 : Value → Option ℕ
  | .number (.posInt n) => some n
  | _ => none

def asI64 : Value → Option ℤ
  | .number (.posInt n) => if n < 2 ^ 63 then some n else none
  | .number (.negInt n) => some n
  | _ => none

def asF64 : Value → Option ℚ
  | .number (.posInt n) => some n
  | .number (.negInt n) => some n
  | .number (.float q) => some q
  | _ => none

/-- `json::i64_field`: an integer field, with an unsigned value read as its two's complement
and zero when there is none. -/
def i64Field (v : Value) (key : String) : ℤ :=
  match v.get key with
  | some (.number (.posInt n)) => if n < 2 ^ 63 then n else (n : ℤ) - 2 ^ 64
  | some (.number (.negInt n)) => n
  | _ => 0

/-- An unsigned field, zero when there is none. -/
def u64Field (v : Value) (key : String) : ℕ := ((v.get key).bind (·.asU64)).getD 0

/-- A string field. -/
def strField (v : Value) (key : String) : Option String := (v.get key).bind (·.asStr)

/-! ### `serde_json::to_value` -/

def ofNat (n : ℕ) : Value := .number (.posInt n)

def ofOptNat (n : Option ℕ) : Value := (n.map ofNat).getD .null

def ofOptString (s : Option String) : Value := (s.map Value.string).getD .null

end Value

mutual

/-- How deep a value nests: zero for a scalar. -/
protected def Value.depth : Value → ℕ
  | .array items => Value.depthList items + 1
  | .object fields => Value.depthFields fields + 1
  | _ => 0

protected def Value.depthList : List Value → ℕ
  | [] => 0
  | item :: items => max (Value.depth item) (Value.depthList items)

protected def Value.depthFields : List (String × Value) → ℕ
  | [] => 0
  | (_, value) :: fields => max (Value.depth value) (Value.depthFields fields)

end

/-! ### There are countably many values -/

instance countableChar : Countable Char :=
  ⟨Char.toNat, fun _ _ h => Char.ext (UInt32.toNat_inj.mp h)⟩

instance countableString : Countable String :=
  Function.Injective.countable (f := String.toList) fun _ _ h => String.toList_inj.mp h

deriving instance Countable for Number

/-- Binary trees that a value can be written as. -/
inductive Code where
  | leaf (n : ℕ)
  | text (s : String)
  | number (n : Number)
  | node (left right : Code)
  deriving Countable

mutual

protected def Value.code : Value → Code
  | .null => .leaf 0
  | .bool b => .leaf (b.toNat + 1)
  | .number n => .number n
  | .string s => .text s
  | .array items => .node (.leaf 0) (Value.codeList items)
  | .object fields => .node (.leaf 1) (Value.codeFields fields)

protected def Value.codeList : List Value → Code
  | [] => .leaf 0
  | item :: items => .node (Value.code item) (Value.codeList items)

protected def Value.codeFields : List (String × Value) → Code
  | [] => .leaf 0
  | (key, value) :: fields =>
    .node (.node (.text key) (Value.code value)) (Value.codeFields fields)

end

mutual

theorem Value.code_injective : ∀ a b : Value, a.code = b.code → a = b
  | .null, b, h => by
    cases b with
    | bool b => cases b <;> simp [Value.code] at h
    | _ => simp [Value.code] at h ⊢
  | .bool a, b, h => by
    cases b with
    | bool b => cases a <;> cases b <;> simp_all [Value.code]
    | null => cases a <;> simp [Value.code] at h
    | _ => simp [Value.code] at h
  | .number n, b, h => by cases b <;> simp_all [Value.code]
  | .string s, b, h => by cases b <;> simp_all [Value.code]
  | .array xs, b, h => by
    cases b with
    | array ys =>
      rw [Value.code, Value.code, Code.node.injEq] at h
      rw [Value.codeList_injective xs ys h.2]
    | _ => simp [Value.code] at h
  | .object xs, b, h => by
    cases b with
    | object ys =>
      rw [Value.code, Value.code, Code.node.injEq] at h
      rw [Value.codeFields_injective xs ys h.2]
    | _ => simp [Value.code] at h

theorem Value.codeList_injective :
    ∀ xs ys : List Value, Value.codeList xs = Value.codeList ys → xs = ys
  | [], [], _ => rfl
  | [], _ :: _, h => by simp [Value.codeList] at h
  | _ :: _, [], h => by simp [Value.codeList] at h
  | x :: xs, y :: ys, h => by
    rw [Value.codeList, Value.codeList, Code.node.injEq] at h
    rw [Value.code_injective x y h.1, Value.codeList_injective xs ys h.2]

theorem Value.codeFields_injective :
    ∀ xs ys : List (String × Value), Value.codeFields xs = Value.codeFields ys → xs = ys
  | [], [], _ => rfl
  | [], _ :: _, h => by simp [Value.codeFields] at h
  | _ :: _, [], h => by simp [Value.codeFields] at h
  | (key, x) :: xs, (key', y) :: ys, h => by
    simp only [Value.codeFields, Code.node.injEq, Code.text.injEq] at h
    rw [h.1.1, Value.code_injective x y h.1.2, Value.codeFields_injective xs ys h.2]

end

instance : Countable Value :=
  Function.Injective.countable (f := Value.code) Value.code_injective

end AgentSight.Json
