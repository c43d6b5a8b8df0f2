import Mathlib.Data.Rat.Defs

/-!
# What `JSON.parse` returns

The JavaScript values that a JSON text denotes, with the operations a program applies to a
value it has not checked: reading a property, the truth value, and conversion to a string. The
conversion can throw: an object whose own property `toString` comes from the text has no
callable one, and `Object.prototype.valueOf` returns the object itself.
-/

/-- A number of a JSON text; a literal that is too large is an infinity. -/
inductive JsNumber where
  | finite (q : ℚ)
  | infinite (negative : Bool)
  deriving DecidableEq

inductive JsValue where
  | null
  | bool (b : Bool)
  | number (n : JsNumber)
  | string (s : String)
  | array (items : List JsValue)
  | object (fields : List (String × JsValue))

namespace JsNumber

/-- `Number.isInteger(n) && lo <= n && n <= hi`, with the integer. -/
def integerIn (lo hi : ℕ) : JsNumber → Option ℕ
  | .finite q =>
    if q.den = 1 ∧ (lo : ℤ) ≤ q.num ∧ q.num ≤ hi then some q.num.toNat else none
  | .infinite _ => none

theorem integerIn_bounds {lo hi k : ℕ} {n : JsNumber} (h : n.integerIn lo hi = some k) :
    lo ≤ k ∧ k ≤ hi := by
  cases n with
  | finite q =>
    simp only [integerIn] at h
    split at h
    · obtain rfl := Option.some.inj h
      omega
    · cases h
  | infinite _ => cases h

end JsNumber

namespace JsValue

/-- `value.name` for a property name that no prototype has: of two fields with the name, the
later one. Reading a property of `null` throws and is `none` as well. -/
def field (name : String) : JsValue → Option JsValue
  | .object fields => (fields.reverse.find? fun f => f.1 = name).map Prod.snd
  | _ => none

def truthy : JsValue → Bool
  | .null => false
  | .bool b => b
  | .number (.finite q) => q ≠ 0
  | .number (.infinite _) => true
  | .string s => !s.isEmpty
  | .array _ => true
  | .object _ => true

mutual

/-- `String(value)`: `none` when the conversion throws. The text of a number is the
platform's. -/
def toText (numberText : JsNumber → String) : JsValue → Option String
  | .null => some "null"
  | .bool b => some (if b then "true" else "false")
  | .number n => some (numberText n)
  | .string s => some s
  | .array items => (itemTexts numberText items).map (",".intercalate ·)
  | .object fields => if fields.any (·.1 = "toString") then none else some "[object Object]"

/-- The texts that `Array.prototype.join` puts together. -/
def itemTexts (numberText : JsNumber → String) : List JsValue → Option (List String)
  | [] => some []
  | .null :: items => (itemTexts numberText items).map ("" :: ·)
  | item :: items => do
    let text ← toText numberText item
    let texts ← itemTexts numberText items
    return text :: texts

end

mutual

/-- The conversion to a string does not throw. -/
def hasText : JsValue → Bool
  | .array items => itemsHaveText items
  | .object fields => !fields.any (·.1 = "toString")
  | _ => true

def itemsHaveText : List JsValue → Bool
  | [] => true
  | item :: items => hasText item && itemsHaveText items

end

mutual

theorem isSome_toText (numberText : JsNumber → String) :
    ∀ value : JsValue, (toText numberText value).isSome = value.hasText
  | .null => rfl
  | .bool _ => rfl
  | .number _ => rfl
  | .string _ => rfl
  | .array items => by simp [toText, hasText, isSome_itemTexts numberText items]
  | .object fields => by
    simp only [toText, hasText]
    split
    · next h => simp [h]
    · next h => simp [h]

theorem isSome_itemTexts (numberText : JsNumber → String) :
    ∀ items : List JsValue, (itemTexts numberText items).isSome = itemsHaveText items
  | [] => rfl
  | item :: items => by
    have hitem := isSome_toText numberText item
    have hitems := isSome_itemTexts numberText items
    cases item with
    | null => simpa [itemTexts, itemsHaveText, hasText] using hitems
    | _ =>
      simp only [itemTexts, itemsHaveText, ← hitem, ← hitems]
      generalize toText numberText _ = text
      cases text <;> cases itemTexts numberText items <;> rfl

end

end JsValue
