import Mathlib.Data.Option.Basic
import Mathlib.Data.List.Basic

/-!
# Reading JSON strings

The string literals of JSON, over the characters of a text. `readItem` reads what stands for
one character of the string: itself, an escape, or a `\u` escape with its surrogate pair.
`readString` reads the items up to the closing quote. A writer of JSON is verified item by
item: `Writes text c` says that `text` stands for the character `c` wherever it occurs in a
string, and `readString_writes` puts the items together.
-/

namespace JsonString

open List

def hexDigitValue (c : Char) : Option ℕ :=
  if '0' ≤ c ∧ c ≤ '9' then some (c.toNat - 48)
  else if 'a' ≤ c ∧ c ≤ 'f' then some (c.toNat - 87)
  else if 'A' ≤ c ∧ c ≤ 'F' then some (c.toNat - 55)
  else none

/-- The four digits of a `\u` escape. -/
def hexEscape (a b c d : Char) : Option ℕ := do
  return (((← hexDigitValue a) * 16 + (← hexDigitValue b)) * 16 + (← hexDigitValue c)) * 16 +
    (← hexDigitValue d)

inductive Item where
  | close (rest : List Char)
  | char (c : Char) (rest : List Char)
  | invalid
  deriving DecidableEq

/-- What a `\u` escape of code unit `n` stands for, with the text after it. -/
def readCodeUnit (n : ℕ) (rest : List Char) : Item :=
  if 0xDC00 ≤ n ∧ n ≤ 0xDFFF then .invalid
  else if 0xD800 ≤ n ∧ n ≤ 0xDBFF then
    match rest with
    | '\\' :: 'u' :: a :: b :: c :: d :: rest =>
      match hexEscape a b c d with
      | some low =>
        if 0xDC00 ≤ low ∧ low ≤ 0xDFFF then
          .char (Char.ofNat (0x10000 + (n - 0xD800) * 0x400 + (low - 0xDC00))) rest
        else .invalid
      | none => .invalid
    | _ => .invalid
  else .char (Char.ofNat n) rest

/-- The escapes of one letter. -/
def simpleEscape (c : Char) : Option Char :=
  if c = '"' then some '"'
  else if c = '\\' then some '\\'
  else if c = '/' then some '/'
  else if c = 'b' then some (Char.ofNat 8)
  else if c = 'f' then some (Char.ofNat 12)
  else if c = 'n' then some '\n'
  else if c = 'r' then some '\r'
  else if c = 't' then some '\t'
  else none

def readEscape : List Char → Item
  | 'u' :: a :: b :: c :: d :: rest =>
    match hexEscape a b c d with
    | some n => readCodeUnit n rest
    | none => .invalid
  | c :: rest =>
    match simpleEscape c with
    | some e => .char e rest
    | none => .invalid
  | [] => .invalid

def readItem : List Char → Item
  | [] => .invalid
  | c :: rest =>
    if c = '"' then .close rest
    else if c = '\\' then readEscape rest
    else if c.toNat < 0x20 then .invalid
    else .char c rest

/-- The string up to the closing quote and the text after it, in at most `fuel` items. -/
def readString : ℕ → List Char → Option (List Char × List Char)
  | 0, _ => none
  | fuel + 1, text =>
    match readItem text with
    | .close rest => some ([], rest)
    | .char c rest => (readString fuel rest).map fun (s, rest) => (c :: s, rest)
    | .invalid => none

/-! ### Writers -/

/-- The text stands for the character, whatever follows it. -/
def Writes (text : List Char) (c : Char) : Prop := ∀ rest, readItem (text ++ rest) = .char c rest

theorem readString_cons {text : List Char} {c : Char} (h : Writes text c) (fuel : ℕ)
    (rest : List Char) :
    readString (fuel + 1) (text ++ rest) =
      (readString fuel rest).map fun (s, rest) => (c :: s, rest) := by
  rw [readString, h rest]

/-- **A string written item by item is read back.** -/
theorem readString_writes {items : List (List Char × Char)}
    (h : ∀ item ∈ items, Writes item.1 item.2) {fuel : ℕ} (hfuel : items.length < fuel)
    (rest : List Char) :
    readString fuel (items.flatMap Prod.fst ++ '"' :: rest) = some (items.map Prod.snd, rest) := by
  induction items generalizing fuel with
  | nil =>
    obtain ⟨n, rfl⟩ : ∃ n, fuel = n + 1 := ⟨fuel - 1, by omega⟩
    rfl
  | cons item items ih =>
    obtain ⟨n, rfl⟩ : ∃ n, fuel = n + 1 := ⟨fuel - 1, by omega⟩
    have hrest := @ih (fun i hi => h i (mem_cons_of_mem _ hi)) n (by simp at hfuel; omega)
    rw [flatMap_cons, append_assoc, readString_cons (h item mem_cons_self), hrest]
    rfl

/-- A character that needs no escape stands for itself. -/
theorem writes_self {c : Char} (hquote : c ≠ '"') (hslash : c ≠ '\\') (hcontrol : 0x20 ≤ c.toNat) :
    Writes [c] c := by
  intro rest
  simp [readItem, hquote, hslash, Nat.not_lt.mpr hcontrol]

theorem writes_simple {c e : Char} (hu : c ≠ 'u') (h : simpleEscape c = some e) :
    Writes ['\\', c] e := by
  intro rest
  have hescape : readEscape (c :: rest) = .char e rest := by
    unfold readEscape
    split
    · next heq => exact absurd (cons.inj heq).1 hu
    · next heq =>
      obtain ⟨rfl, rfl⟩ := cons.inj heq
      rw [h]
    · next heq => cases heq
  simpa [readItem] using hescape

theorem writes_hex {a b c d : Char} {n : ℕ} (h : hexEscape a b c d = some n) (hn : n < 0xD800) :
    Writes ['\\', 'u', a, b, c, d] (Char.ofNat n) := by
  intro rest
  have hunit : readCodeUnit n rest = .char (Char.ofNat n) rest := by
    unfold readCodeUnit
    rw [if_neg (by omega), if_neg (by omega)]
  have hescape : readEscape ('u' :: a :: b :: c :: d :: rest) =
      match hexEscape a b c d with
      | some n => readCodeUnit n rest
      | none => .invalid := rfl
  rw [h] at hescape
  exact hescape.trans hunit

end JsonString
