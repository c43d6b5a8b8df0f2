import AgentSight.Lib.JsonString

/-!
# Reading JSON texts

A reader for whole JSON texts. A number is kept as it is written and the members of an object
in the order they are written, so that what is read says what was printed. A value that is
written without nesting is verified on its own: `Reads text value` says that `text` stands for
`value` before anything that may follow a value, and `readMembers_members` puts the members of
an object together.
-/

namespace JsonText

open JsonString (readString Writes)
open List Option JsonString

inductive Value where
  | null
  | bool (b : Bool)
  | number (text : List Char)
  | string (s : List Char)
  | array (items : List Value)
  | object (members : List (List Char × Value))

def isSpace (c : Char) : Bool := c = ' ' || c = '\n' || c = '\r' || c = '\t'

def skipSpace (text : List Char) : List Char := text.dropWhile isSpace

/-! ### Numbers -/

def readInt : List Char → Option (List Char × List Char)
  | '0' :: rest => some (['0'], rest)
  | c :: rest =>
    if c.isDigit then some (c :: rest.takeWhile Char.isDigit, rest.dropWhile Char.isDigit)
    else none
  | [] => none

/-- At least one digit after what was read already. -/
def readDigits (before rest : List Char) : Option (List Char × List Char) :=
  if rest.takeWhile Char.isDigit = [] then none
  else some (before ++ rest.takeWhile Char.isDigit, rest.dropWhile Char.isDigit)

def readFraction : List Char → Option (List Char × List Char)
  | '.' :: rest => readDigits ['.'] rest
  | rest => some ([], rest)

def readExponent : List Char → Option (List Char × List Char)
  | 'e' :: '+' :: rest => readDigits ['e', '+'] rest
  | 'e' :: '-' :: rest => readDigits ['e', '-'] rest
  | 'e' :: rest => readDigits ['e'] rest
  | 'E' :: '+' :: rest => readDigits ['E', '+'] rest
  | 'E' :: '-' :: rest => readDigits ['E', '-'] rest
  | 'E' :: rest => readDigits ['E'] rest
  | rest => some ([], rest)

def readMagnitude (text : List Char) : Option (List Char × List Char) := do
  let (whole, rest) ← readInt text
  let (fraction, rest) ← readFraction rest
  let (exponent, rest) ← readExponent rest
  return (whole ++ fraction ++ exponent, rest)

def readNumber : List Char → Option (List Char × List Char)
  | '-' :: rest => (readMagnitude rest).map fun (text, rest) => ('-' :: text, rest)
  | text => readMagnitude text

/-! ### Values -/

mutual

/-- A value and the text after it, in at most `fuel` levels and items. -/
def readValue : ℕ → List Char → Option (Value × List Char)
  | 0, _ => none
  | fuel + 1, text =>
    match skipSpace text with
    | 'n' :: 'u' :: 'l' :: 'l' :: rest => some (.null, rest)
    | 't' :: 'r' :: 'u' :: 'e' :: rest => some (.bool true, rest)
    | 'f' :: 'a' :: 'l' :: 's' :: 'e' :: rest => some (.bool false, rest)
    | '"' :: rest => (readString (rest.length + 1) rest).map fun (s, rest) => (.string s, rest)
    | '[' :: rest =>
      match skipSpace rest with
      | ']' :: rest => some (.array [], rest)
      | _ => (readItems fuel rest).map fun (items, rest) => (.array items, rest)
    | '\x7b' :: rest =>
      match skipSpace rest with
      | '\x7d' :: rest => some (.object [], rest)
      | _ => (readMembers fuel rest).map fun (members, rest) => (.object members, rest)
    | text => (readNumber text).map fun (text, rest) => (.number text, rest)

/-- One or more items of an array, up to the closing bracket. -/
def readItems : ℕ → List Char → Option (List Value × List Char)
  | 0, _ => none
  | fuel + 1, text =>
    match readValue fuel text with
    | some (value, rest) =>
      match skipSpace rest with
      | ',' :: rest => (readItems fuel rest).map fun (items, rest) => (value :: items, rest)
      | ']' :: rest => some ([value], rest)
      | _ => none
    | none => none

/-- One or more members of an object, up to the closing brace. -/
def readMembers : ℕ → List Char → Option (List (List Char × Value) × List Char)
  | 0, _ => none
  | fuel + 1, text =>
    match skipSpace text with
    | '"' :: rest =>
      match readString (rest.length + 1) rest with
      | some (key, rest) =>
        match skipSpace rest with
        | ':' :: rest =>
          match readValue fuel rest with
          | some (value, rest) =>
            match skipSpace rest with
            | ',' :: rest =>
              (readMembers fuel rest).map fun (members, rest) => ((key, value) :: members, rest)
            | '\x7d' :: rest => some ([(key, value)], rest)
            | _ => none
          | none => none
        | _ => none
      | none => none
    | _ => none

end

/-- The value that a whole text is. -/
def read (text : List Char) : Option Value :=
  match readValue (text.length + 1) text with
  | some (value, rest) => if skipSpace rest = [] then some value else none
  | none => none

/-! ### What may follow a value -/

/-- The text goes on as it may after a value that is an item or a member. -/
def Follows (rest : List Char) : Prop :=
  ∃ c rest', rest = c :: rest' ∧ (c = ',' ∨ c = ']' ∨ c = '\x7d')

/-- The text stands for the value, before anything that may follow a value. -/
def Reads (text : List Char) (value : Value) : Prop :=
  ∀ fuel rest, Follows rest → readValue (fuel + 1) (text ++ rest) = some (value, rest)

variable {c e : Char}

theorem skipSpace_cons (h : isSpace c = false) (rest : List Char) :
    skipSpace (c :: rest) = c :: rest := by
  simp [skipSpace, h]

theorem reads_null : Reads ['n', 'u', 'l', 'l'] .null := fun _ _ _ => rfl

theorem reads_true : Reads ['t', 'r', 'u', 'e'] (.bool true) := fun _ _ _ => rfl

theorem reads_false : Reads ['f', 'a', 'l', 's', 'e'] (.bool false) := fun _ _ _ => rfl

/-! ### Numbers that are read -/

/-- One or more digits. -/
def IsDigits (text : List Char) : Prop := text ≠ [] ∧ ∀ c ∈ text, c.isDigit = true

/-- The digits of a whole number: zero has one, every other starts with another digit. -/
def IsWhole (text : List Char) : Prop :=
  IsDigits text ∧ ∀ rest, text = '0' :: rest → rest = []

/-- The text goes on with something else than a digit. -/
def NoDigit (rest : List Char) : Prop := ∀ c ∈ rest.head?, c.isDigit = false

theorem noDigit_of_follows {rest : List Char} (h : Follows rest) : NoDigit rest := by
  obtain ⟨c, rest, rfl, hc⟩ := h
  intro d hd
  obtain rfl : c = d := by simpa using hd
  obtain rfl | rfl | rfl := hc <;> rfl

theorem takeWhile_digits {text rest : List Char} (h : ∀ c ∈ text, c.isDigit = true)
    (hrest : NoDigit rest) : (text ++ rest).takeWhile Char.isDigit = text := by
  have hnone : rest.takeWhile Char.isDigit = [] := by
    cases rest with
    | nil => rfl
    | cons c rest => simp [hrest c rfl]
  rw [takeWhile_append_of_pos h, hnone, append_nil]

theorem dropWhile_digits {text rest : List Char} (h : ∀ c ∈ text, c.isDigit = true)
    (hrest : NoDigit rest) : (text ++ rest).dropWhile Char.isDigit = rest := by
  have hnone : rest.dropWhile Char.isDigit = rest := by
    cases rest with
    | nil => rfl
    | cons c rest => simp [hrest c rfl]
  rw [dropWhile_append_of_pos h, hnone]

theorem readInt_whole {text rest : List Char} (h : IsWhole text) (hrest : NoDigit rest) :
    readInt (text ++ rest) = some (text, rest) := by
  obtain ⟨⟨hne, hdigits⟩, hzero⟩ := h
  obtain ⟨c, text, rfl⟩ := exists_cons_of_ne_nil hne
  by_cases hc : c = '0'
  · subst hc
    obtain rfl := hzero text rfl
    rfl
  · have htail : ∀ d ∈ text, d.isDigit = true := fun d hd => hdigits d (mem_cons_of_mem _ hd)
    have hhead := hdigits c mem_cons_self
    rw [cons_append]
    unfold readInt
    split
    · next heq => exact absurd (cons.inj heq).1 hc
    · next heq =>
      obtain ⟨rfl, rfl⟩ := cons.inj heq
      rw [if_pos hhead, takeWhile_digits htail hrest, dropWhile_digits htail hrest]
    · next heq => cases heq

theorem readDigits_digits {text rest : List Char} (h : IsDigits text) (hrest : NoDigit rest)
    (before : List Char) : readDigits before (text ++ rest) = some (before ++ text, rest) := by
  rw [readDigits, takeWhile_digits h.2 hrest, dropWhile_digits h.2 hrest, if_neg h.1]

theorem readExponent_of_follows {rest : List Char} (h : Follows rest) :
    readExponent rest = some ([], rest) := by
  obtain ⟨c, rest, rfl, rfl | rfl | rfl⟩ := h <;> rfl

theorem readFraction_of_follows {rest : List Char} (h : Follows rest) :
    readFraction rest = some ([], rest) := by
  obtain ⟨c, rest, rfl, rfl | rfl | rfl⟩ := h <;> rfl

theorem readMagnitude_whole {text rest : List Char} (h : IsWhole text) (hrest : Follows rest) :
    readMagnitude (text ++ rest) = some (text, rest) := by
  simp [readMagnitude, readInt_whole h (noDigit_of_follows hrest), readFraction_of_follows hrest,
    readExponent_of_follows hrest]

theorem readMagnitude_fixed {text fraction rest : List Char} (h : IsWhole text)
    (hfraction : IsDigits fraction) (hrest : Follows rest) :
    readMagnitude (text ++ '.' :: fraction ++ rest) = some (text ++ '.' :: fraction, rest) := by
  have hpoint : NoDigit ('.' :: (fraction ++ rest)) := by
    intro c hc
    obtain rfl : '.' = c := by simpa using hc
    rfl
  have hdigits := readDigits_digits hfraction (noDigit_of_follows hrest) ['.']
  have hsplit : text ++ '.' :: fraction ++ rest = text ++ '.' :: (fraction ++ rest) := by simp
  rw [hsplit, readMagnitude, readInt_whole h hpoint]
  simp [readFraction, hdigits, readExponent_of_follows hrest]

/-- What starts with a digit is a number. -/
theorem reads_of_digit {text : List Char} (hc : c.isDigit = true)
    (h : ∀ rest, Follows rest → readMagnitude (c :: text ++ rest) = some (c :: text, rest)) :
    Reads (c :: text) (.number (c :: text)) := by
  have hne : ∀ d : Char, d.isDigit = false → c ≠ d := by
    rintro d hd rfl
    rw [hc] at hd
    cases hd
  have hspace : isSpace c = false := by
    simp [isSpace, hne ' ' rfl, hne '\n' rfl, hne '\r' rfl, hne '\t' rfl]
  intro fuel rest hrest
  have hmagnitude : readNumber (c :: (text ++ rest)) = readMagnitude (c :: (text ++ rest)) := by
    unfold readNumber
    split
    · next heq => exact absurd (cons.inj heq).1 (hne '-' rfl)
    · rfl
  rw [cons_append, readValue, skipSpace_cons hspace]
  split
  · next heq => exact absurd (cons.inj heq).1 (hne 'n' rfl)
  · next heq => exact absurd (cons.inj heq).1 (hne 't' rfl)
  · next heq => exact absurd (cons.inj heq).1 (hne 'f' rfl)
  · next heq => exact absurd (cons.inj heq).1 (hne '"' rfl)
  · next heq => exact absurd (cons.inj heq).1 (hne '[' rfl)
  · next heq => exact absurd (cons.inj heq).1 (hne '\x7b' rfl)
  · rw [hmagnitude, ← cons_append, h rest hrest]
    rfl

theorem reads_whole {text : List Char} (h : IsWhole text) : Reads text (.number text) := by
  obtain ⟨c, text, rfl⟩ := exists_cons_of_ne_nil h.1.1
  exact reads_of_digit (h.1.2 c mem_cons_self) fun rest hrest => readMagnitude_whole h hrest

theorem reads_fixed {text fraction : List Char} (h : IsWhole text) (hfraction : IsDigits fraction) :
    Reads (text ++ '.' :: fraction) (.number (text ++ '.' :: fraction)) := by
  obtain ⟨c, text, rfl⟩ := exists_cons_of_ne_nil h.1.1
  exact reads_of_digit (h.1.2 c mem_cons_self) fun rest hrest =>
    readMagnitude_fixed h hfraction hrest

theorem reads_negative {text : List Char} (h : IsWhole text) :
    Reads ('-' :: text) (.number ('-' :: text)) := by
  intro fuel rest hrest
  have hvalue : readValue (fuel + 1) ('-' :: (text ++ rest)) =
      (readNumber ('-' :: (text ++ rest))).map fun (text, rest) => (.number text, rest) := rfl
  rw [cons_append, hvalue, readNumber, readMagnitude_whole h hrest]
  rfl

theorem digitChar_ne_zero : ∀ n < 10, 0 < n → Nat.digitChar n ≠ '0' := by decide

theorem head_toDigits_ne_zero {n : ℕ} (hn : 0 < n) : ∀ c ∈ (Nat.toDigits 10 n).head?, c ≠ '0' := by
  induction n using Nat.strongRecOn with
  | _ n ih =>
    intro c hc
    by_cases hlt : n < 10
    · rw [Nat.toDigits_of_lt_base hlt] at hc
      obtain rfl : n.digitChar = c := by simpa using hc
      exact digitChar_ne_zero n hlt hn
    · rw [Nat.toDigits_of_base_le (by decide) (by omega),
        head?_append_of_ne_nil _ Nat.toDigits_ne_nil] at hc
      exact ih (n / 10) (by omega) (by omega) c hc

/-- The digits of a number are those of a whole number. -/
theorem isWhole_toDigits (n : ℕ) : IsWhole (Nat.toDigits 10 n) := by
  refine ⟨⟨Nat.toDigits_ne_nil, fun c hc => Nat.isDigit_of_mem_toDigits (by decide) (by decide) hc⟩,
    fun rest hrest => ?_⟩
  obtain rfl | hn := Nat.eq_zero_or_pos n
  · exact (cons.inj hrest).2.symm
  · exact absurd rfl (head_toDigits_ne_zero hn '0' (by rw [hrest]; rfl))

/-! ### Strings -/

/-- A character that stands for itself in a string. -/
def IsPlain (c : Char) : Prop := c ≠ '"' ∧ c ≠ '\\' ∧ 0x20 ≤ c.toNat

instance : DecidablePred IsPlain := fun c =>
  inferInstanceAs (Decidable (c ≠ '"' ∧ c ≠ '\\' ∧ 0x20 ≤ c.toNat))

theorem readString_plain {s : List Char} (h : ∀ c ∈ s, IsPlain c) {fuel : ℕ}
    (hfuel : s.length < fuel) (rest : List Char) :
    readString fuel (s ++ '"' :: rest) = some (s, rest) := by
  have hwrites : ∀ item ∈ s.map fun c => ([c], c), Writes item.1 item.2 := by
    intro item hitem
    obtain ⟨c, hc, rfl⟩ := mem_map.mp hitem
    obtain ⟨hquote, hslash, hcontrol⟩ := h c hc
    exact JsonString.writes_self hquote hslash hcontrol
  have hread := JsonString.readString_writes hwrites (by simpa using hfuel) rest
  simpa [flatMap_map, Function.comp_def] using hread

variable {items : List (List Char × Char)}

/-- The items of a string have at least one character each. -/
theorem length_items (h : ∀ item ∈ items, Writes item.1 item.2) :
    items.length ≤ (items.flatMap Prod.fst).length := by
  induction items with
  | nil => exact Nat.le_refl 0
  | cons item items ih =>
    have hnil : item.1 ≠ [] := by
      intro hnil
      have hinvalid := h item mem_cons_self []
      rw [hnil] at hinvalid
      cases hinvalid
    have hpos := length_pos_iff.mpr hnil
    have hrest := ih fun i hi => h i (mem_cons_of_mem _ hi)
    simp only [flatMap_cons, length_append, length_cons]
    omega

theorem readValue_string (fuel : ℕ) (text : List Char) : readValue (fuel + 1) ('"' :: text) =
      (readString (text.length + 1) text).map fun (s, rest) => (.string s, rest) := rfl

theorem reads_string (h : ∀ item ∈ items, Writes item.1 item.2) :
    Reads ('"' :: items.flatMap Prod.fst ++ ['"']) (.string (items.map Prod.snd)) := by
  intro fuel rest _
  have hlen := length_items h
  have hsplit : '"' :: items.flatMap Prod.fst ++ ['"'] ++ rest =
      '"' :: (items.flatMap Prod.fst ++ '"' :: rest) := by simp
  rw [hsplit, readValue_string, readString_writes h (by simp only [length_append]; omega)]
  rfl

/-- A control character after the items of a string. -/
theorem readString_control
    (h : ∀ item ∈ items, Writes item.1 item.2) (hc : c.toNat < 0x20) (fuel : ℕ)
    (rest : List Char) : readString fuel (items.flatMap Prod.fst ++ c :: rest) = none := by
  induction items generalizing fuel with
  | nil =>
    have hquote : c ≠ '"' := by
      rintro rfl
      revert hc
      decide
    have hslash : c ≠ '\\' := by
      rintro rfl
      revert hc
      decide
    cases fuel with
    | zero => rfl
    | succ fuel => simp [readString, readItem, hquote, hslash, hc]
  | cons item items ih =>
    cases fuel with
    | zero => rfl
    | succ fuel =>
      rw [flatMap_cons, append_assoc,
        readString_cons (h item mem_cons_self),
        ih fun i hi => h i (mem_cons_of_mem _ hi)]
      rfl

/-! ### Strings that are not written as they are -/

theorem hexEscape_some {a b d : Char} {n : ℕ} (h : JsonString.hexEscape a b c d = some n) :
    '"' ∉ [a, b, c, d] := by
  have hquote : JsonString.hexDigitValue '"' = none := by decide
  intro hmem
  simp only [mem_cons, not_mem_nil, or_false] at hmem
  simp only [hexEscape] at h
  obtain rfl | rfl | rfl | rfl := hmem <;> simp [hquote] at h

theorem readCodeUnit_char {n : ℕ} {text rest : List Char}
    (h : JsonString.readCodeUnit n text = .char e rest) :
    ∃ item, text = item ++ rest ∧ '"' ∉ item := by
  unfold readCodeUnit at h
  split at h
  · cases h
  split at h
  · split at h
    · next a b c d text =>
      split at h
      · next low hlow =>
        split at h
        · obtain ⟨-, rfl⟩ := JsonString.Item.char.inj h
          refine ⟨['\\', 'u', a, b, c, d], rfl, ?_⟩
          simpa using hexEscape_some hlow
        · cases h
      · cases h
    · cases h
  · obtain ⟨-, rfl⟩ := JsonString.Item.char.inj h
    exact ⟨[], rfl, not_mem_nil⟩

theorem readEscape_char {text rest : List Char} (h : JsonString.readEscape text = .char e rest) :
    (∃ item, text = item ++ rest ∧ item ≠ [] ∧ '"' ∉ item) ∨ text = '"' :: rest := by
  unfold readEscape at h
  split at h
  · next a b c d text =>
    split at h
    · next n hn =>
      obtain ⟨item, rfl, hitem⟩ := readCodeUnit_char h
      refine .inl ⟨'u' :: a :: b :: c :: d :: item, rfl, cons_ne_nil _ _, ?_⟩
      have hdigits := hexEscape_some hn
      simp only [mem_cons, not_mem_nil, or_false, not_or] at hdigits ⊢
      simp [hdigits, hitem]
    · cases h
  · next c text _ =>
    split at h
    · obtain ⟨-, rfl⟩ := JsonString.Item.char.inj h
      by_cases hc : c = '"'
      · exact .inr (by rw [hc])
      · exact .inl ⟨[c], rfl, cons_ne_nil _ _, by simpa [eq_comm] using hc⟩
    · cases h
  · cases h

/-- **An item of a string** is a plain character, an escape that the closing quote cannot stand
in, or an escaped quote. -/
theorem readItem_char {text rest : List Char} (h : JsonString.readItem text = .char e rest) :
    (IsPlain e ∧ text = e :: rest) ∨
      (∃ item, text = '\\' :: item ++ rest ∧ item ≠ [] ∧ '"' ∉ item) ∨
      text = '\\' :: '"' :: rest := by
  cases text with
  | nil => cases h
  | cons c text =>
    rw [readItem] at h
    by_cases hquote : c = '"'
    · rw [if_pos hquote] at h
      cases h
    by_cases hslash : c = '\\'
    · subst hslash
      obtain ⟨item, rfl, hitem⟩ | rfl := readEscape_char h
      · exact .inr (.inl ⟨item, rfl, hitem⟩)
      · exact .inr (.inr rfl)
    by_cases hcontrol : c.toNat < 0x20
    · rw [if_neg hquote, if_neg hslash, if_pos hcontrol] at h
      cases h
    · rw [if_neg hquote, if_neg hslash, if_neg hcontrol] at h
      obtain ⟨rfl, rfl⟩ := JsonString.Item.char.inj h
      exact .inl ⟨⟨hquote, hslash, Nat.not_lt.mp hcontrol⟩, rfl⟩

/-- What holds no quote and starts a text is a part of what stands before the first quote. -/
theorem append_eq_append_quote {item rest s after : List Char} (hitem : '"' ∉ item)
    (h : s ++ '"' :: after = item ++ rest) : ∃ s', s = item ++ s' ∧ rest = s' ++ '"' :: after := by
  obtain ⟨l, rfl, hquote⟩ | ⟨s', rfl, hrest⟩ := append_eq_append_iff.mp h
  · cases l with
    | nil => exact ⟨[], by simp, hquote.symm⟩
    | cons c l =>
      obtain ⟨rfl, -⟩ := cons.inj hquote
      simp at hitem
  · exact ⟨s', rfl, hrest⟩

/-- The text goes on as it does after a member. -/
def FollowsMember (rest : List Char) : Prop := rest = ['\x7d'] ∨ ∃ next, rest = ',' :: '"' :: next

/-- What a string printed without escapes is read as: itself, when every character is plain;
otherwise it is shorter, or the closing quote is taken for a part of it. -/
def RawRead (s read : List Char) : Prop :=
  (∀ c ∈ s, IsPlain c) ∧ read = s ∨ read.length < s.length ∨
    s.getLast? = some '\\' ∧ read.getLast? = some ','

theorem RawRead.plain {s read : List Char} (h : RawRead s read) (hc : IsPlain c) :
    RawRead (c :: s) (c :: read) := by
  obtain ⟨hplain, rfl⟩ | hlt | ⟨hslash, hcomma⟩ := h
  · exact .inl ⟨forall_mem_cons.mpr ⟨hc, hplain⟩, rfl⟩
  · exact .inr (.inl (by simpa using hlt))
  · exact .inr (.inr ⟨by simp [getLast?_cons, hslash], by simp [getLast?_cons, hcomma]⟩)

/-- An escape is read as one character. -/
theorem RawRead.escape {s read : List Char} (h : RawRead s read) (item : List Char)
    (hitem : 2 ≤ item.length) (e : Char) : RawRead (item ++ s) (e :: read) := by
  obtain ⟨-, rfl⟩ | hlt | ⟨hslash, hcomma⟩ := h
  · exact .inr (.inl (by simp only [length_append, length_cons]; omega))
  · exact .inr (.inl (by simp only [length_append, length_cons]; omega))
  · exact .inr (.inr ⟨by simp [hslash], by simp [getLast?_cons, hcomma]⟩)

theorem readString_after {after : List Char} (hafter : FollowsMember after) {fuel : ℕ}
    {read rest : List Char} (h : readString fuel after = some (read, rest)) : read = [','] := by
  obtain rfl | ⟨next, rfl⟩ := hafter
  · match fuel, h with
    | 0, h => cases h
    | 1, h => cases h
    | n + 2, h => cases h
  · match fuel, h with
    | 0, h => cases h
    | 1, h => cases h
    | n + 2, h =>
      obtain ⟨rfl, -⟩ := Prod.mk.inj (some_inj.mp h)
      rfl

theorem rawRead_of_readString {s after : List Char} (hafter : FollowsMember after) {fuel : ℕ}
    {read rest : List Char} (h : readString fuel (s ++ '"' :: after) = some (read, rest)) :
    RawRead s read := by
  induction fuel generalizing s read with
  | zero => cases h
  | succ fuel ih =>
    rw [readString] at h
    split at h
    · obtain ⟨rfl, -⟩ := Prod.mk.inj (some_inj.mp h)
      cases s with
      | nil => exact .inl ⟨by simp, rfl⟩
      | cons c s => exact .inr (.inl (by simp))
    · next e text hitem =>
      obtain ⟨⟨read', rest'⟩, htail, heq⟩ := map_eq_some_iff.mp h
      obtain ⟨rfl, rfl⟩ := Prod.mk.inj heq
      obtain ⟨hplain, htext⟩ | ⟨item, htext, hne, hquote⟩ | htext := readItem_char hitem
      · cases s with
        | nil => exact absurd (cons.inj htext).1.symm hplain.1
        | cons c s =>
          obtain ⟨rfl, rfl⟩ := cons.inj htext
          exact (ih htail).plain hplain
      · have hslash : '"' ∉ '\\' :: item := by simp [hquote]
        obtain ⟨s', rfl, rfl⟩ := append_eq_append_quote hslash htext
        have hpos := length_pos_iff.mpr hne
        exact (ih htail).escape ('\\' :: item) (Nat.succ_le_succ hpos) e
      · obtain _ | ⟨c, _ | ⟨d, s⟩⟩ := s
        · cases htext
        · obtain ⟨rfl, htail'⟩ := cons.inj htext
          obtain ⟨-, rfl⟩ := cons.inj htail'
          rw [readString_after hafter htail]
          exact .inr (.inr ⟨rfl, rfl⟩)
        · obtain ⟨rfl, htail'⟩ := cons.inj htext
          obtain ⟨rfl, rfl⟩ := cons.inj htail'
          exact (ih htail).escape ['\\', '"'] (Nat.le_refl 2) e
    · cases h

/-- **A string printed without escapes is read as it is only when every character is plain.** -/
theorem plain_of_readString {s after : List Char} (hafter : FollowsMember after) {fuel : ℕ}
    {rest : List Char} (h : readString fuel (s ++ '"' :: after) = some (s, rest)) :
    ∀ c ∈ s, IsPlain c := by
  obtain ⟨hplain, -⟩ | hlt | ⟨hslash, hcomma⟩ := rawRead_of_readString hafter h
  · exact hplain
  · exact absurd hlt (Nat.lt_irrefl _)
  · rw [hslash] at hcomma
    cases hcomma

/-! ### Objects -/

section Object

variable {α : Type*} (key text : α → List Char)

def memberText (a : α) : List Char := '"' :: key a ++ '"' :: ':' :: text a

/-- The members with commas between them. -/
def membersText : List α → List Char
  | [] => []
  | [a] => memberText key text a
  | a :: b :: rest => memberText key text a ++ ',' :: membersText (b :: rest)

def objectText (members : List α) : List Char :=
  '\x7b' :: membersText key text members ++ ['\x7d']

theorem FollowsMember.follows {rest : List Char} (h : FollowsMember rest) : Follows rest := by
  obtain rfl | ⟨next, rfl⟩ := h
  · exact ⟨'\x7d', [], rfl, .inr (.inr rfl)⟩
  · exact ⟨',', _, rfl, .inl rfl⟩

/-- The text after a member, with the members that are left. -/
def restText : List α → List Char
  | [] => ['\x7d']
  | a :: members => ',' :: (membersText key text (a :: members) ++ ['\x7d'])

theorem membersText_cons (a : α) (members : List α) :
    membersText key text (a :: members) ++ ['\x7d'] =
      memberText key text a ++ restText key text members := by
  cases members with
  | nil => rfl
  | cons b members => simp [membersText, restText]

theorem followsMember_restText (members : List α) : FollowsMember (restText key text members) := by
  match members with
  | [] => exact .inl rfl
  | [a] => exact .inr ⟨_, rfl⟩
  | a :: b :: members => exact .inr ⟨_, rfl⟩

variable {key text}

/-- Reading a member comes down to reading its value. -/
theorem readMembers_member {a : α} (hkey : ∀ c ∈ key a, IsPlain c) (fuel : ℕ) (rest : List Char) :
    readMembers (fuel + 1) (memberText key text a ++ rest) =
      match readValue fuel (text a ++ rest) with
      | some (value, rest) =>
        match skipSpace rest with
        | ',' :: rest =>
          (readMembers fuel rest).map fun (members, rest) => ((key a, value) :: members, rest)
        | '\x7d' :: rest => some ([(key a, value)], rest)
        | _ => none
      | none => none := by
  have hsplit : memberText key text a ++ rest =
      '"' :: (key a ++ '"' :: ':' :: (text a ++ rest)) := by simp [memberText]
  have hread : readString ((key a ++ '"' :: ':' :: (text a ++ rest)).length + 1)
      (key a ++ '"' :: ':' :: (text a ++ rest)) = some (key a, ':' :: (text a ++ rest)) :=
    readString_plain hkey (by simp only [length_append]; omega) _
  have hquote : skipSpace ('"' :: (key a ++ '"' :: ':' :: (text a ++ rest))) =
      '"' :: (key a ++ '"' :: ':' :: (text a ++ rest)) := rfl
  have hcolon : skipSpace (':' :: (text a ++ rest)) = ':' :: (text a ++ rest) := rfl
  rw [hsplit, readMembers, hquote]
  simp only [hread, hcolon]

/-- A member whose value is read, and what is read of the members after it. -/
theorem readMembers_cons {a : α} (hkey : ∀ c ∈ key a, IsPlain c) {value : Value}
    (h : Reads (text a) value) (fuel : ℕ) (members : List α) :
    readMembers (fuel + 2) (membersText key text (a :: members) ++ ['\x7d']) =
      if members = [] then some ([(key a, value)], [])
      else (readMembers (fuel + 1) (membersText key text members ++ ['\x7d'])).map
        fun (members, rest) => ((key a, value) :: members, rest) := by
  have hrest := (followsMember_restText key text members).follows
  rw [membersText_cons, readMembers_member hkey, h fuel _ hrest]
  cases members with
  | nil => rfl
  | cons b members => rfl

/-- What is read at a member starts with the member's key and value. -/
theorem readMembers_member_some {a : α} (hkey : ∀ c ∈ key a, IsPlain c) {fuel : ℕ}
    {rest rest' : List Char} {values : List (List Char × Value)}
    (h : readMembers (fuel + 1) (memberText key text a ++ rest) = some (values, rest')) :
    ∃ value values' rest', readValue fuel (text a ++ rest) = some (value, rest') ∧
      values = (key a, value) :: values' := by
  rw [readMembers_member hkey] at h
  split at h
  · next value rest' hvalue =>
    refine ⟨value, values.tail, rest', hvalue, ?_⟩
    split at h
    · obtain ⟨⟨values', rest''⟩, -, heq⟩ := map_eq_some_iff.mp h
      obtain ⟨rfl, -⟩ := Prod.mk.inj heq
      rfl
    · obtain ⟨rfl, -⟩ := Prod.mk.inj (some_inj.mp h)
      rfl
    · cases h
  · cases h

/-- The values are those of the members, in order and under the members' keys. -/
def ReadAll (key : α → List Char) (R : α → Value → Prop) (members : List α)
    (values : List (List Char × Value)) : Prop :=
  List.Forall₂ (fun a (value : List Char × Value) => value.1 = key a ∧ R a value.2) members values

variable {members : List α} {R : α → Value → Prop}

theorem readMembers_of_good (hne : members ≠ []) (hkey : ∀ a ∈ members, ∀ c ∈ key a, IsPlain c)
    (hgood : ∀ a ∈ members, ∃ value, Reads (text a) value ∧ R a value)
    {fuel : ℕ} (hfuel : members.length < fuel) :
    ∃ values, readMembers fuel (membersText key text members ++ ['\x7d']) = some (values, []) ∧
      ReadAll key R members values := by
  induction members generalizing fuel with
  | nil => exact absurd rfl hne
  | cons a members ih =>
    obtain ⟨n, rfl⟩ : ∃ n, fuel = n + 2 := ⟨fuel - 2, by simp at hfuel; omega⟩
    obtain ⟨value, hvalue, hR⟩ := hgood a mem_cons_self
    rw [readMembers_cons (hkey a mem_cons_self) hvalue]
    by_cases hnil : members = []
    · subst hnil
      exact ⟨_, rfl, .cons ⟨rfl, hR⟩ .nil⟩
    · obtain ⟨values, hread, hall⟩ := @ih hnil (fun b hb => hkey b (mem_cons_of_mem _ hb))
        (fun b hb => hgood b (mem_cons_of_mem _ hb)) (n + 1) (by simp at hfuel; omega)
      rw [if_neg hnil, hread]
      exact ⟨_, rfl, .cons ⟨rfl, hR⟩ hall⟩

theorem good_of_readMembers {Good : α → Prop} (hkey : ∀ a ∈ members, ∀ c ∈ key a, IsPlain c)
    (hgood : ∀ a ∈ members, Good a → ∃ value, Reads (text a) value)
    (hbad : ∀ a ∈ members, ∀ fuel rest value rest', FollowsMember rest →
      readValue fuel (text a ++ rest) = some (value, rest') → R a value → Good a)
    {fuel : ℕ} (hfuel : members.length < fuel) {values : List (List Char × Value)}
    {after : List Char}
    (hread : readMembers fuel (membersText key text members ++ ['\x7d']) = some (values, after))
    (hall : ReadAll key R members values) : ∀ a ∈ members, Good a := by
  induction members generalizing fuel values with
  | nil => simp
  | cons a members ih =>
    obtain ⟨n, rfl⟩ : ∃ n, fuel = n + 2 := ⟨fuel - 2, by simp at hfuel; omega⟩
    have hkeyA := hkey a mem_cons_self
    have ha : Good a := by
      have hmember := hread
      rw [membersText_cons] at hmember
      obtain ⟨value, values', rest', hvalue, rfl⟩ := readMembers_member_some hkeyA hmember
      cases hall with
      | cons hhead _ =>
        exact hbad a mem_cons_self _ _ _ _ (followsMember_restText key text members) hvalue
          hhead.2
    refine forall_mem_cons.mpr ⟨ha, ?_⟩
    obtain ⟨value, hvalue⟩ := hgood a mem_cons_self ha
    rw [readMembers_cons hkeyA hvalue] at hread
    by_cases hnil : members = []
    · simp [hnil]
    · rw [if_neg hnil] at hread
      obtain ⟨⟨values', rest'⟩, htail, heq⟩ := map_eq_some_iff.mp hread
      obtain ⟨rfl, rfl⟩ := Prod.mk.inj heq
      cases hall with
      | cons _ hall =>
        exact ih (fun b hb => hkey b (mem_cons_of_mem _ hb))
          (fun b hb => hgood b (mem_cons_of_mem _ hb))
          (fun b hb => hbad b (mem_cons_of_mem _ hb)) (by simp at hfuel; omega) htail hall

theorem length_membersText (members : List α) :
    members.length ≤ (membersText key text members).length := by
  induction members with
  | nil => exact Nat.le_refl 0
  | cons a members ih =>
    cases members with
    | nil => simp [membersText, memberText]
    | cons b members =>
      simp only [membersText, length_append, length_cons] at ih ⊢
      omega

theorem read_objectText (hne : members ≠ []) : read (objectText key text members) =
      match readMembers (objectText key text members).length
        (membersText key text members ++ ['\x7d']) with
      | some (values, rest) => if skipSpace rest = [] then some (.object values) else none
      | none => none := by
  obtain ⟨a, members, rfl⟩ := exists_cons_of_ne_nil hne
  obtain ⟨next, hnext⟩ : ∃ next, membersText key text (a :: members) ++ ['\x7d'] = '"' :: next :=
    ⟨_, membersText_cons key text a members⟩
  have hbrace : ∀ l, skipSpace ('\x7b' :: l) = '\x7b' :: l := fun _ => rfl
  have hquote : skipSpace ('"' :: next) = '"' :: next := rfl
  rw [read, objectText, cons_append, readValue, hbrace, hnext]
  simp only [hquote]
  cases readMembers ('\x7b' :: '"' :: next).length ('"' :: next) with
  | none => rfl
  | some p => rfl

/-- **An object is read as it should be if and only if each of its members is good**: where a
good value is read as it should be, and a value that is read as it should be is good. -/
theorem read_objectText_iff {Good : α → Prop}
    (hne : members ≠ []) (hkey : ∀ a ∈ members, ∀ c ∈ key a, IsPlain c)
    (hgood : ∀ a ∈ members, Good a → ∃ value, Reads (text a) value ∧ R a value)
    (hbad : ∀ a ∈ members, ∀ fuel rest value rest', FollowsMember rest →
      readValue fuel (text a ++ rest) = some (value, rest') → R a value → Good a) :
    (∃ values, read (objectText key text members) = some (.object values) ∧
      ReadAll key R members values) ↔ ∀ a ∈ members, Good a := by
  have hlen : members.length ≤ (membersText key text members).length := length_membersText members
  have hfuel : members.length < (objectText key text members).length := by
    simp only [objectText, length_append, length_cons]
    omega
  rw [read_objectText hne]
  constructor
  · rintro ⟨values, hread, hall⟩
    split at hread
    · next values' rest hmembers =>
      split at hread
      · obtain rfl := Value.object.inj (some_inj.mp hread)
        exact good_of_readMembers hkey (fun a ha h => ⟨_, (hgood a ha h).choose_spec.1⟩) hbad hfuel
          hmembers hall
      · cases hread
    · cases hread
  · intro h
    obtain ⟨values, hread, hall⟩ :=
      readMembers_of_good hne hkey (fun a ha => hgood a ha (h a ha)) hfuel
    exact ⟨values, by rw [hread]; rfl, hall⟩

end Object

end JsonText
