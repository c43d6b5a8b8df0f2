import Mathlib.Data.List.TakeWhile
import AgentSight.Lib.JsonText

/-!
# Texts that are cut short

A value that is read before the end of a text is read the same when the text goes on (`stable`):
only a number at the very end may be carried on. So an object has one end (`read_goOn`), and of the
texts that begin as it does only those that add space to it are texts.
-/

namespace JsonString

/-- The item when the text goes on. -/
def Item.goOn (more : List Char) : Item → Item
  | .close rest => .close (rest ++ more)
  | .char c rest => .char c (rest ++ more)
  | .invalid => .invalid

end JsonString

namespace JsonText

open JsonString

/-! ### Strings -/

variable {text rest t : List Char}

theorem skipSpace_append {c : Char} (h : skipSpace text = c :: rest)
    (more : List Char) : skipSpace (text ++ more) = c :: (rest ++ more) := by
  unfold skipSpace at h ⊢
  rw [List.dropWhile_append, h]
  rfl

theorem readCodeUnit_append {n : ℕ} (h : readCodeUnit n text ≠ .invalid)
    (more : List Char) : readCodeUnit n (text ++ more) = (readCodeUnit n text).goOn more := by
  revert h
  fun_cases readCodeUnit n text with
  | case6 _ hlow hhigh =>
    intro _
    unfold readCodeUnit
    rw [if_neg hlow, if_neg hhigh]
    rfl
  | case2 =>
    simp_all [readCodeUnit, Item.goOn]
  | _ => exact fun h => absurd rfl h

theorem readEscape_append (h : readEscape text ≠ .invalid)
    (more : List Char) : readEscape (text ++ more) = (readEscape text).goOn more := by
  revert h
  fun_cases readEscape text with
  | case1 a b c d rest n hhex =>
    intro h
    simp only [List.cons_append, readEscape, hhex]
    exact readCodeUnit_append h more
  | case3 c rest hnot e he =>
    have hu : c ≠ 'u' := by
      rintro rfl
      cases he
    simp [readEscape, hu, he, Item.goOn]
  | _ => exact fun h => absurd rfl h

theorem readItem_append (h : readItem text ≠ .invalid)
    (more : List Char) : readItem (text ++ more) = (readItem text).goOn more := by
  cases text with
  | nil => exact absurd rfl h
  | cons c text =>
    simp only [readItem, List.cons_append] at h ⊢
    split
    · rfl
    · next hquote =>
      rw [if_neg hquote] at h
      split
      · next hslash =>
        rw [if_pos hslash] at h
        exact readEscape_append h more
      · split
        · rfl
        · rfl

variable {fuel fuel' : ℕ}

theorem readString_append {s : List Char}
    (h : readString fuel text = some (s, rest)) (hfuel : fuel ≤ fuel')
    (more : List Char) : readString fuel' (text ++ more) = some (s, rest ++ more) := by
  induction fuel generalizing text s fuel' with
  | zero => cases h
  | succ fuel ih =>
    obtain ⟨fuel', rfl⟩ := Nat.exists_eq_add_of_le' (Nat.lt_of_lt_of_le (Nat.succ_pos _) hfuel)
    rw [readString] at h ⊢
    have hitem := @readItem_append text
    cases hread : readItem text with
    | invalid =>
      rw [hread] at h
      cases h
    | close after =>
      rw [hread] at h hitem
      cases h
      rw [hitem (by simp)]
      rfl
    | char c after =>
      rw [hread] at h hitem
      obtain ⟨⟨s', rest'⟩, hread, heq⟩ := Option.map_eq_some_iff.mp h
      cases heq
      rw [hitem (by simp)]
      dsimp only [Item.goOn]
      rw [ih hread (by omega)]
      rfl

/-! ### Numbers -/

theorem takeWhile_more {p : Char → Bool} (h : text.dropWhile p ≠ [])
    (more : List Char) : (text ++ more).takeWhile p = text.takeWhile p := by
  rw [List.takeWhile_append, if_neg]
  intro hlength
  have hself := (List.takeWhile_prefix p).eq_of_length hlength
  exact h (List.dropWhile_eq_nil_iff.mpr (List.takeWhile_eq_self_iff.mp hself))

theorem dropWhile_more {p : Char → Bool} (h : text.dropWhile p ≠ [])
    (more : List Char) : (text ++ more).dropWhile p = text.dropWhile p ++ more := by
  rw [List.dropWhile_append, if_neg]
  simpa using h

theorem readDigits_append {before : List Char}
    (h : readDigits before text = some (t, rest)) (hrest : rest ≠ []) (more : List Char) :
    readDigits before (text ++ more) = some (t, rest ++ more) := by
  unfold readDigits at h ⊢
  split at h
  · cases h
  · next hdigits =>
    cases h
    rw [takeWhile_more hrest, dropWhile_more hrest, if_neg hdigits]

theorem readInt_append (h : readInt text = some (t, rest))
    (hrest : rest ≠ []) (more : List Char) : readInt (text ++ more) = some (t, rest ++ more) := by
  revert h
  fun_cases readInt text with
  | case1 rest' =>
    intro h
    cases h
    rfl
  | case2 c rest' hzero hdigit =>
    intro h
    cases h
    simp [readInt, hdigit, takeWhile_more hrest, dropWhile_more hrest]
  | case3 => exact nofun
  | case4 => exact nofun

theorem readFraction_append (h : readFraction text = some (t, rest))
    (hrest : rest ≠ []) (more : List Char) :
    readFraction (text ++ more) = some (t, rest ++ more) := by
  revert h
  fun_cases readFraction text with
  | case1 rest' => exact fun h => readDigits_append h hrest more
  | case2 rest' hpoint =>
    intro h
    cases h
    obtain ⟨c, rest', rfl⟩ := List.exists_cons_of_ne_nil hrest
    unfold readFraction
    split
    · next heq => exact absurd (congrArg (· :: rest') (List.cons.inj heq).1) (hpoint _)
    · rfl

theorem readDigits_ne_nil {before : List Char} {result : List Char × List Char}
    (h : readDigits before text = some result) : ∃ c rest, text = c :: rest := by
  refine List.exists_cons_of_ne_nil ?_
  rintro rfl
  cases h

theorem readExponent_append (h : readExponent text = some (t, rest))
    (hrest : rest ≠ []) (more : List Char) :
    readExponent (text ++ more) = some (t, rest ++ more) := by
  revert h
  fun_cases readExponent text with
  | case1 | case2 | case4 | case5 => exact fun h => readDigits_append h hrest more
  | case3 rest' hplus hminus | case6 rest' hplus hminus =>
    intro h
    obtain ⟨c, rest', rfl⟩ := readDigits_ne_nil h
    have hdigits := readDigits_append h hrest more
    unfold readExponent
    all_goals simp_all
  | case7 =>
    intro h
    obtain ⟨c, rest', rfl⟩ := List.exists_cons_of_ne_nil hrest
    unfold readExponent
    all_goals simp_all

theorem readFraction_ne_nil (h : readFraction text = some (t, rest))
    (hrest : rest ≠ []) : text ≠ [] := by
  rintro rfl
  cases h
  exact hrest rfl

theorem readExponent_ne_nil (h : readExponent text = some (t, rest))
    (hrest : rest ≠ []) : text ≠ [] := by
  rintro rfl
  cases h
  exact hrest rfl

theorem readMagnitude_append (h : readMagnitude text = some (t, rest))
    (hrest : rest ≠ []) (more : List Char) :
    readMagnitude (text ++ more) = some (t, rest ++ more) := by
  unfold readMagnitude at h ⊢
  obtain ⟨⟨whole, rest₁⟩, hwhole, h⟩ := Option.bind_eq_some_iff.mp h
  obtain ⟨⟨fraction, rest₂⟩, hfraction, h⟩ := Option.bind_eq_some_iff.mp h
  obtain ⟨⟨exponent, rest₃⟩, hexponent, h⟩ := Option.bind_eq_some_iff.mp h
  cases h
  have hrest₂ := readExponent_ne_nil hexponent hrest
  have hrest₁ := readFraction_ne_nil hfraction hrest₂
  simp [readInt_append hwhole hrest₁, readFraction_append hfraction hrest₂,
    readExponent_append hexponent hrest]

/-- A number begins with a sign or a digit. -/
theorem readNumber_head {result : List Char × List Char} (h : readNumber text = some result) :
    ∃ c rest, text = c :: rest ∧ (c = '-' ∨ c.isDigit = true) := by
  have hdigit : ∀ text result, readMagnitude text = some result →
      ∃ c rest, text = c :: rest ∧ c.isDigit = true := by
    intro text result h
    obtain ⟨⟨whole, rest⟩, hwhole, -⟩ := Option.bind_eq_some_iff.mp h
    revert hwhole
    fun_cases readInt text with
    | case1 rest' => exact fun _ => ⟨_, _, rfl, rfl⟩
    | case2 c rest' _ hdigit => exact fun _ => ⟨c, rest', rfl, hdigit⟩
    | case3 => exact nofun
    | case4 => exact nofun
  revert h
  fun_cases readNumber text with
  | case1 text' => exact fun _ => ⟨_, _, rfl, .inl rfl⟩
  | case2 hminus =>
    intro h
    obtain ⟨c, rest, rfl, hc⟩ := hdigit _ _ h
    exact ⟨c, rest, rfl, .inr hc⟩

theorem readNumber_append (h : readNumber text = some (t, rest))
    (hrest : rest ≠ []) (more : List Char) :
    readNumber (text ++ more) = some (t, rest ++ more) := by
  obtain ⟨c, text, rfl, -⟩ := readNumber_head h
  rw [List.cons_append]
  by_cases hminus : c = '-'
  · subst hminus
    obtain ⟨⟨t', rest'⟩, hmagnitude, heq⟩ := Option.map_eq_some_iff.mp h
    cases heq
    exact Option.map_eq_some_iff.mpr ⟨_, readMagnitude_append hmagnitude hrest more, rfl⟩
  · have hunsigned : ∀ l, readNumber (c :: l) = readMagnitude (c :: l) := by
      intro l
      unfold readNumber
      split
      · next heq => exact absurd (List.cons.inj heq).1 hminus
      · rfl
    rw [hunsigned] at h ⊢
    exact readMagnitude_append h hrest more

/-! ### Values -/

/-- What begins with a sign or a digit is read as a number. -/
theorem readValue_number {c : Char} (hskip : skipSpace text = c :: rest)
    (hc : c = '-' ∨ c.isDigit = true) (fuel : ℕ) :
    readValue (fuel + 1) text =
      (readNumber (c :: rest)).map fun (text, rest) => (.number text, rest) := by
  have hne : ∀ d : Char, d ≠ '-' → d.isDigit = false → c ≠ d := by
    rintro d hminus hd rfl
    rcases hc with hc | hc
    · exact hminus hc
    · rw [hd] at hc
      cases hc
  rw [readValue, hskip]
  split
  · next heq => exact absurd (List.cons.inj heq).1 (hne 'n' (by decide) rfl)
  · next heq => exact absurd (List.cons.inj heq).1 (hne 't' (by decide) rfl)
  · next heq => exact absurd (List.cons.inj heq).1 (hne 'f' (by decide) rfl)
  · next heq => exact absurd (List.cons.inj heq).1 (hne '"' (by decide) rfl)
  · next heq => exact absurd (List.cons.inj heq).1 (hne '[' (by decide) rfl)
  · next heq => exact absurd (List.cons.inj heq).1 (hne '\x7b' (by decide) rfl)
  · rfl

/-- Only a number may be carried on at the end of a text. -/
def Ends (value : Value) (rest : List Char) : Prop := rest ≠ [] ∨ ∀ t, value ≠ .number t

/-- What is read in a number of levels is read the same when the text goes on. -/
structure Stable (fuel : ℕ) : Prop where
  value : ∀ {text value rest}, readValue fuel text = some (value, rest) → Ends value rest →
    ∀ {fuel'}, fuel ≤ fuel' → ∀ more, readValue fuel' (text ++ more) = some (value, rest ++ more)
  items : ∀ {text items rest}, readItems fuel text = some (items, rest) →
    ∀ {fuel'}, fuel ≤ fuel' → ∀ more, readItems fuel' (text ++ more) = some (items, rest ++ more)
  members : ∀ {text members rest}, readMembers fuel text = some (members, rest) →
    ∀ {fuel'}, fuel ≤ fuel' → ∀ more,
      readMembers fuel' (text ++ more) = some (members, rest ++ more)

theorem skipSpace_of_readValue {result : Value × List Char}
    (h : readValue fuel text = some result) : ∃ c rest, skipSpace text = c :: rest := by
  refine List.exists_cons_of_ne_nil fun hnil => ?_
  cases fuel with
  | zero => cases h
  | succ fuel =>
    rw [readValue, hnil] at h
    cases h

theorem skipSpace_of_readItems {result : List Value × List Char}
    (h : readItems fuel text = some result) : ∃ c rest, skipSpace text = c :: rest := by
  cases fuel with
  | zero => cases h
  | succ fuel =>
    rw [readItems] at h
    cases hvalue : readValue fuel text with
    | none =>
      rw [hvalue] at h
      cases h
    | some read => exact skipSpace_of_readValue hvalue

theorem skipSpace_of_readMembers
    {result : List (List Char × Value) × List Char} (h : readMembers fuel text = some result) :
    ∃ rest, skipSpace text = '"' :: rest := by
  cases fuel with
  | zero => cases h
  | succ fuel =>
    rw [readMembers] at h
    split at h
    · next rest heq => exact ⟨rest, heq⟩
    · cases h

theorem Stable.value_step (h : Stable fuel) {value : Value}
    (hread : readValue (fuel + 1) text = some (value, rest)) (hends : Ends value rest)
    (hfuel : fuel ≤ fuel') (more : List Char) :
    readValue (fuel' + 1) (text ++ more) = some (value, rest ++ more) := by
  obtain ⟨c, tail, hskip⟩ := skipSpace_of_readValue hread
  have hmore := skipSpace_append hskip more
  by_cases hc : c = '-' ∨ c.isDigit = true
  · rw [readValue_number hskip hc] at hread
    rw [readValue_number hmore hc]
    obtain ⟨⟨t, rest'⟩, hnumber, heq⟩ := Option.map_eq_some_iff.mp hread
    cases heq
    have hrest : rest ≠ [] := hends.resolve_right fun hne => hne t rfl
    rw [← List.cons_append, readNumber_append hnumber hrest]
    rfl
  · rw [readValue, hskip] at hread
    rw [← List.cons_append] at hmore
    rw [readValue, hmore]
    have hnumber : readNumber (c :: tail) = none := by
      cases hread : readNumber (c :: tail) with
      | none => rfl
      | some read =>
        obtain ⟨d, _, heq, hd⟩ := readNumber_head hread
        exact absurd ((List.cons.inj heq).1 ▸ hd) hc
    generalize c :: tail = shape at hread hnumber ⊢
    split at hread
    · cases hread
      rfl
    · cases hread
      rfl
    · cases hread
      rfl
    · next tail =>
      obtain ⟨⟨s, rest'⟩, hstring, heq⟩ := Option.map_eq_some_iff.mp hread
      cases heq
      have hlength : tail.length + 1 ≤ tail.length + more.length + 1 := by omega
      simp [readString_append hstring hlength]
    · next tail =>
      split at hread
      · next rest' hclose =>
        cases hread
        simp [skipSpace_append hclose]
      · next hopen =>
        obtain ⟨⟨items, rest'⟩, hitems, heq⟩ := Option.map_eq_some_iff.mp hread
        cases heq
        obtain ⟨d, after, hskip⟩ := skipSpace_of_readItems hitems
        have hd : d ≠ ']' := by
          rintro rfl
          exact hopen _ hskip
        simp [skipSpace_append hskip, hd, h.items hitems hfuel]
    · next tail =>
      split at hread
      · next rest' hclose =>
        cases hread
        simp [skipSpace_append hclose]
      · next hopen =>
        obtain ⟨⟨members, rest'⟩, hmembers, heq⟩ := Option.map_eq_some_iff.mp hread
        cases heq
        obtain ⟨after, hskip⟩ := skipSpace_of_readMembers hmembers
        simp [skipSpace_append hskip, h.members hmembers hfuel]
    · rw [hnumber] at hread
      cases hread

/-- A separator comes after the value, so it is not a number that goes on. -/
theorem ends_of_skipSpace {value : Value} {after : List Char} {c : Char}
    (h : skipSpace rest = c :: after) : Ends value rest := by
  refine .inl ?_
  rintro rfl
  cases h

theorem Stable.items_step (h : Stable fuel)
    {items : List Value} (hread : readItems (fuel + 1) text = some (items, rest))
    (hfuel : fuel ≤ fuel') (more : List Char) :
    readItems (fuel' + 1) (text ++ more) = some (items, rest ++ more) := by
  rw [readItems] at hread ⊢
  cases hvalue : readValue fuel text with
  | none =>
    rw [hvalue] at hread
    cases hread
  | some read =>
    rw [hvalue] at hread
    dsimp only at hread
    split at hread
    · next next hskip =>
      obtain ⟨⟨items', rest'⟩, hitems, heq⟩ := Option.map_eq_some_iff.mp hread
      cases heq
      simp [h.value hvalue (ends_of_skipSpace hskip) hfuel, skipSpace_append hskip,
        h.items hitems hfuel]
    · next next hskip =>
      cases hread
      simp [h.value hvalue (ends_of_skipSpace hskip) hfuel, skipSpace_append hskip]
    · cases hread

theorem Stable.members_step (h : Stable fuel) {members : List (List Char × Value)}
    (hread : readMembers (fuel + 1) text = some (members, rest))
    (hfuel : fuel ≤ fuel') (more : List Char) :
    readMembers (fuel' + 1) (text ++ more) = some (members, rest ++ more) := by
  rw [readMembers] at hread ⊢
  split at hread
  · next tail hquote =>
    split at hread
    · next key after hkey =>
      have hlength : tail.length + 1 ≤ tail.length + more.length + 1 := by omega
      have hkey := readString_append hkey hlength more
      split at hread
      · next next hcolon =>
        split at hread
        · next value after' hvalue =>
          split at hread
          · next next' hskip =>
            obtain ⟨⟨members', rest'⟩, hmembers, heq⟩ := Option.map_eq_some_iff.mp hread
            cases heq
            have hvalue := h.value hvalue (ends_of_skipSpace hskip) hfuel more
            simp [skipSpace_append hquote, hkey, skipSpace_append hcolon, hvalue,
              skipSpace_append hskip, h.members hmembers hfuel]
          · next next' hskip =>
            cases hread
            have hvalue := h.value hvalue (ends_of_skipSpace hskip) hfuel more
            simp [skipSpace_append hquote, hkey, skipSpace_append hcolon, hvalue,
              skipSpace_append hskip]
          · cases hread
        · cases hread
      · cases hread
    · cases hread
  · cases hread

theorem stable (fuel : ℕ) : Stable fuel := by
  induction fuel with
  | zero => exact ⟨nofun, nofun, nofun⟩
  | succ fuel ih =>
    constructor
    case value =>
      intro text value rest hread hends fuel' hfuel more
      obtain ⟨fuel', rfl⟩ := Nat.exists_eq_add_of_le' (Nat.lt_of_lt_of_le (Nat.succ_pos _) hfuel)
      exact ih.value_step hread hends (by omega) more
    case items =>
      intro text items rest hread fuel' hfuel more
      obtain ⟨fuel', rfl⟩ := Nat.exists_eq_add_of_le' (Nat.lt_of_lt_of_le (Nat.succ_pos _) hfuel)
      exact ih.items_step hread (by omega) more
    case members =>
      intro text members rest hread fuel' hfuel more
      obtain ⟨fuel', rfl⟩ := Nat.exists_eq_add_of_le' (Nat.lt_of_lt_of_le (Nat.succ_pos _) hfuel)
      exact ih.members_step hread (by omega) more

/-! ### Whole texts -/

/-- A text that begins as an object does is an object. -/
theorem ends_of_brace {tail : List Char} {value : Value}
    (h : readValue fuel ('\x7b' :: tail) = some (value, rest)) : Ends value rest := by
  refine .inr fun t => ?_
  cases fuel with
  | zero => cases h
  | succ fuel =>
    simp only [readValue, skipSpace_cons (show isSpace '\x7b' = false from rfl)] at h
    split at h
    · cases h
      simp
    · obtain ⟨read, -, heq⟩ := Option.map_eq_some_iff.mp h
      cases heq
      simp

/-- A text that begins as an object does has one end: what goes on after it is space. -/
theorem read_goOn {tail more : List Char} (h : (read ('\x7b' :: tail)).isSome = true)
    (hmore : (read ('\x7b' :: tail ++ more)).isSome = true) : skipSpace more = [] := by
  unfold read at h hmore
  cases hread : readValue (('\x7b' :: tail).length + 1) ('\x7b' :: tail) with
  | none =>
    rw [hread] at h
    cases h
  | some result =>
    have hlong := (stable _).value hread (ends_of_brace hread)
      (show ('\x7b' :: tail).length + 1 ≤ ('\x7b' :: tail ++ more).length + 1 by simp) more
    rw [hlong] at hmore
    dsimp only at hmore
    split at hmore
    · next hspace =>
      unfold skipSpace at hspace ⊢
      rw [List.dropWhile_eq_nil_iff] at hspace ⊢
      exact fun c hc => hspace c (List.mem_append_right _ hc)
    · cases hmore

end JsonText
