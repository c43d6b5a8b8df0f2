import AgentSight.Lib.JsonPrefix
import AgentSight.Sse.Parser

/-!
# The object after a key

`extract_json_object_after_key` looks for the key, from there for an opening brace, and counts the
braces outside of strings up to the one that closes it. What the reader of JSON texts passes over
leaves the count and the state of the strings as they were (`passes`), so the count ends where the
object does. The search for the brace begins at the key and not behind it as in
`extract_json_string_field`: the object is found after each key but one with a brace.
-/

namespace AgentSight.Sse

open JsonText JsonString List Option

/-! ### One character of the scan -/

structure ScanState where
  depth : ℕ
  inString : Bool
  escape : Bool

/-- The state after a character, and `none` after the brace that ends the scan. -/
def scanStep (s : ScanState) (c : Char) : Option ScanState :=
  if s.inString then
    if s.escape then some { s with escape := false }
    else if c = '\\' then some { s with escape := true }
    else if c = '"' then some { s with inString := false }
    else some s
  else if c = '"' then some { s with inString := true }
  else if c = '\x7b' then some { s with depth := s.depth + 1 }
  else if c = '\x7d' then
    if s.depth - 1 = 0 then none else some { s with depth := s.depth - 1 }
  else some s

variable {text rest after object : List Char} {inString : Bool}

theorem scanObject_cons (s : ScanState) (c : Char) (cs : List Char) :
    scanObject s.depth s.inString s.escape (c :: cs) =
      match scanStep s c with
      | none => some [c]
      | some s => (scanObject s.depth s.inString s.escape cs).map (c :: ·) := by
  obtain ⟨depth, inString, escape⟩ := s
  rw [scanObject, scanStep]
  cases inString <;> cases escape <;>
    simp only [beq_iff_eq, Bool.false_eq_true, if_false, if_true] <;> split_ifs <;> rfl

/-- The scan finds what it passes over and the brace that ends it. -/
theorem scanObject_eq_some_iff {s : ScanState} :
    scanObject s.depth s.inString s.escape text = some object ↔
      ∃ read c after s', text = read ++ c :: after ∧ object = read ++ [c] ∧
        read.foldlM scanStep s = some s' ∧ scanStep s' c = none := by
  induction text generalizing s object with
  | nil => simp [scanObject]
  | cons c cs ih =>
    rw [scanObject_cons]
    constructor
    · intro h
      cases hstep : scanStep s c with
      | none =>
        rw [hstep] at h
        cases h
        exact ⟨[], c, cs, s, rfl, rfl, rfl, hstep⟩
      | some t =>
        rw [hstep] at h
        obtain ⟨found, hfound, rfl⟩ := map_eq_some_iff.mp h
        obtain ⟨read, d, after, s', rfl, rfl, hread, hend⟩ := ih.mp hfound
        exact ⟨c :: read, d, after, s', rfl, rfl, by simp [foldlM_cons, hstep, hread], hend⟩
    · rintro ⟨read, d, after, s', htext, rfl, hread, hend⟩
      cases read with
      | nil =>
        cases hread
        obtain ⟨rfl, rfl⟩ := cons.inj htext
        rw [hend]
        rfl
      | cons b read =>
        obtain ⟨rfl, rfl⟩ := cons.inj htext
        obtain ⟨t, hstep, hread⟩ := bind_eq_some_iff.mp hread
        rw [hstep]
        have hfound := ih.mpr ⟨read, d, after, s', rfl, rfl, hread, hend⟩
        exact map_eq_some_iff.mpr ⟨_, hfound, rfl⟩

/-! ### What leaves the state as it was -/

/-- From the first text on the scan comes to the second one, inside of an object or of a string in
it, with the depth and the state that it had. -/
def Passes (inString : Bool) (text rest : List Char) : Prop :=
  ∃ read, text = read ++ rest ∧ ∀ depth,
    read.foldlM scanStep ⟨depth + 1, inString, false⟩ = some ⟨depth + 1, inString, false⟩

theorem Passes.refl (inString : Bool) (text : List Char) : Passes inString text text :=
  ⟨[], rfl, fun _ => rfl⟩

theorem Passes.trans (h : Passes inString text rest) (h' : Passes inString rest after) :
    Passes inString text after := by
  obtain ⟨read, rfl, hread⟩ := h
  obtain ⟨read', rfl, hread'⟩ := h'
  exact ⟨read ++ read', (append_assoc ..).symm, fun depth => by
    rw [foldlM_append, hread]
    exact hread' depth⟩

/-- A character that is nothing to the scan. -/
def IsNeutral (c : Char) : Prop := c ≠ '"' ∧ c ≠ '\\' ∧ c ≠ '\x7b' ∧ c ≠ '\x7d'

instance : DecidablePred IsNeutral := fun _ => inferInstanceAs (Decidable (_ ∧ _))

theorem passes_neutral (inString : Bool) (read : List Char) (h : ∀ c ∈ read, IsNeutral c)
    (rest : List Char) : Passes inString (read ++ rest) rest := by
  refine ⟨read, rfl, fun depth => ?_⟩
  induction read with
  | nil => rfl
  | cons c read ih =>
    obtain ⟨hc, hread⟩ := forall_mem_cons.mp h
    have hstep : scanStep ⟨depth + 1, inString, false⟩ c = some ⟨depth + 1, inString, false⟩ := by
      obtain ⟨hquote, hslash, hopen, hclose⟩ := hc
      cases inString <;> simp [scanStep, hquote, hslash, hopen, hclose]
    rw [foldlM_cons, hstep]
    exact ih hread

theorem passes_dropWhile {p : Char → Bool} (inString : Bool) (h : ∀ c, p c → IsNeutral c)
    (text : List Char) : Passes inString text (text.dropWhile p) := by
  have hread : ∀ c ∈ text.takeWhile p, IsNeutral c := fun c hc => h c (mem_takeWhile_imp hc)
  have hpasses := passes_neutral inString _ hread (text.dropWhile p)
  rwa [takeWhile_append_dropWhile] at hpasses

variable {c e : Char}

theorem isNeutral_of_isSpace (h : isSpace c) : IsNeutral c := by
  simp only [isSpace, Bool.or_eq_true, decide_eq_true_eq] at h
  rcases h with ((rfl | rfl) | rfl) | rfl <;> decide

theorem passes_skipSpace (h : skipSpace text = rest) : Passes false text rest := by
  subst h
  exact passes_dropWhile false (fun _ => isNeutral_of_isSpace) text

/-- A string is passed over from its opening quote on, once its items are. -/
theorem passes_quoted (h : Passes true text ('"' :: rest)) : Passes false ('"' :: text) rest := by
  obtain ⟨read, rfl, hread⟩ := h
  refine ⟨'"' :: (read ++ ['"']), by simp, fun depth => ?_⟩
  have hopen : scanStep ⟨depth + 1, false, false⟩ '"' = some ⟨depth + 1, true, false⟩ := rfl
  rw [foldlM_cons, hopen, bind_eq_bind, bind_some, foldlM_append, hread]
  rfl

/-- An object is passed over from its opening brace on, once what is in it is. -/
theorem passes_braced (h : Passes false text ('\x7d' :: rest)) :
    Passes false ('\x7b' :: text) rest := by
  obtain ⟨read, rfl, hread⟩ := h
  refine ⟨'\x7b' :: (read ++ ['\x7d']), by simp, fun depth => ?_⟩
  have hopen : scanStep ⟨depth + 1, false, false⟩ '\x7b' = some ⟨depth + 2, false, false⟩ := rfl
  rw [foldlM_cons, hopen, bind_eq_bind, bind_some, foldlM_append, hread]
  rfl

/-! ### What the reader passes over -/

theorem isNeutral_of_hexDigitValue {n : ℕ} (h : hexDigitValue c = some n) : IsNeutral c := by
  refine ⟨?_, ?_, ?_, ?_⟩ <;> rintro rfl <;> simp [hexDigitValue] at h

theorem passes_hexEscape {a b d : Char} {n : ℕ} (h : hexEscape a b c d = some n)
    (rest : List Char) : Passes true (a :: b :: c :: d :: rest) rest := by
  have hdigits : ∀ x ∈ [a, b, c, d], IsNeutral x := by
    obtain ⟨_, ha, h⟩ := bind_eq_some_iff.mp h
    obtain ⟨_, hb, h⟩ := bind_eq_some_iff.mp h
    obtain ⟨_, hc, h⟩ := bind_eq_some_iff.mp h
    obtain ⟨_, hd, -⟩ := bind_eq_some_iff.mp h
    simp only [forall_mem_cons]
    exact ⟨isNeutral_of_hexDigitValue ha, isNeutral_of_hexDigitValue hb,
      isNeutral_of_hexDigitValue hc, isNeutral_of_hexDigitValue hd, nofun⟩
  exact passes_neutral true _ hdigits rest

/-- What is escaped does not end the string. -/
theorem passes_escaped (c : Char) (rest : List Char) : Passes true ('\\' :: c :: rest) rest :=
  ⟨['\\', c], rfl, fun _ => rfl⟩

theorem passes_readCodeUnit {n : ℕ} (h : readCodeUnit n text = .char e rest) :
    Passes true text rest := by
  revert h
  fun_cases readCodeUnit n text with
  | case2 _ _ a b c d text low hlow =>
    intro h
    obtain ⟨-, rfl⟩ := Item.char.inj h
    exact (passes_escaped 'u' _).trans (passes_hexEscape hlow _)
  | case6 =>
    intro h
    cases h
    exact .refl true _
  | _ => rintro ⟨⟩

theorem passes_readEscape (h : readEscape text = .char e rest) :
    Passes true ('\\' :: text) rest := by
  revert h
  fun_cases readEscape text with
  | case1 a b c d text n hhex =>
    intro h
    exact ((passes_escaped 'u' _).trans (passes_hexEscape hhex _)).trans (passes_readCodeUnit h)
  | case3 c text =>
    intro h
    cases h
    exact passes_escaped c _
  | _ => rintro ⟨⟩

theorem passes_readItem (h : readItem text = .char e rest) : Passes true text rest := by
  revert h
  fun_cases readItem text with
  | case3 => exact passes_readEscape
  | case5 c text hquote hslash =>
    intro h
    cases h
    exact ⟨[e], rfl, fun _ => by simp [scanStep, hquote, hslash]⟩
  | _ => rintro ⟨⟩

theorem readCodeUnit_ne_close {n : ℕ} : readCodeUnit n text ≠ .close rest := by
  fun_cases readCodeUnit n text <;> rintro ⟨⟩

theorem readEscape_ne_close : readEscape text ≠ .close rest := by
  fun_cases readEscape text with
  | case1 => exact readCodeUnit_ne_close
  | _ => rintro ⟨⟩

theorem readItem_close (h : readItem text = .close rest) : text = '"' :: rest := by
  revert h
  fun_cases readItem text with
  | case2 =>
    rintro ⟨⟩
    rfl
  | case3 => exact fun h => absurd h readEscape_ne_close
  | _ => rintro ⟨⟩

theorem passes_readString {fuel : ℕ} {s : List Char} (h : readString fuel text = some (s, rest)) :
    Passes true text ('"' :: rest) := by
  induction fuel generalizing text s with
  | zero => cases h
  | succ fuel ih =>
    rw [readString] at h
    split at h
    · next hitem =>
      cases h
      rw [readItem_close hitem]
      exact .refl true _
    · next hitem =>
      obtain ⟨⟨s', rest'⟩, hstring, heq⟩ := map_eq_some_iff.mp h
      cases heq
      exact (passes_readItem hitem).trans (ih hstring)
    · cases h

theorem isNeutral_of_isDigit (h : c.isDigit) : IsNeutral c := by
  refine ⟨?_, ?_, ?_, ?_⟩ <;> rintro rfl <;> simp at h

variable {t : List Char}

/-- Digits after what was read already, as in the part after the point and in the exponent. -/
theorem passes_readDigits {before : List Char} (h : readDigits before text = some (t, rest))
    (hbefore : ∀ c ∈ before, IsNeutral c) : Passes false (before ++ text) rest := by
  unfold readDigits at h
  split at h
  · cases h
  · cases h
    exact (passes_neutral false _ hbefore text).trans
      (passes_dropWhile false (fun _ => isNeutral_of_isDigit) text)

theorem passes_readInt (h : readInt text = some (t, rest)) : Passes false text rest := by
  revert h
  fun_cases readInt text with
  | case1 rest' =>
    intro h
    cases h
    exact passes_neutral false ['0'] (by decide) _
  | case2 c rest' hzero hdigit =>
    intro h
    cases h
    exact (passes_neutral false [c] (by simpa using isNeutral_of_isDigit hdigit) rest').trans
      (passes_dropWhile false (fun _ => isNeutral_of_isDigit) rest')
  | _ => rintro ⟨⟩

theorem passes_readFraction (h : readFraction text = some (t, rest)) : Passes false text rest := by
  revert h
  fun_cases readFraction text with
  | case1 => exact fun h => passes_readDigits h (by decide)
  | case2 =>
    intro h
    cases h
    exact .refl false _

theorem passes_readExponent (h : readExponent text = some (t, rest)) : Passes false text rest := by
  revert h
  fun_cases readExponent text with
  | case7 =>
    intro h
    cases h
    exact .refl false _
  | _ => exact fun h => passes_readDigits h (by decide)

theorem passes_readMagnitude (h : readMagnitude text = some (t, rest)) :
    Passes false text rest := by
  obtain ⟨⟨whole, rest₁⟩, hwhole, h⟩ := bind_eq_some_iff.mp h
  obtain ⟨⟨fraction, rest₂⟩, hfraction, h⟩ := bind_eq_some_iff.mp h
  obtain ⟨⟨exponent, rest₃⟩, hexponent, h⟩ := bind_eq_some_iff.mp h
  cases h
  exact ((passes_readInt hwhole).trans (passes_readFraction hfraction)).trans
    (passes_readExponent hexponent)

theorem passes_readNumber (h : readNumber text = some (t, rest)) : Passes false text rest := by
  unfold readNumber at h
  split at h
  · next rest' =>
    obtain ⟨⟨t', rest''⟩, h, heq⟩ := map_eq_some_iff.mp h
    cases heq
    exact (passes_neutral false ['-'] (by decide) rest').trans (passes_readMagnitude h)
  · exact passes_readMagnitude h

/-- What is read in a number of levels and items is passed over, but for the brace that ends the
members of an object. -/
structure PassesRead (fuel : ℕ) : Prop where
  value : ∀ {text value rest}, readValue fuel text = some (value, rest) → Passes false text rest
  items : ∀ {text items rest}, readItems fuel text = some (items, rest) → Passes false text rest
  members : ∀ {text members rest}, readMembers fuel text = some (members, rest) →
    Passes false text ('\x7d' :: rest)

variable {fuel : ℕ}

section

variable (h : PassesRead fuel)
include h

/-- What is in an object is passed over, up to the brace that ends it. -/
theorem PassesRead.braced_step {value : Value}
    (hread : readValue (fuel + 1) ('\x7b' :: text) = some (value, rest)) :
    Passes false text ('\x7d' :: rest) := by
  simp only [readValue, skipSpace_cons (show isSpace '\x7b' = false from rfl)] at hread
  split at hread
  · next hclose =>
    cases hread
    exact passes_skipSpace hclose
  · obtain ⟨⟨members, rest'⟩, hmembers, heq⟩ := map_eq_some_iff.mp hread
    cases heq
    exact h.members hmembers

theorem PassesRead.value_step {value : Value}
    (hread : readValue (fuel + 1) text = some (value, rest)) : Passes false text rest := by
  refine (passes_skipSpace rfl).trans ?_
  rw [readValue] at hread
  generalize skipSpace text = shape at hread ⊢
  split at hread
  · cases hread
    exact passes_neutral false ['n', 'u', 'l', 'l'] (by decide) _
  · cases hread
    exact passes_neutral false ['t', 'r', 'u', 'e'] (by decide) _
  · cases hread
    exact passes_neutral false ['f', 'a', 'l', 's', 'e'] (by decide) _
  · obtain ⟨⟨s, rest'⟩, hstring, heq⟩ := map_eq_some_iff.mp hread
    cases heq
    exact passes_quoted (passes_readString hstring)
  · next tail =>
    refine (passes_neutral false ['['] (by decide) tail).trans ?_
    split at hread
    · next hclose =>
      cases hread
      exact (passes_skipSpace hclose).trans (passes_neutral false [']'] (by decide) _)
    · obtain ⟨⟨items, rest'⟩, hitems, heq⟩ := map_eq_some_iff.mp hread
      cases heq
      exact h.items hitems
  · exact passes_braced (h.braced_step hread)
  · obtain ⟨⟨t, rest'⟩, hnumber, heq⟩ := map_eq_some_iff.mp hread
    cases heq
    exact passes_readNumber hnumber

theorem PassesRead.items_step {items : List Value}
    (hread : readItems (fuel + 1) text = some (items, rest)) : Passes false text rest := by
  rw [readItems] at hread
  split at hread
  · next value next hvalue =>
    refine (h.value hvalue).trans ?_
    split at hread
    · next after hcomma =>
      obtain ⟨⟨items, rest'⟩, hitems, heq⟩ := map_eq_some_iff.mp hread
      cases heq
      exact ((passes_skipSpace hcomma).trans (passes_neutral false [','] (by decide) _)).trans
        (h.items hitems)
    · next hclose =>
      cases hread
      exact (passes_skipSpace hclose).trans (passes_neutral false [']'] (by decide) _)
    · cases hread
  · cases hread

theorem PassesRead.members_step {members : List (List Char × Value)}
    (hread : readMembers (fuel + 1) text = some (members, rest)) :
    Passes false text ('\x7d' :: rest) := by
  rw [readMembers] at hread
  split at hread
  · next hquote =>
    refine (passes_skipSpace hquote).trans ?_
    split at hread
    · next hkey =>
      refine (passes_quoted (passes_readString hkey)).trans ?_
      split at hread
      · next hcolon =>
        refine ((passes_skipSpace hcolon).trans (passes_neutral false [':'] (by decide) _)).trans ?_
        split at hread
        · next hvalue =>
          refine (h.value hvalue).trans ?_
          split at hread
          · next hcomma =>
            obtain ⟨⟨members', rest'⟩, hmembers, heq⟩ := map_eq_some_iff.mp hread
            cases heq
            exact ((passes_skipSpace hcomma).trans
              (passes_neutral false [','] (by decide) _)).trans (h.members hmembers)
          · next hclose =>
            cases hread
            exact passes_skipSpace hclose
          · cases hread
        · cases hread
      · cases hread
    · cases hread
  · cases hread

end

theorem passesRead (fuel : ℕ) : PassesRead fuel := by
  induction fuel with
  | zero => exact ⟨nofun, nofun, nofun⟩
  | succ fuel ih => exact ⟨ih.value_step, ih.items_step, ih.members_step⟩

/-! ### The object -/

/-- The text of an object, from its opening brace to the one that closes it. -/
def IsObject (object : List Char) : Prop :=
  ∃ fuel tail value, object = '\x7b' :: tail ∧ readValue fuel object = some (value, [])

theorem scanObject_object (h : IsObject object) (after : List Char) :
    scanObject 0 false false (object ++ after) = some object := by
  obtain ⟨fuel, tail, value, rfl, hread⟩ := h
  obtain ⟨fuel, rfl⟩ : ∃ n, fuel = n + 1 := by
    cases fuel with
    | zero => cases hread
    | succ n => exact ⟨n, rfl⟩
  obtain ⟨read, rfl, hpasses⟩ := (passesRead fuel).braced_step hread
  refine (scanObject_eq_some_iff (s := ⟨0, false, false⟩)).mpr
    ⟨'\x7b' :: read, '\x7d', after, ⟨1, false, false⟩, by simp, rfl, ?_, rfl⟩
  exact hpasses 0

/-- The end of an object is not found in what it was cut off to. -/
theorem scanObject_cut (h : IsObject object) {cut : List Char} (hcut : cut <+: object)
    (hne : cut ≠ object) : scanObject 0 false false cut = none := by
  obtain ⟨more, rfl⟩ := hcut
  refine eq_none_iff_forall_not_mem.mpr fun found hfound => ?_
  have hobject := scanObject_object h []
  obtain ⟨read, c, after, s', rfl, rfl, hread, hend⟩ :=
    (scanObject_eq_some_iff (s := ⟨0, false, false⟩)).mp hfound
  have hfirst := (scanObject_eq_some_iff (s := ⟨0, false, false⟩)).mpr
    ⟨read, c, after ++ (more ++ []), s', rfl, rfl, hread, hend⟩
  rw [← cons_append, ← append_assoc, ← append_assoc, hobject] at hfirst
  have hlength := congrArg List.length (some.inj hfirst)
  simp only [length_append, length_cons, length_nil] at hlength
  have hmore : more = [] := eq_nil_of_length_eq_zero (by omega)
  exact hne (by rw [hmore, append_nil])

/-! ### The two searches -/

theorem findChars_brace (h : '\x7b' ∉ text) :
    findChars ['\x7b'] (text ++ rest) = findChars ['\x7b'] rest := by
  induction text with
  | nil => rfl
  | cons c text ih =>
    rw [mem_cons, not_or] at h
    rw [cons_append, findChars, if_neg (by simpa using h.1), ih h.2]

theorem findChars_open (rest : List Char) :
    findChars ['\x7b'] ('\x7b' :: rest) = some ('\x7b' :: rest) :=
  rfl

theorem findChars_self {key : List Char} (hkey : key ≠ []) (rest : List Char) :
    findChars key (key ++ rest) = some (key ++ rest) := by
  obtain ⟨c, key, rfl⟩ := exists_cons_of_ne_nil hkey
  rw [cons_append, findChars, if_pos (by simp)]

/-- The key is found behind a text that does not contain it, or where it begins in that text and
goes on behind it. -/
theorem findChars_key {before key : List Char} (h : ¬key <:+: before) (rest : List Char) :
    ∃ found, findChars key (before ++ (key ++ rest)) = some (found ++ rest) ∧ found ⊆ key := by
  induction before with
  | nil =>
    have hkey : key ≠ [] := by simpa using h
    exact ⟨key, findChars_self hkey rest, Subset.refl key⟩
  | cons c before ih =>
    rw [cons_append, findChars]
    split
    · next hfound =>
      rw [List.isPrefixOf_iff_prefix] at hfound
      refine ⟨c :: before ++ key, by simp, append_subset.mpr ⟨?_, Subset.refl key⟩⟩
      obtain hshort | hlong := prefix_or_prefix_of_prefix hfound
        (prefix_append (c :: before) (key ++ rest))
      · exact absurd hshort.isInfix h
      · exact hlong.subset
    · exact ih fun hinside => h (hinside.trans (suffix_cons c before).isInfix)

/-- An object that stands behind the key, and behind a separator without a brace, is found, and
what it was cut off to is not, whatever stands before and behind that does not contain the key. -/
def ExtractsAfter (key : String) : Prop :=
  ∀ before separator object after : String,
    ¬key.toList <:+: before.toList → ¬key.toList <:+: after.toList → '\x7b' ∉ separator.toList →
    IsObject object.toList →
      extractJsonObjectAfterKey (before ++ key ++ separator ++ object ++ after) key = some object ∧
      ∀ cut : String, cut.toList <+: object.toList → cut ≠ object →
        extractJsonObjectAfterKey (before ++ key ++ separator ++ cut) key = none

theorem extractJsonObjectAfterKey_eq {before key separator : String}
    (hkey : '\x7b' ∉ key.toList) (hbefore : ¬key.toList <:+: before.toList)
    (hseparator : '\x7b' ∉ separator.toList) (rest : String) :
    extractJsonObjectAfterKey (before ++ key ++ separator ++ rest) key =
      (findChars ['\x7b'] rest.toList).bind fun object =>
        (scanObject 0 false false object).map String.ofList := by
  obtain ⟨found, hfound, hsubset⟩ :=
    findChars_key hbefore (separator.toList ++ rest.toList)
  have hbrace : '\x7b' ∉ found := fun h => hkey (hsubset h)
  rw [extractJsonObjectAfterKey]
  simp only [String.toList_append, append_assoc, hfound, bind_eq_bind,
    bind_some, findChars_brace hbrace, findChars_brace hseparator]

/-- Behind a key with a brace what is found goes on as the key does, so of two objects that go on
differently one is missed. -/
theorem brace_notMem_of_extractsAfter {key : String} (h : ExtractsAfter key) :
    '\x7b' ∉ key.toList := by
  intro hbrace
  obtain ⟨front, back, hkey, hfront⟩ := eq_append_cons_of_mem hbrace
  have hne : key.toList ≠ [] := ne_nil_of_mem hbrace
  have hnot : ¬key.toList <:+: "".toList := by simpa using hne
  have hprefix : ∀ object : String, IsObject object.toList →
      object.toList <+: '\x7b' :: (back ++ object.toList) := by
    intro object hobject
    have hextract := (h "" "" object "" hnot hnot (by simp) hobject).1
    rw [extractJsonObjectAfterKey] at hextract
    simp only [String.toList_append, String.toList_empty, nil_append, append_nil,
      findChars_self hne, bind_eq_bind, bind_some] at hextract
    rw [hkey, append_assoc, findChars_brace hfront, cons_append, findChars_open]
      at hextract
    obtain ⟨found, hfound, rfl⟩ := map_eq_some_iff.mp hextract
    obtain ⟨read, c, after, _, htext, rfl, -⟩ :=
      (scanObject_eq_some_iff (s := ⟨0, false, false⟩)).mp hfound
    rw [htext, String.toList_ofList]
    exact ⟨after, by simp⟩
  have hnarrow := hprefix "\x7b\x7d" ⟨1, ['\x7d'], .object [], rfl, rfl⟩
  have hwide := hprefix "\x7b \x7d" ⟨1, [' ', '\x7d'], .object [], rfl, rfl⟩
  rw [show "\x7b\x7d".toList = ['\x7b', '\x7d'] from rfl, cons_prefix_cons] at hnarrow
  rw [show "\x7b \x7d".toList = ['\x7b', ' ', '\x7d'] from rfl, cons_prefix_cons] at hwide
  cases back with
  | nil => simp [cons_prefix_cons] at hnarrow
  | cons c back =>
    have hclose := (cons_prefix_cons.mp hnarrow.2).1
    have hspace := (cons_prefix_cons.mp hwide.2).1
    exact absurd (hclose.trans hspace.symm) (by decide)

/-- **The object behind a key is found exactly where the key has no brace.** -/
theorem extracts_after_iff (key : String) : ExtractsAfter key ↔ '\x7b' ∉ key.toList := by
  refine ⟨brace_notMem_of_extractsAfter, fun hkey => ?_⟩
  intro before separator object after hbefore _ hseparator hobject
  have hopen : ∃ tail, object.toList = '\x7b' :: tail := by
    obtain ⟨fuel, tail, value, htail, -⟩ := hobject
    exact ⟨tail, htail⟩
  obtain ⟨tail, htail⟩ := hopen
  constructor
  · rw [String.append_assoc, extractJsonObjectAfterKey_eq hkey hbefore hseparator,
      String.toList_append, htail, cons_append, findChars_open, ← cons_append, ← htail,
      bind_some, scanObject_object hobject, map_some, String.ofList_toList]
  · intro cut hcut hne
    have hend := scanObject_cut hobject hcut (mt String.toList_inj.mp hne)
    rw [extractJsonObjectAfterKey_eq hkey hbefore hseparator]
    cases hchars : cut.toList with
    | nil => rfl
    | cons c cs =>
      rw [hchars] at hcut hend
      rw [htail] at hcut
      obtain ⟨rfl, -⟩ := cons_prefix_cons.mp hcut
      rw [findChars_open, bind_some, hend]
      rfl

/-- The scan begins at the brace in the key `"a{b"` and reads the rest as an open string. -/
example : extractJsonObjectAfterKey "\"a\x7bb\":\x7b\x7d" "\"a\x7bb\"" = none := by decide

end AgentSight.Sse
