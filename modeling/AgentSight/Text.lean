import Mathlib.Algebra.Ring.Nat
import Mathlib.Data.List.Infix
import Mathlib.Data.List.TakeWhile

/-!
# Rust string operations

The `str` methods the analysis crate calls, with their documented behaviour, and the helpers
of its `text.rs`. A string is handled as its list of characters; no function here indexes
by byte.
-/

namespace AgentSight.Str

open List

/-- What is said of every element of a list is decided along the list, also where the type is
finite and could be gone through instead. -/
instance (priority := 2000) decidableAlong {α : Type*} (p : α → Prop) [DecidablePred p]
    (l : List α) : Decidable (∀ a ∈ l, p a) := List.decidableBAll p l

/-- `char::is_whitespace`: the Unicode `White_Space` property. -/
def isWhitespace (c : Char) : Bool :=
  let n := c.toNat
  (9 ≤ n && n ≤ 13) || n == 32 || n == 0x85 || n == 0xA0 || n == 0x1680 ||
    (0x2000 ≤ n && n ≤ 0x200A) || n == 0x2028 || n == 0x2029 || n == 0x202F || n == 0x205F ||
    n == 0x3000

/-- `str::contains` for a string pattern. -/
def contains (s pat : String) : Bool := decide (pat.toList <:+: s.toList)

/-- `str::contains` for a character pattern. -/
def containsChar (s : String) (c : Char) : Bool := s.toList.contains c

def startsWith (s pat : String) : Bool := pat.toList.isPrefixOf s.toList

def endsWith (s pat : String) : Bool := pat.toList.isSuffixOf s.toList

def stripPrefix (s pat : String) : Option String :=
  if startsWith s pat then some (String.ofList (s.toList.drop pat.toList.length)) else none

def stripSuffix (s pat : String) : Option String :=
  if endsWith s pat then some (String.ofList (s.toList.take (s.toList.length - pat.toList.length)))
  else none

/-- The parts of `cs` before and after the first occurrence of `pat`. -/
def splitOnceChars (pat : List Char) : List Char → Option (List Char × List Char)
  | [] => if pat.isEmpty then some ([], []) else none
  | c :: cs =>
    if pat.isPrefixOf (c :: cs) then some ([], (c :: cs).drop pat.length)
    else (splitOnceChars pat cs).map fun (before, after) => (c :: before, after)

/-- `str::split_once`. -/
def splitOnce (s pat : String) : Option (String × String) :=
  (splitOnceChars pat.toList s.toList).map fun (before, after) =>
    (String.ofList before, String.ofList after)

/-- `str::rsplit_once`. -/
def rsplitOnce (s pat : String) : Option (String × String) :=
  (splitOnceChars pat.toList.reverse s.toList.reverse).map fun (after, before) =>
    (String.ofList before.reverse, String.ofList after.reverse)

/-- The maximal runs of `cs` between characters that satisfy `p`, empty ones included. -/
def splitChars (p : Char → Bool) : List Char → List (List Char)
  | [] => [[]]
  | c :: cs =>
    if p c then [] :: splitChars p cs
    else
      match splitChars p cs with
      | [] => [[c]]
      | part :: parts => (c :: part) :: parts

/-- `str::split` for a character predicate. -/
def split (s : String) (p : Char → Bool) : List String :=
  (splitChars p s.toList).map String.ofList

/-- `str::split_whitespace`. -/
def splitWhitespace (s : String) : List String :=
  (split s isWhitespace).filter (! ·.isEmpty)

/-- `str::trim`. -/
def trim (s : String) : String :=
  String.ofList ((s.toList.dropWhile isWhitespace).reverse.dropWhile isWhitespace).reverse

/-- `str::trim_end_matches` for a character. -/
def trimEndMatches (s : String) (c : Char) : String :=
  String.ofList (s.toList.reverse.dropWhile (· == c)).reverse

def toAsciiLowercase (s : String) : String := String.ofList (s.toList.map Char.toLower)

def eqIgnoreAsciiCase (s t : String) : Bool := toAsciiLowercase s == toAsciiLowercase t

/-- The value of a non-empty string of decimal digits. -/
def parseDigits (cs : List Char) : Option ℕ :=
  if cs.isEmpty || !cs.all Char.isDigit then none
  else some (cs.foldl (fun n c => 10 * n + (c.toNat - 48)) 0)

/-- `str::parse` at an unsigned integer type with largest value `max`: an optional plus sign
and decimal digits. -/
def parseUnsigned (max : ℕ) (s : String) : Option ℕ :=
  let digits := match s.toList with
    | '+' :: cs => cs
    | cs => cs
  (parseDigits digits).filter (· ≤ max)

/-- `sanitize_ascii_identifier`. -/
def sanitizeAsciiIdentifier (value : String) : String :=
  String.ofList (value.toList.map fun c => if c.isAlphanum then c else '-')

/-! ### Two-character patterns -/

/-- A character put in front of the first part. -/
def onto (c : Char) : List (List Char) → List (List Char)
  | [] => [[c]]
  | part :: parts => (c :: part) :: parts

/-- `str::split` for a pattern of two characters. -/
def splitPair (a b : Char) : List Char → List (List Char)
  | [] => [[]]
  | [c] => [[c]]
  | c :: d :: cs =>
    if c == a && d == b then [] :: splitPair a b cs else onto c (splitPair a b (d :: cs))

/-- `str::replace` of a pattern of two characters by one character. -/
def replacePair (a b r : Char) : List Char → List Char
  | [] => []
  | [c] => [c]
  | c :: d :: cs =>
    if c == a && d == b then r :: replacePair a b r cs else c :: replacePair a b r (d :: cs)

variable {a b r c : Char} {cs line : List Char}

theorem splitPair_cons_of_ne (h : c ≠ a) : splitPair a b (c :: cs) = onto c (splitPair a b cs) := by
  cases cs with
  | nil => rfl
  | cons d cs => simp [splitPair, h]

theorem splitPair_pair (cs : List Char) :
    splitPair a b (a :: b :: cs) = [] :: splitPair a b cs := by
  simp [splitPair]

theorem splitPair_ne_nil : splitPair a b cs ≠ [] := by
  fun_induction splitPair a b cs with
  | case1 => simp
  | case2 => simp
  | case3 => simp
  | case4 c d cs hpair ih =>
    cases hparts : splitPair a b (d :: cs) with
    | nil => exact absurd hparts ih
    | cons part parts => simp [onto]

variable {cs part before after : List Char}

/-- A text without the pattern's first character joins the first part. -/
theorem splitPair_append {line : List Char} {parts : List (List Char)} (hline : a ∉ line)
    (hcs : splitPair a b cs = part :: parts) :
    splitPair a b (line ++ cs) = (line ++ part) :: parts := by
  induction line with
  | nil => exact hcs
  | cons c line ih =>
    rw [mem_cons, not_or] at hline
    rw [cons_append, splitPair_cons_of_ne (Ne.symm hline.1), ih hline.2]
    rfl

theorem splitPair_of_notMem (h : a ∉ cs) : splitPair a b cs = [cs] := by
  have happend := splitPair_append (b := b) h (rfl : splitPair a b [] = [[]])
  simpa using happend

/-- The parts of a text are those before and those after a separator. -/
theorem splitPair_concat (hab : a ≠ b) (cs rest : List Char) :
    splitPair a b (cs ++ a :: b :: rest) = splitPair a b cs ++ splitPair a b rest := by
  fun_induction splitPair a b cs with
  | case1 => exact splitPair_pair rest
  | case2 c =>
    by_cases hc : c = a
    · simp [splitPair, hc, hab, onto]
    · rw [singleton_append, splitPair_cons_of_ne hc, splitPair_pair]
      rfl
  | case3 c d cs hpair ih =>
    simp only [Bool.and_eq_true, beq_iff_eq] at hpair
    obtain ⟨rfl, rfl⟩ := hpair
    rw [cons_append, cons_append, splitPair_pair, ih]
    rfl
  | case4 c d cs hpair ih =>
    rw [cons_append, cons_append, splitPair, if_neg hpair, ← cons_append, ih]
    cases hparts : splitPair a b (d :: cs) with
    | nil => exact absurd hparts splitPair_ne_nil
    | cons part parts => rfl

/-- The parts make up the text again. -/
theorem intercalate_splitPair (cs : List Char) : [a, b].intercalate (splitPair a b cs) = cs := by
  fun_induction splitPair a b cs with
  | case1 => rfl
  | case2 c => simp
  | case3 c d cs hpair ih =>
    simp only [Bool.and_eq_true, beq_iff_eq] at hpair
    obtain ⟨rfl, rfl⟩ := hpair
    have hne : splitPair c d cs ≠ [] := splitPair_ne_nil
    obtain ⟨part, parts, hparts⟩ := exists_cons_of_ne_nil hne
    rw [hparts] at ih ⊢
    rw [intercalate_cons_cons, ih]
    rfl
  | case4 c d cs hpair ih =>
    cases hparts : splitPair a b (d :: cs) with
    | nil => exact absurd hparts splitPair_ne_nil
    | cons part parts =>
      rw [hparts] at ih
      rw [onto]
      cases parts with
      | nil => simpa using ih
      | cons next parts =>
        rw [← ih]
        rfl

/-- A replacement goes on on both sides of an occurrence. -/
theorem replacePair_concat (hab : a ≠ b) (cs rest : List Char) :
    replacePair a b r (cs ++ a :: b :: rest) =
      replacePair a b r cs ++ r :: replacePair a b r rest := by
  fun_induction replacePair a b r cs with
  | case1 => simp [replacePair]
  | case2 c =>
    by_cases hc : c = a
    · simp [replacePair, hc, hab]
    · simp [replacePair, hc]
  | case3 c d cs hpair ih =>
    simp only [Bool.and_eq_true, beq_iff_eq] at hpair
    obtain ⟨rfl, rfl⟩ := hpair
    simp [replacePair, ih]
  | case4 c d cs hpair ih =>
    rw [cons_append, cons_append, replacePair, if_neg hpair, ← cons_append, ih]
    rfl

/-- Texts whose border is not an occurrence are treated apart. -/
theorem replacePair_append_of_not (cs rest : List Char)
    (h : cs.getLast? = some a → rest.head? ≠ some b) :
    replacePair a b r (cs ++ rest) = replacePair a b r cs ++ replacePair a b r rest := by
  fun_induction replacePair a b r cs with
  | case1 => rfl
  | case2 c =>
    cases rest with
    | nil => rfl
    | cons d rest =>
      have hpair : ¬ (c == a && d == b) = true := by
        simp only [Bool.and_eq_true, beq_iff_eq]
        rintro ⟨rfl, rfl⟩
        exact h rfl rfl
      rw [singleton_append, replacePair, if_neg hpair]
      rfl
  | case3 c d cs hpair ih =>
    have hlast : cs.getLast? = some a → rest.head? ≠ some b := by
      intro hcs
      refine h ?_
      cases cs with
      | nil => cases hcs
      | cons e cs => simpa using hcs
    rw [cons_append, cons_append, replacePair, if_pos hpair, ih hlast]
    rfl
  | case4 c d cs hpair ih =>
    rw [cons_append, cons_append, replacePair, if_neg hpair, ← cons_append,
      ih (by simpa using h)]
    rfl

theorem replacePair_cons_of_ne (h : c ≠ a) :
    replacePair a b r (c :: cs) = c :: replacePair a b r cs := by
  cases cs with
  | nil => rfl
  | cons d cs => simp [replacePair, h]

theorem replacePair_pair : replacePair a b r (a :: b :: cs) = r :: replacePair a b r cs := by
  simp [replacePair]

theorem replacePair_append (hline : a ∉ line) (cs : List Char) :
    replacePair a b r (line ++ cs) = line ++ replacePair a b r cs := by
  induction line with
  | nil => rfl
  | cons c line ih =>
    rw [mem_cons, not_or] at hline
    rw [cons_append, replacePair_cons_of_ne (Ne.symm hline.1), ih hline.2, cons_append]

theorem replacePair_of_notMem (h : a ∉ cs) : replacePair a b r cs = cs := by
  simpa [replacePair] using replacePair_append (b := b) (r := r) h []

/-! ### Splitting at a character -/

variable {p : Char → Bool}

theorem splitChars_of_forall (hline : ∀ c ∈ line, p c = false) : splitChars p line = [line] := by
  induction line with
  | nil => rfl
  | cons d line ih =>
    rw [forall_mem_cons] at hline
    simp [splitChars, hline.1, ih hline.2]

variable {d : Char}

theorem splitChars_ne_nil : splitChars p cs ≠ [] := by
  cases cs with
  | nil => exact cons_ne_nil _ _
  | cons c cs =>
    simp only [splitChars]
    split
    · exact cons_ne_nil _ _
    · split <;> exact cons_ne_nil _ _

/-- The parts of a text are those before and those after a separator. -/
theorem splitChars_concat (hc : p c = true) (cs rest : List Char) :
    splitChars p (cs ++ c :: rest) = splitChars p cs ++ splitChars p rest := by
  induction cs with
  | nil => simp [splitChars, hc]
  | cons d cs ih =>
    simp only [cons_append, splitChars]
    split
    · rw [ih]
      rfl
    · rw [ih]
      cases hparts : splitChars p cs with
      | nil => exact absurd hparts splitChars_ne_nil
      | cons part parts => rfl

theorem splitChars_append (hline : ∀ c ∈ line, p c = false) (hc : p c = true) (cs : List Char) :
    splitChars p (line ++ c :: cs) = line :: splitChars p cs := by
  rw [splitChars_concat hc, splitChars_of_forall hline, singleton_append]

theorem split_append_slash (hp : p '/' = true) (front back : String) :
    split (front ++ "/" ++ back) p = split front p ++ split back p := by
  have hchars : (front ++ "/" ++ back).toList = front.toList ++ '/' :: back.toList := by
    simp [String.toList_append]
  rw [split, hchars, splitChars_concat hp, map_append, split, split]

theorem splitChars_intercalate (hd : p d = true) {parts : List (List Char)} (hne : parts ≠ [])
    (h : ∀ part ∈ parts, ∀ c ∈ part, p c = false) :
    splitChars p ([d].intercalate parts) = parts := by
  induction parts with
  | nil => exact absurd rfl hne
  | cons part parts ih =>
    rw [forall_mem_cons] at h
    cases parts with
    | nil =>
      rw [intercalate_singleton]
      exact splitChars_of_forall h.1
    | cons next parts =>
      rw [intercalate_cons_cons, append_assoc, singleton_append,
        splitChars_append h.1 hd, ih (cons_ne_nil _ _) h.2]

theorem of_mem_splitChars (h : part ∈ splitChars p cs) : ∀ c ∈ part, c ∈ cs ∧ p c = false := by
  induction cs generalizing part with
  | nil =>
    rw [splitChars, mem_singleton] at h
    simp [h]
  | cons d cs ih =>
    have hrest {part : List Char} h : ∀ c ∈ part, c ∈ d :: cs ∧ p c = false :=
      fun c hc => (ih h c hc).imp_left (mem_cons_of_mem d)
    simp only [splitChars] at h
    split at h
    · obtain rfl | h := mem_cons.mp h
      · simp
      · exact hrest h
    · next hd =>
      rw [Bool.not_eq_true] at hd
      split at h
      · next hnil => exact absurd hnil splitChars_ne_nil
      · next first parts hparts =>
        obtain rfl | h := mem_cons.mp h
        · exact forall_mem_cons.mpr ⟨⟨mem_cons_self, hd⟩, hrest (hparts ▸ mem_cons_self)⟩
        · exact hrest (hparts ▸ mem_cons_of_mem _ h)

theorem forall_of_mem_splitChars (h : part ∈ splitChars p cs) : ∀ c ∈ part, p c = false :=
  fun c hc => (of_mem_splitChars h c hc).2

theorem mem_of_mem_splitChars (h : part ∈ splitChars p cs) : ∀ c ∈ part, c ∈ cs :=
  fun c hc => (of_mem_splitChars h c hc).1

/-! ### Trimming -/

theorem isWhitespace_of_isAlphanum (h : c.isAlphanum = true) : isWhitespace c = false := by
  change (decide (_ ∧ _) || (_ && _) || (_ && _)) = true at h
  simp only [Bool.or_eq_true, Bool.and_eq_true, decide_eq_true_eq, ge_iff_le,
    UInt32.le_iff_toNat_le] at h
  by_contra hblank
  simp [isWhitespace] at hblank
  simp at h
  omega

variable {s pat rest : String}

theorem trim_eq_self (h : ∀ c ∈ s.toList, isWhitespace c = false) : trim s = s := by
  have hfront : s.toList.dropWhile isWhitespace = s.toList :=
    dropWhile_eq_self_iff.mpr fun hlt => by simp [h _ (getElem_mem hlt)]
  have hback : s.toList.reverse.dropWhile isWhitespace = s.toList.reverse :=
    dropWhile_eq_self_iff.mpr fun hlt => by
      rw [Bool.not_eq_true]
      exact h _ (mem_reverse.mp (getElem_mem hlt))
  rw [trim, hfront, hback, reverse_reverse, String.ofList_toList]

/-- Trimming takes away white space only. -/
theorem mem_trim (hmem : c ∈ s.toList) (hc : isWhitespace c = false) : c ∈ (trim s).toList := by
  have hback : c ∈ s.toList.dropWhile isWhitespace := by
    rw [← takeWhile_append_dropWhile (p := isWhitespace) (l := s.toList),
      mem_append] at hmem
    refine hmem.resolve_left fun hfront => ?_
    simpa [hc] using mem_takeWhile_imp hfront
  rw [trim, String.toList_ofList, mem_reverse]
  rw [← mem_reverse, ← takeWhile_append_dropWhile (p := isWhitespace)
    (l := (s.toList.dropWhile isWhitespace).reverse), mem_append] at hback
  refine hback.resolve_left fun hfront => ?_
  simpa [hc] using mem_takeWhile_imp hfront

theorem infix_trim (s : String) : (trim s).toList <:+: s.toList := by
  have hsuffix : s.toList.dropWhile isWhitespace <:+ s.toList := dropWhile_suffix _
  have hprefix : (trim s).toList <+: s.toList.dropWhile isWhitespace := by
    rw [trim, String.toList_ofList, ← reverse_suffix, reverse_reverse]
    exact dropWhile_suffix _
  exact hprefix.isInfix.trans hsuffix.isInfix

/-- Text without white space stays at the front of a trimmed text. -/
theorem prefix_trim {front : List Char} (hfront : ∀ c ∈ front, isWhitespace c = false)
    (cs : List Char) : front <+: (trim (String.ofList (front ++ cs))).toList := by
  have hback : front.reverse.dropWhile isWhitespace = front.reverse :=
    dropWhile_eq_self_iff.mpr fun hlt => by
      rw [Bool.not_eq_true]
      exact hfront _ (mem_reverse.mp (getElem_mem hlt))
  cases front with
  | nil => exact nil_prefix
  | cons c front =>
    have hfirst : (c :: front ++ cs).dropWhile isWhitespace = c :: front ++ cs :=
      dropWhile_cons_of_neg (by simp [hfront c mem_cons_self])
    rw [trim, String.toList_ofList, String.toList_ofList, hfirst, reverse_append,
      dropWhile_append, ← reverse_suffix, reverse_reverse, hback]
    split
    · exact suffix_refl _
    · exact suffix_append _ _

/-- How many characters are not white space. -/
def countInk (cs : List Char) : ℕ := cs.countP (! isWhitespace ·)

theorem countInk_append (cs rest : List Char) :
    countInk (cs ++ rest) = countInk cs + countInk rest := countP_append

theorem countInk_trim (s : String) : countInk (trim s).toList = countInk s.toList := by
  have hdrop cs : countInk (cs.dropWhile isWhitespace) = countInk cs := by
    have hblank : countInk (cs.takeWhile isWhitespace) = 0 :=
      countP_eq_zero.mpr fun c hc => by simp [mem_takeWhile_imp hc]
    have hparts := countInk_append (cs.takeWhile isWhitespace) (cs.dropWhile isWhitespace)
    rw [takeWhile_append_dropWhile, hblank, Nat.zero_add] at hparts
    exact hparts.symm
  have hreverse cs : countInk cs.reverse = countInk cs := countP_reverse
  rw [trim, String.toList_ofList, hreverse, hdrop, hreverse, hdrop]

/-- What a trimmed text begins with stands somewhere in the text. -/
theorem contains_of_startsWith_trim (h : startsWith (trim s) pat) : pat.toList <:+: s.toList :=
  (List.isPrefixOf_iff_prefix.mp h).isInfix.trans (infix_trim s)

/-! ### Numbered names -/

/-- What a string has after its last dash. -/
def afterLastDash (s : String) : List Char := (s.toList.reverse.takeWhile (· != '-')).reverse

theorem notMem_toDigits {c : Char} (hc : c.isDigit = false) (n : ℕ) : c ∉ Nat.toDigits 10 n := by
  intro hmem
  rw [Nat.isDigit_of_mem_toDigits (by decide) (by decide) hmem] at hc
  cases hc

theorem toDigits_injective {m n : ℕ} (h : Nat.toDigits 10 m = Nat.toDigits 10 n) : m = n := by
  simpa using congrArg (fun digits => Nat.ofDigitChars 10 digits 0) h

theorem afterLastDash_numbered (stem : String) (n : ℕ) :
    afterLastDash (stem ++ "-" ++ toString n) = Nat.toDigits 10 n := by
  have hdigits : ∀ c ∈ (Nat.toDigits 10 n).reverse, (c != '-') = true := by
    intro c hc
    by_contra hdash
    rw [show c = '-' by simpa using hdash] at hc
    exact notMem_toDigits (by decide) n (mem_reverse.mp hc)
  simp only [afterLastDash, String.toList_append, Nat.toString_eq_repr, Nat.toList_repr,
    reverse_append]
  rw [takeWhile_append_of_pos hdigits]
  simp

/-- A name that ends in a dash and a number determines the number. -/
theorem numbered_injective {stem stem' : String} {m n : ℕ}
    (h : stem ++ "-" ++ toString m = stem' ++ "-" ++ toString n) : m = n := by
  have hdigits := congrArg afterLastDash h
  rw [afterLastDash_numbered, afterLastDash_numbered] at hdigits
  exact toDigits_injective hdigits

/-! ### Prefixes and splits -/

/-- What stands before the first colon is determined, and so is what stands after it. -/
theorem split_colon {a b x y : String} (ha : ':' ∉ a.toList) (hb : ':' ∉ b.toList)
    (h : a ++ ":" ++ x = b ++ ":" ++ y) : a = b ∧ x = y := by
  have hfront {a x : String} (ha : ':' ∉ a.toList) :
      (a ++ ":" ++ x).toList.takeWhile (· != ':') = a.toList := by
    have hall : ∀ c ∈ a.toList, (c != ':') = true := by
      intro c hc
      rw [bne_iff_ne]
      rintro rfl
      exact ha hc
    rw [String.toList_append, String.toList_append, List.append_assoc,
      takeWhile_append_of_pos hall]
    simp
  have heq : a = b := String.toList_inj.mp (by rw [← hfront ha (x := x), h, hfront hb])
  subst heq
  rw [String.append_assoc, String.append_assoc] at h
  exact ⟨rfl, (String.append_right_inj _).mp ((String.append_right_inj _).mp h)⟩

theorem startsWith_iff : startsWith s pat = true ↔ pat.toList <+: s.toList :=
  isPrefixOf_iff_prefix

theorem stripPrefix_eq_some (h : stripPrefix s pat = some rest) : startsWith s pat = true := by
  unfold stripPrefix at h
  split at h
  · assumption
  · cases h

theorem stripPrefix_iff : stripPrefix s pat = some rest ↔ s.toList = pat.toList ++ rest.toList := by
  constructor
  · intro h
    obtain ⟨back, hback⟩ := startsWith_iff.mp (stripPrefix_eq_some h)
    rw [stripPrefix, if_pos (stripPrefix_eq_some h), ← hback, drop_left] at h
    rw [← hback, ← Option.some.inj h, String.toList_ofList]
  · intro h
    have hstarts : startsWith s pat = true := startsWith_iff.mpr ⟨rest.toList, h.symm⟩
    rw [stripPrefix, if_pos hstarts, h, drop_left, String.ofList_toList]

theorem mem_of_stripPrefix (h : stripPrefix s pat = some rest) {c : Char}
    (hc : c ∈ rest.toList) : c ∈ s.toList := by
  unfold stripPrefix at h
  split at h
  · cases h
    rw [String.toList_ofList] at hc
    exact mem_of_mem_drop hc
  · cases h

theorem splitOnceChars_eq_some {pat : List Char}
    (h : splitOnceChars pat cs = some (before, after)) : cs = before ++ pat ++ after := by
  induction cs generalizing before with
  | nil =>
    simp only [splitOnceChars] at h
    split at h
    · next hpat =>
      cases h
      simpa using hpat
    · cases h
  | cons c cs ih =>
    simp only [splitOnceChars] at h
    split at h
    · next hpat =>
      cases h
      obtain ⟨rest, hrest⟩ := isPrefixOf_iff_prefix.mp hpat
      simp [← hrest]
    · obtain ⟨⟨before', after'⟩, hsplit, heq⟩ := Option.map_eq_some_iff.mp h
      cases heq
      rw [ih hsplit]
      simp

theorem splitOnce_prefix {before after : String}
    (h : splitOnce s pat = some (before, after)) : before.toList <+: s.toList := by
  obtain ⟨⟨before', after'⟩, hsplit, heq⟩ := Option.map_eq_some_iff.mp h
  cases heq
  rw [splitOnceChars_eq_some hsplit]
  exact ⟨pat.toList ++ after', by simp⟩

theorem splitOnceChars_of_notMem (h : d ∉ cs) : splitOnceChars [d] cs = none := by
  induction cs with
  | nil => rfl
  | cons c cs ih =>
    obtain ⟨hne, hcs⟩ := not_or.mp (mt mem_cons.mpr h)
    simp [splitOnceChars, ih hcs, hne]

theorem splitOnceChars_append {rest : List Char} (h : d ∉ cs) :
    splitOnceChars [d] (cs ++ d :: rest) = some (cs, rest) := by
  induction cs with
  | nil => simp [splitOnceChars]
  | cons c cs ih =>
    obtain ⟨hne, hcs⟩ := not_or.mp (mt mem_cons.mpr h)
    simp [splitOnceChars, hne, ih hcs]

theorem notMem_of_splitOnceChars
    (h : splitOnceChars [d] cs = some (before, after)) : d ∉ before := by
  induction cs generalizing before with
  | nil => cases h
  | cons c cs ih =>
    simp only [splitOnceChars] at h
    split at h
    · cases h
      exact not_mem_nil
    · next hhead =>
      obtain ⟨⟨before', after'⟩, hsplit, heq⟩ := Option.map_eq_some_iff.mp h
      cases heq
      refine mt mem_cons.mp (not_or.mpr ⟨?_, ih hsplit⟩)
      rintro rfl
      simp at hhead

/-- Two texts up to a character that is in neither are the same. -/
theorem append_cons_inj {xs ys : List Char} (hx : d ∉ xs) (hy : d ∉ ys)
    (h : xs ++ d :: before = ys ++ d :: after) : xs = ys ∧ before = after := by
  obtain ⟨left, hleft, hrest⟩ | ⟨left, hleft, hrest⟩ := append_eq_append_iff.mp h
  · cases left with
    | nil => exact ⟨by simpa using hleft.symm, (cons.inj hrest).2⟩
    | cons c left =>
      obtain rfl := (cons.inj hrest).1
      exact absurd (hleft ▸ mem_append_right xs mem_cons_self) hy
  · cases left with
    | nil => exact ⟨by simpa using hleft, (cons.inj hrest).2.symm⟩
    | cons c left =>
      obtain rfl := (cons.inj hrest).1
      exact absurd (hleft ▸ mem_append_right ys mem_cons_self) hx

end AgentSight.Str
