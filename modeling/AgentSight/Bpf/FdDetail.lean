import AgentSight.Bpf.Lines

/-!
# File descriptors in a detail

`format_fd_detail` of `bpf/process_ext/bpf_common.h` writes a file descriptor into the detail of a
key, with loops of its own over the digits; `parse_fd_detail` of `bpf/process_ext/map_flush.h` reads
it back with `strncmp` and `strtol`. The array of the key has room for the longest detail. The
reader looks at one byte after the other, and what it looks at last is the terminator.
-/

namespace AgentSight.Bpf

/-- `fd=` -/
def fdPrefix : List UInt8 := [102, 100, 61]

/-! ### The writer -/

/-- The loop over the digits, the last digit first, with room for so many. -/
def reversedDigits : ℕ → UInt32 → List UInt8
  | 0, _ => []
  | room + 1, n =>
    if 0 < n then UInt8.ofNat (48 + (n % 10).toNat) :: reversedDigits room (n / 10) else []

/-- `buf[pos++] = c` for one character after the other while there is room for a terminator. -/
def putAll (bufLen : ℕ) (text : List UInt8) : List UInt8 → List UInt8
  | [] => text
  | c :: cs => if text.length < bufLen - 1 then putAll bufLen (text ++ [c]) cs else text

/-- `format_fd_detail`. The negation of the least number is undefined in C. Here it wraps around,
as compiled code does, and gives its magnitude as an unsigned one. -/
def formatFdDetail (buf : List UInt8) (fd : Int32) : List UInt8 :=
  if buf.length < 4 then buf
  else
    let ufd := (if fd < 0 then -fd else fd).toUInt32
    let digits := if ufd = 0 then [48] else reversedDigits 11 ufd
    let text := putAll buf.length (putAll buf.length fdPrefix (if fd < 0 then [45] else []))
      digits.reverse
    text ++ 0 :: buf.drop (text.length + 1)

/-! ### The reader -/

/-- `strncmp` with a prefix of as many bytes, and `none` where it looks behind the memory. -/
def startsWith : List UInt8 → List UInt8 → Option Bool
  | [], _ => some true
  | _ :: _, [] => none
  | p :: ps, b :: bs => if b = p then startsWith ps bs else some false

/-- The bytes that `p` holds of and what follows them. The byte after them is looked at, too. -/
def readWhile (p : UInt8 → Bool) : List UInt8 → Option (List UInt8 × List UInt8)
  | [] => none
  | b :: bs =>
    if p b then (readWhile p bs).map fun (read, rest) => (b :: read, rest) else some ([], b :: bs)

/-- The number that the digits write. -/
def digitsValue (digits : List UInt8) : ℤ :=
  digits.foldl (fun (n : ℤ) b => 10 * n + (b.toNat - 48 : ℕ)) 0

/-- `parse_fd_detail` on the memory from the detail on, and `none` where it looks behind it. -/
def readFdDetail (memory : List UInt8) : Option (Option Int32) := do
  let isDetail ← startsWith fdPrefix memory
  if isDetail then
    let (_, number) ← readWhile isSpaceByte (memory.drop fdPrefix.length)
    let (negative, number) := strtolSign number
    let (digits, rest) ← readWhile isDigitByte number
    let n := digitsValue digits
    let stop ← rest.head?
    if digits = [] ∨ stop ≠ 0 then some none
    else some (some (.ofInt (max (-2 ^ 63) (min (2 ^ 63 - 1) (if negative then -n else n)))))
  else some none

/-! ### What the reader looks at -/

variable {text more : List UInt8} {p : UInt8 → Bool}

theorem readWhile_terminated (hstop : p 0 = false) : readWhile p (text ++ 0 :: more) =
    some (text.takeWhile p, text.dropWhile p ++ 0 :: more) := by
  induction text with
  | nil => simp [readWhile, hstop]
  | cons b text ih =>
    rw [List.cons_append, readWhile, ih, List.takeWhile_cons, List.dropWhile_cons]
    split_ifs <;> rfl

theorem strtolSign_terminated : strtolSign (text ++ 0 :: more) =
    ((strtolSign text).1, (strtolSign text).2 ++ 0 :: more) := by
  cases text with
  | nil => rfl
  | cons b text =>
    rw [List.cons_append]
    unfold strtolSign
    split <;> split <;> simp_all

theorem strtolSign_sublist : (strtolSign text).2.Sublist text := by
  unfold strtolSign
  split
  exacts [List.sublist_cons_self .., List.sublist_cons_self .., List.Sublist.refl _]

theorem startsWith_terminated (pre : List UInt8) (hpre : 0 ∉ pre) :
    startsWith pre (text ++ 0 :: more) = some (pre.isPrefixOf text) := by
  induction pre generalizing text with
  | nil => rfl
  | cons c pre ih =>
    rw [List.mem_cons, not_or] at hpre
    cases text with
    | nil => rw [List.nil_append, startsWith, if_neg hpre.1]; rfl
    | cons b text =>
      rw [List.cons_append, startsWith, ih hpre.2, List.isPrefixOf_cons_cons]
      by_cases h : b = c
      · simp [h]
      · simp [h, Ne.symm h]

theorem parseFdDetail_eq : parseFdDetail text =
    if fdPrefix.isPrefixOf text then
      (strtol (text.drop fdPrefix.length)).bind fun (fd, rest) =>
        if rest = [] then some (Int32.ofInt fd) else none
    else none := by
  unfold parseFdDetail
  split
  · rename_i rest
    rw [if_pos (by simp [fdPrefix])]
    simp only [fdPrefix, List.length_cons, List.length_nil, List.drop_succ_cons, List.drop_zero]
    cases strtol rest with
    | none => rfl
    | some r => rcases r with ⟨fd, _ | _⟩ <;> simp
  · rename_i h
    rw [if_neg]
    rw [List.isPrefixOf_iff_prefix]
    rintro ⟨rest, rfl⟩
    exact h rest rfl

/-- The byte that ends the number is the terminator where nothing of the text is left. -/
theorem stop_eq_zero_iff (more : List UInt8) (hnul : 0 ∉ text) :
    (text ++ 0 :: more).head? = some (text.head?.getD 0) ∧ (text.head?.getD 0 = 0 ↔ text = []) := by
  cases text with
  | nil => simp
  | cons b text =>
    rw [List.mem_cons, not_or] at hnul
    simp [Ne.symm hnul.1]

/-- Up to the terminator the reader finds what `parseFdDetail` finds in the text, and it looks at
nothing behind the terminator. -/
theorem readFdDetail_terminated (hnul : 0 ∉ text) (more : List UInt8) :
    readFdDetail (text ++ 0 :: more) = some (parseFdDetail text) := by
  rw [readFdDetail, startsWith_terminated fdPrefix (by decide), parseFdDetail_eq]
  cases hpre : fdPrefix.isPrefixOf text with
  | false => rfl
  | true =>
    obtain ⟨rest, rfl⟩ := List.isPrefixOf_iff_prefix.mp hpre
    have hrest : 0 ∉ ((strtolSign (rest.dropWhile isSpaceByte)).2).dropWhile isDigitByte :=
      fun h => hnul (List.mem_append_right _ ((((List.dropWhile_sublist _).trans
        strtolSign_sublist).trans (List.dropWhile_sublist _)).subset h))
    obtain ⟨hstop, hzero⟩ := stop_eq_zero_iff more hrest
    simp only [Option.bind_eq_bind, Option.bind_some, if_true, List.append_assoc, List.drop_left,
      readWhile_terminated (show isSpaceByte 0 = false from rfl), strtolSign_terminated,
      readWhile_terminated (show isDigitByte 0 = false from rfl), hstop, ne_eq, hzero, strtol,
      digitsValue]
    by_cases hdigits : List.takeWhile isDigitByte (strtolSign (rest.dropWhile isSpaceByte)).2 = []
    · simp [hdigits]
    · simp only [hdigits, Option.bind_some, if_false, false_or, ite_not]
      split_ifs <;> rfl

/-! ### What the writer writes -/

theorem putAll_eq {bufLen : ℕ} {cs : List UInt8} (text : List UInt8)
    (hroom : text.length + cs.length < bufLen) :
    putAll bufLen text cs = text ++ cs := by
  induction cs generalizing text with
  | nil => rw [putAll, List.append_nil]
  | cons c cs ih =>
    rw [List.length_cons] at hroom
    rw [putAll, if_pos (by omega), ih, List.append_assoc, List.singleton_append]
    simp only [List.length_append, List.length_singleton]
    omega

theorem isDigitByte_digit : ∀ d < 10, isDigitByte (UInt8.ofNat (48 + d)) ∧
    (UInt8.ofNat (48 + d)).toNat - 48 = d := by
  decide

/-- The digits of a number that has no more than there is room for. -/
theorem reversedDigits_spec {room : ℕ} {n : UInt32} (hroom : n.toNat < 10 ^ room) :
    digitsValue (reversedDigits room n).reverse = n.toNat ∧
      (∀ b ∈ reversedDigits room n, isDigitByte b) ∧ (reversedDigits room n).length ≤ room ∧
      (reversedDigits room n = [] → n = 0) := by
  induction room generalizing n with
  | zero =>
    have hn : n = 0 := by simpa [← UInt32.toNat_inj] using hroom
    simp [reversedDigits, digitsValue, hn]
  | succ room ih =>
    rw [reversedDigits]
    split_ifs with hpos
    · have hdiv : (n / 10).toNat = n.toNat / 10 := UInt32.toNat_div n 10
      have hmod : (n % 10).toNat = n.toNat % 10 := UInt32.toNat_mod n 10
      obtain ⟨hvalue, hdigits, hlength, -⟩ := ih (n := n / 10) (by rw [pow_succ] at hroom; omega)
      obtain ⟨hdigit, hlast⟩ := isDigitByte_digit (n % 10).toNat (by omega)
      refine ⟨?_, List.forall_mem_cons.mpr ⟨hdigit, hdigits⟩, by simpa using hlength, by simp⟩
      rw [List.reverse_cons, digitsValue, List.foldl_concat, ← digitsValue, hvalue, hlast]
      omega
    · have hn : n = 0 := by simpa [UInt32.lt_iff_toNat_lt, ← UInt32.toNat_inj] using hpos
      simp [digitsValue, hn]

theorem strtol_digits {digits : List UInt8} (negative : Bool)
    (hdigits : ∀ b ∈ digits, isDigitByte b) (hne : digits ≠ []) :
    strtol ((if negative then [45] else []) ++ digits) =
      let n := digitsValue digits
      some (max (-2 ^ 63) (min (2 ^ 63 - 1) (if negative then -n else n)), []) := by
  obtain ⟨d, ds, rfl⟩ := List.exists_cons_of_ne_nil hne
  have hsign : strtolSign (((if negative then [45] else []) ++ d :: ds).dropWhile isSpaceByte) =
      (negative, d :: ds) := by
    cases negative with
    | true => rfl
    | false =>
      have hd := hdigits d (List.mem_cons_self ..)
      have hspace : isSpaceByte d = false := by
        unfold isSpaceByte isDigitByte at *
        grind
      simp only [Bool.false_eq_true, if_false, List.nil_append, List.dropWhile_cons, hspace]
      unfold strtolSign
      split <;> simp_all [isDigitByte]
  simp only [strtol, hsign, List.takeWhile_eq_self_iff.mpr hdigits, if_neg hne, digitsValue,
    List.dropWhile_eq_nil_iff.mpr hdigits]

/-- The magnitude of a descriptor, which that of the least number is, too. -/
theorem toNat_magnitude (fd : Int32) :
    (if fd < 0 then -fd else fd).toUInt32.toNat = fd.toInt.natAbs := by
  have hint : fd.toInt = if 2 * fd.toUInt32.toNat < 2 ^ 32 then (fd.toUInt32.toNat : ℤ) else
      (fd.toUInt32.toNat : ℤ) - (2 ^ 32 : ℕ) := BitVec.toInt_eq_toNat_cond fd.toBitVec
  have hlt := fd.toUInt32.toNat_lt
  split_ifs with hneg <;> rw [Int32.lt_iff_toInt_lt, Int32.toInt_zero] at hneg
  · rw [Int32.toUInt32_neg, UInt32.toNat_neg, UInt32.size]
    omega
  · omega

/-- The detail that is written for a descriptor. -/
theorem formatFdDetail_eq (buf : List UInt8) (fd : Int32) (hroom : 15 < buf.length) :
    ∃ digits more, (∀ b ∈ digits, isDigitByte b) ∧ digits ≠ [] ∧
      digitsValue digits = fd.toInt.natAbs ∧
      formatFdDetail buf fd =
        fdPrefix ++ ((if fd < 0 then [45] else []) ++ digits) ++ 0 :: more := by
  have hsize : (if fd < 0 then -fd else fd).toUInt32.toNat < 10 ^ 11 :=
    (UInt32.toNat_lt _).trans (by decide)
  obtain ⟨hvalue, hdigits, hlength, hnil⟩ := reversedDigits_spec hsize
  rw [toNat_magnitude] at hvalue
  rw [formatFdDetail, if_neg (by omega)]
  generalize (if fd < 0 then -fd else fd).toUInt32 = ufd at *
  have hdigits : ∃ digits, (if ufd = 0 then [48] else reversedDigits 11 ufd) = digits ∧
      digits ≠ [] ∧ digits.length ≤ 11 ∧ (∀ b ∈ digits, isDigitByte b) ∧
      digitsValue digits.reverse = fd.toInt.natAbs := by
    split_ifs with hzero
    · subst hzero
      exact ⟨_, rfl, by decide, by decide, by decide, hvalue⟩
    · exact ⟨_, rfl, mt hnil hzero, hlength, hdigits, hvalue⟩
  obtain ⟨digits, hwritten, hne, hlength, hdigits, hvalue⟩ := hdigits
  have hsign : (if fd < 0 then [45] else [] : List UInt8).length ≤ 1 := by split_ifs <;> decide
  have hprefix : fdPrefix.length = 3 := rfl
  refine ⟨digits.reverse,
    buf.drop ((fdPrefix ++ ((if fd < 0 then [45] else []) ++ digits.reverse)).length + 1),
    by simpa using hdigits, by simpa using hne, hvalue, ?_⟩
  dsimp only
  rw [hwritten, putAll_eq fdPrefix (by omega), putAll_eq, List.append_assoc fdPrefix]
  simp only [List.length_append, List.length_reverse]
  omega

/-- Each descriptor is read back from the detail that is written for it, and the reader finds what
it finds in a text without a look behind its terminator. -/
theorem fd_detail_round_trip :
    (∀ (fd : Int32) (buf : Vector UInt8 detailLen),
      readFdDetail (formatFdDetail buf.toList fd) = some (some fd)) ∧
    ∀ {size : ℕ} (text : CString size),
      readFdDetail (text.bytes ++ [0]) = some (parseFdDetail text.bytes) := by
  refine ⟨fun fd buf => ?_, fun text => readFdDetail_terminated text.noNul []⟩
  obtain ⟨digits, more, hdigits, hne, hvalue, htext⟩ :=
    formatFdDetail_eq buf.toList fd (by rw [Vector.length_toList]; decide)
  have hnul : 0 ∉ fdPrefix ++ ((if fd < 0 then [45] else []) ++ digits) := by
    have hzero : 0 ∉ digits := fun h => absurd (hdigits 0 h) (by decide)
    split_ifs <;> simpa [fdPrefix] using hzero
  have hmin := fd.minValue_le_toInt
  have hmax := fd.toInt_lt
  rw [Int32.toInt_minValue] at hmin
  have hread : strtol ((if fd < 0 then [45] else []) ++ digits) = some (fd.toInt, []) := by
    have hstrtol := strtol_digits (decide (fd < 0)) hdigits hne
    simp only [decide_eq_true_eq, hvalue, Int32.lt_iff_toInt_lt, Int32.toInt_zero] at hstrtol ⊢
    rw [hstrtol, Option.some.injEq, Prod.mk.injEq]
    exact ⟨by split_ifs <;> omega, rfl⟩
  rw [htext, readFdDetail_terminated hnul, parseFdDetail_eq, if_pos (by simp), List.drop_left,
    hread]
  simp only [Option.bind_some, if_true, Int32.ofInt_toInt]

end AgentSight.Bpf
