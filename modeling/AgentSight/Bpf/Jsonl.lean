import AgentSight.Http.Utf8
import AgentSight.Lib.JsonString

/-!
# The JSON escapers of the tracers

`bpf/jsonl.h`: what the C tracers print for the bytes of a string. `jsonPrintEscaped` lets
well-formed UTF-8 through and escapes the rest; `jsonEscape` is the smaller escaper that
composes into a fixed buffer. Masks and shifts are written as remainders and products.
-/

namespace AgentSight.Bpf

open Http (isContinuation continuation utf8Chars toNat_ofNat_of_valid lossyChars StartsAscii)
open JsonString (Writes)
open List

/-! ### The source -/

/-- Whether `mbrtowc` reads a character from exactly these bytes in a UTF-8 locale. What else
it refuses, overlong forms and surrogates, the checks that follow it refuse as well. -/
def mbrtowcReads (bytes : List UInt8) : Bool := bytes.tail.all isContinuation

/-- The length that a leading byte announces; zero for a byte that leads nothing. -/
def expectedLen (c : UInt8) : ℕ :=
  if c.toNat / 32 = 6 then 2
  else if c.toNat / 16 = 14 then 3
  else if c.toNat / 8 = 30 then 4
  else 0

/-- `validate_utf8_char`; the list is what remains of the buffer. -/
def validateUtf8Char : List UInt8 → ℕ
  | [] => 0
  | c :: rest =>
    if c < 0x80 then 1
    else if expectedLen c = 0 then 0
    else if (c :: rest).length < expectedLen c then 0
    else if !mbrtowcReads ((c :: rest).take (expectedLen c)) then 0
    else
      match expectedLen c, rest with
      | 2, d :: _ =>
        let codepoint := c.toNat % 32 * 64 + d.toNat % 64
        if codepoint < 0x80 then 0 else 2
      | 3, d :: e :: _ =>
        let codepoint := (c.toNat % 16 * 64 + d.toNat % 64) * 64 + e.toNat % 64
        if codepoint < 0x800 then 0
        else if 0xD800 ≤ codepoint ∧ codepoint ≤ 0xDFFF then 0
        else 3
      | 4, d :: e :: f :: _ =>
        let codepoint :=
          ((c.toNat % 8 * 64 + d.toNat % 64) * 64 + e.toNat % 64) * 64 + f.toNat % 64
        if codepoint < 0x10000 ∨ 0x10FFFF < codepoint then 0 else 4
      | _, _ => 0

/-- The bytes of an ASCII text. -/
def ascii (s : String) : List UInt8 := s.toList.map fun c => UInt8.ofNat c.toNat

/-- `%x`, one digit. -/
def hexByte (n : ℕ) : UInt8 := UInt8.ofNat (if n < 10 then 48 + n else 87 + n)

/-- `printf("\\u%04x", c)`. -/
def unicodeEscape (c : UInt8) : List UInt8 :=
  [92, 117, 48, 48, hexByte (c.toNat / 16), hexByte (c.toNat % 16)]

/-- The loop of `json_print_escaped`. The first argument counts the bytes of a validated
sequence that are still to be passed through. -/
def jsonPrintEscapedFrom : ℕ → List UInt8 → List UInt8
  | _, [] => []
  | pass + 1, c :: rest => c :: jsonPrintEscapedFrom pass rest
  | 0, c :: rest =>
    if c = 34 ∨ c = 92 then 92 :: c :: jsonPrintEscapedFrom 0 rest
    else if c = 10 then [92, 110] ++ jsonPrintEscapedFrom 0 rest
    else if c = 13 then [92, 114] ++ jsonPrintEscapedFrom 0 rest
    else if c = 9 then [92, 116] ++ jsonPrintEscapedFrom 0 rest
    else if c = 8 then [92, 98] ++ jsonPrintEscapedFrom 0 rest
    else if c = 12 then [92, 102] ++ jsonPrintEscapedFrom 0 rest
    else if 32 ≤ c ∧ c ≤ 126 then c :: jsonPrintEscapedFrom 0 rest
    else if 128 ≤ c then
      if 0 < validateUtf8Char (c :: rest) then
        c :: jsonPrintEscapedFrom (validateUtf8Char (c :: rest) - 1) rest
      else unicodeEscape c ++ jsonPrintEscapedFrom 0 rest
    else unicodeEscape c ++ jsonPrintEscapedFrom 0 rest

def jsonPrintEscaped (buf : List UInt8) : List UInt8 := jsonPrintEscapedFrom 0 buf

def jsonPrintEscapedQuoted (buf : List UInt8) : List UInt8 :=
  34 :: jsonPrintEscaped buf ++ [34]

/-- What `json_escape` copies a byte as, where it fits. -/
def escapeByte (c : UInt8) : List UInt8 :=
  if c = 92 then [92, 92]
  else if c = 34 then [92, 34]
  else if c = 10 then [92, 110]
  else if c = 9 then [92, 116]
  else [c]

/-- The loop of `json_escape` with `j` bytes written. The callers' buffers have more than two
bytes, so that `dst_size - 2` does not wrap. -/
def jsonEscapeFrom (dstSize : ℕ) : ℕ → List UInt8 → List UInt8
  | _, [] => []
  | j, c :: rest =>
    if c ≠ 0 ∧ j < dstSize - 2 then
      if (escapeByte c).length = 2 ∧ ¬ j + 2 < dstSize then jsonEscapeFrom dstSize j rest
      else escapeByte c ++ jsonEscapeFrom dstSize (j + (escapeByte c).length) rest
    else []

def jsonEscape (src : List UInt8) (dstSize : ℕ) : List UInt8 := jsonEscapeFrom dstSize 0 src

/-! ### Well-formed sequences -/

variable {d c : UInt8}

theorem eq_continuation (h : isContinuation d = true) : d = continuation (d.toNat % 64) := by
  simp only [isContinuation, Bool.and_eq_true, decide_eq_true_eq, UInt8.le_iff_toNat_le,
    UInt8.reduceToNat] at h
  apply UInt8.toNat_inj.mp
  rw [Http.toNat_continuation (Nat.mod_lt _ (by omega))]
  omega

theorem eq_lead {n base : ℕ} (h : c.toNat = n + base) : c = UInt8.ofNat (n + base) := by
  rw [← h, UInt8.ofNat_toNat]

theorem encode_two (hc : c.toNat / 32 = 6) (hd : isContinuation d = true)
    (hlong : ¬ c.toNat % 32 * 64 + d.toNat % 64 < 0x80) :
    ∃ ch, 0x80 ≤ ch.toNat ∧ [c, d] = String.utf8EncodeChar ch := by
  have hnat := toNat_ofNat_of_valid (n := c.toNat % 32 * 64 + d.toNat % 64) (by omega)
  refine ⟨Char.ofNat (c.toNat % 32 * 64 + d.toNat % 64), by omega, ?_⟩
  rw [Http.utf8EncodeChar_eq, hnat, if_neg (by omega), if_pos (by omega),
    show (c.toNat % 32 * 64 + d.toNat % 64) / 64 % 0x20 = c.toNat % 32 by omega,
    show (c.toNat % 32 * 64 + d.toNat % 64) % 0x40 = d.toNat % 64 by omega,
    ← eq_continuation hd, ← eq_lead (show c.toNat = c.toNat % 32 + 0xC0 by omega)]

theorem encode_three {e : UInt8} (hc : c.toNat / 16 = 14) (hd : isContinuation d = true)
    (he : isContinuation e = true) {cp : ℕ}
    (hcp : cp = (c.toNat % 16 * 64 + d.toNat % 64) * 64 + e.toNat % 64) (hlong : ¬ cp < 0x800)
    (hsurrogate : ¬ (0xD800 ≤ cp ∧ cp ≤ 0xDFFF)) :
    ∃ ch, 0x80 ≤ ch.toNat ∧ [c, d, e] = String.utf8EncodeChar ch := by
  have hnat := toNat_ofNat_of_valid (n := cp) (by omega)
  refine ⟨Char.ofNat cp, by omega, ?_⟩
  rw [Http.utf8EncodeChar_eq, hnat, if_neg (by omega), if_neg (by omega), if_pos (by omega),
    show cp / 4096 % 0x10 = c.toNat % 16 by omega, show cp / 64 % 0x40 = d.toNat % 64 by omega,
    show cp % 0x40 = e.toNat % 64 by omega, ← eq_continuation hd, ← eq_continuation he,
    ← eq_lead (show c.toNat = c.toNat % 16 + 0xE0 by omega)]

theorem encode_four {e f : UInt8} (hc : c.toNat / 8 = 30) (hd : isContinuation d = true)
    (he : isContinuation e = true) (hf : isContinuation f = true) {cp : ℕ}
    (hcp : cp = ((c.toNat % 8 * 64 + d.toNat % 64) * 64 + e.toNat % 64) * 64 + f.toNat % 64)
    (hrange : ¬ (cp < 0x10000 ∨ 0x10FFFF < cp)) :
    ∃ ch, 0x80 ≤ ch.toNat ∧ [c, d, e, f] = String.utf8EncodeChar ch := by
  have hnat := toNat_ofNat_of_valid (n := cp) (by omega)
  refine ⟨Char.ofNat cp, by omega, ?_⟩
  rw [Http.utf8EncodeChar_eq, hnat, if_neg (by omega), if_neg (by omega), if_neg (by omega),
    show cp / 262144 % 0x08 = c.toNat % 8 by omega,
    show cp / 4096 % 0x40 = d.toNat % 64 by omega, show cp / 64 % 0x40 = e.toNat % 64 by omega,
    show cp % 0x40 = f.toNat % 64 by omega, ← eq_continuation hd, ← eq_continuation he,
    ← eq_continuation hf, ← eq_lead (show c.toNat = c.toNat % 8 + 0xF0 by omega)]

theorem expectedLen_cases (c : UInt8) :
    (c.toNat / 32 = 6 ∧ expectedLen c = 2) ∨ (c.toNat / 16 = 14 ∧ expectedLen c = 3) ∨
      (c.toNat / 8 = 30 ∧ expectedLen c = 4) ∨ expectedLen c = 0 := by
  unfold expectedLen
  split_ifs with h2 h3 h4
  · exact .inl ⟨h2, rfl⟩
  · exact .inr (.inl ⟨h3, rfl⟩)
  · exact .inr (.inr (.inl ⟨h4, rfl⟩))
  · exact .inr (.inr (.inr rfl))

variable {rest : List UInt8}

/-- **What the validation accepts beyond ASCII is the encoding of a character.** -/
theorem encode_of_validate (hc : 128 ≤ c) (h : 0 < validateUtf8Char (c :: rest)) :
    ∃ (ch : Char) (tail : List UInt8), 0x80 ≤ ch.toNat ∧
      c :: rest = String.utf8EncodeChar ch ++ tail ∧
      validateUtf8Char (c :: rest) = (String.utf8EncodeChar ch).length := by
  have hascii : ¬ c < 0x80 := by
    rw [UInt8.le_iff_toNat_le] at hc
    rw [UInt8.lt_iff_toNat_lt]
    simpa using hc
  obtain ⟨hlead, hlen⟩ | ⟨hlead, hlen⟩ | ⟨hlead, hlen⟩ | hlen := expectedLen_cases c
  · match rest, h with
    | [], h => simp [validateUtf8Char, hascii, hlen] at h
    | d :: tail, h =>
      have hd : isContinuation d = true := by
        by_contra hno
        rw [Bool.not_eq_true] at hno
        simp [validateUtf8Char, hascii, hlen, mbrtowcReads, hno] at h
      have hlong : ¬ c.toNat % 32 * 64 + d.toNat % 64 < 0x80 := by
        intro hno
        simp [validateUtf8Char, hascii, hlen, mbrtowcReads, hd, hno] at h
      obtain ⟨ch, hch, hbytes⟩ := encode_two hlead hd hlong
      refine ⟨ch, tail, hch, by rw [← hbytes]; rfl, ?_⟩
      simp [validateUtf8Char, hascii, hlen, mbrtowcReads, hd, hlong, ← hbytes]
  · match rest, h with
    | [], h => simp [validateUtf8Char, hascii, hlen] at h
    | [d], h => simp [validateUtf8Char, hascii, hlen] at h
    | d :: e :: tail, h =>
      have hreads : isContinuation d = true ∧ isContinuation e = true := by
        by_contra hno
        rw [not_and_or, Bool.not_eq_true, Bool.not_eq_true] at hno
        simp [validateUtf8Char, hascii, hlen, mbrtowcReads, hno] at h
      obtain ⟨hd, he⟩ := hreads
      obtain ⟨cp, hcp⟩ : ∃ cp, cp = (c.toNat % 16 * 64 + d.toNat % 64) * 64 + e.toNat % 64 :=
        ⟨_, rfl⟩
      have hlong : ¬ cp < 0x800 := by
        intro hno
        simp [validateUtf8Char, hascii, hlen, mbrtowcReads, hd, he, ← hcp, hno] at h
      have hsurrogate : ¬ (0xD800 ≤ cp ∧ cp ≤ 0xDFFF) := by
        intro hno
        simp [validateUtf8Char, hascii, hlen, mbrtowcReads, hd, he, ← hcp, hno] at h
      obtain ⟨ch, hch, hbytes⟩ := encode_three hlead hd he hcp hlong hsurrogate
      refine ⟨ch, tail, hch, by rw [← hbytes]; rfl, ?_⟩
      simp [validateUtf8Char, hascii, hlen, mbrtowcReads, hd, he, ← hcp, hlong, hsurrogate,
        ← hbytes]
  · match rest, h with
    | [], h => simp [validateUtf8Char, hascii, hlen] at h
    | [d], h => simp [validateUtf8Char, hascii, hlen] at h
    | [d, e], h => simp [validateUtf8Char, hascii, hlen] at h
    | d :: e :: f :: tail, h =>
      have hreads : isContinuation d = true ∧ isContinuation e = true ∧
          isContinuation f = true := by
        by_contra hno
        rw [not_and_or, not_and_or, Bool.not_eq_true, Bool.not_eq_true, Bool.not_eq_true] at hno
        simp [validateUtf8Char, hascii, hlen, mbrtowcReads, hno] at h
      obtain ⟨hd, he, hf⟩ := hreads
      obtain ⟨cp, hcp⟩ : ∃ cp, cp =
          ((c.toNat % 8 * 64 + d.toNat % 64) * 64 + e.toNat % 64) * 64 + f.toNat % 64 :=
        ⟨_, rfl⟩
      have hrange : ¬ (cp < 0x10000 ∨ 0x10FFFF < cp) := by
        intro hno
        simp [validateUtf8Char, hascii, hlen, mbrtowcReads, hd, he, hf, ← hcp, hno] at h
      obtain ⟨ch, hch, hbytes⟩ := encode_four hlead hd he hf hcp hrange
      refine ⟨ch, tail, hch, by rw [← hbytes]; rfl, ?_⟩
      simp [validateUtf8Char, hascii, hlen, mbrtowcReads, hd, he, hf, ← hcp, hrange, ← hbytes]
  · simp [validateUtf8Char, hascii, hlen] at h

/-! ### What the escaper prints -/

/-- The characters of ASCII bytes. -/
def textOf (bytes : List UInt8) : List Char := bytes.map fun b => Char.ofNat b.toNat

theorem toNat_textOf (b : UInt8) : (Char.ofNat b.toNat).toNat = b.toNat :=
  toNat_ofNat_of_valid (by have := b.toNat_lt; omega)

theorem hexDigitValue_hexByte : ∀ n < 16,
    JsonString.hexDigitValue (Char.ofNat (hexByte n).toNat) = some n := by decide

theorem hexByte_lt : ∀ n < 16, (hexByte n).toNat < 0x80 := by decide

theorem writes_unicodeEscape (c : UInt8) :
    Writes (textOf (unicodeEscape c)) (Char.ofNat c.toNat) := by
  have hlt := c.toNat_lt
  refine JsonString.writes_hex ?_ (by omega)
  have hhigh := hexDigitValue_hexByte (c.toNat / 16) (by omega)
  have hlow := hexDigitValue_hexByte (c.toNat % 16) (by omega)
  have hzero : JsonString.hexDigitValue (Char.ofNat (48 : UInt8).toNat) = some 0 := by decide
  simp only [JsonString.hexEscape, hhigh, hlow, hzero]
  exact congrArg some (by omega)

theorem unicodeEscape_lt (c : UInt8) : ∀ b ∈ unicodeEscape c, b.toNat < 0x80 := by
  have hlt := c.toNat_lt
  have hhigh := hexByte_lt (c.toNat / 16) (by omega)
  have hlow := hexByte_lt (c.toNat % 16) (by omega)
  simp [unicodeEscape, hhigh, hlow]

theorem jsonPrintEscapedFrom_pass {pass : ℕ} {buf : List UInt8} (h : pass ≤ buf.length) :
    jsonPrintEscapedFrom pass buf = buf.take pass ++ jsonPrintEscaped (buf.drop pass) := by
  induction pass generalizing buf with
  | zero => rfl
  | succ pass ih =>
    cases buf with
    | nil => simp at h
    | cons c rest =>
      rw [jsonPrintEscapedFrom, ih (by simpa using h)]
      rfl

/-- The byte is printed as an item of its own, which stands for the character of its number. -/
def PrintsByte (c : UInt8) (rest : List UInt8) : Prop :=
  ∃ item, jsonPrintEscaped (c :: rest) = item ++ jsonPrintEscaped rest ∧
    (∀ b ∈ item, b.toNat < 0x80) ∧ Writes (textOf item) (Char.ofNat c.toNat)

theorem printsByte_unicodeEscape
    (h : jsonPrintEscaped (c :: rest) = unicodeEscape c ++ jsonPrintEscaped rest) :
    PrintsByte c rest :=
  ⟨unicodeEscape c, h, unicodeEscape_lt c, writes_unicodeEscape c⟩

theorem printsByte_ascii (hc : c.toNat < 0x80) (rest : List UInt8) : PrintsByte c rest := by
  have hnat := toNat_textOf c
  have hsimple : ∀ b : UInt8, b.toNat < 0x80 →
      jsonPrintEscaped (c :: rest) = [92, b] ++ jsonPrintEscaped rest →
      Writes (textOf [92, b]) (Char.ofNat c.toNat) → PrintsByte c rest := by
    intro b hb hprint hwrites
    exact ⟨[92, b], hprint, by simp [hb], hwrites⟩
  by_cases h34 : c = 34
  · subst h34
    exact hsimple 34 (by decide) rfl (JsonString.writes_simple (by decide) (by decide))
  by_cases h92 : c = 92
  · subst h92
    exact hsimple 92 (by decide) rfl (JsonString.writes_simple (by decide) (by decide))
  by_cases h10 : c = 10
  · subst h10
    exact hsimple 110 (by decide) rfl (JsonString.writes_simple (by decide) (by decide))
  by_cases h13 : c = 13
  · subst h13
    exact hsimple 114 (by decide) rfl (JsonString.writes_simple (by decide) (by decide))
  by_cases h9 : c = 9
  · subst h9
    exact hsimple 116 (by decide) rfl (JsonString.writes_simple (by decide) (by decide))
  by_cases h8 : c = 8
  · subst h8
    exact hsimple 98 (by decide) rfl (JsonString.writes_simple (by decide) (by decide))
  by_cases h12 : c = 12
  · subst h12
    exact hsimple 102 (by decide) rfl (JsonString.writes_simple (by decide) (by decide))
  have hnot : ¬ 128 ≤ c := by
    rw [UInt8.le_iff_toNat_le]
    simpa using hc
  by_cases hplain : 32 ≤ c ∧ c ≤ 126
  · refine ⟨[c], ?_, by simpa using hc, JsonString.writes_self ?_ ?_ ?_⟩
    · simp [jsonPrintEscaped, jsonPrintEscapedFrom, h34, h92, h10, h13, h9, h8, h12, hplain]
    · intro heq
      exact h34 (UInt8.toNat_inj.mp (hnat.symm.trans (congrArg Char.toNat heq)))
    · intro heq
      exact h92 (UInt8.toNat_inj.mp (hnat.symm.trans (congrArg Char.toNat heq)))
    · rw [hnat]
      simpa [UInt8.le_iff_toNat_le] using hplain.1
  · apply printsByte_unicodeEscape
    simp [jsonPrintEscaped, jsonPrintEscapedFrom, h34, h92, h10, h13, h9, h8, h12, hplain, hnot]

/-- **A buffer is printed piece by piece**: a byte on its own, or the encoding of a character
as it is. -/
theorem jsonPrintEscaped_cases (c : UInt8) (rest : List UInt8) :
    (PrintsByte c rest ∧ (128 ≤ c → validateUtf8Char (c :: rest) = 0)) ∨
      ∃ (ch : Char) (tail : List UInt8), 0x80 ≤ ch.toNat ∧
        c :: rest = String.utf8EncodeChar ch ++ tail ∧
        jsonPrintEscaped (c :: rest) = String.utf8EncodeChar ch ++ jsonPrintEscaped tail := by
  by_cases hc : 128 ≤ c
  · have hge : 128 ≤ c.toNat := by simpa [UInt8.le_iff_toNat_le] using hc
    have hne : ∀ n : UInt8, n.toNat < 128 → c ≠ n := by
      rintro n hn rfl
      omega
    have h34 := hne 34 (by decide)
    have h92 := hne 92 (by decide)
    have h10 := hne 10 (by decide)
    have h13 := hne 13 (by decide)
    have h9 := hne 9 (by decide)
    have h8 := hne 8 (by decide)
    have h12 := hne 12 (by decide)
    have hplain : ¬ (32 ≤ c ∧ c ≤ 126) := by
      rintro ⟨-, hle⟩
      rw [UInt8.le_iff_toNat_le] at hle
      simp only [UInt8.reduceToNat] at hle
      omega
    by_cases hvalid : 0 < validateUtf8Char (c :: rest)
    · right
      obtain ⟨ch, tail, hch, hbytes, hlen⟩ := encode_of_validate hc hvalid
      refine ⟨ch, tail, hch, hbytes, ?_⟩
      have hpass : jsonPrintEscaped (c :: rest) =
          c :: jsonPrintEscapedFrom (validateUtf8Char (c :: rest) - 1) rest := by
        rw [jsonPrintEscaped, jsonPrintEscapedFrom]
        simp [h34, h92, h10, h13, h9, h8, h12, hplain, hc, hvalid]
      obtain ⟨n, hn⟩ : ∃ n, (String.utf8EncodeChar ch).length = n + 1 :=
        ⟨_, (Nat.succ_pred_eq_of_pos (hlen ▸ hvalid)).symm⟩
      have htotal := congrArg List.length hbytes
      rw [length_append, length_cons] at htotal
      have htake := congrArg (List.take (n + 1)) hbytes
      have hdrop := congrArg (List.drop (n + 1)) hbytes
      rw [take_left' hn] at htake
      rw [drop_left' hn, drop_succ_cons] at hdrop
      rw [hpass, hlen, hn, Nat.add_sub_cancel, jsonPrintEscapedFrom_pass (by omega), hdrop, ← htake]
      rfl
    · left
      refine ⟨printsByte_unicodeEscape ?_, fun _ => by omega⟩
      rw [jsonPrintEscaped, jsonPrintEscapedFrom]
      simp [h34, h92, h10, h13, h9, h8, h12, hplain, hc, hvalid, jsonPrintEscaped]
  · left
    refine ⟨printsByte_ascii ?_ rest, fun h => absurd h hc⟩
    rw [UInt8.le_iff_toNat_le] at hc
    simpa using hc

/-! ### What `json_escape` copies -/

theorem length_escapeByte (c : UInt8) : (escapeByte c).length ≤ 2 := by
  unfold escapeByte
  split_ifs <;> simp

/-- **Nothing is cut off** in a buffer that has room for every byte twice. -/
theorem jsonEscape_eq {src : List UInt8} (hnul : 0 ∉ src) {dstSize : ℕ}
    (hfits : 2 * src.length < dstSize) : jsonEscape src dstSize = src.flatMap escapeByte := by
  suffices h : ∀ j, j + 2 * src.length < dstSize →
      jsonEscapeFrom dstSize j src = src.flatMap escapeByte from h 0 (by omega)
  clear hfits
  induction src with
  | nil => exact fun _ _ => rfl
  | cons c rest ih =>
    intro j hj
    simp only [mem_cons, not_or, length_cons] at hnul hj
    have hlen := length_escapeByte c
    rw [jsonEscapeFrom, if_pos ⟨Ne.symm hnul.1, by omega⟩, if_neg (by omega),
      ih hnul.2 _ (by omega), flatMap_cons]

theorem lossyChars_ascii_append {bytes : List UInt8} (h : ∀ b ∈ bytes, b.toNat < 0x80)
    (rest : List UInt8) : lossyChars (bytes ++ rest) = textOf bytes ++ lossyChars rest := by
  rw [lossyChars, Http.utf8Chars_ascii_append h, map_append, map_map]
  rfl

/-- `escapeByte` on the characters. -/
def escapeChar (c : Char) : List Char :=
  if c = '\\' then ['\\', '\\']
  else if c = '"' then ['\\', '"']
  else if c = '\n' then ['\\', 'n']
  else if c = '\t' then ['\\', 't']
  else [c]

theorem escapeByte_ascii {b : UInt8} (hb : b.toNat < 0x80) : (∀ c ∈ escapeByte b, c.toNat < 0x80) ∧
      textOf (escapeByte b) = escapeChar (Char.ofNat b.toNat) := by
  by_cases h92 : b = 92
  · subst h92
    decide
  by_cases h34 : b = 34
  · subst h34
    decide
  by_cases h10 : b = 10
  · subst h10
    decide
  by_cases h9 : b = 9
  · subst h9
    decide
  have hne : ∀ n : UInt8, b ≠ n → Char.ofNat b.toNat ≠ Char.ofNat n.toNat := by
    intro n hn heq
    have hnat := congrArg Char.toNat heq
    rw [toNat_textOf, toNat_textOf] at hnat
    exact hn (UInt8.toNat_inj.mp hnat)
  have hslash : Char.ofNat b.toNat ≠ '\\' := hne 92 h92
  have hquote : Char.ofNat b.toNat ≠ '"' := hne 34 h34
  have hnewline : Char.ofNat b.toNat ≠ '\n' := hne 10 h10
  have htab : Char.ofNat b.toNat ≠ '\t' := hne 9 h9
  simp [escapeByte, escapeChar, h92, h34, h10, h9, hslash, hquote, hnewline, htab, hb, textOf]

theorem escapeChar_beyond {c : Char} (hc : 0x80 ≤ c.toNat) : escapeChar c = [c] := by
  have hne : ∀ d : Char, d.toNat < 0x80 → c ≠ d := by
    rintro d hd rfl
    omega
  unfold escapeChar
  rw [if_neg (hne '\\' (by decide)), if_neg (hne '"' (by decide)), if_neg (hne '\n' (by decide)),
    if_neg (hne '\t' (by decide))]

theorem escapeByte_beyond {b : UInt8} (hb : 0x80 ≤ b.toNat) : escapeByte b = [b] := by
  have hne : ∀ d : UInt8, d.toNat < 0x80 → b ≠ d := by
    rintro d hd rfl
    omega
  unfold escapeByte
  rw [if_neg (hne 92 (by decide)), if_neg (hne 34 (by decide)), if_neg (hne 10 (by decide)),
    if_neg (hne 9 (by decide))]

theorem flatMap_eq_self {α : Type*} {f : α → List α} {l : List α} (h : ∀ a ∈ l, f a = [a]) :
    l.flatMap f = l := by
  induction l with
  | nil => rfl
  | cons a l ih =>
    rw [flatMap_cons, h a mem_cons_self, ih fun b hb => h b (mem_cons_of_mem _ hb)]
    rfl

theorem startsAscii_escape (h : StartsAscii rest) :
    StartsAscii (rest.flatMap escapeByte) := by
  cases rest with
  | nil => exact h
  | cons b rest =>
    have hb := (escapeByte_ascii (h b rfl)).1
    cases hbytes : escapeByte b with
    | nil =>
      exfalso
      revert hbytes
      unfold escapeByte
      split_ifs <;> simp
    | cons c bytes =>
      rw [flatMap_cons, hbytes]
      exact Http.startsAscii_cons (hb c (by rw [hbytes]; exact mem_cons_self)) _

/-- **The escapes of the bytes decode to the escapes of the characters**, whatever the bytes. -/
theorem lossyChars_escape (src : List UInt8) :
    lossyChars (src.flatMap escapeByte) = (lossyChars src).flatMap escapeChar := by
  induction src using Http.ascii_induction with
  | nil => rfl
  | ascii b rest hb ih =>
    obtain ⟨hascii, htext⟩ := escapeByte_ascii hb
    rw [flatMap_cons, lossyChars_ascii_append hascii, htext, Http.lossyChars_ascii hb]
    exact congrArg _ ih
  | beyond l rest hl hrest ih =>
    rw [flatMap_append, flatMap_eq_self fun b hb => escapeByte_beyond (hl b hb),
      Http.lossyChars_append l (startsAscii_escape hrest), Http.lossyChars_append l hrest,
      flatMap_append, flatMap_eq_self fun c hc =>
        escapeChar_beyond (Http.le_toNat_of_mem_lossyChars hl c hc)]
    exact congrArg _ ih

/-- The escape stands for the character, unless that is a control character with none. -/
theorem writes_escapeChar {c : Char} (hc : 0x20 ≤ c.toNat ∨ c = '\n' ∨ c = '\t') :
    Writes (escapeChar c) c := by
  by_cases hslash : c = '\\'
  · subst hslash
    exact JsonString.writes_simple (by decide) (by decide)
  by_cases hquote : c = '"'
  · subst hquote
    exact JsonString.writes_simple (by decide) (by decide)
  by_cases hnewline : c = '\n'
  · subst hnewline
    exact JsonString.writes_simple (by decide) (by decide)
  by_cases htab : c = '\t'
  · subst htab
    exact JsonString.writes_simple (by decide) (by decide)
  · have hcontrol : 0x20 ≤ c.toNat := by simpa [hnewline, htab] using hc
    simpa [escapeChar, hslash, hquote, hnewline, htab] using
      JsonString.writes_self hquote hslash hcontrol

end AgentSight.Bpf
