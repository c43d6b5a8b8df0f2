import AgentSight.Bpf.Lines
import AgentSight.Bpf.Transport
import AgentSight.Lib.JsonText

/-!
# The lines as JSON

The collector reads a line up to its newline, decodes it as UTF-8 with replacements and parses
it. `Faithful` says that what it gets is one object, whose members are the printed ones and
whose strings are the strings of the event. The streamed strings always are; `json_escape`
leaves the other control characters as they are, and `%s` leaves everything.
`faithful_iff_safe` is the exact condition, for every line that a tracer prints.
-/

namespace AgentSight.Bpf

open Http (lossyChars StartsAscii)
open JsonText (Value Reads IsPlain IsWhole IsDigits ReadAll FollowsMember readValue)
open List Http

/-! ### What a line should be read as -/

/-- A text of the source, which needs no escape. -/
def IsText (s : String) : Prop := ∀ c ∈ s.toList, IsPlain c ∧ c.toNat < 0x80

instance : DecidablePred IsText := fun s =>
  inferInstanceAs (Decidable (∀ c ∈ s.toList, IsPlain c ∧ c.toNat < 0x80))

/-- The JSON value says what was printed. A string decodes to the bytes of the event, with
replacements for what is not UTF-8; in a streamed string these are escapes of the bytes. -/
def Printed.Stands : Printed → Value → Prop
  | decimal n, v => v = .number (Nat.toDigits 10 n)
  | signed n, v => v = .number (signedText n.toInt)
  | milliseconds deltaNs, v => v = .number (millisecondsText deltaNs)
  | bool b, v => v = .bool b
  | null, v => v = .null
  | constant s, v => v = .string s.toList
  | escaped src _ _, v => v = .string (lossyChars src.bytes)
  | streamed buf, v => ∃ chars, v = .string chars ∧ ReadAs buf chars
  | raw s, v => v = .string (lossyChars s)
  | hex buf, v => v = .string (textOf
      (buf.flatMap fun b => [hexByte (b.toNat / 16), hexByte (b.toNat % 16)]))

/-- `json_escape` has no escape for the byte. -/
def isControl (b : UInt8) : Bool := b < 0x20 && b ≠ 9 && b ≠ 10

/-- The byte is no part of a string as it is. -/
def needsEscape (b : UInt8) : Bool := b < 0x20 || b = 34 || b = 92

/-- No byte of the string is one that its escaper, or the want of one, fails on. -/
def Printed.Safe : Printed → Prop
  | escaped src _ _ => ∀ b ∈ src.bytes, isControl b = false
  | raw s => ∀ b ∈ s, needsEscape b = false
  | _ => True

instance : DecidablePred Printed.Safe
  | .escaped src _ _ => inferInstanceAs (Decidable (∀ b ∈ src.bytes, isControl b = false))
  | .raw s => inferInstanceAs (Decidable (∀ b ∈ s, needsEscape b = false))
  | .decimal _ | .signed _ | .milliseconds _ | .bool _ | .null | .constant _ | .streamed _
  | .hex _ => inferInstanceAs (Decidable True)

/-- The member that a pasted text of the process tracer is. -/
def pastedMember (text : String) : String × Printed :=
  if text = "\"reason\":\"process_exit\"" then ("reason", .constant "process_exit")
  else if text = "\"window_expired\":true" then ("window_expired", .bool true)
  else if text = "\"rate_limit_warning\":\"Previous second exceeded 30 file limit\"" then
    ("rate_limit_warning", .constant "Previous second exceeded 30 file limit")
  else ("", .null)

/-- The texts that the process tracer pastes. -/
def IsPasted (text : String) : Prop :=
  text = "\"reason\":\"process_exit\"" ∨ text = "\"window_expired\":true" ∨
    text = "\"rate_limit_warning\":\"Previous second exceeded 30 file limit\""

namespace Field

def key : Field → List Char
  | member key _ => key.toList
  | pasted text => (pastedMember text).1.toList

def value : Field → Printed
  | member _ value => value
  | pasted text => (pastedMember text).2

def Stands (f : Field) (v : Value) : Prop := f.value.Stands v

def Safe (f : Field) : Prop := f.value.Safe

instance : DecidablePred Safe := fun f => inferInstanceAs (Decidable f.value.Safe)

end Field

/-- The line is one line and parses as an object with the printed members. -/
def Faithful (fields : List Field) : Prop :=
  10 ∉ objectText fields ∧
    ∃ members, JsonText.read (lossyChars (objectText fields)) = some (.object members) ∧
      ReadAll Field.key Field.Stands fields members

/-! ### ASCII texts -/

/-- ASCII without control characters. -/
def Visible (text : List Char) : Prop := ∀ c ∈ text, 0x20 ≤ c.toNat ∧ c.toNat < 0x80

theorem lossyChars_bytesOf {text : List Char} (h : Visible text) :
    lossyChars (bytesOf text) = text := by
  have hascii : ∀ b ∈ bytesOf text, b.toNat < 0x80 := by
    intro b hb
    obtain ⟨c, hc, rfl⟩ := mem_map.mp hb
    have hc := h c hc
    rw [toNat_ofNat_of_lt (by omega)]
    exact hc.2
  have htext : textOf (bytesOf text) = text := by
    rw [textOf, bytesOf, map_map]
    refine (map_congr_left fun c hc => ?_).trans (map_id text)
    have hc := h c hc
    rw [Function.comp, toNat_ofNat_of_lt (by omega), Char.ofNat_toNat]
    rfl
  have happend := lossyChars_ascii_append hascii []
  rw [append_nil, htext] at happend
  exact happend.trans (append_nil text)

theorem newline_bytesOf {text : List Char} (h : Visible text) : 10 ∉ bytesOf text := by
  intro hmem
  obtain ⟨c, hc, heq⟩ := mem_map.mp hmem
  have hc := h c hc
  have hnat := congrArg UInt8.toNat heq
  simp at hnat
  omega

theorem visible_of_isDigit {c : Char} (h : c.isDigit = true) : 0x20 ≤ c.toNat ∧ c.toNat < 0x80 := by
  obtain ⟨hlow, hhigh⟩ := Char.isDigit_iff_toNat.mp h
  simp only [Char.reduceToNat] at hlow hhigh
  omega

theorem visible_toDigits (n : ℕ) : Visible (Nat.toDigits 10 n) := fun c hc =>
  visible_of_isDigit ((JsonText.isWhole_toDigits n).1.2 c hc)

theorem visible_signedText (n : ℤ) : Visible (signedText n) := by
  have hdigits := visible_toDigits n.natAbs
  unfold signedText
  split
  · exact forall_mem_cons.mpr ⟨by decide, hdigits⟩
  · exact hdigits

theorem reads_signedText (n : ℤ) : Reads (signedText n) (.number (signedText n)) := by
  have hwhole := JsonText.isWhole_toDigits n.natAbs
  unfold signedText
  split
  · exact JsonText.reads_negative hwhole
  · exact JsonText.reads_whole hwhole

theorem isDigits_decimals (n : ℕ) :
    IsDigits ([n / 100 % 10, n / 10 % 10, n % 10].map Nat.digitChar) := by
  refine ⟨by simp, ?_⟩
  intro c hc
  obtain ⟨d, hd, rfl⟩ := mem_map.mp hc
  simp only [mem_cons, not_mem_nil, or_false] at hd
  rw [Nat.isDigit_digitChar, decide_eq_true_eq]
  omega

theorem visible_millisecondsText (deltaNs : UInt64) : Visible (millisecondsText deltaNs) := by
  have hdecimals := isDigits_decimals (thousandths deltaNs)
  refine forall_mem_append.mpr ⟨visible_toDigits _, forall_mem_cons.mpr ⟨by decide, ?_⟩⟩
  exact fun c hc => visible_of_isDigit (hdecimals.2 c hc)

theorem reads_millisecondsText (deltaNs : UInt64) :
    Reads (millisecondsText deltaNs) (.number (millisecondsText deltaNs)) :=
  JsonText.reads_fixed (JsonText.isWhole_toDigits _) (isDigits_decimals _)

theorem visible_of_isText {s : String} (h : IsText s) : Visible s.toList := fun c hc =>
  ⟨(h c hc).1.2.2, (h c hc).2⟩

/-! ### Strings between quotes -/

theorem startsAscii_quote (rest : List UInt8) : StartsAscii (34 :: rest) :=
  Http.startsAscii_cons (by decide) rest

theorem lossyChars_quoted (l : List UInt8) :
    lossyChars (34 :: l ++ [34]) = '"' :: lossyChars l ++ ['"'] := by
  rw [cons_append, lossyChars_ascii (by decide),
    lossyChars_append l (startsAscii_quote [])]
  rfl

/-- A string whose characters stand for themselves. -/
theorem reads_plain {s : List Char} (h : ∀ c ∈ s, IsPlain c) :
    Reads ('"' :: s ++ ['"']) (.string s) := by
  have hwrites : ∀ item ∈ s.map fun c => ([c], c), JsonString.Writes item.1 item.2 := by
    intro item hitem
    obtain ⟨c, hc, rfl⟩ := mem_map.mp hitem
    obtain ⟨hquote, hslash, hcontrol⟩ := h c hc
    exact JsonString.writes_self hquote hslash hcontrol
  simpa [flatMap_map, Function.comp_def] using JsonText.reads_string hwrites

theorem reads_escaped {chars : List Char} (h : ∀ c ∈ chars, 0x20 ≤ c.toNat ∨ c = '\n' ∨ c = '\t') :
    Reads ('"' :: chars.flatMap escapeChar ++ ['"']) (.string chars) := by
  have hwrites : ∀ item ∈ chars.map fun c => (escapeChar c, c),
      JsonString.Writes item.1 item.2 := by
    intro item hitem
    obtain ⟨c, hc, rfl⟩ := mem_map.mp hitem
    exact writes_escapeChar (h c hc)
  simpa [flatMap_map, Function.comp_def] using JsonText.reads_string hwrites

/-- A character that `json_escape` has no escape for. -/
def IsControlChar (c : Char) : Prop := c.toNat < 0x20 ∧ c ≠ '\n' ∧ c ≠ '\t'

instance : DecidablePred IsControlChar := fun c =>
  inferInstanceAs (Decidable (c.toNat < 0x20 ∧ c ≠ '\n' ∧ c ≠ '\t'))

theorem not_isControlChar {c : Char} (h : ¬ IsControlChar c) :
    0x20 ≤ c.toNat ∨ c = '\n' ∨ c = '\t' := by
  by_contra hno
  simp only [not_or, Nat.not_le] at hno
  exact h hno

/-- **A control character that `json_escape` copies is no part of a string.** -/
theorem readString_escaped {chars : List Char} (h : ∃ c ∈ chars, IsControlChar c) (fuel : ℕ)
    (rest : List Char) :
    JsonString.readString fuel (chars.flatMap escapeChar ++ rest) = none := by
  obtain ⟨c, hfirst⟩ := Option.isSome_iff_exists.mp
    (find?_isSome.mpr (by simpa using h) : (chars.find? IsControlChar).isSome)
  obtain ⟨hcontrol, pre, post, rfl, hpre⟩ := find?_eq_some_iff_append.mp hfirst
  have hc : IsControlChar c := by simpa using hcontrol
  have hwrites : ∀ item ∈ pre.map fun c => (escapeChar c, c), JsonString.Writes item.1 item.2 := by
    intro item hitem
    obtain ⟨d, hd, rfl⟩ := mem_map.mp hitem
    exact writes_escapeChar (not_isControlChar (by simpa using hpre d hd))
  have hself : escapeChar c = [c] := by
    have hslash : c ≠ '\\' := by
      rintro rfl
      exact absurd hc (by decide)
    have hquote : c ≠ '"' := by
      rintro rfl
      exact absurd hc (by decide)
    simp [escapeChar, hslash, hquote, hc.2.1, hc.2.2]
  have hnone := JsonText.readString_control hwrites hc.1 fuel (post.flatMap escapeChar ++ rest)
  simpa [flatMap_map, hself] using hnone

/-! ### Newlines -/

theorem le_toNat_of_mem_encode {ch : Char} (hch : 0x80 ≤ ch.toNat) {b : UInt8}
    (hb : b ∈ String.utf8EncodeChar ch) : 0x80 ≤ b.toNat := by
  have hcont : ∀ n, 0x80 ≤ (Http.continuation (n % 0x40)).toNat := fun n => by
    rw [toNat_continuation (Nat.mod_lt _ (by omega))]
    omega
  have hlead : ∀ n base, 0x80 ≤ base → n + base < 256 → 0x80 ≤ (UInt8.ofNat (n + base)).toNat :=
    fun n base hbase hlt => by
      rw [toNat_ofNat_of_lt hlt]
      omega
  rw [utf8EncodeChar_eq, if_neg (by omega)] at hb
  split_ifs at hb <;>
  · simp only [mem_cons, not_mem_nil, or_false] at hb
    rcases hb with rfl | hb
    · exact hlead _ _ (by omega) (by omega)
    · rcases hb with rfl | rfl | rfl <;> exact hcont _

theorem newline_unicodeEscape (c : UInt8) : 10 ∉ unicodeEscape c := by
  have hhex : ∀ n < 16, hexByte n ≠ 10 := by decide
  have hlt := c.toNat_lt
  have hhigh := hhex (c.toNat / 16) (by omega)
  have hlow := hhex (c.toNat % 16) (by omega)
  simp [unicodeEscape, hhigh.symm, hlow.symm]

theorem newline_jsonPrintEscapedFrom (pass : ℕ) {buf : List UInt8} (h : 10 ∉ buf.take pass) :
    10 ∉ jsonPrintEscapedFrom pass buf := by
  induction buf generalizing pass with
  | nil => cases pass <;> simp [jsonPrintEscapedFrom]
  | cons c rest ih =>
    cases pass with
    | succ pass =>
      simp only [take_succ_cons, mem_cons, not_or] at h
      rw [jsonPrintEscapedFrom]
      simp only [mem_cons, not_or]
      exact ⟨h.1, ih pass h.2⟩
    | zero =>
      have hrest := ih 0 (by simp)
      have hunicode := newline_unicodeEscape c
      rw [jsonPrintEscapedFrom]
      split_ifs with hquote hnewline hreturn htab hbackspace hfeed hplain hbeyond hvalid
      all_goals simp only [mem_append, mem_cons, not_mem_nil, or_false, not_or]
      · refine ⟨by decide, ?_, hrest⟩
        obtain rfl | rfl := hquote <;> decide
      · exact ⟨by decide, hrest⟩
      · exact ⟨by decide, hrest⟩
      · exact ⟨by decide, hrest⟩
      · exact ⟨by decide, hrest⟩
      · exact ⟨by decide, hrest⟩
      · exact ⟨Ne.symm hnewline, hrest⟩
      · refine ⟨Ne.symm hnewline, ih _ ?_⟩
        obtain ⟨ch, tail, hch, hbytes, hlen⟩ := encode_of_validate hbeyond hvalid
        have htake : rest.take (validateUtf8Char (c :: rest) - 1) =
            (String.utf8EncodeChar ch).tail := by
          obtain ⟨d, l, hencode⟩ := exists_cons_of_ne_nil (encode_ne_nil ch)
          rw [hlen, hencode, (cons.inj (hbytes.trans (by rw [hencode]; rfl))).2]
          exact take_left
        rw [htake]
        intro hmem
        have hle := le_toNat_of_mem_encode hch (mem_of_mem_tail hmem)
        revert hle
        decide
      · exact ⟨hunicode, hrest⟩
      · exact ⟨hunicode, hrest⟩

theorem newline_jsonPrintEscaped (buf : List UInt8) : 10 ∉ jsonPrintEscaped buf :=
  newline_jsonPrintEscapedFrom 0 (by simp)

theorem newline_escapeByte (b : UInt8) : 10 ∉ escapeByte b := by
  unfold escapeByte
  split_ifs with hslash hquote hnewline htab
  · decide
  · decide
  · decide
  · decide
  · simpa [eq_comm] using hnewline

theorem newline_quoted {l : List UInt8} (h : 10 ∉ l) : 10 ∉ 34 :: l ++ [34] := by
  simpa using h

/-! ### Bytes and characters that fail -/

/-- A property of ASCII characters holds of the characters of a text as of its bytes. -/
theorem forall_lossyChars {P : Char → Prop} {Q : UInt8 → Prop}
    (hchar : ∀ c : Char, 0x80 ≤ c.toNat → P c) (hbyte : ∀ b : UInt8, 0x80 ≤ b.toNat → Q b)
    (hascii : ∀ c : Char, c.toNat < 0x80 → (P c ↔ Q (UInt8.ofNat c.toNat))) (bytes : List UInt8) :
    (∀ c ∈ lossyChars bytes, P c) ↔ ∀ b ∈ bytes, Q b := by
  constructor
  · intro h b hb
    by_cases hlt : b.toNat < 0x80
    · have hnat := toNat_textOf b
      have hmem : Char.ofNat b.toNat ∈ lossyChars bytes := by
        rw [mem_lossyChars_ascii (by omega), hnat, UInt8.ofNat_toNat]
        exact hb
      have hQ := (hascii _ (by omega)).mp (h _ hmem)
      rwa [hnat, UInt8.ofNat_toNat] at hQ
    · exact hbyte b (by omega)
  · intro h c hc
    by_cases hlt : c.toNat < 0x80
    · exact (hascii c hlt).mpr (h _ ((Http.mem_lossyChars_ascii hlt bytes).mp hc))
    · exact hchar c (by omega)

theorem forall_isControl (bytes : List UInt8) :
    (∀ c ∈ lossyChars bytes, ¬ IsControlChar c) ↔ ∀ b ∈ bytes, isControl b = false := by
  refine forall_lossyChars (fun c hc h => ?_) (fun b hb => ?_) (fun c hc => ?_) bytes
  · have := h.1
    omega
  · have hle : ¬ b < 0x20 := by
      rw [UInt8.lt_iff_toNat_lt]
      simp
      omega
    simp [isControl, hle]
  · have hascii : ∀ n < 0x80, ¬ IsControlChar (Char.ofNat n) ↔
        isControl (UInt8.ofNat n) = false := by decide
    have h := hascii c.toNat hc
    rwa [Char.ofNat_toNat] at h

theorem forall_isPlain (bytes : List UInt8) :
    (∀ c ∈ lossyChars bytes, IsPlain c) ↔ ∀ b ∈ bytes, needsEscape b = false := by
  refine forall_lossyChars (fun c hc => ?_) (fun b hb => ?_) (fun c hc => ?_) bytes
  · have hne : ∀ d : Char, d.toNat < 0x80 → c ≠ d := by
      rintro d hd rfl
      omega
    exact ⟨hne '"' (by decide), hne '\\' (by decide), by omega⟩
  · have hne : ∀ d : UInt8, d.toNat < 0x80 → b ≠ d := by
      rintro d hd rfl
      omega
    have hle : ¬ b < 0x20 := by
      rw [UInt8.lt_iff_toNat_lt]
      simp
      omega
    simp [needsEscape, hle, hne 34 (by decide), hne 92 (by decide)]
  · have hascii : ∀ n < 0x80, IsPlain (Char.ofNat n) ↔
        needsEscape (UInt8.ofNat n) = false := by decide
    have h := hascii c.toNat hc
    rwa [Char.ofNat_toNat] at h

/-! ### One value -/

namespace Printed

/-- The texts of the source among the values need no escape. -/
def Known : Printed → Prop
  | constant s => IsText s
  | _ => True

/-- The bytes that an escaper copied. -/
theorem text_escaped {size : ℕ} (src : CString size) (dstSize : ℕ) (fits : 2 * size ≤ dstSize) :
    (escaped src dstSize fits).text = 34 :: src.bytes.flatMap escapeByte ++ [34] := by
  have hlen := src.fits
  rw [Printed.text, jsonEscape_eq src.noNul (by omega)]

theorem newline_text {p : Printed} (hknown : p.Known) (hsafe : p.Safe) : 10 ∉ p.text := by
  cases p with
  | decimal n => exact newline_bytesOf (visible_toDigits n)
  | signed n => exact newline_bytesOf (visible_signedText n.toInt)
  | milliseconds deltaNs => exact newline_bytesOf (visible_millisecondsText deltaNs)
  | bool b => cases b <;> decide
  | null => decide
  | constant s => exact newline_quoted (newline_bytesOf (visible_of_isText hknown))
  | escaped src dstSize fits =>
    rw [text_escaped]
    refine newline_quoted fun hmem => ?_
    obtain ⟨b, -, hb⟩ := mem_flatMap.mp hmem
    exact newline_escapeByte b hb
  | streamed buf => exact newline_quoted (newline_jsonPrintEscaped buf)
  | raw s => exact newline_quoted fun hmem => absurd (hsafe 10 hmem) (by decide)
  | hex buf =>
    have hhex : ∀ n < 16, hexByte n ≠ 10 := by decide
    refine newline_quoted fun hmem => ?_
    obtain ⟨b, -, hb⟩ := mem_flatMap.mp hmem
    have hlt := b.toNat_lt
    have hhigh := hhex (b.toNat / 16) (by omega)
    have hlow := hhex (b.toNat % 16) (by omega)
    simp [hhigh.symm, hlow.symm] at hb

theorem lossyChars_ascii_text (s : String) (h : IsText s) : lossyChars (ascii s) = s.toList :=
  lossyChars_bytesOf (visible_of_isText h)

theorem lossyChars_escaped {size : ℕ} (src : CString size) (dstSize : ℕ)
    (fits : 2 * size ≤ dstSize) :
    lossyChars (escaped src dstSize fits).text =
      '"' :: (lossyChars src.bytes).flatMap escapeChar ++ ['"'] := by
  rw [text_escaped, lossyChars_quoted, lossyChars_escape]

/-- The two digits of a byte. -/
theorem hexPairs_ascii (buf : List UInt8) :
    ∀ c ∈ buf.flatMap fun b => [hexByte (b.toNat / 16), hexByte (b.toNat % 16)],
      c.toNat < 0x80 ∧ IsPlain (Char.ofNat c.toNat) := by
  intro c hc
  have hhex : ∀ n < 16, (hexByte n).toNat < 0x80 ∧ IsPlain (Char.ofNat (hexByte n).toNat) := by
    decide
  obtain ⟨b, -, hb⟩ := mem_flatMap.mp hc
  have hlt := b.toNat_lt
  simp only [mem_cons, not_mem_nil, or_false] at hb
  obtain rfl | rfl := hb
  · exact hhex _ (by omega)
  · exact hhex _ (by omega)

/-- **A value without such bytes is read as what it stands for.** -/
theorem reads {p : Printed} (hknown : p.Known) (hsafe : p.Safe) :
    ∃ v, Reads (lossyChars p.text) v ∧ p.Stands v := by
  cases p with
  | decimal n =>
    refine ⟨_, ?_, rfl⟩
    rw [Printed.text, lossyChars_bytesOf (visible_toDigits n)]
    exact JsonText.reads_whole (JsonText.isWhole_toDigits n)
  | signed n =>
    refine ⟨_, ?_, rfl⟩
    rw [Printed.text, lossyChars_bytesOf (visible_signedText n.toInt)]
    exact reads_signedText n.toInt
  | milliseconds deltaNs =>
    refine ⟨_, ?_, rfl⟩
    rw [Printed.text, lossyChars_bytesOf (visible_millisecondsText deltaNs)]
    exact reads_millisecondsText deltaNs
  | bool b =>
    refine ⟨_, ?_, rfl⟩
    cases b with
    | true => exact JsonText.reads_true
    | false => exact JsonText.reads_false
  | null => exact ⟨_, JsonText.reads_null, rfl⟩
  | constant s =>
    refine ⟨_, ?_, rfl⟩
    rw [Printed.text, lossyChars_quoted, lossyChars_ascii_text s hknown]
    exact reads_plain fun c hc => (hknown c hc).1
  | escaped src dstSize fits =>
    refine ⟨_, ?_, rfl⟩
    rw [lossyChars_escaped]
    exact reads_escaped fun c hc =>
      not_isControlChar ((forall_isControl src.bytes).mpr hsafe c hc)
  | streamed buf =>
    obtain ⟨items, htext, hitems, hread⟩ := exists_items buf
    refine ⟨_, ?_, _, rfl, hread⟩
    have hchars : lossyChars (jsonPrintEscaped buf) = items.flatMap Prod.fst := by
      have hall := htext []
      rw [append_nil] at hall
      rw [lossyChars, hall]
      simp [utf8Chars, decodeChars, Function.comp_def]
    rw [Printed.text, jsonPrintEscapedQuoted, lossyChars_quoted, hchars]
    exact JsonText.reads_string hitems
  | raw s =>
    refine ⟨_, ?_, rfl⟩
    rw [Printed.text, lossyChars_quoted]
    exact reads_plain ((forall_isPlain s).mpr hsafe)
  | hex buf =>
    refine ⟨_, ?_, rfl⟩
    have hpairs := hexPairs_ascii buf
    have hascii := lossyChars_ascii_append (fun b hb => (hpairs b hb).1) []
    rw [append_nil] at hascii
    rw [Printed.text, lossyChars_quoted, hascii.trans (append_nil _)]
    refine reads_plain fun c hc => ?_
    obtain ⟨b, hb, rfl⟩ := mem_map.mp hc
    exact (hpairs b hb).2

/-- **A value that is read as what it stands for has no such bytes.** -/
theorem safe_of_read {p : Printed} {fuel : ℕ} {after rest : List Char}
    (hafter : FollowsMember after) {v : Value}
    (hread : readValue fuel (lossyChars p.text ++ after) = some (v, rest)) (hv : p.Stands v) :
    p.Safe := by
  cases p with
  | escaped src dstSize fits =>
    refine (forall_isControl src.bytes).mp fun c hc hcontrol => ?_
    cases fuel with
    | zero => cases hread
    | succ fuel =>
      rw [lossyChars_escaped, cons_append, cons_append, JsonText.readValue_string,
        append_assoc, readString_escaped ⟨c, hc, hcontrol⟩] at hread
      cases hread
  | raw s =>
    refine (forall_isPlain s).mp ?_
    cases fuel with
    | zero => cases hread
    | succ fuel =>
      obtain rfl := hv
      rw [Printed.text, lossyChars_quoted, cons_append, cons_append,
        append_assoc] at hread
      obtain ⟨⟨read, rest'⟩, hstring, heq⟩ := Option.map_eq_some_iff.mp hread
      obtain rfl := Value.string.inj (Prod.mk.inj heq).1
      exact JsonText.plain_of_readString hafter hstring
  | _ => trivial

end Printed

/-! ### One line -/

namespace Field

/-- The field's name and texts are texts of the source. -/
def Known : Field → Prop
  | member key value => IsText key ∧ value.Known
  | pasted text => IsPasted text

variable {f : Field}

theorem Known.value (h : f.Known) : f.value.Known := by
  cases f with
  | member key value => exact h.2
  | pasted text =>
    obtain rfl | rfl | rfl := h
    · exact (by decide : IsText "process_exit")
    · exact trivial
    · exact (by decide : IsText "Previous second exceeded 30 file limit")

theorem Known.key (h : f.Known) : ∀ c ∈ f.key, IsPlain c ∧ c.toNat < 0x80 := by
  cases f with
  | member key value => exact h.1
  | pasted text => obtain rfl | rfl | rfl := h <;> decide

theorem Known.text (h : f.Known) : f.text = 34 :: bytesOf f.key ++ 34 :: 58 :: f.value.text := by
  cases f with
  | member key value => rfl
  | pasted text => obtain rfl | rfl | rfl := h <;> decide

theorem Known.visible (h : f.Known) : Visible f.key := fun c hc =>
  ⟨(h.key c hc).1.2.2, (h.key c hc).2⟩

/-- The characters of a field's value. -/
def chars (f : Field) : List Char := lossyChars f.value.text

theorem Known.lossyChars_text (h : f.Known) {rest : List UInt8} (hrest : StartsAscii rest) :
    lossyChars (f.text ++ rest) = JsonText.memberText Field.key chars f ++ lossyChars rest := by
  have hsplit : f.text ++ rest =
      34 :: (bytesOf f.key ++ 34 :: 58 :: (f.value.text ++ rest)) := by simp [h.text]
  rw [hsplit, lossyChars_ascii (by decide), lossyChars_append _ (startsAscii_quote _),
    lossyChars_bytesOf h.visible, lossyChars_ascii (by decide),
    lossyChars_ascii (by decide), lossyChars_append _ hrest]
  simp [JsonText.memberText, chars]

end Field

variable {fields : List Field}

section

variable (hknown : ∀ f ∈ fields, f.Known)
include hknown

theorem lossyChars_fieldsText :
    lossyChars (fieldsText fields ++ [125]) =
      JsonText.membersText Field.key Field.chars fields ++ ['\x7d'] := by
  induction fields with
  | nil => decide
  | cons f fields ih =>
    have hf := hknown f mem_cons_self
    cases fields with
    | nil => exact hf.lossyChars_text (Http.startsAscii_cons (by decide) [])
    | cons g fields =>
      have hsplit : fieldsText (f :: g :: fields) ++ [125] =
          f.text ++ 44 :: (fieldsText (g :: fields) ++ [125]) := by simp [fieldsText]
      rw [hsplit, hf.lossyChars_text (startsAscii_cons (by decide) _),
        lossyChars_ascii (by decide), ih fun g hg => hknown g (mem_cons_of_mem _ hg)]
      simp [JsonText.membersText]

theorem lossyChars_objectText :
    lossyChars (objectText fields) = JsonText.objectText Field.key Field.chars fields := by
  rw [objectText, cons_append, lossyChars_ascii (by decide), lossyChars_fieldsText hknown]
  rfl

theorem newline_objectText
    (hsafe : ∀ f ∈ fields, f.Safe) : 10 ∉ objectText fields := by
  suffices h : 10 ∉ fieldsText fields by simpa [objectText] using h
  induction fields with
  | nil => simp [fieldsText]
  | cons f fields ih =>
    have hf := hknown f mem_cons_self
    have htext : 10 ∉ f.text := by
      rw [hf.text]
      simpa using ⟨newline_bytesOf hf.visible,
        Printed.newline_text hf.value (hsafe f mem_cons_self)⟩
    have hrest := ih (fun g hg => hknown g (mem_cons_of_mem _ hg))
      fun g hg => hsafe g (mem_cons_of_mem _ hg)
    cases fields with
    | nil => exact htext
    | cons g fields =>
      rw [fieldsText]
      simpa using ⟨htext, hrest⟩

end

/-- **A line is faithful if and only if none of its strings holds a byte that its escaper, or
the want of one, fails on.** -/
theorem faithful_iff (hne : fields ≠ []) (hknown : ∀ f ∈ fields, f.Known) :
    Faithful fields ↔ ∀ f ∈ fields, f.Safe := by
  have hread : (∃ members,
      JsonText.read (JsonText.objectText Field.key Field.chars fields) = some (.object members) ∧
        ReadAll Field.key Field.Stands fields members) ↔ ∀ f ∈ fields, f.Safe :=
    JsonText.read_objectText_iff hne (fun f hf c hc => ((hknown f hf).key c hc).1)
      (fun f hf hsafe => Printed.reads (hknown f hf).value hsafe)
      (fun f _ fuel after v rest hafter hvalue hv => Printed.safe_of_read hafter hvalue hv)
  rw [Faithful, lossyChars_objectText hknown, hread]
  exact ⟨And.right, fun hsafe => ⟨newline_objectText hknown hsafe, hsafe⟩⟩

/-! ### The lines of the tracers -/

variable (sys : System)

theorem known_printContainerFields (hostPid : Int32) :
    ∀ f ∈ printContainerFields sys hostPid, f.Known := by
  have hnsPid : IsText "ns_pid" := by decide
  have hcontainerId : IsText "container_id" := by decide
  unfold printContainerFields
  split_ifs
  · refine forall_mem_cons.mpr ⟨⟨hnsPid, trivial⟩, ?_⟩
    split
    · split_ifs
      · simpa [Field.Known, Printed.Known] using hcontainerId
      · simp
    · simp
  · simp

theorem known_printExecEvent (e : Event) (filename : CString maxFilenameLen) :
    ∀ f ∈ printExecEvent sys e filename, f.Known := by
  refine forall_mem_append.mpr ⟨?_, known_printContainerFields sys e.pid⟩
  simp only [forall_mem_cons, not_mem_nil, false_implies, implies_true, and_true,
    Field.Known, Printed.Known, jsonEscapeField]
  decide

theorem known_printExitEvent (e : Event) : ∀ f ∈ printExitEvent sys e, f.Known := by
  have hduration : IsText "duration_ms" := by decide
  have hmemory : IsText "vm_hwm_kb" := by decide
  refine forall_mem_append.mpr ⟨forall_mem_append.mpr
    ⟨forall_mem_append.mpr ⟨?_, ?_⟩, ?_⟩, known_printContainerFields sys e.pid⟩
  · simp only [forall_mem_cons, not_mem_nil, false_implies, implies_true, and_true,
      Field.Known, Printed.Known, jsonEscapeField]
    decide
  · split_ifs
    · simpa [Field.Known, Printed.Known] using hduration
    · simp
  · split
    · simpa [Field.Known, Printed.Known] using hmemory
    · simp

theorem known_printBashReadlineEvent (e : Event)
    (command : CString maxCommandLen) : ∀ f ∈ printBashReadlineEvent sys e command, f.Known := by
  refine forall_mem_append.mpr ⟨?_, known_printContainerFields sys e.pid⟩
  simp only [forall_mem_cons, not_mem_nil, false_implies, implies_true, and_true,
    Field.Known, Printed.Known, jsonEscapeField]
  decide

theorem known_printFileOpenEvent {l : FileOpenLine}
    (hpasted : ∀ text ∈ l.extraFields, IsPasted text) :
    ∀ f ∈ printFileOpenEvent sys l, f.Known := by
  refine forall_mem_append.mpr
    ⟨forall_mem_append.mpr ⟨?_, ?_⟩, known_printContainerFields sys l.pid⟩
  · simp only [forall_mem_cons, not_mem_nil, false_implies, implies_true, and_true,
      Field.Known, Printed.Known, jsonEscapeField]
    decide
  · split
    · next text htext =>
      split_ifs
      · simpa [Field.Known] using hpasted text htext
      · simp
    · simp

/-- What the line pastes is a text of the tracer. -/
def Line.Pastes : Line → Prop
  | .fileOpen l => ∀ text ∈ l.extraFields, IsPasted text
  | _ => True

theorem Line.known_fields {line : Line} (h : line.Pastes) :
    ∀ f ∈ line.fields sys, f.Known := by
  cases line with
  | exec e filename => exact known_printExecEvent sys e filename
  | exit e => exact known_printExitEvent sys e
  | bashReadline e command => exact known_printBashReadlineEvent sys e command
  | fileOpen l => exact known_printFileOpenEvent sys h
  | rateLimitWarning timestampNs pid | unknown timestampNs type =>
    simp only [Line.fields, forall_mem_cons, not_mem_nil, false_implies, implies_true,
      and_true, Field.Known, Printed.Known]
    decide

theorem isText_ite {p : Prop} [Decidable p] {s t : String} (hs : IsText s) (ht : IsText t) :
    IsText (if p then s else t) := by
  split
  · exact hs
  · exact ht

theorem isText_eventTypeName (type : UInt32) : IsText (eventTypeName type) := by
  iterate 15 refine isText_ite (by decide) ?_
  decide

theorem known_printSummaryJson (key : AggKey) (val : AggValue) :
    ∀ f ∈ printSummaryJson sys key val, f.Known := by
  have hname := isText_eventTypeName key.eventType
  have htotal : IsText "total_bytes" := by decide
  have hfd : IsText "fd" ∧ IsText "path_resolved" := by decide
  have hextra : IsText "extra" := by decide
  refine forall_mem_append.mpr ⟨forall_mem_append.mpr
    ⟨forall_mem_append.mpr ⟨?_, ?_⟩, ?_⟩, ?_⟩
  · simp only [forall_mem_cons, not_mem_nil, false_implies, implies_true, and_true,
      Field.Known]
    split <;>
    · simp only [Printed.Known, hname]
      decide
  · split_ifs
    · simpa [Field.Known, Printed.Known] using htotal
    · simp
  · split
    · simpa [Field.Known, Printed.Known] using hfd
    · simp
  · split_ifs
    · simpa [Field.Known, Printed.Known] using hextra
    · simp

theorem known_checkOverflow (total : UInt64) : ∀ f ∈ checkOverflow total, f.Known := by
  simp only [checkOverflow, forall_mem_cons, not_mem_nil, false_implies, implies_true,
    and_true, Field.Known, Printed.Known]
  decide

theorem known_sslsniff {sys : System} {env : Sslsniff.Env} {event : Sslsniff.ProbeSslData}
    (h : Sslsniff.printEvent sys env event = some fields) :
    fields ≠ [] ∧ ∀ f ∈ fields, f.Known := by
  have hrw : IsText event.rw.event := by cases event.rw <;> decide
  have hdata : IsText "data" := by decide
  have hhex : IsText "data_hex" := by decide
  have hlost : IsText "truncated" ∧ IsText "bytes_lost" := by decide
  rw [Sslsniff.printEvent] at h
  split at h
  · cases h
  split at h
  · cases h
  obtain rfl := Option.some_inj.mp h
  refine ⟨by simp, forall_mem_append.mpr ⟨forall_mem_append.mpr ⟨?_, ?_⟩,
    known_printContainerFields sys _⟩⟩
  · simp only [forall_mem_cons, not_mem_nil, false_implies, implies_true, and_true,
      Field.Known]
    split <;>
    · simp only [Printed.Known, hrw]
      decide
  · split_ifs <;> simp [Field.Known, Printed.Known, hdata, hhex, hlost]

theorem known_stdiocap {sys : System} {comm : Option (List UInt8)} {event : Stdiocap.StdiocapEvent}
    (h : Stdiocap.printEvent sys comm event = some fields) :
    fields ≠ [] ∧ ∀ f ∈ fields, f.Known := by
  have hrole : IsText (Stdiocap.fdRole event.fd) := by
    repeat' apply isText_ite
    all_goals decide
  have hdirection : IsText (if event.isRead = true then "READ" else "WRITE") :=
    isText_ite (by decide) (by decide)
  have hdata : IsText "data" := by decide
  have hlost : IsText "truncated" ∧ IsText "bytes_lost" := by decide
  rw [Stdiocap.printEvent] at h
  split at h
  · cases h
  obtain rfl := Option.some_inj.mp h
  refine ⟨by simp, forall_mem_append.mpr ⟨?_, ?_⟩⟩
  · generalize sys.resolveFdTarget event.pid event.fd = target
    cases target <;>
    · simp only [forall_mem_cons, not_mem_nil, false_implies, implies_true, and_true,
        Field.Known, Printed.Known, hrole, hdirection]
      decide
  · split_ifs <;> simp [Field.Known, Printed.Known, hdata, hlost]

/-! ### What the process tracer pastes -/

namespace ProcessTracer

variable {t u : ProcessTracer}

/-- The extra fields of the lines are texts of the tracer. -/
def PastesTexts (lines : List FileOpenLine) : Prop :=
  ∀ l ∈ lines, ∀ text ∈ l.extraFields, IsPasted text

theorem PastesTexts.append {lines lines' : List FileOpenLine} (h : PastesTexts lines)
    (h' : PastesTexts lines') : PastesTexts (lines ++ lines') :=
  forall_mem_append.mpr ⟨h, h'⟩

theorem pastesTexts_single {l : FileOpenLine} (h : ∀ text ∈ l.extraFields, IsPasted text) :
    PastesTexts [l] := by
  simpa [PastesTexts] using h

theorem pastesTexts_aggregatedLines (timestampNs : UInt64) {text : String} (h : IsPasted text)
    (l : List FileHashEntry) : PastesTexts (aggregatedLines timestampNs text l) := by
  intro line hline text' htext'
  obtain ⟨entry, -, rfl⟩ := mem_map.mp hline
  obtain rfl : text = text' := by simpa [FileHashEntry.line] using htext'
  exact h

theorem pastesTexts_countOpen (h : PastesTexts t.opens) (e : Event) (op : FileOp) :
    PastesTexts (t.countOpen e op).1.opens := by
  simp only [countOpen]
  split
  · exact h
  · split
    · exact h
    · split
      · rw [opens_print]
        exact h.append (pastesTexts_single (by simp))
      · exact h

theorem pastesTexts_reportOpen (h : PastesTexts t.opens) (e : Event) (op : FileOp)
    (addWarning : Bool) :
    PastesTexts (t.reportOpen e op (rateLimitWarning addWarning)).opens := by
  have hdropped : PastesTexts (t.dropExpired e.timestampNs).opens := by
    rw [opens_dropExpired]
    exact h.append (pastesTexts_aggregatedLines _ (.inr (.inl rfl)) _)
  have hcounted := pastesTexts_countOpen hdropped e op
  simp only [reportOpen]
  split_ifs
  · exact hcounted
  · rw [opens_print]
    refine hcounted.append (pastesTexts_single fun text htext => ?_)
    cases addWarning with
    | true =>
      obtain rfl := Option.some_inj.mp htext
      exact .inr (.inr rfl)
    | false => cases htext

/-- **The lines of an event paste only texts of the tracer.** -/
theorem pastesTexts_handleEvent (h : PastesTexts t.opens) (e : Event) (sid : Int32) :
    PastesTexts (t.handleEvent e sid).opens := by
  obtain ⟨-, hagrees⟩ | ⟨-, u, hagrees, heq⟩ | ⟨op, u, addWarning, -, hagrees, heq⟩ :=
    t.handleEvent_cases e sid
  · rw [hagrees.opens]
    exact h
  · rw [heq, opens_flushPidFileOpens, hagrees.opens]
    exact h.append (pastesTexts_aggregatedLines _ (.inl rfl) _)
  · rw [heq]
    exact pastesTexts_reportOpen (hagrees.opens ▸ h) e op addWarning

/-- The tracer after the events, each with what `getsid` returns for its pid. -/
def handleEvents (t : ProcessTracer) (events : List (Event × Int32)) : ProcessTracer :=
  events.foldl (fun t a => t.handleEvent a.1 a.2) t

theorem pastesTexts_handleEvents (h : PastesTexts t.opens) (events : List (Event × Int32)) :
    PastesTexts (t.handleEvents events).opens := by
  induction events generalizing t with
  | nil => exact h
  | cons a events ih => exact ih (pastesTexts_handleEvent h a.1 a.2)

theorem pastes_of_printed {env : Env} {tracker : PidTracker} {events : List (Event × Int32)}
    {line : Line} (h : line ∈ ((init env tracker).handleEvents events).printed) :
    line.Pastes := by
  have hinit : PastesTexts (init env tracker).opens := by simp [PastesTexts, opens, init]
  cases line with
  | fileOpen l =>
    exact pastesTexts_handleEvents hinit events l (mem_filterMap.mpr ⟨_, h, rfl⟩)
  | _ => trivial

end ProcessTracer

/-! ### Every line -/

/-- The lines that the tracers print, by their fields: over every run of the process tracer,
for every entry of the aggregation map, every total of its overflows, and every event of the TLS
and stdio tracers. -/
inductive PrintedLine (sys : System) : List Field → Prop
  | process {env : Env} {tracker : PidTracker} {events : List (Event × Int32)} {line : Line} :
      line ∈ ((ProcessTracer.init env tracker).handleEvents events).printed →
      PrintedLine sys (line.fields sys)
  | summary (key : AggKey) (val : AggValue) : PrintedLine sys (printSummaryJson sys key val)
  | overflow (total : UInt64) : PrintedLine sys (checkOverflow total)
  | ssl {env : Sslsniff.Env} {event : Sslsniff.ProbeSslData} {fields : List Field} :
      Sslsniff.printEvent sys env event = some fields → PrintedLine sys fields
  | stdio {comm : Option (List UInt8)} {event : Stdiocap.StdiocapEvent} {fields : List Field} :
      Stdiocap.printEvent sys comm event = some fields → PrintedLine sys fields

theorem PrintedLine.known {sys : System} (h : PrintedLine sys fields) :
    fields ≠ [] ∧ ∀ f ∈ fields, f.Known := by
  cases h with
  | @process _ _ _ line hprinted =>
    refine ⟨?_, Line.known_fields sys (ProcessTracer.pastes_of_printed hprinted)⟩
    cases line <;>
      simp [Line.fields, printExecEvent, printExitEvent, printBashReadlineEvent, printFileOpenEvent]
  | summary key val =>
    exact ⟨by simp [printSummaryJson], known_printSummaryJson sys key val⟩
  | overflow total => exact ⟨by simp [checkOverflow], known_checkOverflow total⟩
  | ssl hprint => exact known_sslsniff hprint
  | stdio hprint => exact known_stdiocap hprint

/-- **A printed line is one JSON object that says what the event says if and only if no string
that `json_escape` copied holds a control character other than a newline and a tab, and no
string that is pasted as it is holds a control character, a quote or a backslash.** -/
theorem faithful_iff_safe {sys : System} {fields : List Field} (h : PrintedLine sys fields) :
    Faithful fields ↔ ∀ f ∈ fields, f.Safe :=
  faithful_iff h.known.1 h.known.2

/-! ### A line that is read, and two that are not -/

/-- No containers, no memory of exits, no paths. -/
def bareSystem : System :=
  { getNsPid := fun _ => -1, getContainerId := fun _ => none, exitMem := fun _ => none
    pageSizeKb := 4, resolveFdPath := fun _ _ => none, resolveFdTarget := fun _ _ => none
    getsid := fun _ => 1 }

/-- A tracer of all processes that a shell has run a file in. -/
def executed (filename : CString maxFilenameLen) : ProcessTracer :=
  (ProcessTracer.init ⟨false, 0⟩ (pidTrackerInit [] .all 0)).handleEvents
    [(FileOpenRun.shellEvent 1 (.exec filename), 1)]

def executedLine (filename : CString maxFilenameLen) : Line :=
  .exec (FileOpenRun.shellEvent 1 (.exec filename)) filename

theorem executedLine_printed (filename : CString maxFilenameLen) :
    executedLine filename ∈ (executed filename).printed := mem_singleton.mpr rfl

/-- A quote, a newline, half a character and a whole one. -/
def oddName : CString maxFilenameLen := ⟨[34, 10, 0xC3, 65, 0xC3, 0xA9], by decide, by decide⟩

theorem oddName_faithful : Faithful ((executedLine oddName).fields bareSystem) :=
  (faithful_iff_safe (.process (executedLine_printed oddName))).mpr (by decide)

/-- The escape character, which starts the colour codes of terminals. -/
def escapeName : CString maxFilenameLen := ⟨[27], by decide, by decide⟩

/-- A read of nothing by a process whose name is a quote. -/
def quoteEvent : Sslsniff.ProbeSslData :=
  { timestampNs := 1, deltaNs := 0, pid := 7, tid := 7, uid := 0, len := 0, bufSize := 0
    bufFilled := 0, rw := .read, comm := ⟨[34], by decide, by decide⟩
    buf := Vector.replicate _ 0, isHandshake := 0 }

/-- The file name's control character is copied, and the process name's quote pasted. -/
theorem unfaithful_lines :
    (∃ line ∈ (executed escapeName).printed, ¬ Faithful (line.fields bareSystem)) ∧
      ∃ fields, Sslsniff.printEvent bareSystem ⟨none, 0⟩ quoteEvent = some fields ∧
        ¬ Faithful fields := by
  have hexec := executedLine_printed escapeName
  have hssl : Sslsniff.printEvent bareSystem ⟨none, 0⟩ quoteEvent = some
      [.member "function" (.constant "READ/RECV"), .member "timestamp_ns" (.decimal 1),
        .member "comm" (.raw [34]), .member "pid" (.signed 7), .member "len" (.signed 0),
        .member "buf_size" (.decimal 0), .member "uid" (.signed 0), .member "tid" (.signed 7),
        .member "latency_ms" (.decimal 0), .member "is_handshake" (.bool false),
        .member "data" .null, .member "truncated" (.bool false)] := rfl
  have hprinted : PrintedLine bareSystem ((executedLine escapeName).fields bareSystem) :=
    .process hexec
  have hknown := hprinted.known
  have hknown' := (PrintedLine.ssl hssl).known
  refine ⟨⟨_, hexec, ?_⟩, _, hssl, ?_⟩
  · rw [faithful_iff hknown.1 hknown.2]
    decide
  · rw [faithful_iff hknown'.1 hknown'.2]
    decide

end AgentSight.Bpf
