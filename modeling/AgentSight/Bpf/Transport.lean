import AgentSight.Bpf.Jsonl

/-!
# The transport of captured bytes

A buffer read from a TLS connection travels as the `data` string of a JSON line: `print_event`
of `bpf/sslsniff.c` escapes it, the collector reads the line, and `ssl_json_string_to_bytes`
turns the characters of the string back into bytes. The reader takes every character up to
`U+00FF` for a byte, which is what the escaper's `\u00XX` means, but the escaper also lets
well-formed UTF-8 through, so that a two-byte character of that range comes back as one byte.
`transported_iff` says that nothing else is lost.
-/

namespace AgentSight.Bpf

open Http (isContinuation continuation utf8Chars fromUtf8Lossy sslJsonStringToBytes)
open JsonString (Writes readString)
open List

/-- The string of the `data` field, as the collector's JSON parser gives it. -/
def dataField (buf : List UInt8) : Option String :=
  match (fromUtf8Lossy (jsonPrintEscapedQuoted buf)).toList with
  | '"' :: text =>
    match readString text.length text with
    | some (s, []) => some (String.ofList s)
    | _ => none
  | _ => none

/-- What the HTTP parser takes for the captured bytes. -/
def transported (buf : List UInt8) : Option (List UInt8) :=
  (dataField buf).map sslJsonStringToBytes

/-- Whether the buffer holds the encoding of a character from `U+0080` to `U+00FF`. -/
def holdsLatin1 : List UInt8 → Bool
  | c :: d :: rest => ((c = 0xC2 || c = 0xC3) && isContinuation d) || holdsLatin1 (d :: rest)
  | _ => false

/-! ### The characters of the field -/

/-- The characters that the pieces of a buffer are read as. -/
inductive ReadAs : List UInt8 → List Char → Prop
  | nil : ReadAs [] []
  | byte {c : UInt8} {rest : List UInt8} {chars : List Char} :
      (128 ≤ c → validateUtf8Char (c :: rest) = 0) → ReadAs rest chars →
      ReadAs (c :: rest) (Char.ofNat c.toNat :: chars)
  | char {ch : Char} {tail : List UInt8} {chars : List Char} : 0x80 ≤ ch.toNat → ReadAs tail chars →
      ReadAs (String.utf8EncodeChar ch ++ tail) (ch :: chars)

theorem encode_ne_nil (ch : Char) : String.utf8EncodeChar ch ≠ [] := by
  intro h
  have hlen := congrArg List.length h
  have hpos := ch.utf8Size_pos
  simp at hlen
  omega

/-- The printed buffer is a sequence of items, which stand for what the buffer is read as. -/
theorem exists_items (buf : List UInt8) :
    ∃ items : List (List Char × Char), (∀ rest, utf8Chars (jsonPrintEscaped buf ++ rest) =
        (items.flatMap Prod.fst).map some ++ utf8Chars rest) ∧
      (∀ item ∈ items, Writes item.1 item.2) ∧ ReadAs buf (items.map Prod.snd) := by
  induction hn : buf.length using Nat.strong_induction_on generalizing buf with
  | _ n ih =>
    cases buf with
    | nil => exact ⟨[], fun rest => rfl, by simp, .nil⟩
    | cons c rest =>
      obtain ⟨⟨item, hprint, hascii, hwrites⟩, hvalid⟩ | ⟨ch, tail, hch, hbytes, hprint⟩ :=
        jsonPrintEscaped_cases c rest
      · obtain ⟨items, htext, hitems, hread⟩ := ih rest.length (by simp at hn; omega) rest rfl
        refine ⟨(textOf item, Char.ofNat c.toNat) :: items, fun after => ?_, ?_, .byte hvalid hread⟩
        · rw [hprint, append_assoc, Http.utf8Chars_ascii_append hascii, htext]
          simp [textOf, Function.comp_def]
        · exact forall_mem_cons.mpr ⟨hwrites, hitems⟩
      · have hlen := congrArg List.length hbytes
        have hpos := length_pos_iff.mpr (encode_ne_nil ch)
        rw [length_append] at hlen
        obtain ⟨items, htext, hitems, hread⟩ := ih tail.length (by omega) tail rfl
        refine ⟨([ch], ch) :: items, fun after => ?_, ?_, ?_⟩
        · rw [hprint, append_assoc, Http.utf8Chars_encode, htext]
          simp
        · have hself : Writes [ch] ch := by
            refine JsonString.writes_self ?_ ?_ (by omega) <;>
            · rintro rfl
              exact absurd hch (by decide)
          exact forall_mem_cons.mpr ⟨hself, hitems⟩
        · rw [hbytes]
          exact .char hch hread

/-- **The field is always read**, as one character for each piece of the buffer. -/
theorem dataField_eq (buf : List UInt8) :
    ∃ chars, dataField buf = some (String.ofList chars) ∧ ReadAs buf chars := by
  obtain ⟨items, htext, hitems, hread⟩ := exists_items buf
  refine ⟨items.map Prod.snd, ?_, hread⟩
  have hquote : utf8Chars [34] = [some '"'] := by decide
  have hchars : (fromUtf8Lossy (jsonPrintEscapedQuoted buf)).toList =
      '"' :: (items.flatMap Prod.fst ++ ['"']) := by
    rw [Http.fromUtf8Lossy_eq, jsonPrintEscapedQuoted, cons_append,
      Http.utf8Chars_ascii (by decide), htext, hquote]
    simp [Function.comp_def]
  have hlen : items.length ≤ (items.flatMap Prod.fst).length := by
    clear htext hread hchars
    induction items with
    | nil => simp
    | cons item items ih =>
      have hnil : item.1 ≠ [] := by
        intro hnil
        have hinvalid := hitems item mem_cons_self []
        rw [hnil] at hinvalid
        cases hinvalid
      have hpos := length_pos_iff.mpr hnil
      have hrest := ih fun i hi => hitems i (mem_cons_of_mem _ hi)
      simp only [flatMap_cons, length_append, length_cons]
      omega
  have hstring := @JsonString.readString_writes items hitems
    (items.flatMap Prod.fst ++ ['"']).length
    (by rw [length_append, length_singleton]; omega) []
  rw [dataField, hchars]
  simp only [hstring]

/-! ### The bytes of the characters -/

/-- What `ssl_json_string_to_bytes` makes of one character. -/
def bytesOfChar (c : Char) : List UInt8 :=
  if c.toNat ≤ 0xFF then [UInt8.ofNat c.toNat] else String.utf8EncodeChar c

theorem sslJsonStringToBytes_ofList (chars : List Char) :
    sslJsonStringToBytes (String.ofList chars) = chars.flatMap bytesOfChar := by
  rw [sslJsonStringToBytes, String.toList_ofList]
  rfl

theorem holdsLatin1_cons {c : UInt8} (h2 : c ≠ 0xC2) (h3 : c ≠ 0xC3) (rest : List UInt8) :
    holdsLatin1 (c :: rest) = holdsLatin1 rest := by
  cases rest with
  | nil => rfl
  | cons d rest => simp [holdsLatin1, h2, h3]

theorem continuation_ne {n : ℕ} (h : n < 0x40) : continuation n ≠ 0xC2 ∧ continuation n ≠ 0xC3 := by
  have hnat := Http.toNat_continuation h
  constructor <;>
  · intro heq
    rw [heq] at hnat
    simp at hnat
    omega

theorem lead_ne {n base : ℕ} (hlow : 0xC3 < n + base) (hhigh : n + base < 256) :
    UInt8.ofNat (n + base) ≠ 0xC2 ∧ UInt8.ofNat (n + base) ≠ 0xC3 := by
  have hnat := Http.toNat_ofNat_of_lt hhigh
  constructor <;>
  · intro heq
    rw [heq] at hnat
    simp at hnat
    omega

/-- A byte that a validated sequence does not start at starts no such character. -/
theorem holdsLatin1_byte {c : UInt8} {rest : List UInt8}
    (h : 128 ≤ c → validateUtf8Char (c :: rest) = 0) :
    holdsLatin1 (c :: rest) = holdsLatin1 rest := by
  cases rest with
  | nil => rfl
  | cons d rest =>
    suffices hno : ((c = 0xC2 || c = 0xC3) && isContinuation d) = false by
      rw [holdsLatin1, hno, Bool.false_or]
    by_contra hyes
    rw [Bool.not_eq_false, Bool.and_eq_true, Bool.or_eq_true, decide_eq_true_eq,
      decide_eq_true_eq] at hyes
    obtain ⟨rfl | rfl, hd⟩ := hyes <;>
    · have hzero := h (by decide)
      have hlen : ¬ rest.length + 1 + 1 < 2 := by omega
      simp [validateUtf8Char, expectedLen, mbrtowcReads, hd, hlen] at hzero
      all_goals omega

/-- A character beyond `U+00FF` holds none. -/
theorem holdsLatin1_encode {ch : Char} (h : 0xFF < ch.toNat) (tail : List UInt8) :
    holdsLatin1 (String.utf8EncodeChar ch ++ tail) = holdsLatin1 tail := by
  have hskip : ∀ n < 0x40, ∀ l, holdsLatin1 (continuation n :: l) = holdsLatin1 l :=
    fun n hn l => holdsLatin1_cons (continuation_ne hn).1 (continuation_ne hn).2 l
  have hlead : ∀ n base l, 0xC3 < n + base → n + base < 256 →
      holdsLatin1 (UInt8.ofNat (n + base) :: l) = holdsLatin1 l :=
    fun n base l hlow hhigh =>
      holdsLatin1_cons (lead_ne hlow hhigh).1 (lead_ne hlow hhigh).2 l
  rw [Http.utf8EncodeChar_eq, if_neg (by omega)]
  by_cases h2 : ch.toNat ≤ 0x7FF
  · rw [if_pos h2, cons_append, cons_append, nil_append,
      hlead _ _ _ (by omega) (by omega), hskip _ (by omega)]
  rw [if_neg h2]
  by_cases h3 : ch.toNat ≤ 0xFFFF
  · rw [if_pos h3, cons_append, cons_append, cons_append, nil_append,
      hlead _ _ _ (by omega) (by omega), hskip _ (by omega), hskip _ (by omega)]
  · rw [if_neg h3, cons_append, cons_append, cons_append, cons_append,
      nil_append, hlead _ _ _ (by omega) (by omega), hskip _ (by omega),
      hskip _ (by omega), hskip _ (by omega)]

/-- A character of the range is two bytes, the first of which announces it. -/
theorem latin1_encode {ch : Char} (hlow : 0x80 ≤ ch.toNat) (hhigh : ch.toNat ≤ 0xFF)
    (tail : List UInt8) :
    holdsLatin1 (String.utf8EncodeChar ch ++ tail) = true ∧
      (String.utf8EncodeChar ch).length = 2 := by
  rw [Http.utf8EncodeChar_eq, if_neg (by omega), if_pos (by omega)]
  have hcont := Http.isContinuation_continuation (n := ch.toNat % 0x40) (by omega)
  have hlead : ch.toNat / 64 % 0x20 = 2 ∨ ch.toNat / 64 % 0x20 = 3 := by omega
  obtain heq | heq := hlead <;>
  · rw [heq]
    simp [holdsLatin1, hcont]

/-- Reading back shortens the buffer exactly where it holds such a character. -/
theorem ReadAs.bytes {buf : List UInt8} {chars : List Char} (h : ReadAs buf chars) :
    (holdsLatin1 buf = false → chars.flatMap bytesOfChar = buf) ∧
      (chars.flatMap bytesOfChar).length ≤ buf.length ∧
      (holdsLatin1 buf = true → (chars.flatMap bytesOfChar).length < buf.length) := by
  induction h with
  | nil => exact ⟨fun _ => rfl, Nat.le_refl _, fun h => by cases h⟩
  | @byte c rest chars hvalid _ ih =>
    obtain ⟨hsame, hle, hlt⟩ := ih
    have hone : bytesOfChar (Char.ofNat c.toNat) = [c] := by
      have hbound := c.toNat_lt
      rw [bytesOfChar, toNat_textOf, if_pos (by omega), UInt8.ofNat_toNat]
    rw [holdsLatin1_byte hvalid, flatMap_cons, hone]
    refine ⟨fun hno => ?_, by simpa using hle, fun hyes => by simpa using hlt hyes⟩
    rw [hsame hno]
    rfl
  | @char ch tail chars hch _ ih =>
    obtain ⟨hsame, hle, hlt⟩ := ih
    rw [flatMap_cons, bytesOfChar]
    by_cases hlatin : ch.toNat ≤ 0xFF
    · obtain ⟨hyes, hlen⟩ := latin1_encode hch hlatin tail
      rw [if_pos hlatin, hyes]
      refine ⟨fun hno => (by cases hno), ?_, fun _ => ?_⟩ <;>
      · simp only [length_append, length_cons, length_nil, hlen]
        omega
    · rw [if_neg hlatin, holdsLatin1_encode (by omega)]
      refine ⟨fun hno => by rw [hsame hno], ?_, fun hyes => ?_⟩
      · simp only [length_append]
        omega
      · have := hlt hyes
        simp only [length_append]
        omega

/-- **The transport is exact on a buffer if and only if the buffer holds no encoding of a
character from `U+0080` to `U+00FF`.** -/
theorem transported_iff (buf : List UInt8) :
    transported buf = some buf ↔ holdsLatin1 buf = false := by
  obtain ⟨chars, hfield, hread⟩ := dataField_eq buf
  obtain ⟨hsame, -, hshort⟩ := hread.bytes
  rw [transported, hfield, Option.map_some, sslJsonStringToBytes_ofList, Option.some_inj]
  constructor
  · intro heq
    rw [← Bool.not_eq_true]
    intro hyes
    have hlt := hshort hyes
    rw [heq] at hlt
    exact Nat.lt_irrefl _ hlt
  · exact hsame

/-- The two bytes of `é` come back as one. -/
theorem e_acute_not_transported : transported [0xC3, 0xA9] ≠ some [0xC3, 0xA9] := by
  decide +kernel

end AgentSight.Bpf
