import AgentSight.Http.Utf8
import AgentSight.Sse.Lines

/-!
# Event streams in chunked transfer coding

What `parse_sse_events` reads from a chunked body. `clean_chunked_content` takes a line that looks
like a hexadecimal number for the size of a chunk, keeps of the chunk what stands before its first
CR LF, and puts line feeds between what it keeps. So the events are those of the body when a chunk
ends with a line, or where a further blank line does no harm.
-/

namespace AgentSight.Sse

open Json (Value)
open Http (lossyChars StartsAscii)
open List

/-! ### The transfer coding -/

/-- A chunk, with the digits that announce its length. -/
structure TransferChunk where
  size : String
  data : List UInt8
  nonempty : data ≠ []
  digits : ∀ c ∈ size.toList, isAsciiHexdigit c = true
  announces : size.toList.foldl (fun n c => 16 * n + hexValue c) 0 = data.length

def utf8 (cs : List Char) : List UInt8 := cs.flatMap String.utf8EncodeChar

def crlf : List Char := ['\r', '\n']

def TransferChunk.bytes (chunk : TransferChunk) : List UInt8 :=
  utf8 (chunk.size.toList ++ crlf) ++ chunk.data ++ utf8 crlf

/-- The characters that a lossy decoder makes of the chunk. -/
def TransferChunk.chars (chunk : TransferChunk) : List Char := lossyChars chunk.data

/-- A body and a chunked encoding of it; `last` gives the number of digits beyond the first of the
chunk of length zero, if it was captured. -/
structure ChunkedBody where
  body : String
  chunks : List TransferChunk
  last : Option ℕ
  whole : chunks.flatMap TransferChunk.data = utf8 body.toList

def ChunkedBody.lastChars (coded : ChunkedBody) : List Char :=
  match coded.last with
  | none => []
  | some n => List.replicate (n + 1) '0' ++ crlf ++ crlf

def ChunkedBody.bytes (coded : ChunkedBody) : List UInt8 :=
  coded.chunks.flatMap TransferChunk.bytes ++ utf8 coded.lastChars

/-- The encoded body as a string. -/
def ChunkedBody.text (coded : ChunkedBody) : String := Http.fromUtf8Lossy coded.bytes

/-- The encoded body has the events of the body. -/
def ChunkedBody.SameEvents [External] (coded : ChunkedBody) : Prop :=
  parseSseEvents coded.text = parseSseEventsFromChunk coded.body

/-! ### Where chunks may end -/

/-- The line break that comes between two texts stands beside another one; the start and the end
count as line breaks. -/
def Touches (left right : List Char) : Prop :=
  ['\n', '\n'] <:+ '\n' :: left ∨ ['\n', '\n'] <+: right ++ ['\n'] ∨
    ['\n'] <:+ '\n' :: left ∧ ['\n'] <+: right ++ ['\n']

/-- What comes before a cut, less the CR of a CR LF that the cut parts. -/
def cutLeft (left right : List Char) : List Char :=
  if left.getLast? = some '\r' ∧ right.head? = some '\n' then left.dropLast else left

/-- How a chunk may end, between what comes before it and after it. -/
inductive Fits (left text right : List Char) : Prop
  /-- It is the last one; only line ends follow its first CR LF. -/
  | last (piece : List Char) (n : ℕ) :
      Str.splitPair '\r' '\n' text = piece :: List.replicate n [] → right = [] →
        Fits left text right
  /-- It ends with its only CR LF. -/
  | line (piece : List Char) : Str.splitPair '\r' '\n' text = [piece, []] →
      piece.getLast? ≠ some '\r' → Fits left text right
  /-- It ends with several, and a blank line is left of them. -/
  | lines (piece : List Char) (n : ℕ) :
      Str.splitPair '\r' '\n' text = piece :: List.replicate (n + 2) [] →
      piece.getLast? ≠ some '\r' →
      ['\n'] <:+ '\n' :: piece ∨ ['\n'] <+: normalize right → Fits left text right
  /-- It has none, and is cut off beside a blank line. -/
  | cut : Str.splitPair '\r' '\n' text = [text] →
      (text.getLast? = some '\r' → right.head? = some '\n') →
      Touches (normalize (cutLeft (left ++ text) right)) (normalize right) → Fits left text right

/-- Every chunk ends where it may, after the text `left`. -/
def Harmless (left : List Char) : List (List Char) → Prop
  | [] => True
  | text :: texts => Fits left text texts.flatten ∧ Harmless (left ++ text) texts

/-- The condition on a chunked encoding: chunks shorter than 4 GiB that end between characters, and
where it does no harm. -/
structure ChunkedBody.Sound (coded : ChunkedBody) : Prop where
  small : ∀ chunk ∈ coded.chunks, chunk.data.length < 2 ^ 32
  characters : coded.chunks.flatMap TransferChunk.chars = coded.body.toList
  harmless : Harmless [] (coded.chunks.map TransferChunk.chars)

/-! ### Decoding -/

theorem lossyChars_utf8 (cs : List Char) (rest : List UInt8) :
    lossyChars (utf8 cs ++ rest) = cs ++ lossyChars rest := by
  induction cs with
  | nil => rfl
  | cons c cs ih =>
    have hchar : lossyChars (String.utf8EncodeChar c ++ (utf8 cs ++ rest)) =
        c :: lossyChars (utf8 cs ++ rest) := by
      rw [lossyChars, Http.utf8Chars_encode]
      rfl
    rw [utf8, flatMap_cons, append_assoc, ← utf8, hchar, ih, cons_append]

theorem startsAscii_crlf (rest : List UInt8) : StartsAscii (utf8 crlf ++ rest) := by
  intro b hb
  obtain rfl : b = 13 := by simpa [utf8, crlf, String.utf8EncodeChar] using hb.symm
  decide

variable (chunk : TransferChunk)

theorem lossyChars_chunk (rest : List UInt8) :
    lossyChars (chunk.bytes ++ rest) =
      chunk.size.toList ++ crlf ++ chunk.chars ++ crlf ++ lossyChars rest := by
  rw [TransferChunk.bytes, append_assoc, append_assoc, lossyChars_utf8,
    Http.lossyChars_append _ (startsAscii_crlf rest), lossyChars_utf8]
  simp [TransferChunk.chars]

theorem toList_text (coded : ChunkedBody) : coded.text.toList = (coded.chunks.flatMap fun chunk =>
      chunk.size.toList ++ crlf ++ chunk.chars ++ crlf) ++ coded.lastChars := by
  have hchunks (chunks : List TransferChunk) rest :
      lossyChars (chunks.flatMap TransferChunk.bytes ++ rest) = (chunks.flatMap fun chunk =>
        chunk.size.toList ++ crlf ++ chunk.chars ++ crlf) ++ lossyChars rest := by
    induction chunks with
    | nil => rfl
    | cons chunk chunks ih =>
      rw [flatMap_cons, append_assoc, lossyChars_chunk, ih, flatMap_cons,
        append_assoc _ _ (lossyChars rest)]
  have hlast := lossyChars_utf8 coded.lastChars []
  rw [append_nil] at hlast
  rw [ChunkedBody.text, Http.fromUtf8Lossy_eq, ← lossyChars, ChunkedBody.bytes, hchunks, hlast]
  simp [lossyChars, Http.utf8Chars, Http.decodeChars]

/-! ### Cleaning -/

variable {c : Char}

theorem isWhitespace_of_isAsciiHexdigit (h : isAsciiHexdigit c = true) :
    Str.isWhitespace c = false := by
  have hrange : 48 ≤ c.toNat ∧ c.toNat ≤ 102 := by
    simp only [isAsciiHexdigit, Bool.or_eq_true, Bool.and_eq_true, decide_eq_true_eq, Char.isDigit,
      Char.le_def, UInt32.le_iff_toNat_le] at h
    change (48 ≤ c.toNat ∧ c.toNat ≤ 57 ∨ 97 ≤ c.toNat ∧ c.toNat ≤ 102) ∨
      65 ≤ c.toNat ∧ c.toNat ≤ 70 at h
    omega
  simp only [Str.isWhitespace, Bool.or_eq_false_iff, Bool.and_eq_false_iff, decide_eq_false_iff_not,
    beq_eq_false_iff_ne]
  omega

/-- A line of digits announces the number they make. -/
theorem chunkSize_digits {digits : List Char} (hne : digits ≠ [])
    (hdigits : ∀ c ∈ digits, isAsciiHexdigit c = true) :
    chunkSize (String.ofList digits) =
      some (if digits.foldl (fun n c => 16 * n + hexValue c) 0 < 2 ^ 32 then
        digits.foldl (fun n c => 16 * n + hexValue c) 0 else 0) := by
  have htrim : Str.trim (String.ofList digits) = String.ofList digits :=
    Str.trim_eq_self fun c hc => isWhitespace_of_isAsciiHexdigit (hdigits c (by simpa using hc))
  have hall : digits.all isAsciiHexdigit = true := all_eq_true.mpr hdigits
  simp [chunkSize, htrim, hne, hall]

theorem TransferChunk.size_ne_nil : chunk.size.toList ≠ [] := by
  intro hempty
  have hzero := chunk.announces
  rw [hempty] at hzero
  exact chunk.nonempty (length_eq_zero_iff.mp hzero.symm)

theorem chunkSize_size {chunk : TransferChunk} (h : chunk.data.length < 2 ^ 32) :
    ∃ n, chunkSize chunk.size = some (n + 1) := by
  have hsize := chunkSize_digits chunk.size_ne_nil chunk.digits
  rw [chunk.announces, if_pos h, String.ofList_toList] at hsize
  obtain ⟨n, hn⟩ := Nat.exists_eq_succ_of_ne_zero
    (Nat.ne_of_gt (length_pos_iff.mpr chunk.nonempty))
  exact ⟨n, by rw [hsize, hn]⟩

theorem chunkSize_empty : chunkSize (String.ofList []) = none := by decide

theorem cleanLines_none {line : String} (h : chunkSize line = none) (rest : List String) :
    cleanLines chunkSize false (line :: rest) = cleanLines chunkSize false rest := by
  simp [cleanLines, h]

theorem cleanLines_zero {line : String} (h : chunkSize line = some 0) (rest : List String) :
    cleanLines chunkSize false (line :: rest) = [] := by
  simp [cleanLines, h]

theorem cleanLines_succ {line : String} {n : ℕ} (h : chunkSize line = some (n + 1))
    (first : String) (rest : List String) :
    cleanLines chunkSize false (line :: first :: rest) =
      first :: cleanLines chunkSize false rest := by
  simp [cleanLines, h]

theorem cleanLines_blanks (n : ℕ) (rest : List String) :
    cleanLines chunkSize false ((List.replicate n []).map String.ofList ++ rest) =
      cleanLines chunkSize false rest := by
  induction n with
  | zero => rfl
  | succ n ih =>
    rw [replicate_succ, map_cons, cons_append, cleanLines_none chunkSize_empty, ih]

/-- Of a chunk its first line is kept, when only line ends follow it. -/
theorem cleanLines_chunk {chunk : TransferChunk} (hsmall : chunk.data.length < 2 ^ 32)
    (piece : List Char) (n : ℕ) (rest : List String) :
    cleanLines chunkSize false (chunk.size ::
      ((piece :: List.replicate n []).map String.ofList ++ rest)) =
        String.ofList piece :: cleanLines chunkSize false rest := by
  obtain ⟨size, hsize⟩ := chunkSize_size hsmall
  rw [map_cons, cons_append, cleanLines_succ hsize, cleanLines_blanks]

theorem notMem_cr_of_digits {digits : List Char}
    (h : ∀ c ∈ digits, isAsciiHexdigit c = true) : '\r' ∉ digits := by
  intro hmem
  exact absurd (h _ hmem) (by decide)

/-- The lines of an encoded body are those of its chunks, each after its size. -/
theorem splitPair_chunk (rest : List Char) :
    Str.splitPair '\r' '\n' (chunk.size.toList ++ crlf ++ chunk.chars ++ crlf ++ rest) =
      chunk.size.toList ::
        (Str.splitPair '\r' '\n' chunk.chars ++ Str.splitPair '\r' '\n' rest) := by
  have hsize := Str.splitPair_of_notMem (b := '\n') (notMem_cr_of_digits chunk.digits)
  simp only [crlf, append_assoc, cons_append, nil_append]
  rw [Str.splitPair_concat (by decide), Str.splitPair_concat (by decide), hsize]
  rfl

theorem foldl_zeros (n : ℕ) :
    (List.replicate n '0').foldl (fun n c => 16 * n + hexValue c) 0 = 0 := by
  induction n with
  | zero => rfl
  | succ n ih => exact ih

/-- The last chunk ends the cleaning or is not there. -/
theorem cleanLines_lastChars (coded : ChunkedBody) : cleanLines chunkSize false
      ((Str.splitPair '\r' '\n' coded.lastChars).map String.ofList) = [] := by
  cases hlast : coded.last with
  | none =>
    simp only [ChunkedBody.lastChars, hlast]
    exact cleanLines_none chunkSize_empty []
  | some n =>
    have hzeros : ∀ c ∈ List.replicate (n + 1) '0', isAsciiHexdigit c = true := by
      intro c hc
      rw [eq_of_mem_replicate hc]
      decide
    have hsize := chunkSize_digits (ne_nil_of_length_pos (by simp)) hzeros
    rw [foldl_zeros] at hsize
    have hsplit := Str.splitPair_concat (by decide : '\r' ≠ '\n') (List.replicate (n + 1) '0') crlf
    rw [Str.splitPair_of_notMem (notMem_cr_of_digits hzeros)] at hsplit
    simp only [ChunkedBody.lastChars, hlast, append_assoc]
    change cleanLines chunkSize false (List.map String.ofList (Str.splitPair '\r' '\n'
      (List.replicate (n + 1) '0' ++ '\r' :: '\n' :: crlf))) = []
    rw [hsplit]
    exact cleanLines_zero hsize _

variable {coded : ChunkedBody}

/-- What is kept of chunks that have nothing after their first lines: these lines. -/
theorem cleanChunkedContent_text (hsmall : ∀ chunk ∈ coded.chunks, chunk.data.length < 2 ^ 32)
    {piece : TransferChunk → List Char} {ends : TransferChunk → ℕ}
    (hpiece : ∀ chunk ∈ coded.chunks,
      Str.splitPair '\r' '\n' chunk.chars = piece chunk :: List.replicate (ends chunk) []) :
    cleanChunkedContent coded.text =
      "\n".intercalate (coded.chunks.map fun chunk => String.ofList (piece chunk)) := by
  have hclean (chunks : List TransferChunk) (hsmall : ∀ chunk ∈ chunks, chunk.data.length < 2 ^ 32)
      (hpiece : ∀ chunk ∈ chunks,
        Str.splitPair '\r' '\n' chunk.chars = piece chunk :: List.replicate (ends chunk) []) :
      cleanLines chunkSize false ((Str.splitPair '\r' '\n' ((chunks.flatMap fun chunk =>
        chunk.size.toList ++ crlf ++ chunk.chars ++ crlf) ++ coded.lastChars)).map String.ofList) =
          chunks.map fun chunk => String.ofList (piece chunk) := by
    induction chunks with
    | nil => exact cleanLines_lastChars coded
    | cons chunk chunks ih =>
      rw [forall_mem_cons] at hsmall hpiece
      rw [flatMap_cons, append_assoc, splitPair_chunk, hpiece.1, map_cons,
        map_append, String.ofList_toList, cleanLines_chunk hsmall.1, ih hsmall.2 hpiece.2]
      rfl
  rw [cleanChunkedContent, toList_text, hclean coded.chunks hsmall hpiece]

/-! ### Line ends that change nothing -/

/-- Kept text, each piece of which a line feed follows. -/
def Broken (cs : List Char) : Prop := cs = [] ∨ ['\n'] <:+ cs

theorem normalize_lf (cs rest : List Char) (h : cs.getLast? ≠ some '\r') :
    normalize (cs ++ '\n' :: rest) = normalize cs ++ '\n' :: normalize rest := by
  have hcons : normalize ('\n' :: rest) = '\n' :: normalize rest :=
    Str.replacePair_cons_of_ne (by decide)
  rw [normalize, Str.replacePair_append_of_not _ _ fun hcr => absurd hcr h]
  exact congrArg (normalize cs ++ ·) hcons

theorem normalize_crlf (cs rest : List Char) :
    normalize (cs ++ '\r' :: '\n' :: rest) = normalize cs ++ '\n' :: normalize rest :=
  Str.replacePair_concat (by decide) cs rest

/-- A text and what follows it, parted where the one ends or before the CR LF that is parted. -/
theorem normalize_append (left right : List Char) :
    normalize (left ++ right) = normalize (cutLeft left right) ++ normalize right := by
  unfold cutLeft
  split
  · next hcut =>
    obtain ⟨rest, rfl⟩ := head?_eq_some_iff.mp hcut.2
    obtain ⟨front, rfl⟩ := getLast?_eq_some_iff.mp hcut.1
    rw [append_assoc, singleton_append, normalize_crlf, dropLast_concat]
    exact congrArg (normalize front ++ ·) (Str.replacePair_cons_of_ne (by decide)).symm
  · next hcut =>
    exact Str.replacePair_append_of_not left right fun hcr hlf => hcut ⟨hcr, hlf⟩

theorem normalize_break (left right : List Char)
    (h : left.getLast? = some '\r' → right.head? = some '\n') :
    normalize (left ++ '\n' :: right) =
      normalize (cutLeft left right) ++ '\n' :: normalize right := by
  unfold cutLeft
  split
  · next hcut =>
    obtain ⟨front, rfl⟩ := getLast?_eq_some_iff.mp hcut.1
    rw [append_assoc, singleton_append, normalize_crlf, dropLast_concat]
  · next hcut =>
    exact normalize_lf left right fun hcr => hcut ⟨hcr, h hcr⟩

theorem normalize_eq_nil {cs : List Char} (h : normalize cs = []) : cs = [] := by
  unfold normalize at h
  fun_cases Str.replacePair '\r' '\n' '\n' cs with
  | case1 => rfl
  | case2 => simp [Str.replacePair] at h
  | case3 c d cs hpair => simp [Str.replacePair, hpair] at h
  | case4 c d cs hpair => simp [Str.replacePair, hpair] at h

theorem Broken.getLast? {kept : List Char} (h : Broken kept) : kept.getLast? ≠ some '\r' := by
  obtain rfl | ⟨front, rfl⟩ := h
  · simp
  · simp

theorem Broken.normalize {kept : List Char} (h : Broken kept) : Broken (Sse.normalize kept) := by
  obtain rfl | ⟨front, rfl⟩ := h
  · exact .inl rfl
  · right
    have hbreak := normalize_append front ['\n']
    rw [hbreak]
    exact suffix_append _ _

theorem Broken.suffix {kept : List Char} (h : Broken kept) : ['\n'] <:+ '\n' :: kept := by
  obtain rfl | h := h
  · exact suffix_refl _
  · exact h.trans (suffix_cons _ _)

theorem suffix_concat {front : List Char} (h : ['\n'] <:+ front ++ [c]) : c = '\n' := by
  obtain ⟨before, hbefore⟩ := h
  exact (cons.inj (append_inj' hbefore rfl).2).1.symm

/-- Whether a cut is touched depends on what is beside it. -/
theorem Touches.change_front {front kept text right : List Char} (hkept : Broken kept)
    (hempty : text = [] → ['\n'] <+: right ++ ['\n']) (h : Touches (front ++ text) right) :
    Touches (kept ++ text) right := by
  have hends (htext : ['\n'] <:+ '\n' :: (front ++ text)) : ['\n'] <:+ '\n' :: (kept ++ text) := by
    obtain rfl | ⟨text, c, rfl⟩ := eq_nil_or_concat' text
    · simpa using hkept.suffix
    · rw [← append_assoc, ← cons_append] at htext ⊢
      rw [suffix_concat htext]
      exact suffix_append _ _
  obtain hbefore | hafter | ⟨hleft, hright⟩ := h
  · obtain rfl | ⟨text, c, rfl⟩ := eq_nil_or_concat' text
    · exact .inr (.inr ⟨by simpa using hkept.suffix, hempty rfl⟩)
    · -- The last two characters: at most one of them is of the front.
      obtain ⟨before, hbefore⟩ := hbefore
      have hsplit : (before ++ ['\n']) ++ ['\n'] = ('\n' :: (front ++ text)) ++ [c] := by
        simpa using hbefore
      obtain ⟨hinit, hlast⟩ := append_inj' hsplit rfl
      obtain rfl := (cons.inj hlast).1
      obtain rfl | ⟨text, d, rfl⟩ := eq_nil_or_concat' text
      · obtain ⟨first, hfirst⟩ := hkept.suffix
        exact .inl ⟨first, by simpa using congrArg (· ++ ['\n']) hfirst⟩
      · have hd : ['\n'] <:+ ('\n' :: (front ++ text)) ++ [d] := ⟨before, by simpa using hinit⟩
        rw [suffix_concat hd]
        exact .inl ⟨'\n' :: (kept ++ text), by simp⟩
  · exact .inr (.inl hafter)
  · exact .inr (.inr ⟨hends hleft, hright⟩)

/-- What was kept before a chunk touches the cut after it when the body does. -/
theorem touches_kept {kept left text right : List Char} (hkept : Broken kept)
    (htext : text ≠ []) (h : Touches (normalize (cutLeft (left ++ text) right)) (normalize right)) :
    Touches (normalize (cutLeft (kept ++ text) right)) (normalize right) := by
  have hcut front : cutLeft (front ++ text) right = front ++ cutLeft text right := by
    simp only [cutLeft, getLast?_append_of_ne_nil _ htext]
    split
    · exact dropLast_append_of_ne_nil htext
    · rfl
  rw [hcut, normalize_append] at h ⊢
  have hsame : cutLeft kept (cutLeft text right) = kept := if_neg fun hcr => hkept.getLast? hcr.1
  rw [hsame]
  refine h.change_front hkept.normalize fun hempty => ?_
  -- Nothing is left of the text: it is the CR of a CR LF.
  have hgone := normalize_eq_nil hempty
  unfold cutLeft at hgone
  split at hgone
  · next hcr =>
    obtain ⟨rest, rfl⟩ := head?_eq_some_iff.mp hcr.2
    rw [show normalize ('\n' :: rest) = '\n' :: normalize rest from
      Str.replacePair_cons_of_ne (by decide)]
    exact ⟨normalize rest ++ ['\n'], rfl⟩
  · exact absurd hgone htext

def crlfs (n : ℕ) : List Char := (List.replicate n crlf).flatten

theorem eq_of_splitPair {text piece : List Char} {n : ℕ}
    (h : Str.splitPair '\r' '\n' text = piece :: List.replicate n []) :
    text = piece ++ crlfs n := by
  rw [← Str.intercalate_splitPair (a := '\r') (b := '\n') text, h]
  clear h
  induction n generalizing piece with
  | zero => simp [crlfs]
  | succ n ih =>
    rw [replicate_succ, intercalate_cons_cons, ih, append_assoc]
    rfl

theorem normalize_crlfs (n : ℕ) (rest : List Char) :
    normalize (crlfs n ++ rest) = List.replicate n '\n' ++ normalize rest := by
  induction n with
  | zero => rfl
  | succ n ih =>
    have hone := normalize_crlf [] (crlfs n ++ rest)
    rw [ih] at hone
    exact hone

/-- The line ends of a chunk, as line feeds. -/
theorem normalize_append_crlfs (front : List Char) (n : ℕ) (rest : List Char) :
    normalize (front ++ crlfs (n + 1) ++ rest) =
      normalize front ++ '\n' :: (List.replicate n '\n' ++ normalize rest) := by
  rw [← normalize_crlfs, ← normalize_crlf, append_assoc]
  rfl

theorem Broken.getLast?_append {kept piece : List Char} (h : Broken kept)
    (hpiece : piece.getLast? ≠ some '\r') : (kept ++ piece).getLast? ≠ some '\r' := by
  by_cases hempty : piece = []
  · simpa [hempty] using h.getLast?
  · rwa [getLast?_append_of_ne_nil _ hempty]

theorem Broken.append {kept piece : List Char} (h : Broken kept)
    (hpiece : ['\n'] <:+ '\n' :: piece) : Broken (kept ++ piece) := by
  obtain rfl | ⟨piece, c, rfl⟩ := eq_nil_or_concat' piece
  · simpa using h
  · rw [← cons_append] at hpiece
    rw [suffix_concat hpiece]
    exact .inr ⟨kept ++ piece, by simp⟩

/-- The part of a text before its first CR LF. -/
def firstLine (text : List Char) : List Char := (Str.splitPair '\r' '\n' text).headD []

theorem Fits.firstLine {left text right : List Char} (h : Fits left text right) :
    ∃ n, Str.splitPair '\r' '\n' text = Sse.firstLine text :: List.replicate n [] := by
  unfold Sse.firstLine
  cases h with
  | last piece n hsplit => exact ⟨n, by rw [hsplit]; rfl⟩
  | line piece hsplit => exact ⟨1, by rw [hsplit]; rfl⟩
  | lines piece n hsplit => exact ⟨n + 2, by rw [hsplit]; rfl⟩
  | cut hsplit => exact ⟨0, by rw [hsplit]; rfl⟩

theorem Harmless.firstLine {left : List Char} {texts : List (List Char)} (h : Harmless left texts) :
    ∀ text ∈ texts, ∃ n, Str.splitPair '\r' '\n' text =
      Sse.firstLine text :: List.replicate n [] := by
  induction texts generalizing left with
  | nil => simp
  | cons text texts ih => exact forall_mem_cons.mpr ⟨h.1.firstLine, ih h.2⟩

theorem mem_of_mem_normalize {cs : List Char} (hc : c ≠ '\n') (h : c ∈ normalize cs) : c ∈ cs := by
  unfold normalize at h
  fun_induction Str.replacePair '\r' '\n' '\n' cs with
  | case1 => cases h
  | case2 => exact h
  | case3 d e cs hpair ih =>
    obtain rfl | h := mem_cons.mp h
    · exact absurd rfl hc
    · exact mem_cons_of_mem _ (mem_cons_of_mem _ (ih h))
  | case4 d e cs hpair ih =>
    obtain rfl | h := mem_cons.mp h
    · exact mem_cons_self
    · exact mem_cons_of_mem _ (ih h)

theorem mem_intercalate {sep part : List Char} {parts : List (List Char)} (hpart : part ∈ parts)
    (hc : c ∈ part) : c ∈ sep.intercalate parts := by
  induction parts with
  | nil => cases hpart
  | cons first parts ih =>
    cases parts with
    | nil =>
      rw [mem_singleton.mp hpart] at hc
      simpa using hc
    | cons next parts =>
      rw [intercalate_cons_cons, mem_append, mem_append]
      obtain rfl | hrest := mem_cons.mp hpart
      · exact .inl (.inl hc)
      · exact .inr (ih hrest)

theorem TransferChunk.chars_ne_nil : chunk.chars ≠ [] := by
  obtain ⟨b, rest, hdata⟩ := exists_cons_of_ne_nil chunk.nonempty
  rw [TransferChunk.chars, hdata]
  exact cons_ne_nil _ _

theorem notMem_crlfs (hc : c ∉ crlf) (n : ℕ) : c ∉ crlfs n := by
  intro hmem
  obtain ⟨part, hpart, hc'⟩ := mem_flatten.mp hmem
  rw [eq_of_mem_replicate hpart] at hc'
  exact hc hc'

/-- When nothing with a colon is kept of the chunks, the encoded body has no colon. -/
theorem notMem_text (hlines : ∀ chunk ∈ coded.chunks, ∃ n, Str.splitPair '\r' '\n' chunk.chars =
      firstLine chunk.chars :: List.replicate n [])
    (h : ∀ chunk ∈ coded.chunks, ':' ∉ firstLine chunk.chars) : ':' ∉ coded.text.toList := by
  have hcrlf : ':' ∉ crlf := by decide
  rw [toList_text, mem_append, not_or]
  constructor
  · intro hmem
    obtain ⟨chunk, hchunk, hmem⟩ := mem_flatMap.mp hmem
    have hsize : ':' ∉ chunk.size.toList := fun hsize => absurd (chunk.digits _ hsize) (by decide)
    have hchars : ':' ∉ chunk.chars := by
      obtain ⟨n, hn⟩ := hlines chunk hchunk
      rw [eq_of_splitPair hn, mem_append, not_or]
      exact ⟨h chunk hchunk, notMem_crlfs hcrlf n⟩
    simp [hsize, hchars, hcrlf] at hmem
  · unfold ChunkedBody.lastChars
    split
    · exact not_mem_nil
    · simp [hcrlf]

section

variable {α : Type*} {read : List Char → α}

section

variable (hread : IgnoresBlanks read)
include hread

/-- A further blank line beside a blank line. -/
theorem IgnoresBlanks.touches {left right : List Char}
    (h : Touches left right) :
    read (left ++ '\n' :: right) = read (left ++ right) := by
  have hframe cs : read cs = read ('\n' :: (cs ++ ['\n'])) := by
    rw [hread.start, hread.stop]
  rw [hframe, hframe (left ++ right)]
  obtain ⟨front, hfront⟩ | ⟨back, hback⟩ | ⟨⟨front, hfront⟩, back, hback⟩ := h
  · have hmore := congrArg (· ++ '\n' :: (right ++ ['\n'])) hfront
    have hless := congrArg (· ++ (right ++ ['\n'])) hfront
    have hdouble := hread.double front (right ++ ['\n'])
    simp only [append_assoc, cons_append, nil_append] at hmore hless hdouble ⊢
    rw [← hmore, ← hless, hdouble]
  · have hdouble := hread.double ('\n' :: left) back
    simp only [append_assoc, cons_append, nil_append] at hback hdouble ⊢
    rw [← hback, hdouble]
  · have hmore := congrArg (· ++ '\n' :: (right ++ ['\n'])) hfront
    have hless := congrArg (· ++ (right ++ ['\n'])) hfront
    have hdouble := hread.double front back
    simp only [append_assoc, cons_append, nil_append] at hmore hless hback hdouble ⊢
    rw [← hmore, ← hless, ← hback, hdouble]

/-- Several line breaks beside another one. -/
theorem IgnoresBlanks.breaks (n : ℕ) {left right : List Char}
    (h : ['\n'] <:+ '\n' :: left ∨ ['\n'] <+: right) :
    read (left ++ '\n' :: (List.replicate n '\n' ++ right)) = read (left ++ '\n' :: right) := by
  induction n with
  | zero => rfl
  | succ n ih =>
    rw [← ih, replicate_succ]
    refine hread.touches ?_
    obtain hleft | ⟨back, rfl⟩ := h
    · exact .inr (.inr ⟨hleft, List.replicate n '\n' ++ right ++ ['\n'], by simp⟩)
    · refine .inr (.inl ?_)
      cases n with
      | zero => exact ⟨back ++ ['\n'], by simp⟩
      | succ n =>
        exact ⟨List.replicate n '\n' ++ '\n' :: (back ++ ['\n']), by simp [replicate_succ]⟩

/-- One chunk: putting a line feed for the line ends of the chunk changes no event. -/
theorem IgnoresBlanks.fits {kept left text right piece : List Char}
    {n : ℕ} (hkept : Broken kept) (htext : text ≠ []) (hright : right ≠ [])
    (hfits : Fits left text right)
    (hpiece : Str.splitPair '\r' '\n' text = piece :: List.replicate n []) :
    read (normalize (kept ++ piece ++ '\n' :: right)) =
      read (normalize (kept ++ text ++ right)) := by
  cases hfits with
  | last _ _ _ hlast => exact absurd hlast hright
  | cut hcut hcr htouches =>
    obtain rfl := (cons.inj (hcut.symm.trans hpiece)).1
    have hlast : (kept ++ text).getLast? = some '\r' → right.head? = some '\n' := by
      rwa [getLast?_append_of_ne_nil _ htext]
    rw [normalize_break _ _ hlast, normalize_append]
    exact hread.touches (touches_kept hkept htext htouches)
  | line piece' hline hcr =>
    obtain ⟨rfl, hn⟩ := cons.inj (hline.symm.trans hpiece)
    obtain rfl : n = 1 := by simpa using (congrArg List.length hn).symm
    rw [normalize_lf _ _ (hkept.getLast?_append hcr), eq_of_splitPair hpiece, ← append_assoc,
      normalize_append_crlfs]
    rfl
  | lines piece' m hlines hcr hends =>
    obtain ⟨rfl, hn⟩ := cons.inj (hlines.symm.trans hpiece)
    obtain rfl : n = m + 2 := by simpa using (congrArg List.length hn).symm
    rw [normalize_lf _ _ (hkept.getLast?_append hcr), eq_of_splitPair hpiece, ← append_assoc,
      normalize_append_crlfs]
    refine (hread.breaks (m + 1) (hends.imp_left fun hpiece => ?_)).symm
    exact (hkept.append hpiece).normalize.suffix

theorem IgnoresBlanks.stops (n : ℕ) (cs : List Char) :
    read (cs ++ List.replicate n '\n') = read cs := by
  induction n generalizing cs with
  | zero => simp
  | succ n ih =>
    rw [replicate_succ', ← append_assoc, hread.stop, ih]

/-- Of the last chunk its line ends are dropped. -/
theorem IgnoresBlanks.last (kept : List Char)
    {text piece : List Char} {n : ℕ}
    (hpiece : Str.splitPair '\r' '\n' text = piece :: List.replicate n []) :
    read (normalize (kept ++ piece)) = read (normalize (kept ++ text)) := by
  rw [eq_of_splitPair hpiece]
  cases n with
  | zero => simp [crlfs]
  | succ n =>
    have hbreaks := normalize_append_crlfs (kept ++ piece) n []
    rw [append_nil, append_assoc] at hbreaks
    rw [hbreaks]
    have hstops := hread.stops (n + 1) (normalize (kept ++ piece))
    simpa [replicate_succ, normalize, Str.replacePair] using hstops.symm

/-- All chunks: what is kept of them has the events of what they hold. -/
theorem IgnoresBlanks.kept {kept left : List Char}
    {texts : List (List Char)} (hkept : Broken kept) (hne : ∀ text ∈ texts, text ≠ [])
    (hharmless : Harmless left texts) :
    read (normalize (kept ++ ['\n'].intercalate (texts.map firstLine))) =
      read (normalize (kept ++ texts.flatten)) := by
  induction texts generalizing kept left with
  | nil => rfl
  | cons text texts ih =>
    obtain ⟨hfits, hrest⟩ := hharmless
    obtain ⟨n, hpiece⟩ := hfits.firstLine
    rw [forall_mem_cons] at hne
    cases texts with
    | nil => simpa using hread.last kept hpiece
    | cons next texts =>
      have hright : (next :: texts).flatten ≠ [] := by
        simpa using fun hnext => absurd hnext (hne.2 next mem_cons_self)
      have hbroken : Broken (kept ++ firstLine text ++ ['\n']) := .inr (suffix_append _ _)
      have hlater := ih hbroken hne.2 hrest
      have hone := hread.fits hkept hne.1 hright hfits hpiece
      rw [map_cons, map_cons, intercalate_cons_cons, ← map_cons]
      simp only [append_assoc, cons_append, nil_append, flatten_cons]
        at hlater hone ⊢
      rw [hlater, hone]

end

end

section

variable [External]

/-- **Chunks that end where they may** leave the events of the body as they are. -/
theorem ChunkedBody.Sound.sameEvents (h : coded.Sound) : coded.SameEvents := by
  have hpiece : ∀ chunk ∈ coded.chunks, ∃ n, Str.splitPair '\r' '\n' chunk.chars =
      firstLine chunk.chars :: List.replicate n [] := fun chunk hchunk =>
    h.harmless.firstLine chunk.chars (mem_map_of_mem hchunk)
  have hlines : ∀ chunk ∈ coded.chunks, Str.splitPair '\r' '\n' chunk.chars =
      firstLine chunk.chars ::
        List.replicate ((Str.splitPair '\r' '\n' chunk.chars).length - 1) [] := by
    intro chunk hchunk
    obtain ⟨n, hn⟩ := hpiece chunk hchunk
    rw [hn]
    simp
  have hclean := cleanChunkedContent_text h.small hlines
  have hkept := ignoresBlanks_readText.kept (.inl rfl) (by simp [TransferChunk.chars_ne_nil])
    h.harmless
  have hbody : (coded.chunks.map TransferChunk.chars).flatten = coded.body.toList := by
    rw [← h.characters, flatMap_def]
  have hread : readText (normalize (cleanChunkedContent coded.text).toList) =
      readText (normalize coded.body.toList) := by
    rw [hclean, ← hbody]
    simpa [Function.comp_def] using hkept
  rw [ChunkedBody.SameEvents, parseSseEvents]
  split
  · -- Nothing is kept: there is no field to be read in either text.
    next hblank =>
    have hcolon : ':' ∉ (cleanChunkedContent coded.text).toList := by
      intro hmem
      have htrim := Str.mem_trim hmem (by decide)
      rw [String.isEmpty_iff.mp hblank] at htrim
      exact not_mem_nil htrim
    have hfirst : ∀ chunk ∈ coded.chunks, ':' ∉ firstLine chunk.chars := by
      intro chunk hchunk hmem
      rw [hclean, String.toList_intercalate] at hcolon
      have hpart : firstLine chunk.chars ∈ (coded.chunks.map fun chunk =>
          String.ofList (firstLine chunk.chars)).map String.toList := by
        simp only [map_map, mem_map]
        exact ⟨chunk, hchunk, by simp⟩
      exact hcolon (mem_intercalate hpart hmem)
    have hnone {cs : List Char} (hcs : ':' ∉ cs) : readText (normalize cs) = [] :=
      readText_of_notMem fun hmem => hcs (mem_of_mem_normalize (by decide) hmem)
    have htext := hnone (notMem_text hpiece hfirst)
    rw [hnone hcolon] at hread
    rw [parse_eq_readStream, parse_eq_readStream]
    exact htext.trans hread
  · rw [parse_eq_readStream, parse_eq_readStream]
    exact hread

end

end AgentSight.Sse
