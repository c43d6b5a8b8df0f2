import AgentSight.Session.Transcript

/-!
# Segments of shell commands

`shell_segments` reads the words of a shell command segment by segment, after
`strip_heredoc_bodies` has gone through its lines. Rendering words by quoting and reading them back
gives the words as long as none has a backslash, which `shell_segments` takes for an escape inside
of quotes too, and the lines before the bodies have no other marks of heredocs.
-/

namespace AgentSight.Session.Shell

open Str (isWhitespace splitChars)
open List

/-! ### Heredocs -/

/-- `u8::is_ascii_whitespace`. -/
def isAsciiWhitespace (c : Char) : Bool :=
  c = ' ' || c = '\t' || c = '\n' || c = '\x0c' || c = '\r'

/-- Where the delimiter of a heredoc ends, given its opening quote. -/
def endsDelimiter (quote : Option Char) (value : Char) : Bool :=
  match quote with
  | some quote => value = quote
  | none => isAsciiWhitespace value || value ∈ [';', '|', '&', '>', '<']

/-- The text after `<<`, from the delimiter on, and the quote that has been before. -/
def delimiterStart (text : List Char) : Option Char × List Char :=
  let text := (if text.head? = some '-' then text.tail else text).dropWhile isAsciiWhitespace
  let quote := text.head?.filter fun value => value = '\'' || value = '"'
  (quote, if quote.isSome then text.tail else text)

theorem length_delimiterStart_le (text : List Char) :
    (delimiterStart text).2.length ≤ text.length := by
  have htail (text : List Char) : text.tail.length ≤ text.length := by simp
  have hdrop (text : List Char) : (text.dropWhile isAsciiWhitespace).length ≤ text.length :=
    (dropWhile_suffix _).length_le
  simp only [delimiterStart]
  split_ifs <;> grind

/-- The delimiters of the heredocs that a line has marks of. -/
def delimiters (line : List Char) : List (List Char) :=
  match line with
  | '<' :: '<' :: '<' :: rest => delimiters rest
  | '<' :: '<' :: rest =>
    let start := delimiterStart rest
    let delimiter := start.2.takeWhile (! endsDelimiter start.1 ·)
    (if delimiter = [] then [] else [delimiter]) ++ delimiters (start.2.drop delimiter.length)
  | _ :: rest => delimiters rest
  | [] => []
termination_by line.length
decreasing_by
  · simp only [length_cons]
    omega
  · have hle := length_delimiterStart_le rest
    simp only [length_drop, length_cons]
    omega
  · simp

/-- What is compared with a delimiter. -/
def trimLine (line : List Char) : List Char :=
  ((line.dropWhile (· = '\t')).reverse.dropWhile isWhitespace).reverse

/-- One line: the heredocs that have not ended, and the lines that stay. -/
def stripLine (state : List (List Char) × List (List Char)) (line : List Char) :
    List (List Char) × List (List Char) :=
  match state with
  | (delimiter :: pending, output) =>
    (if trimLine line = delimiter then pending else delimiter :: pending, output)
  | ([], output) => (delimiters line, output ++ [line])

def stripHeredocBodies (command : List Char) : List Char :=
  ['\n'].intercalate ((lines command).foldl stripLine ([], [])).2

/-! ### Words -/

structure Scan where
  segments : List (List (List Char)) := []
  tokens : List (List Char) := []
  current : List Char := []
  quote : Option Char := none
  escaped : Bool := false
  deriving DecidableEq

namespace Scan

def flushWord (s : Scan) : Scan :=
  if s.current = [] then s else { s with tokens := s.tokens ++ [s.current], current := [] }

def flushSegment (s : Scan) : Scan :=
  if s.tokens = [] then s else { s with segments := s.segments ++ [s.tokens], tokens := [] }

def push (s : Scan) (ch : Char) : Scan := { s with current := s.current ++ [ch] }

def pushEscaped (s : Scan) (ch : Char) : Scan := { s.push ch with escaped := false }

def operator (s : Scan) (token : List Char) : Scan :=
  { s.flushWord with tokens := s.flushWord.tokens ++ [token] }

end Scan

/-- The characters of a command one by one. -/
def scan (s : Scan) (text : List Char) : Scan :=
  match text with
  | [] => s
  | ch :: chars =>
    if s.escaped then scan (s.pushEscaped ch) chars
    else if ch = '\\' then scan { s with escaped := true } chars
    else if s.quote = some ch then scan { s with quote := none } chars
    else if s.quote.isSome then scan (s.push ch) chars
    else if ch = '\'' || ch = '"' then scan { s with quote := some ch } chars
    else if ch = '#' && s.current = [] then
      let rest := chars.dropWhile (· ≠ '\n')
      if rest = [] then s else scan s.flushSegment rest.tail
    else if isWhitespace ch then
      scan (if ch = '\n' then s.flushWord.flushSegment else s.flushWord) chars
    else if ch = '&' && chars.head? = some '>' then
      if chars.tail.head? = some '>' then scan (s.operator ['&', '>', '>']) chars.tail.tail
      else scan (s.operator ['&', '>']) chars.tail
    else if ch = ';' || ch = '|' || ch = '(' || ch = ')' || ch = '&' then
      scan s.flushWord.flushSegment
        (if (ch = '|' || ch = '&') && chars.head? = some ch then chars.tail else chars)
    else if ch = '>' || ch = '<' then
      let more := (chars.takeWhile (· = ch)).take 2
      scan (s.operator (ch :: more)) (chars.drop more.length)
    else scan (s.push ch) chars
termination_by text.length
decreasing_by all_goals
    have hcomment := (dropWhile_suffix (l := chars) (fun c => decide (c ≠ '\n'))).length_le
    grind

def shellSegments (command : List Char) : List (List (List Char)) :=
  (scan {} (stripHeredocBodies command)).flushWord.flushSegment.segments

/-! ### Quoting -/

/-- A word in single quotes, where a single quote is `'\''`. -/
def quoteChar (c : Char) : List Char := if c = '\'' then ['\'', '\\', '\'', '\''] else [c]

def quoteWord (word : List Char) : List Char := '\'' :: (word.flatMap quoteChar ++ ['\''])

/-- A character that needs no quotes. -/
def isPlain (c : Char) : Bool := c.isAlphanum || c = '_'

/-- A heredoc, whose body ends at the first line that is the delimiter. -/
structure Heredoc where
  delimiter : List Char
  body : List (List Char)
  quoted : Bool
  delimiter_ne : delimiter ≠ []
  delimiter_line : '\n' ∉ delimiter
  body_line : ∀ line ∈ body, '\n' ∉ line ∧ line ≠ delimiter
  plain : quoted = false → ∀ c ∈ delimiter, isPlain c = true

/-- A part of a simple command. -/
inductive Part where
  | word (word : List Char) (word_ne : word ≠ [])
  | heredoc (heredoc : Heredoc)

namespace Part

/-- What a part says, without its quotes. -/
def content : Part → List Char
  | word w _ => w
  | heredoc h => h.delimiter

def text : Part → List Char
  | word w _ => quoteWord w
  | heredoc h => ['<', '<'] ++ if h.quoted then quoteWord h.delimiter else h.delimiter

/-- The words that are read of a part. -/
def words (part : Part) : List (List Char) :=
  match part with
  | word w _ => [w]
  | heredoc h => [['<', '<'], h.delimiter]

def heredoc? : Part → Option Heredoc
  | word _ _ => none
  | heredoc h => some h

end Part

structure Command where
  parts : List Part
  parts_ne : parts ≠ []

namespace Command

def text (command : Command) : List Char := [' '].intercalate (command.parts.map Part.text)

def words (command : Command) : List (List Char) := command.parts.flatMap Part.words

end Command

/-- What joins two commands in a line. -/
inductive Joint where
  | semicolon
  | and
  | pipe
  deriving DecidableEq

def Joint.text : Joint → List Char
  | semicolon => [';']
  | and => ['&', '&']
  | pipe => ['|']

/-- Commands up to a newline. The bodies of their heredocs come after it. -/
structure Line where
  first : Command
  rest : List (Joint × Command)

namespace Line

def commands (line : Line) : List Command := line.first :: line.rest.map Prod.snd

def text (line : Line) : List Char :=
  line.first.text ++ line.rest.flatMap fun (joint, command) => joint.text ++ command.text

def heredocs (line : Line) : List Heredoc :=
  line.commands.flatMap fun command => command.parts.filterMap Part.heredoc?

def bodyLines (line : Line) : List (List Char) :=
  line.heredocs.flatMap fun heredoc => heredoc.body ++ [heredoc.delimiter]

def segments (line : Line) : List (List (List Char)) := line.commands.map Command.words

end Line

/-- The text of commands, joined by newlines where their lines end. -/
def scriptText (script : List Line) : List Char :=
  ['\n'].intercalate (script.flatMap fun line => line.text :: line.bodyLines)

def scriptSegments (script : List Line) : List (List (List Char)) := script.flatMap Line.segments

/-! ### Reading words -/

namespace Scan

/-- Neither in quotes nor after a backslash. -/
def IsOpen (s : Scan) : Prop := s.quote = none ∧ s.escaped = false

end Scan

variable {s : Scan} {c : Char} {word rest : List Char}

theorem scan_escaped (hs : s.escaped = true) :
    scan s (c :: rest) = scan (s.pushEscaped c) rest := by
  rw [scan, if_pos hs]

theorem scan_backslash (hs : s.escaped = false) :
    scan s ('\\' :: rest) = scan { s with escaped := true } rest := by
  rw [scan]
  simp [hs]

theorem scan_close (hs : s.escaped = false) (hquote : s.quote = some '\'') :
    scan s ('\'' :: rest) = scan { s with quote := none } rest := by
  rw [scan]
  simp [hs, hquote]

theorem scan_quoted (hs : s.escaped = false) (hquote : s.quote = some '\'') (hc : c ≠ '\\')
    (hc' : c ≠ '\'') : scan s (c :: rest) = scan (s.push c) rest := by
  rw [scan]
  simp [hs, hquote, hc, hc'.symm]

section

variable (hs : s.IsOpen)
include hs

theorem scan_open :
    scan s ('\'' :: rest) = scan { s with quote := some '\'' } rest := by
  rw [scan]
  simp [hs.1, hs.2]

theorem scan_plain (hc : isPlain c = true) :
    scan s (c :: rest) = scan (s.push c) rest := by
  have hblank : isWhitespace c = false := by
    rw [isPlain, Bool.or_eq_true] at hc
    rcases hc with hc | hc
    · exact Str.isWhitespace_of_isAlphanum hc
    · rw [of_decide_eq_true hc]
      decide
  have hspecial : c ∉ ['\\', '\'', '"', '#', '&', ';', '|', '(', ')', '>', '<'] := by
    have hnone : ∀ d ∈ ['\\', '\'', '"', '#', '&', ';', '|', '(', ')', '>', '<'],
        isPlain d = false := by decide
    intro hmem
    rw [hnone c hmem] at hc
    cases hc
  rw [scan]
  simp only [mem_cons, not_mem_nil, not_or] at hspecial
  simp [hs.1, hs.2, hspecial, hblank]

theorem scan_blank : scan s (' ' :: rest) = scan s.flushWord rest := by
  rw [scan]
  simp [hs.1, hs.2, isWhitespace]

theorem scan_newline :
    scan s ('\n' :: rest) = scan s.flushWord.flushSegment rest := by
  rw [scan]
  simp [hs.1, hs.2, isWhitespace]

theorem scan_joint (joint : Joint) (hrest : rest.head? ≠ some '|') :
    scan s (joint.text ++ rest) = scan s.flushWord.flushSegment rest := by
  cases joint with
  | semicolon =>
    rw [Joint.text, singleton_append, scan]
    simp [hs.1, hs.2, isWhitespace]
  | and =>
    rw [Joint.text, cons_append, scan]
    simp [hs.1, hs.2, isWhitespace]
  | pipe =>
    rw [Joint.text, singleton_append, scan]
    simp [hs.1, hs.2, isWhitespace, hrest]

theorem scan_mark (hrest : rest.head? ≠ some '<') :
    scan s ('<' :: '<' :: rest) = scan (s.operator ['<', '<']) rest := by
  have hmore : rest.takeWhile (· = '<') = [] := by
    cases rest with
    | nil => rfl
    | cons c rest =>
      have hc : c ≠ '<' := by simpa using hrest
      simp [hc]
  rw [scan]
  simp [hs.1, hs.2, isWhitespace, hmore]

end

theorem scan_quoteChars (hs : s.escaped = false) (hquote : s.quote = some '\'') (h : '\\' ∉ word) :
    scan s (word.flatMap quoteChar ++ rest) =
      scan { s with current := s.current ++ word } rest := by
  induction word generalizing s with
  | nil => simp
  | cons c word ih =>
    rw [mem_cons, not_or] at h
    rw [flatMap_cons, append_assoc, quoteChar]
    split_ifs with hc
    · -- The quote is closed, and opened again after an escaped one.
      subst hc
      simp only [cons_append, nil_append]
      rw [scan_close hs hquote, scan_backslash (s := { s with quote := none }) hs,
        scan_escaped rfl, scan_open ⟨rfl, rfl⟩, ih rfl rfl h.2]
      simp [Scan.pushEscaped, Scan.push, hs, hquote]
    · rw [singleton_append, scan_quoted hs hquote (Ne.symm h.1) hc,
        ih (s := s.push c) hs hquote h.2]
      simp [Scan.push]

/-- A word is read as the word it quotes. -/
theorem scan_quoteWord (hs : s.IsOpen) (h : '\\' ∉ word) :
    scan s (quoteWord word ++ rest) = scan { s with current := s.current ++ word } rest := by
  have hopen : { s with quote := some '\'' }.escaped = false := hs.2
  rw [quoteWord, cons_append, scan_open hs, append_assoc, singleton_append,
    scan_quoteChars hopen rfl h, scan_close ?_ rfl]
  · simp [hs.1]
  · exact hs.2

theorem scan_plainChars (hs : s.IsOpen) (h : ∀ c ∈ word, isPlain c = true) :
    scan s (word ++ rest) = scan { s with current := s.current ++ word } rest := by
  induction word generalizing s with
  | nil => simp
  | cons c word ih =>
    rw [forall_mem_cons] at h
    rw [cons_append, scan_plain hs h.1, ih (s := s.push c) hs h.2]
    simp [Scan.push]

variable {words : List (List Char)}

/-! ### Misreading words -/

namespace Scan

/-- The words that are complete. -/
def flat (s : Scan) : List (List Char) := s.segments.flatten ++ s.tokens

@[simp] theorem flat_flushSegment (s : Scan) : s.flushSegment.flat = s.flat := by
  rw [flushSegment]
  split_ifs <;> simp [flat]

/-- The words begin with those that are complete and go on with the current one. -/
def IsPrefix (s : Scan) (words : List (List Char)) : Prop :=
  s.flat <+: words ∧ (s.current ≠ [] → ∃ tail more, words = s.flat ++ (s.current ++ tail) :: more)

theorem IsPrefix.of_push (h : (s.push c).IsPrefix words) : s.IsPrefix words := by
  obtain ⟨tail, more, rfl⟩ := h.2 (by simp [push])
  exact ⟨⟨_, rfl⟩, fun _ => ⟨c :: tail, more, by simp [push, flat]⟩⟩

theorem IsPrefix.of_flushWord (h : s.flushWord.flat <+: words) : s.IsPrefix words := by
  rw [flushWord] at h
  split_ifs at h with hcurrent
  · exact ⟨h, fun hne => absurd hcurrent hne⟩
  · obtain ⟨more, rfl⟩ := h
    exact ⟨⟨s.current :: more, by simp [flat]⟩, fun _ => ⟨[], more, by simp [flat]⟩⟩

theorem IsPrefix.of_operator {token : List Char}
    (h : (s.operator token).flat <+: words) : s.IsPrefix words := by
  refine .of_flushWord (.trans ⟨[token], ?_⟩ h)
  simp [operator, flat]

end Scan

/-- The words of all segments. -/
def wordsRead (s : Scan) (text : List Char) : List (List Char) :=
  (scan s text).flushWord.flushSegment.segments.flatten

theorem wordsRead_nil (s : Scan) : wordsRead s [] = s.flushWord.flat := by
  rw [wordsRead, scan, Scan.flushSegment]
  split_ifs with htokens <;> simp [Scan.flat, htokens]

theorem isPrefix_wordsRead (s : Scan) (text : List Char) : s.IsPrefix (wordsRead s text) := by
  have hend (s : Scan) : s.IsPrefix s.flushWord.flushSegment.segments.flatten := by
    have hnil := wordsRead_nil s
    rw [wordsRead, scan] at hnil
    rw [hnil]
    exact .of_flushWord prefix_rfl
  have hsegment {s : Scan} {words : List (List Char)} (h : s.flushSegment.IsPrefix words) :
      s.IsPrefix words := by
    rw [Scan.IsPrefix, Scan.flat_flushSegment] at h
    rw [Scan.flushSegment] at h
    split_ifs at h <;> exact h
  rw [wordsRead]
  fun_induction scan s text with
  | case1 s => exact hend s
  | case2 s ch chars hs ih => exact .of_push ih
  | case3 s chars hs ih => exact ih
  | case4 s ch chars hs hc hquote ih => exact ih
  | case5 s ch chars hs hc hclose hquote ih => exact .of_push ih
  | case6 s ch chars hs hc hclose hquote hopen ih => exact ih
  | case7 s ch chars hs hc hclose hquote hopen hcomment rest hrest => exact hend s
  | case8 s ch chars hs hc hclose hquote hopen hcomment rest hrest ih => exact hsegment ih
  | case9 s ch chars hs hc hclose hquote hopen hcomment hblank ih =>
    have hflat : (if ch = '\n' then s.flushWord.flushSegment else s.flushWord).flat =
        s.flushWord.flat := by split_ifs <;> simp
    exact .of_flushWord (hflat ▸ ih.1)
  | case10 s ch chars hs hc hclose hquote hopen hcomment hblank hamp happend ih =>
    exact .of_operator ih.1
  | case11 s ch chars hs hc hclose hquote hopen hcomment hblank hamp happend ih =>
    exact .of_operator ih.1
  | case12 s ch chars hs hc hclose hquote hopen hcomment hblank hamp hjoint ih =>
    exact .of_flushWord (s.flushWord.flat_flushSegment ▸ ih.1)
  | case13 s ch chars hs hc hclose hquote hopen hcomment hblank hamp hjoint hmark more ih =>
    exact .of_operator ih.1
  | case14 s ch chars hs hc hclose hquote hopen hcomment hblank hamp hjoint hmark ih =>
    exact .of_push ih

/-- A text that ends the word before it. -/
inductive EndsWord : List Char → Prop
  | nil : EndsWord []
  | blank (rest : List Char) : EndsWord (' ' :: rest)
  | newline (rest : List Char) : EndsWord ('\n' :: rest)
  | joint (joint : Joint) {rest : List Char} (h : rest.head? ≠ some '|') :
      EndsWord (joint.text ++ rest)

theorem EndsWord.flat_flushWord_wordsRead (h : EndsWord rest) (hs : s.IsOpen) :
    s.flushWord.flat <+: wordsRead s rest := by
  cases h with
  | nil => rw [wordsRead_nil]
  | blank rest =>
    rw [wordsRead, scan_blank hs]
    exact (isPrefix_wordsRead s.flushWord rest).1
  | newline rest =>
    rw [wordsRead, scan_newline hs, ← Scan.flat_flushSegment]
    exact (isPrefix_wordsRead s.flushWord.flushSegment rest).1
  | joint joint h =>
    rw [wordsRead, scan_joint hs joint h, ← Scan.flat_flushSegment]
    exact (isPrefix_wordsRead s.flushWord.flushSegment _).1

variable {text text' : List Char}

/-- The word that is read next begins with what is read of it already. -/
theorem prefix_of_wordsRead {x : List Char} {more : List (List Char)}
    (hcurrent : s.current ≠ []) (h : wordsRead s text = s.flat ++ x :: more) : s.current <+: x := by
  obtain ⟨tail, more', hwords⟩ := (isPrefix_wordsRead s text).2 hcurrent
  rw [hwords, append_cancel_left_eq, cons.injEq] at h
  exact ⟨tail, h.1⟩

/-- Another character than the one of the word is read. -/
theorem wordsRead_ne_of_push (s' : Scan) {c d : Char} {tail : List Char} (hc : c ≠ d)
    (hcurrent : s'.current = s.current ++ [c]) (hflat : s'.flat = s.flat)
    (hscan : scan s text = scan s' text') (more : List (List Char)) :
    wordsRead s text ≠ s.flat ++ (s.current ++ d :: tail) :: more := by
  intro hread
  rw [wordsRead, hscan, ← hflat] at hread
  have hprefix := prefix_of_wordsRead (by simp [hcurrent]) hread
  rw [hcurrent, prefix_append_right_inj] at hprefix
  exact hc (cons_prefix_cons.mp hprefix).1

theorem scan_quoteChar (hs : s.escaped = false) (hquote : s.quote = some '\'') (hc : c ≠ '\\') :
    scan s (quoteChar c ++ rest) = scan (s.push c) rest := by
  have hscan : scan s ([c].flatMap quoteChar ++ rest) = _ :=
    scan_quoteChars hs hquote (by simpa using hc.symm)
  simpa [Scan.push] using hscan

theorem exists_scan_escaped (hs : s.escaped = false) (c : Char) (hc : c ≠ '\\') (rest : List Char) :
    ∃ d text, d ≠ '\\' ∧ scan s ('\\' :: (quoteChar c ++ rest)) = scan (s.pushEscaped d) text := by
  rw [quoteChar]
  split_ifs
  · exact ⟨'\'', _, by decide, (scan_backslash hs).trans (scan_escaped rfl)⟩
  · exact ⟨c, rest, hc, (scan_backslash hs).trans (scan_escaped rfl)⟩

/-- Once a backslash has been skipped, the rest of the word does not make up for it. The induction
is on the word: two backslashes are read as one, so that one more is missing after them. -/
theorem wordsRead_ne_of_skipped (word : List Char) (hs : s.escaped = false)
    (hquote : s.quote = some '\'') (hrest : EndsWord rest) {n : ℕ}
    (hcurrent : word = [] → s.current ≠ [])
    {tail : List Char} (hbackslash : List.replicate n '\\' ++ word = '\\' :: tail)
    (more : List (List Char)) :
    wordsRead s (word.flatMap quoteChar ++ '\'' :: rest) ≠
      s.flat ++ (s.current ++ (List.replicate n '\\' ++ word)) :: more := by
  induction word using List.twoStepInduction generalizing s n tail with
  | nil =>
    rw [hbackslash]
    intro hread
    rw [flatMap_nil, nil_append, wordsRead, scan_close hs hquote] at hread
    have hopen : { s with quote := none }.IsOpen := ⟨rfl, hs⟩
    obtain ⟨more', hmore⟩ := hrest.flat_flushWord_wordsRead hopen
    rw [wordsRead, hread, Scan.flushWord, if_neg (hcurrent rfl)] at hmore
    simp [Scan.flat] at hmore
  | singleton c =>
    rw [hbackslash, flatMap_singleton]
    by_cases hc : c = '\\'
    · subst hc
      have hscan : scan s (quoteChar '\\' ++ '\'' :: rest) = scan (s.pushEscaped '\'') rest :=
        (scan_backslash hs).trans (scan_escaped rfl)
      exact wordsRead_ne_of_push (s.pushEscaped '\'') (by decide) rfl rfl hscan more
    · exact wordsRead_ne_of_push (s.push c) hc rfl rfl (scan_quoteChar hs hquote hc) more
  | cons_cons c d word ih ih' =>
    by_cases hc : c = '\\'
    · subst hc
      by_cases hd : d = '\\'
      · subst hd
        have hscan : scan s (('\\' :: '\\' :: word).flatMap quoteChar ++ '\'' :: rest) =
            scan (s.pushEscaped '\\') (word.flatMap quoteChar ++ '\'' :: rest) :=
          (scan_backslash hs).trans (scan_escaped rfl)
        have hread := ih (s := s.pushEscaped '\\') rfl hquote (n := n + 1)
          (fun _ => by simp [Scan.pushEscaped, Scan.push]) rfl
        rw [wordsRead, hscan]
        have hword : s.current ++ (List.replicate n '\\' ++ '\\' :: '\\' :: word) =
            (s.pushEscaped '\\').current ++ (List.replicate (n + 1) '\\' ++ word) := by
          have hshift : List.replicate n '\\' ++ '\\' :: '\\' :: word =
              '\\' :: (List.replicate (n + 1) '\\' ++ word) := by
            rw [append_cons, ← replicate_succ', append_cons, ← replicate_succ',
              replicate_succ, cons_append]
          rw [hshift]
          simp [Scan.pushEscaped, Scan.push]
        rw [hword]
        exact hread
      · obtain ⟨e, text, he, hscan⟩ :=
          exists_scan_escaped hs d hd (word.flatMap quoteChar ++ '\'' :: rest)
        rw [hbackslash, flatMap_cons, flatMap_cons, quoteChar, if_neg (by decide),
          singleton_append, cons_append, append_assoc]
        exact wordsRead_ne_of_push (s.pushEscaped e) he rfl rfl hscan more
    · rw [hbackslash, flatMap_cons, append_assoc]
      exact wordsRead_ne_of_push (s.push c) hc rfl rfl (scan_quoteChar hs hquote hc) more

/-- A word with a backslash is not read as it is. -/
theorem wordsRead_quoteWord_ne (hs : s.IsOpen) (hcurrent : s.current = []) (hrest : EndsWord rest)
    (h : '\\' ∈ word) (more : List (List Char)) :
    wordsRead s (quoteWord word ++ rest) ≠ s.flat ++ word :: more := by
  obtain ⟨before, after, rfl, hbefore⟩ := eq_append_cons_of_mem h
  have hopen : { s with quote := some '\'' }.escaped = false := hs.2
  have hskipped := wordsRead_ne_of_skipped ('\\' :: after) (n := 0)
    (s := { s with quote := some '\'', current := before }) hopen rfl hrest (nofun) rfl more
  have hscan : scan s (quoteWord (before ++ '\\' :: after) ++ rest) =
      scan { s with quote := some '\'', current := before }
        (('\\' :: after).flatMap quoteChar ++ '\'' :: rest) := by
    rw [quoteWord, cons_append, scan_open hs, flatMap_append, append_assoc,
      append_assoc, scan_quoteChars hopen rfl hbefore]
    simp [hcurrent]
  rw [wordsRead, hscan]
  exact hskipped

/-! ### Reading commands -/

theorem Heredoc.head?_mark (h : Heredoc) (rest : List Char) :
    ((if h.quoted then quoteWord h.delimiter else h.delimiter) ++ rest).head? ≠ some '<' := by
  split_ifs with hquoted
  · simp [quoteWord]
  · obtain ⟨c, cs, hcs⟩ := exists_cons_of_ne_nil h.delimiter_ne
    have hplain : isPlain c = true :=
      h.plain (by simpa using hquoted) c (by simp [hcs])
    rw [hcs]
    rintro ⟨⟩
    cases hplain

/-- From a new word on, the words of the text are read if the condition holds, and not if not. -/
structure ReadsWords (text : List Char) (words : List (List Char)) (ok : Prop) : Prop where
  read (s : Scan) : ok → s.IsOpen → s.current = [] →
    ∃ s', s'.IsOpen ∧ s'.flushWord = { s with tokens := s.tokens ++ words } ∧
      ∀ rest, scan s (text ++ rest) = scan s' rest
  misread (s : Scan) : ¬ok → s.IsOpen → s.current = [] → ∀ rest, EndsWord rest → ∀ more,
    wordsRead s (text ++ rest) ≠ s.flat ++ (words ++ more)

theorem Scan.operator_of_current (hcurrent : s.current = []) (token : List Char) :
    s.operator token = { s with tokens := s.tokens ++ [token] } := by
  simp [operator, flushWord, hcurrent]

theorem readsWords_part (part : Part) : ReadsWords part.text part.words ('\\' ∉ part.content) where
  read s h hs hcurrent := by
    cases part with
    | word w hw =>
      replace h : '\\' ∉ w := h
      refine ⟨{ s with current := w }, hs, ?_, fun rest => ?_⟩
      · simp [Scan.flushWord, hw, Part.words, hcurrent]
      · rw [Part.text, scan_quoteWord hs h, hcurrent, nil_append]
    | heredoc heredoc =>
      replace h : '\\' ∉ heredoc.delimiter := h
      have hopen : { s with tokens := s.tokens ++ [['<', '<']] }.IsOpen := hs
      refine ⟨{ s with tokens := s.tokens ++ [['<', '<']], current := heredoc.delimiter }, hs, ?_,
        fun rest => ?_⟩
      · simp [Scan.flushWord, heredoc.delimiter_ne, Part.words, hcurrent]
      · rw [Part.text, append_assoc, cons_append, singleton_append,
          scan_mark hs (heredoc.head?_mark rest), Scan.operator_of_current hcurrent]
        split_ifs with hquoted
        · rw [scan_quoteWord hopen h, hcurrent, nil_append]
        · rw [scan_plainChars hopen (heredoc.plain (by simpa using hquoted)), hcurrent,
            nil_append]
  misread s h hs hcurrent rest hrest more := by
    cases part with
    | word w hw =>
      replace h : '\\' ∈ w := not_not.mp h
      exact wordsRead_quoteWord_ne hs hcurrent hrest h more
    | heredoc heredoc =>
      replace h : '\\' ∈ heredoc.delimiter := not_not.mp h
      have hquoted : heredoc.quoted = true := by
        by_contra hplain
        have hbackslash := heredoc.plain (by simpa using hplain) _ h
        cases hbackslash
      have hopen : { s with tokens := s.tokens ++ [['<', '<']] }.IsOpen := hs
      have hne := wordsRead_quoteWord_ne hopen hcurrent hrest h more
      rw [wordsRead, Part.text, append_assoc, cons_append, singleton_append,
        scan_mark hs (heredoc.head?_mark rest), Scan.operator_of_current hcurrent, if_pos hquoted]
      simpa [Scan.flat, wordsRead, Part.words] using hne

theorem ReadsWords.blank {words' : List (List Char)} {ok ok' : Prop}
    (h : ReadsWords text words ok) (h' : ReadsWords text' words' ok') :
    ReadsWords (text ++ ' ' :: text') (words ++ words') (ok ∧ ok') where
  read s hok hs hcurrent := by
    obtain ⟨s₁, hs₁, hflush, hscan⟩ := h.read s hok.1 hs hcurrent
    obtain ⟨s₂, hs₂, hflush₂, hscan₂⟩ := h'.read { s with tokens := s.tokens ++ words } hok.2 hs
      hcurrent
    refine ⟨s₂, hs₂, ?_, fun rest => ?_⟩
    · rw [hflush₂, append_assoc]
    · rw [append_assoc, cons_append, hscan, scan_blank hs₁, hflush, hscan₂]
  misread s hok hs hcurrent rest hrest more := by
    rw [append_assoc, cons_append, append_assoc]
    by_cases hfirst : ok
    · obtain ⟨s₁, hs₁, hflush, hscan⟩ := h.read s hfirst hs hcurrent
      have hne := h'.misread { s with tokens := s.tokens ++ words }
        (fun hsecond => hok ⟨hfirst, hsecond⟩) hs hcurrent rest hrest more
      rw [wordsRead, hscan, scan_blank hs₁, hflush]
      simpa [Scan.flat, wordsRead] using hne
    · exact h.misread s hfirst hs hcurrent _ (.blank _) _

variable (command : Command)

theorem readsWords_command :
    ReadsWords command.text command.words (∀ part ∈ command.parts, '\\' ∉ part.content) := by
  obtain ⟨parts, hparts⟩ := command
  induction parts with
  | nil => exact absurd rfl hparts
  | cons part parts ih =>
    cases parts with
    | nil =>
      have hpart := readsWords_part part
      simpa [Command.text, Command.words] using hpart
    | cons next parts =>
      have hrest := ih (cons_ne_nil _ _)
      have hblank := (readsWords_part part).blank hrest
      simpa [Command.text, Command.words, map_cons, intercalate_cons_cons,
        append_assoc, singleton_append, flatMap_cons] using hblank

/-- The same for segments. -/
structure ReadsSegments (text : List Char) (segments : List (List (List Char))) (ok : Prop) :
    Prop where
  read (s : Scan) : ok → s.IsOpen → s.current = [] → s.tokens = [] →
    ∃ s', s'.IsOpen ∧ s'.flushWord.flushSegment = { s with segments := s.segments ++ segments } ∧
      ∀ rest, scan s (text ++ rest) = scan s' rest
  misread (s : Scan) : ¬ok → s.IsOpen → s.current = [] → s.tokens = [] →
    ∀ rest, EndsWord rest → ∀ more,
      wordsRead s (text ++ rest) ≠ s.flat ++ (segments.flatten ++ more)

theorem ReadsWords.segment {ok : Prop}
    (h : ReadsWords text words ok) (hne : words ≠ []) : ReadsSegments text [words] ok where
  read s hok hs hcurrent htokens := by
    obtain ⟨s', hs', hflush, hscan⟩ := h.read s hok hs hcurrent
    refine ⟨s', hs', ?_, hscan⟩
    rw [hflush, Scan.flushSegment]
    simp [htokens, hne]
  misread s hok hs hcurrent _ rest hrest more := by
    simpa using h.misread s hok hs hcurrent rest hrest more

theorem ReadsSegments.append (separator : List Char)
    {segments segments' : List (List (List Char))} {ok ok' : Prop}
    (h : ReadsSegments text segments ok) (h' : ReadsSegments text' segments' ok')
    (hends : ∀ rest, EndsWord (separator ++ (text' ++ rest)))
    (hseparator : ∀ s rest, s.IsOpen → scan s (separator ++ (text' ++ rest)) =
      scan s.flushWord.flushSegment (text' ++ rest)) :
    ReadsSegments (text ++ (separator ++ text')) (segments ++ segments') (ok ∧ ok') where
  read s hok hs hcurrent htokens := by
    obtain ⟨s₁, hs₁, hflush, hscan⟩ := h.read s hok.1 hs hcurrent htokens
    obtain ⟨s₂, hs₂, hflush₂, hscan₂⟩ := h'.read { s with segments := s.segments ++ segments } hok.2
      hs hcurrent htokens
    refine ⟨s₂, hs₂, ?_, fun rest => ?_⟩
    · rw [hflush₂, append_assoc]
    · rw [append_assoc, append_assoc, hscan, hseparator s₁ rest hs₁, hflush, hscan₂]
  misread s hok hs hcurrent htokens rest hrest more := by
    rw [append_assoc, append_assoc, flatten_append, append_assoc]
    by_cases hfirst : ok
    · obtain ⟨s₁, hs₁, hflush, hscan⟩ := h.read s hfirst hs hcurrent htokens
      have hne := h'.misread { s with segments := s.segments ++ segments }
        (fun hsecond => hok ⟨hfirst, hsecond⟩) hs hcurrent htokens rest hrest more
      rw [wordsRead, hscan, hseparator s₁ rest hs₁, hflush]
      simpa [Scan.flat, wordsRead, htokens] using hne
    · exact h.misread s hfirst hs hcurrent htokens _ (hends rest) _

theorem Command.words_ne : command.words ≠ [] := by
  obtain ⟨parts, hparts⟩ := command
  cases parts with
  | nil => exact absurd rfl hparts
  | cons part parts => cases part <;> simp [Command.words, Part.words]

theorem Command.head?_text (rest : List Char) :
    (command.text ++ rest).head? ≠ some '|' := by
  obtain ⟨parts, hparts⟩ := command
  cases parts with
  | nil => exact absurd rfl hparts
  | cons part parts =>
    have hpart text : (part.text ++ text).head? ≠ some '|' := by
      cases part <;> simp [Part.text, quoteWord]
    cases parts with
    | nil =>
      rw [Command.text, map_singleton, intercalate_singleton]
      exact hpart rest
    | cons next parts =>
      rw [Command.text, map_cons, map_cons, intercalate_cons_cons,
        append_assoc, append_assoc]
      exact hpart _

/-- No word and no delimiter of a line has a backslash. -/
def Line.HasNoBackslash (line : Line) : Prop :=
  ∀ command ∈ line.commands, ∀ part ∈ command.parts, '\\' ∉ part.content

instance : DecidablePred Line.HasNoBackslash := fun line =>
  inferInstanceAs (Decidable (∀ command ∈ line.commands, ∀ part ∈ command.parts,
    '\\' ∉ part.content))

theorem readsSegments_line (line : Line) :
    ReadsSegments line.text line.segments line.HasNoBackslash := by
  obtain ⟨first, rest⟩ := line
  induction rest generalizing first with
  | nil =>
    have hfirst := (readsWords_command first).segment first.words_ne
    simpa [Line.text, Line.segments, Line.commands, Line.HasNoBackslash] using hfirst
  | cons next rest ih =>
    obtain ⟨joint, command⟩ := next
    have hhead text : ((Line.mk command rest).text ++ text).head? ≠ some '|' := by
      rw [Line.text, append_assoc]
      exact command.head?_text _
    have happend := ((readsWords_command first).segment first.words_ne).append joint.text
      (ih command) (fun text => .joint joint (hhead text))
      fun s text hs => scan_joint hs joint (hhead text)
    simpa [Line.text, Line.segments, Line.commands, Line.HasNoBackslash] using happend

theorem readsSegments_lines (first : Line) (script : List Line) :
    ReadsSegments (['\n'].intercalate ((first :: script).map Line.text))
      (scriptSegments (first :: script)) (∀ line ∈ first :: script, line.HasNoBackslash) := by
  induction script generalizing first with
  | nil => simpa [scriptSegments] using readsSegments_line first
  | cons next script ih =>
    have happend := (readsSegments_line first).append ['\n'] (ih next)
      (fun text => .newline _) fun s text hs => scan_newline hs
    simpa [scriptSegments] using happend

/-- Lines without bodies are read segment by segment just when they have no backslash. -/
theorem segments_scan_lines (script : List Line) :
    (scan {} (['\n'].intercalate (script.map Line.text))).flushWord.flushSegment.segments =
      scriptSegments script ↔ ∀ line ∈ script, line.HasNoBackslash := by
  cases script with
  | nil => simp [scriptSegments, scan, Scan.flushWord, Scan.flushSegment]
  | cons first script =>
    obtain ⟨hread, hmisread⟩ := readsSegments_lines first script
    constructor
    · intro hsegments
      by_contra hbackslash
      refine hmisread {} hbackslash ⟨rfl, rfl⟩ rfl rfl [] .nil [] ?_
      rw [append_nil, append_nil, wordsRead, hsegments]
      rfl
    · intro hok
      obtain ⟨s', hs', hflush, hscan⟩ := hread {} hok ⟨rfl, rfl⟩ rfl rfl
      have hend := hscan []
      rw [append_nil, scan] at hend
      rw [hend, hflush]
      rfl

/-! ### Stripping bodies -/

section Rows

variable {d : Char}

theorem exists_splitChars_eq_cons (text : List Char) :
    ∃ row rows, splitChars (· = d) text = row :: rows :=
  exists_cons_of_ne_nil Str.splitChars_ne_nil

theorem intercalate_splitChars (text : List Char) :
    [d].intercalate (splitChars (· = d) text) = text := by
  induction text with
  | nil => rfl
  | cons c text ih =>
    obtain ⟨row, rows, hrows⟩ := exists_splitChars_eq_cons text
    rw [splitChars]
    split_ifs with hc
    · rw [hrows, intercalate_cons_cons, ← hrows, ih]
      simpa using (of_decide_eq_true hc).symm
    · rw [hrows] at ih ⊢
      cases rows with
      | nil => simpa using congrArg (c :: ·) ih
      | cons next rows =>
        simpa using ih

theorem splitChars_lines {parts : List (List Char)} (hne : parts ≠ []) :
    splitChars (· = d) ([d].intercalate parts) = parts.flatMap (splitChars (· = d)) := by
  induction parts with
  | nil => exact absurd rfl hne
  | cons part parts ih =>
    cases parts with
    | nil => simp
    | cons next parts =>
      rw [intercalate_cons_cons, append_assoc, singleton_append,
        Str.splitChars_concat (by simp), ih (cons_ne_nil _ _)]
      rfl

/-- A text whose last character is no newline ends in a row that has it. -/
theorem getLast?_splitChars (text : List Char) {c : Char} (hc : c ≠ d) :
    ∃ row, (splitChars (· = d) (text ++ [c])).getLast? = some (row ++ [c]) := by
  induction text with
  | nil => exact ⟨[], by simp [splitChars, hc]⟩
  | cons b text ih =>
    obtain ⟨row, hrow⟩ := ih
    obtain ⟨first, rows, hrows⟩ := exists_splitChars_eq_cons (text ++ [c])
    rw [hrows] at hrow
    rw [cons_append, splitChars, hrows]
    split_ifs
    · exact ⟨row, by rw [getLast?_cons_cons, hrow]⟩
    · cases rows with
      | nil =>
        obtain rfl : first = row ++ [c] := by simpa using hrow
        exact ⟨b :: row, rfl⟩
      | cons next rows => exact ⟨row, by exact hrow⟩

/-- `str::lines` of a text that does not end in a newline. -/
theorem lines_eq_map_chomp
    (h : ∀ row ∈ (splitChars (· = '\n') text).getLast?, row ≠ [] ∧ chomp row = row) :
    lines text = (splitChars (· = '\n') text).map chomp := by
  have hlast := dropLast_append_getLast? (l := splitChars (· = '\n') text)
  obtain ⟨row, hrow⟩ : ∃ row, (splitChars (· = '\n') text).getLast? = some row :=
    Option.isSome_iff_exists.mp (getLast?_isSome.mpr Str.splitChars_ne_nil)
  obtain ⟨hne, hchomp⟩ := h row hrow
  rw [lines, hrow]
  conv_rhs => rw [← hlast row hrow]
  simp [Option.filter, hne, hchomp]

end Rows

theorem trimLine_chomp (row : List Char) : trimLine (chomp row) = trimLine row := by
  rw [chomp]
  split_ifs with hlast
  · obtain ⟨init, rfl⟩ : ∃ init, row = init ++ ['\r'] :=
      ⟨row.dropLast, (dropLast_append_getLast? _ hlast).symm⟩
    have hdrop : (init ++ ['\r']).dropWhile (· = '\t') = init.dropWhile (· = '\t') ++ ['\r'] := by
      rw [dropWhile_append]
      split_ifs with hnil
      · rw [isEmpty_iff.mp hnil]
        rfl
      · rfl
    rw [dropLast_concat, trimLine, trimLine, hdrop, reverse_append]
    rfl
  · rfl

/-- The rows of a line: one more than its words have newlines. -/
def Line.rows (line : Line) : List (List Char) := splitChars (· = '\n') line.text

/-- The body of a heredoc ends where the delimiter is, also for who trims the lines. -/
def Heredoc.EndsOnce (heredoc : Heredoc) : Prop :=
  trimLine heredoc.delimiter = heredoc.delimiter ∧
    ∀ row ∈ heredoc.body, trimLine row ≠ heredoc.delimiter

/-- Rows are as they are without carriage returns at their ends, and the marks on them are those of
the heredocs of the line, which the last row has. What comes last needs no marks to be found. -/
def Strippable : List Line → Prop
  | [] => True
  | line :: script =>
    (∀ row ∈ line.rows, row.getLast? ≠ some '\r') ∧
      (∀ row ∈ line.rows.dropLast, delimiters row = []) ∧
      (script = [] ∧ line.heredocs = [] ∨
        line.rows.getLast?.map delimiters = some (line.heredocs.map (·.delimiter))) ∧
      (∀ heredoc ∈ line.heredocs, heredoc.EndsOnce) ∧
      Strippable script

instance : DecidablePred Heredoc.EndsOnce := fun heredoc =>
  inferInstanceAs (Decidable (_ = heredoc.delimiter ∧ ∀ row ∈ heredoc.body, _))

def decidableStrippable : (script : List Line) → Decidable (Strippable script)
  | [] => .isTrue trivial
  | _ :: script =>
    have := decidableStrippable script
    inferInstanceAs (Decidable (_ ∧ _ ∧ _ ∧ _ ∧ _))

instance : DecidablePred Strippable := decidableStrippable

variable {output : List (List Char)}

theorem foldl_stripLine_unmarked {rows : List (List Char)} (h : ∀ row ∈ rows, delimiters row = []) :
    rows.foldl stripLine ([], output) = ([], output ++ rows) := by
  induction rows generalizing output with
  | nil => simp
  | cons row rows ih =>
    rw [forall_mem_cons] at h
    rw [foldl_cons, stripLine, h.1, ih h.2, append_assoc, singleton_append]

/-- Bodies are dropped. -/
theorem foldl_stripLine_bodies {heredocs : List Heredoc}
    (h : ∀ heredoc ∈ heredocs, heredoc.EndsOnce) :
    ((heredocs.flatMap fun heredoc => heredoc.body ++ [heredoc.delimiter]).map chomp).foldl
      stripLine (heredocs.map (·.delimiter), output) = ([], output) := by
  induction heredocs with
  | nil => rfl
  | cons heredoc heredocs ih =>
    rw [forall_mem_cons] at h
    obtain ⟨⟨hdelimiter, hbody⟩, hrest⟩ := h
    have hskip {rows : List (List Char)} (hrows : ∀ row ∈ rows, trimLine row ≠ heredoc.delimiter)
        pending :
        (rows.map chomp).foldl stripLine (heredoc.delimiter :: pending, output) =
          (heredoc.delimiter :: pending, output) := by
      induction rows with
      | nil => rfl
      | cons row rows ih =>
        rw [forall_mem_cons] at hrows
        rw [map_cons, foldl_cons, stripLine, trimLine_chomp, if_neg hrows.1, ih hrows.2]
    rw [flatMap_cons, map_append, map_append, foldl_append, foldl_append,
      map_cons, hskip hbody]
    rw [map_singleton, foldl_cons, foldl_nil, stripLine, trimLine_chomp,
      if_pos hdelimiter, ih hrest]

theorem foldl_stripLine_rows {rows : List (List Char)} {last : List Char}
    (hlast : rows.getLast? = some last) (h : ∀ row ∈ rows.dropLast, delimiters row = []) :
    rows.foldl stripLine ([], output) = (delimiters last, output ++ rows) := by
  have hrows := dropLast_append_getLast? last hlast
  calc rows.foldl stripLine ([], output)
      = (rows.dropLast ++ [last]).foldl stripLine ([], output) := by rw [hrows]
    _ = (delimiters last, output ++ rows.dropLast ++ [last]) := by
        rw [foldl_append, foldl_stripLine_unmarked h]
        rfl
    _ = (delimiters last, output ++ rows) := by rw [append_assoc, hrows]

theorem Line.exists_getLast?_rows (line : Line) : ∃ last, line.rows.getLast? = some last :=
  Option.isSome_iff_exists.mp (getLast?_isSome.mpr Str.splitChars_ne_nil)

variable {script : List Line}

/-- What is left of a script is the rows of its lines. -/
theorem foldl_stripLine_script (h : Strippable script) :
    (((script.flatMap fun line => line.rows ++ line.bodyLines).map chomp).foldl stripLine
      ([], output)).2 = output ++ script.flatMap Line.rows := by
  induction script generalizing output with
  | nil => simp
  | cons line script ih =>
    obtain ⟨hreturn, hbefore, hmarks, hends, hrest⟩ := h
    obtain ⟨last, hlast⟩ := line.exists_getLast?_rows
    have hchomp : line.rows.map chomp = line.rows := by
      have hid : ∀ row ∈ line.rows, chomp row = id row := fun row hrow => by
        rw [chomp, if_neg (hreturn row hrow), id]
      rw [map_congr_left hid, map_id]
    rw [flatMap_cons, map_append, map_append, foldl_append,
      foldl_append, hchomp, foldl_stripLine_rows hlast hbefore, flatMap_cons]
    rcases hmarks with ⟨rfl, hnone⟩ | hmarks
    · simp [Line.bodyLines, hnone]
    · rw [hlast, Option.map_some, Option.some_inj] at hmarks
      rw [hmarks, Line.bodyLines, foldl_stripLine_bodies hends, ih hrest, append_assoc]

/-! ### The last row -/

theorem length_trimLine_le (row : List Char) : (trimLine row).length ≤ row.length := by
  have hspace (cs : List Char) : (cs.dropWhile isWhitespace).length ≤ cs.length :=
    (dropWhile_suffix _).length_le
  rw [trimLine, length_reverse]
  exact (hspace _).trans (length_reverse.trans_le (dropWhile_suffix _).length_le)

theorem chomp_of_trimLine {row : List Char} (h : trimLine row = row) : chomp row = row := by
  have hle := length_trimLine_le (chomp row)
  rw [trimLine_chomp, h] at hle
  rw [chomp] at hle ⊢
  split_ifs at hle ⊢ with hlast
  · have hne : row ≠ [] := by
      rintro rfl
      cases hlast
    have hpos := length_pos_iff.mpr hne
    rw [length_dropLast] at hle
    omega
  · rfl

/-- The text does not end in a newline. -/
def EndsInRow (text : List Char) : Prop := ∃ before c, text = before ++ [c] ∧ c ≠ '\n'

theorem EndsInRow.append (h : EndsInRow text) (before : List Char) :
    EndsInRow (before ++ text) := by
  obtain ⟨before', c, rfl, hc⟩ := h
  exact ⟨before ++ before', c, (append_assoc _ _ _).symm, hc⟩

theorem endsInRow_quoteWord (word : List Char) : EndsInRow (quoteWord word) :=
  ⟨'\'' :: word.flatMap quoteChar, '\'', rfl, by decide⟩

theorem Part.endsInRow (part : Part) : EndsInRow part.text := by
  cases part with
  | word w hw => exact endsInRow_quoteWord w
  | heredoc heredoc =>
    refine .append ?_ _
    split_ifs with hquoted
    · exact endsInRow_quoteWord _
    · have hlast := dropLast_append_getLast heredoc.delimiter_ne
      refine ⟨_, _, hlast.symm, fun hnewline => heredoc.delimiter_line ?_⟩
      rw [← hnewline]
      exact getLast_mem _

theorem Command.endsInRow (command : Command) : EndsInRow command.text := by
  obtain ⟨parts, hparts⟩ := command
  induction parts with
  | nil => exact absurd rfl hparts
  | cons part parts ih =>
    cases parts with
    | nil =>
      rw [Command.text, map_singleton, intercalate_singleton]
      exact part.endsInRow
    | cons next parts =>
      rw [Command.text, map_cons, map_cons, intercalate_cons_cons]
      exact (ih (cons_ne_nil _ _)).append _

theorem Line.endsInRow (line : Line) : EndsInRow line.text := by
  obtain ⟨first, rest⟩ := line
  induction rest generalizing first with
  | nil => simpa [Line.text] using first.endsInRow
  | cons next rest ih =>
    have hrest := ((ih next.2).append next.1.text).append first.text
    simpa [Line.text] using hrest

/-- The last row of a script is neither empty nor ends in a carriage return. -/
theorem Strippable.last_row (h : Strippable script) :
    ∀ row ∈ (script.flatMap fun line => line.rows ++ line.bodyLines).getLast?,
      row ≠ [] ∧ chomp row = row := by
  induction script with
  | nil => simp
  | cons line script ih =>
    obtain ⟨hreturn, -, -, hends, hrest⟩ := h
    have hrows : ∀ row ∈ line.rows.getLast?, row ≠ [] ∧ chomp row = row := by
      intro row hrow
      obtain ⟨before, c, htext, hc⟩ := line.endsInRow
      obtain ⟨row', hrow'⟩ := getLast?_splitChars before hc
      rw [← htext] at hrow'
      obtain rfl : row' ++ [c] = row := Option.some_inj.mp (hrow'.symm.trans hrow)
      refine ⟨by simp, ?_⟩
      rw [chomp, if_neg (hreturn _ (mem_of_getLast? hrow))]
    have hbody : ∀ row ∈ line.bodyLines.getLast?, row ≠ [] ∧ chomp row = row := by
      rw [Line.bodyLines]
      generalize line.heredocs = heredocs at hends
      induction heredocs with
      | nil => simp
      | cons heredoc heredocs ihh =>
        rw [forall_mem_cons] at hends
        intro row hrow
        rw [flatMap_cons, getLast?_append, Option.mem_def, Option.or_eq_some_iff,
          getLast?_concat, Option.some_inj] at hrow
        rcases hrow with hrow | ⟨-, rfl⟩
        · exact ihh hends.2 row hrow
        · exact ⟨heredoc.delimiter_ne, chomp_of_trimLine hends.1.1⟩
    intro row hrow
    rw [flatMap_cons, getLast?_append, getLast?_append, Option.mem_def,
      Option.or_eq_some_iff, Option.or_eq_some_iff] at hrow
    rcases hrow with hrow | ⟨-, hrow | ⟨-, hrow⟩⟩
    · exact ih hrest row hrow
    · exact hbody row hrow
    · exact hrows row hrow

theorem Line.splitChars_bodyLines (line : Line) :
    line.bodyLines.flatMap (splitChars (· = '\n')) = line.bodyLines := by
  have hrow : ∀ row ∈ line.bodyLines, splitChars (· = '\n') row = [row] := by
    intro row hrow
    obtain ⟨heredoc, -, hrow⟩ := mem_flatMap.mp hrow
    have hnewline : '\n' ∉ row := by
      rcases mem_append.mp hrow with hrow | hrow
      · exact (heredoc.body_line row hrow).1
      · rw [mem_singleton.mp hrow]
        exact heredoc.delimiter_line
    refine Str.splitChars_of_forall fun c hc => decide_eq_false ?_
    rintro rfl
    exact hnewline hc
  rw [flatMap_congr hrow]
  simp

/-- **What is stripped of a script is the bodies of its heredocs.** -/
theorem stripHeredocBodies_scriptText (h : Strippable script) :
    stripHeredocBodies (scriptText script) = ['\n'].intercalate (script.map Line.text) := by
  cases script with
  | nil => rfl
  | cons first rest =>
    set script := first :: rest with hscript
    have hsplit : splitChars (· = '\n') (scriptText script) =
        script.flatMap fun line => line.rows ++ line.bodyLines := by
      rw [scriptText, splitChars_lines (by simp [hscript]), flatMap_assoc]
      refine flatMap_congr fun line _ => ?_
      rw [flatMap_cons, line.splitChars_bodyLines]
      rfl
    have hrows : script.flatMap Line.rows =
        splitChars (· = '\n') (['\n'].intercalate (script.map Line.text)) := by
      rw [splitChars_lines (by simp [hscript]), flatMap_map]
      rfl
    have hlast := h.last_row
    rw [← hsplit] at hlast
    rw [stripHeredocBodies, lines_eq_map_chomp hlast, hsplit, foldl_stripLine_script h,
      nil_append, hrows, intercalate_splitChars]

/-! ### Quoting and reading back -/

/-- **Quoted words are read back.** Where all that is stripped is the bodies, the words are read
segment by segment just when none of them has a backslash. -/
theorem shellSegments_scriptText_iff {script : List Line} (h : Strippable script) :
    shellSegments (scriptText script) = scriptSegments script ↔
      ∀ line ∈ script, line.HasNoBackslash := by
  rw [shellSegments, stripHeredocBodies_scriptText h, segments_scan_lines]

/-- A heredoc with a body that looks like commands. -/
def removeBody : Heredoc where
  delimiter := "EOF".toList
  body := ["rm 'x".toList, "".toList]
  quoted := true
  delimiter_ne := by decide
  delimiter_line := by decide
  body_line := by decide
  plain := by decide

def listAfterHeredoc : List Line :=
  [{ first := ⟨[.word "cat".toList (by decide), .heredoc removeBody], by decide⟩
     rest := [(.and, ⟨[.word "ls".toList (by decide), .word "it's # 1; | <x".toList (by decide)],
      by decide⟩)] },
    { first := ⟨[.word "echo".toList (by decide), .word "<<x".toList (by decide)], by decide⟩
      rest := [] }]

/-- A heredoc, and a word with characters of all kinds. -/
theorem shellSegments_listAfterHeredoc :
    shellSegments (scriptText listAfterHeredoc) = scriptSegments listAfterHeredoc := by
  exact (shellSegments_scriptText_iff (by decide +kernel)).mpr (by decide +kernel)

/-- `grep 'a\.b' x`, where a backslash is in quotes. -/
def grepBackslash : List Line :=
  [{ first := ⟨[.word "grep".toList (by decide), .word "a\\.b".toList (by decide)], by decide⟩
     rest := [] }]

/-- The backslash is not read. -/
theorem shellSegments_grepBackslash :
    shellSegments (scriptText grepBackslash) = [["grep".toList, "a.b".toList]] ∧
      shellSegments (scriptText grepBackslash) ≠ scriptSegments grepBackslash := by
  decide +kernel

end AgentSight.Session.Shell
