import Mathlib.Data.List.DropRight
import AgentSight.Lib.JsonPrefix
import AgentSight.Lib.Utf8Cut
import AgentSight.Session.CursorTranscript
import AgentSight.Session.UsageReports

/-!
# Transcripts that are cut short

An agent appends to its transcript while it is read, so what is read may end anywhere. A torn line
is no record: of an object that is written to its end no shorter text is one. So the session is that
of the complete lines, unless the cut is inside a character. Then the bytes are no text,
`parse_session_file` gives up, and the session is lost (`same_session_iff`).
-/

namespace AgentSight.Session

open ByteOffsets List
open Json (Value)

/-! ### Reading a file -/

/-- The agents that write a record a line. -/
inductive JsonlAgent where
  | claude
  | codex
  | cursor
  deriving DecidableEq

def JsonlAgent.name : JsonlAgent → String
  | .claude => "claude"
  | .codex => "codex"
  | .cursor => "cursor"

section

variable [Crates] (agent : JsonlAgent) (parseStamp : String → Option ℤ)
  (children : List (List Char))

def parseSessionImpl (content : List Char) : Outcome (Option AgentSession) :=
  match agent with
  | .cursor => .returned (parseCursorJsonl parseStamp children content)
  | agent => parseJsonl agent.name content

/-- `parse_session_file`. The transcripts of sub-agents are read for Cursor only. -/
def parseSessionFile (bytes : List UInt8) : Outcome (Option AgentSession) :=
  match decode bytes with
  | some content => parseSessionImpl agent parseStamp children content
  | none => .returned none

/-- What is known of a transcript before it is finished. -/
def readTranscript (content : List Char) : Outcome Transcript :=
  match agent with
  | .cursor => .returned (cursorTranscript parseStamp children content)
  | agent => Transcript.readRecords agent.name {} (recordsOf content)

end

/-! ### Cut transcripts -/

/-- A line that is an object. -/
structure JsonLine (text : List Char) : Prop where
  opens : text.head? = some '\x7b'
  closes : text.getLast? = some '\x7d'
  oneLine : '\n' ∉ text
  reads : (JsonText.read text).isSome = true

instance (text : List Char) : Decidable (JsonLine text) :=
  decidable_of_iff (text.head? = some '\x7b' ∧ text.getLast? = some '\x7d' ∧ '\n' ∉ text ∧
      (JsonText.read text).isSome = true)
    ⟨fun ⟨hopens, hcloses, honeLine, hreads⟩ => ⟨hopens, hcloses, honeLine, hreads⟩,
      fun h => ⟨h.opens, h.closes, h.oneLine, h.reads⟩⟩

def transcriptOf (texts : List (List Char)) : List Char := texts.flatMap fun text => text ++ ['\n']

/-- The lines whose records end within a number of bytes. -/
def completeLines : List (List Char) → ℕ → List (List Char)
  | [], _ => []
  | text :: texts, n =>
    if byteLength text ≤ n then text :: completeLines texts (n - (byteLength text + 1)) else []

section

variable [Crates] (agent : JsonlAgent) (parseStamp : String → Option ℤ)
  (children : List (List Char)) (texts : List (List Char))

/-- The bytes up to an offset are parsed as the complete lines among them. -/
def SameSession (n : ℕ) : Prop :=
  parseSessionFile agent parseStamp children ((encode (transcriptOf texts)).take n) =
    parseSessionFile agent parseStamp children (encode (transcriptOf (completeLines texts n)))

/-- The lines leave no usage, tool, prompt or model. -/
def LeavesNothing : Prop :=
  ∃ s, readTranscript agent parseStamp children (transcriptOf texts) = .returned s ∧
    s.showsNothing = true

/-- `serde_json::from_str` reads JSON texts only. -/
def ReadsJson : Prop :=
  ∀ text, (Crates.fromStr text).isSome = true → (JsonText.read text).isSome = true

end

variable {torn more : List Char}

/-! ### Lines -/

section

variable {text rest : List Char}

theorem lines_of_newline (htext : '\n' ∉ text) (rest : List Char) :
    lines (text ++ '\n' :: rest) = chomp text :: lines rest := by
  have hline : ∀ c ∈ text, decide (c = '\n') = false := by
    intro c hc
    exact decide_eq_false fun heq => htext (heq ▸ hc)
  have hrest : Str.splitChars (fun c => decide (c = '\n')) rest ≠ [] := Str.splitChars_ne_nil
  unfold lines
  rw [Str.splitChars_append hline (decide_eq_true rfl)]
  dsimp only
  rw [dropLast_cons_of_ne_nil hrest, getLast?_cons_of_ne_nil hrest]
  rfl

theorem lines_of_not_mem (htext : '\n' ∉ text) : lines text = if text = [] then [] else [text] := by
  have hline : ∀ c ∈ text, decide (c = '\n') = false := by
    intro c hc
    exact decide_eq_false fun heq => htext (heq ▸ hc)
  unfold lines
  rw [Str.splitChars_of_forall hline]
  by_cases hnil : text = []
  · simp [hnil]
  · simp [hnil]

theorem JsonLine.chomp (h : JsonLine text) : chomp text = text := by
  unfold Session.chomp
  rw [h.closes]
  exact if_neg (by decide)

theorem JsonLine.ne_nil (h : JsonLine text) : text ≠ [] := by
  rintro rfl
  exact absurd h.opens (by simp)

/-- What is left out of a line is not only space. -/
theorem JsonLine.not_read (h : JsonLine (torn ++ more))
    (hmore : more ≠ []) : ¬ (JsonText.read torn).isSome = true := by
  cases torn with
  | nil => decide
  | cons c torn =>
    intro hread
    obtain rfl : c = '\x7b' := Option.some.inj h.opens
    have hspace := JsonText.read_goOn hread h.reads
    have hlast : more.getLast? = some '\x7d' := by
      rw [← h.closes, getLast?_append_of_ne_nil _ hmore]
    have hbrace := dropWhile_eq_nil_iff.mp hspace '\x7d' (mem_of_getLast? hlast)
    exact absurd hbrace (by decide)

theorem trim_prefix (h : ∀ c ∈ text.head?, Str.isWhitespace c = false) :
    (Str.trim (String.ofList text)).toList <+: text := by
  have hfront : text.dropWhile Str.isWhitespace = text := by
    cases text with
    | nil => rfl
    | cons c text => exact dropWhile_cons_of_neg (by simp [h c rfl])
  rw [Str.trim, String.toList_ofList, String.toList_ofList, hfront]
  exact rdropWhile_prefix _ _

theorem transcriptOf_cons (text : List Char) (texts : List (List Char)) :
    transcriptOf (text :: texts) = text ++ '\n' :: transcriptOf texts := by
  rw [transcriptOf, flatMap_cons, append_assoc]
  rfl

variable {texts : List (List Char)}

theorem lines_transcriptOf (h : ∀ text ∈ texts, JsonLine text) :
    lines (transcriptOf texts) = texts := by
  induction texts with
  | nil => rfl
  | cons text texts ih =>
    rw [forall_mem_cons] at h
    rw [transcriptOf_cons, lines_of_newline h.1.oneLine, h.1.chomp, ih h.2]

theorem mem_of_mem_completeLines {n : ℕ} (h : text ∈ completeLines texts n) : text ∈ texts := by
  induction texts generalizing n with
  | nil => exact h
  | cons first texts ih =>
    rw [completeLines] at h
    split at h
    · exact (mem_cons.mp h).elim (fun h => h ▸ mem_cons_self)
        fun h => mem_cons_of_mem _ (ih h)
    · cases h

theorem completeLines_zero (h : ∀ text ∈ texts, JsonLine text) : completeLines texts 0 = [] := by
  cases texts with
  | nil => rfl
  | cons text texts =>
    have hpos := byteLength_pos (h text mem_cons_self).ne_nil
    exact if_neg (by omega)

/-- A reader of lines that reads no torn line reads the complete ones of a cut transcript. -/
theorem filterMap_lines_cut {α : Type} {read : List Char → Option α}
    (hread : ∀ torn more, JsonLine (torn ++ more) → more ≠ [] → read torn = none)
    (h : ∀ text ∈ texts, JsonLine text) {n : ℕ} {front : List Char}
    (hslice : sliceTo (transcriptOf texts) n = some front) :
    (lines front).filterMap read = (completeLines texts n).filterMap read := by
  induction texts generalizing n front with
  | nil =>
    obtain ⟨back, heq, -⟩ := sliceTo_eq_some.mp hslice
    obtain ⟨rfl, -⟩ := append_eq_nil_iff.mp heq.symm
    rfl
  | cons text texts ih =>
    rw [forall_mem_cons] at h
    obtain ⟨hline, htexts⟩ := h
    obtain ⟨back, heq, hn⟩ := sliceTo_eq_some.mp hslice
    rw [transcriptOf_cons] at heq
    rw [completeLines]
    by_cases hcomplete : byteLength text ≤ n
    · rw [if_pos hcomplete]
      obtain ⟨after, rfl, hafter⟩ :
          ∃ after, front = text ++ after ∧ '\n' :: transcriptOf texts = after ++ back := by
        obtain ⟨after, hfront, hafter⟩ | ⟨more, rfl, hback⟩ := append_eq_append_iff.mp heq
        · exact ⟨after, hfront, hafter⟩
        · -- The line is no longer than what is read of it.
          have hmore : more = [] := by
            rw [byteLength_append] at hcomplete
            exact byteLength_eq_zero.mp (by omega)
          subst hmore
          exact ⟨[], by simp, by simpa using hback.symm⟩
      rw [byteLength_append] at hn
      cases after with
      | nil =>
        have hzero : n - (byteLength text + 1) = 0 := by
          rw [byteLength_nil] at hn
          omega
        rw [append_nil, hzero, completeLines_zero htexts, lines_of_not_mem hline.oneLine,
          if_neg hline.ne_nil]
      | cons c after =>
        obtain ⟨rfl, hcons⟩ := cons.inj hafter
        have hrest : n - (byteLength text + 1) = byteLength after := by
          have hnewline : ('\n').utf8Size = 1 := rfl
          rw [byteLength_cons] at hn
          omega
        rw [hrest, lines_of_newline hline.oneLine, hline.chomp, filterMap_cons,
          filterMap_cons, ih htexts (sliceTo_eq_some.mpr ⟨back, hcons, rfl⟩)]
    · obtain ⟨after, rfl, hafter⟩ | ⟨more, rfl, hback⟩ := append_eq_append_iff.mp heq
      · rw [byteLength_append] at hn
        omega
      · have hmore : more ≠ [] := by
          rintro rfl
          exact hcomplete (by simpa using hn.le)
        have honeLine : '\n' ∉ front := fun hmem => hline.oneLine (mem_append_left _ hmem)
        rw [lines_of_not_mem honeLine]
        split
        · rfl
        · rw [filterMap_cons, hread front more hline hmore]

theorem lines_cut {α : Type} {read : List Char → Option α}
    (hread : ∀ torn more, JsonLine (torn ++ more) → more ≠ [] → read torn = none)
    (h : ∀ text ∈ texts, JsonLine text) {n : ℕ} {front : List Char}
    (hslice : sliceTo (transcriptOf texts) n = some front) :
    (lines front).filterMap read =
      (lines (transcriptOf (completeLines texts n))).filterMap read := by
  have hcomplete : ∀ text ∈ completeLines texts n, JsonLine text :=
    fun text hmem => h text (mem_of_mem_completeLines hmem)
  rw [lines_transcriptOf hcomplete, filterMap_lines_cut hread h hslice]

end

/-! ### Records -/

section

variable [Crates]

theorem fromStr_of_torn (hjson : ReadsJson) (h : JsonLine (torn ++ more)) (hmore : more ≠ []) :
    Crates.fromStr torn = none := by
  rw [← Option.not_isSome_iff_eq_none]
  exact mt (hjson torn) (h.not_read hmore)

theorem cursorRecord_of_torn (hjson : ReadsJson)
    (h : JsonLine (torn ++ more)) (hmore : more ≠ []) : cursorRecord torn = none := by
  have hhead : ∀ c ∈ torn.head?, Str.isWhitespace c = false := by
    cases torn with
    | nil => simp
    | cons c torn =>
      have hopens : c = '\x7b' := Option.some.inj h.opens
      rintro d ⟨⟩
      rw [hopens]
      decide
  obtain ⟨space, hspace⟩ := trim_prefix hhead
  unfold cursorRecord
  dsimp only
  split
  · rfl
  · rw [← hspace, append_assoc] at h
    exact fromStr_of_torn hjson h (by simp [hmore])

variable {texts : List (List Char)} {n : ℕ} {front content : List Char} {agent : JsonlAgent}
  {parseStamp : String → Option ℤ} {children : List (List Char)}

theorem parseSessionImpl_cut (hjson : ReadsJson) (h : ∀ text ∈ texts, JsonLine text)
    (hslice : sliceTo (transcriptOf texts) n = some front) :
    parseSessionImpl agent parseStamp children front =
      parseSessionImpl agent parseStamp children (transcriptOf (completeLines texts n)) := by
  have hrecords : recordsOf front = recordsOf (transcriptOf (completeLines texts n)) :=
    lines_cut (fun torn more => fromStr_of_torn hjson) h hslice
  have hcursor : cursorRecordsOf front = cursorRecordsOf (transcriptOf (completeLines texts n)) :=
    lines_cut (fun torn more => cursorRecord_of_torn hjson) h hslice
  cases agent with
  | claude => simp [parseSessionImpl, parseJsonl, hrecords]
  | codex => simp [parseSessionImpl, parseJsonl, hrecords]
  | cursor => simp [parseSessionImpl, parseCursorJsonl, cursorTranscript, hcursor]

theorem parseSessionFile_encode (content : List Char) :
    parseSessionFile agent parseStamp children (encode content) =
      parseSessionImpl agent parseStamp children content := by
  rw [parseSessionFile, decode_encode]

theorem parseJsonl_eq_none {name : String} : parseJsonl name content = .returned none ↔
      ∃ s, Transcript.readRecords name {} (recordsOf content) = .returned s ∧
        s.showsNothing = true := by
  simp [parseJsonl, Outcome.bind_eq_returned, Outcome.returned.injEq, Transcript.finish_eq_none]

/-- There is no session exactly if the transcript leaves nothing. -/
theorem parseSessionImpl_eq_none :
    parseSessionImpl agent parseStamp children content = .returned none ↔
      ∃ s, readTranscript agent parseStamp children content = .returned s ∧
        s.showsNothing = true := by
  cases agent with
  | claude => exact parseJsonl_eq_none
  | codex => exact parseJsonl_eq_none
  | cursor => simp [parseSessionImpl, readTranscript, parseCursorJsonl, Transcript.finishWithEvents]

/-- A transcript that is cut anywhere is parsed as its complete lines exactly if the cut is not
inside a character, or the complete lines leave nothing. -/
theorem same_session_iff (hjson : ReadsJson) (h : ∀ text ∈ texts, JsonLine text)
    (hn : n ≤ byteLength (transcriptOf texts)) :
    SameSession agent parseStamp children texts n ↔ (sliceTo (transcriptOf texts) n).isSome = true ∨
        LeavesNothing agent parseStamp children (completeLines texts n) := by
  unfold SameSession
  rw [parseSessionFile_encode]
  cases hslice : sliceTo (transcriptOf texts) n with
  | some front =>
    refine iff_of_true ?_ (.inl rfl)
    rw [parseSessionFile, decode_take hn, hslice]
    exact parseSessionImpl_cut hjson h hslice
  | none =>
    rw [parseSessionFile, decode_take hn, hslice, eq_comm, parseSessionImpl_eq_none]
    simp [LeavesNothing]

end

/-! ### A cut inside a character -/

theorem readsJson_ofRecords {records : List Value}
    (h : ∀ value ∈ records, (JsonText.read (printValue value)).isSome = true)
    (digests : List (String × String)) (times : List (String × ℤ)) :
    @ReadsJson (.ofRecords records digests times) := by
  intro text hsome
  obtain ⟨value, hvalue⟩ := Option.isSome_iff_exists.mp hsome
  have htext : printValue value = text :=
    of_decide_eq_true (find?_some (p := fun value => decide (printValue value = text)) hvalue)
  exact htext ▸ h value (mem_of_find?_eq_some hvalue)

def cursorMessage (role text : String) : Value :=
  .object [("role", .string role), ("message", .object [("content", .array
    [.object [("type", .string "text"), ("text", .string text)]])])]

section TornCharacter

def tornCharacter : List Value := [cursorMessage "user" "start", cursorMessage "assistant" "\u00e9"]

local instance tornCharacterCrates : Crates := .ofRecords tornCharacter [] []

/-- The cut is inside the second line, between the bytes of its last letter. -/
theorem tornCharacter_loses : ReadsJson ∧ (∀ text ∈ tornCharacter.map printValue, JsonLine text) ∧
    137 ≤ byteLength (transcriptOf (tornCharacter.map printValue)) ∧
    ¬ SameSession .cursor (fun _ => none) [] (tornCharacter.map printValue) 137 := by
  have hjson : ReadsJson := readsJson_ofRecords (by decide +kernel) [] []
  have hlines : ∀ text ∈ tornCharacter.map printValue, JsonLine text := by decide +kernel
  have hn : 137 ≤ byteLength (transcriptOf (tornCharacter.map printValue)) := by decide +kernel
  refine ⟨hjson, hlines, hn, fun hsame => ?_⟩
  rw [SameSession, parseSessionFile_encode, parseSessionFile, decode_take hn] at hsame
  have hinside : sliceTo (transcriptOf (tornCharacter.map printValue)) 137 = none := by
    decide +kernel
  have hsession : (parseSessionImpl .cursor (fun _ => none) []
      (transcriptOf (completeLines (tornCharacter.map printValue) 137))).value.isSome = true := by
    decide +kernel
  rw [hinside] at hsame
  rw [← hsame] at hsession
  cases hsession

/-- A cut inside a record. -/
theorem same_session_iff_tornRecord :
    SameSession .cursor (fun _ => none) [] (tornCharacter.map printValue) 100 := by
  have hjson : ReadsJson := readsJson_ofRecords (by decide +kernel) [] []
  have hlines : ∀ text ∈ tornCharacter.map printValue, JsonLine text := by decide +kernel
  have hn : 100 ≤ byteLength (transcriptOf (tornCharacter.map printValue)) := by decide +kernel
  have hbetween : (sliceTo (transcriptOf (tornCharacter.map printValue)) 100).isSome = true := by
    decide +kernel
  exact (same_session_iff hjson hlines hn).mpr (.inl hbetween)

end TornCharacter

end AgentSight.Session
