import AgentSight.Lib.Segments

/-!
# The lines of a provider

`read_provider_line` of `session_runtime.rs` reads a line of at most `max_bytes` bytes from a
buffered reader, and skips a longer one. The bytes come in as the reads of the transport deliver
them, and the reader gives out one buffer after the other; a line may go over many buffers, and a
buffer may hold many lines. The limit is one on the buffer of the line, which has its newline in it.
-/

namespace AgentSight.Collector

open Segments List

def newline : UInt8 := 10

def isNewline (byte : UInt8) : Bool := byte == newline

inductive ProviderLine where
  | complete
  | oversized
  | eof
  deriving DecidableEq

/-- A buffered reader: the rest of its buffer and what the reads to come deliver. An empty buffer
is the end of the stream, so no read delivers nothing. -/
structure LineReader where
  chunks : List (List UInt8)
  nonempty : ∀ chunk ∈ chunks, chunk ≠ []
  deriving DecidableEq

def LineReader.bytes (reader : LineReader) : List UInt8 := reader.chunks.flatten

/-- The buffers after `amount` bytes of the first are consumed. -/
def consume (amount : ℕ) : List (List UInt8) → List (List UInt8)
  | [] => []
  | buffer :: chunks =>
    if buffer.drop amount = [] then chunks else buffer.drop amount :: chunks

/-- How many bytes of a buffer belong to the line. -/
def consumedOf (buffer : List UInt8) : ℕ :=
  match buffer.findIdx? isNewline with
  | some index => index + 1
  | none => buffer.length

/-- What is kept of a line. -/
structure LineState where
  line : List UInt8
  oversized : Bool
  sawData : Bool

def LineState.outcome (state : LineState) : ProviderLine :=
  if !state.sawData then .eof else if state.oversized then .oversized else .complete

/-- The part of a buffer that belongs to the line is copied, as far as there is room. -/
def LineState.copy (maxBytes : ℕ) (state : LineState) (buffer : List UInt8) : LineState :=
  let consumed := consumedOf buffer
  if state.oversized then { state with sawData := true }
  else
    let copied := min consumed (maxBytes - state.line.length)
    { line := state.line ++ buffer.take copied, oversized := copied < consumed, sawData := true }

/-- The loop of `read_provider_line`. A buffer without a newline is consumed whole. -/
def readFrom (maxBytes : ℕ) (state : LineState) : List (List UInt8) → LineState × List (List UInt8)
  | [] => (state, [])
  | buffer :: chunks =>
    let consumed := consumedOf buffer
    let complete := buffer[consumed - 1]? == some newline
    let state := state.copy maxBytes buffer
    if complete then (state, consume consumed (buffer :: chunks))
    else readFrom maxBytes state chunks

/-! ### A buffer and its newline -/

variable {maxBytes amount : ℕ} {buffer front : List UInt8} {chunks : List (List UInt8)}
  {state : LineState}

theorem flatten_consume :
    (consume amount (buffer :: chunks)).flatten = buffer.drop amount ++ chunks.flatten := by
  rw [consume]
  split
  · next hnone => rw [hnone, nil_append]
  · rw [flatten_cons]

theorem nonempty_consume (h : ∀ chunk ∈ chunks, chunk ≠ []) :
    ∀ chunk ∈ consume amount chunks, chunk ≠ [] := by
  cases chunks with
  | nil => exact h
  | cons buffer chunks =>
    rw [forall_mem_cons] at h
    rw [consume]
    split
    · exact h.2
    · next hleft => exact forall_mem_cons.mpr ⟨hleft, h.2⟩

/-- A buffer is cut after its first newline. -/
theorem exists_newline (h : newline ∈ buffer) :
    ∃ before after, buffer = before ++ newline :: after ∧ (∀ b ∈ before, isNewline b = false) ∧
      consumedOf buffer = before.length + 1 := by
  obtain ⟨index, hindex⟩ : ∃ index, buffer.findIdx? isNewline = some index := by
    rw [← Option.isSome_iff_exists, findIdx?_isSome, any_eq_true]
    exact ⟨newline, h, by decide⟩
  obtain ⟨hlt, hnewline, hbefore⟩ := findIdx?_eq_some_iff_getElem.mp hindex
  refine ⟨buffer.take index, buffer.drop (index + 1), ?_, fun b hb => ?_, ?_⟩
  · have hbyte : buffer[index] = newline := by simpa [isNewline] using hnewline
    rw [← hbyte, getElem_cons_drop, take_append_drop]
  · obtain ⟨i, hi, rfl⟩ := getElem_of_mem hb
    rw [getElem_take, ← Bool.not_eq_true]
    exact hbefore i (by rw [length_take] at hi; omega)
  · rw [consumedOf, hindex, length_take, Nat.min_eq_left (Nat.le_of_lt hlt)]

theorem consumedOf_of_notMem (h : newline ∉ buffer) : consumedOf buffer = buffer.length := by
  have hnone : buffer.findIdx? isNewline = none := by
    rw [findIdx?_eq_none_iff]
    intro b hb
    rw [isNewline, beq_eq_false_iff_ne]
    rintro rfl
    exact h hb
  rw [consumedOf, hnone]

/-! ### What has been read of a line -/

/-- The state of the loop when `front` has been read of the line. -/
structure Reading (maxBytes : ℕ) (front : List UInt8) (state : LineState) : Prop where
  oversized : state.oversized = true ↔ maxBytes < front.length
  line : state.oversized = false → state.line = front
  bounded : state.line.length ≤ maxBytes
  sawData : state.sawData = true ↔ front ≠ []

theorem reading_start : Reading maxBytes [] ⟨[], false, false⟩ :=
  ⟨by simp, fun _ => rfl, Nat.zero_le _, by simp⟩

/-- A part of a buffer that is not empty goes to the end of what has been read. -/
theorem Reading.copy (h : Reading maxBytes front state) (hne : buffer ≠ []) :
    Reading maxBytes (front ++ buffer.take (consumedOf buffer)) (state.copy maxBytes buffer) := by
  have hconsumed : 0 < consumedOf buffer ∧ consumedOf buffer ≤ buffer.length := by
    by_cases hmem : newline ∈ buffer
    · obtain ⟨before, after, heq, -, hlength⟩ := exists_newline hmem
      rw [hlength, heq, length_append, length_cons]
      omega
    · rw [consumedOf_of_notMem hmem]
      exact ⟨length_pos_iff.mpr hne, Nat.le_refl _⟩
  have hlength : (front ++ buffer.take (consumedOf buffer)).length =
      front.length + consumedOf buffer := by
    rw [length_append, length_take, Nat.min_eq_left hconsumed.2]
  have hdata : front ++ buffer.take (consumedOf buffer) ≠ [] := by
    rw [← length_pos_iff]
    omega
  rw [LineState.copy]
  split
  · next hover =>
    have hlong := h.oversized.mp hover
    refine ⟨⟨fun _ => by omega, fun _ => hover⟩, fun hnot => ?_, h.bounded, by simpa using hdata⟩
    rw [show state.oversized = false from hnot] at hover
    cases hover
  · next hover =>
    rw [Bool.not_eq_true] at hover
    have hline := h.line hover
    have hroom : front.length ≤ maxBytes := hline ▸ h.bounded
    refine ⟨?_, fun hnot => ?_, ?_, by simpa using hdata⟩
    · rw [decide_eq_true_eq, hline]
      omega
    · rw [decide_eq_false_iff_not] at hnot
      rw [hline, Nat.min_eq_left (by rw [hline] at hnot; omega)]
    · rw [length_append, length_take, hline]
      omega

/-! ### One call -/

/-- What a call has read when it returns: the first segment of the stream, if there is one. -/
structure Read (maxBytes : ℕ) (stream part : List UInt8) (state : LineState)
    (rest : List (List UInt8)) : Prop where
  reading : Reading maxBytes part state
  segments : segments isNewline stream =
    if part = [] then [] else part :: segments isNewline rest.flatten
  ended : part = [] → rest = []
  nonempty : ∀ chunk ∈ rest, chunk ≠ []

theorem readFrom_read (h : Reading maxBytes front state)
    (hfront : ∀ b ∈ front, isNewline b = false) (hchunks : ∀ chunk ∈ chunks, chunk ≠ []) :
    ∃ part, Read maxBytes (front ++ chunks.flatten) part (readFrom maxBytes state chunks).1
      (readFrom maxBytes state chunks).2 := by
  induction chunks generalizing front state with
  | nil =>
    refine ⟨front, h, ?_, fun _ => rfl, hchunks⟩
    rw [flatten_nil, append_nil]
    split
    · next hnone => rw [hnone, Segments.segments]
    · next hsome => rw [segments_of_forall hfront hsome, readFrom, flatten_nil, Segments.segments]
  | cons buffer chunks ih =>
    have hcopy := h.copy (forall_mem_cons.mp hchunks).1
    by_cases hmem : newline ∈ buffer
    · obtain ⟨before, after, heq, hbefore, hconsumed⟩ := exists_newline hmem
      have hcomplete : (buffer[consumedOf buffer - 1]? == some newline) = true := by
        rw [hconsumed, heq, Nat.add_sub_cancel, getElem?_append_right (Nat.le_refl _), Nat.sub_self]
        rfl
      have hfirst : before ++ newline :: after = (before ++ [newline]) ++ after := by simp
      have htake : buffer.take (consumedOf buffer) = before ++ [newline] := by
        rw [hconsumed, heq, hfirst]
        exact take_left' (by simp)
      have hdrop : buffer.drop (consumedOf buffer) = after := by
        rw [hconsumed, heq, hfirst]
        exact drop_left' (by simp)
      rw [readFrom, if_pos hcomplete]
      refine ⟨front ++ (before ++ [newline]), htake ▸ hcopy, ?_, by simp, nonempty_consume hchunks⟩
      have hline : ∀ b ∈ front ++ before, isNewline b = false :=
        fun b hb => (mem_append.mp hb).elim (hfront b) (hbefore b)
      have hstream : front ++ (buffer :: chunks).flatten =
          (front ++ before) ++ newline :: (after ++ chunks.flatten) := by
        rw [heq]
        simp
      rw [flatten_consume, hdrop, hstream, segments_append hline (by decide)]
      simp
    · have hwhole := consumedOf_of_notMem hmem
      have hopen : (buffer[consumedOf buffer - 1]? == some newline) = false := by
        rw [beq_eq_false_iff_ne]
        exact fun hlast => hmem (mem_of_getElem? hlast)
      rw [hwhole, take_length] at hcopy
      have hline : ∀ b ∈ front ++ buffer, isNewline b = false := by
        intro b hb
        refine (mem_append.mp hb).elim (hfront b) fun hbuffer => ?_
        rw [isNewline, beq_eq_false_iff_ne]
        rintro rfl
        exact hmem hbuffer
      rw [readFrom, hopen, flatten_cons, ← append_assoc]
      exact ih hcopy hline (forall_mem_cons.mp hchunks).2

/-- `read_provider_line`, with the line that is in the caller's buffer after it. -/
def readProviderLine (maxBytes : ℕ) (reader : LineReader) :
    ProviderLine × List UInt8 × LineReader :=
  let result := readFrom maxBytes ⟨[], false, false⟩ reader.chunks
  have hnonempty : ∀ chunk ∈ result.2, chunk ≠ [] := by
    obtain ⟨_, hread⟩ := readFrom_read (reading_start : Reading maxBytes [] _) (by simp)
      reader.nonempty
    exact hread.nonempty
  (result.1.outcome, result.1.line, ⟨result.2, hnonempty⟩)

/-- What a caller learns from a call: the line is looked at if it is complete. -/
inductive Report where
  | line (bytes : List UInt8)
  | oversized
  | eof
  deriving DecidableEq

def reportOf : ProviderLine → List UInt8 → Report
  | .complete, line => .line line
  | .oversized, _ => .oversized
  | .eof, _ => .eof

/-- What the first calls report, as many as are asked for. -/
def reports (maxBytes : ℕ) : ℕ → LineReader → List Report
  | 0, _ => []
  | calls + 1, reader =>
    let (outcome, line, rest) := readProviderLine maxBytes reader
    reportOf outcome line :: reports maxBytes calls rest

/-- What there is to report of a segment. -/
def segmentReport (maxBytes : ℕ) (segment : List UInt8) : Report :=
  if segment.length ≤ maxBytes then .line segment else .oversized

theorem Reading.report (h : Reading maxBytes front state) : reportOf state.outcome state.line =
      if front = [] then .eof else segmentReport maxBytes front := by
  by_cases hnone : front = []
  · have hdata : state.sawData = false := by
      rw [← Bool.not_eq_true, h.sawData, not_not]
      exact hnone
    rw [LineState.outcome, hdata, if_pos hnone]
    rfl
  · have hdata := h.sawData.mpr hnone
    simp only [LineState.outcome, hdata, hnone, segmentReport, Bool.not_true, if_false]
    cases hover : state.oversized with
    | false =>
      have hroom : front.length ≤ maxBytes := by
        rw [← Nat.not_lt, ← h.oversized, hover]
        exact Bool.false_ne_true
      simp [reportOf, h.line hover, hroom]
    | true =>
      have hlong := Nat.not_le.mpr (h.oversized.mp hover)
      simp [reportOf, hlong]

/-! ### All calls -/

/-- What a call reports: the next segment, and the end of the stream after the last one. -/
def callReport (maxBytes : ℕ) (stream : List UInt8) (call : ℕ) : Report :=
  match (segments isNewline stream)[call]? with
  | some segment => segmentReport maxBytes segment
  | none => .eof

/-- **The reader splits the stream at its newlines.** The calls report the segments of the stream
one after the other, however it is delivered: a segment that fits into `maxBytes` bytes with its
newline as it is, a longer one by one `oversized`. After the last one they report the end. -/
theorem reports_eq (maxBytes : ℕ) (reader : LineReader) (calls : ℕ) :
    reports maxBytes calls reader = (List.range calls).map (callReport maxBytes reader.bytes) := by
  induction calls generalizing reader with
  | zero => rfl
  | succ calls ih =>
    obtain ⟨part, hread⟩ := readFrom_read (reading_start : Reading maxBytes [] _) (by simp)
      reader.nonempty
    have hsegments : segments isNewline reader.bytes = _ := hread.segments
    simp only [reports, readProviderLine, ih, hread.reading.report]
    rw [range_succ_eq_map, map_cons, map_map]
    -- With nothing left to read there is nothing later either.
    by_cases hnone : part = []
    · rw [if_pos hnone] at hsegments ⊢
      have hrest := hread.ended hnone
      congr 1
      · rw [callReport, hsegments]
        rfl
      · refine map_congr_left fun call _ => ?_
        rw [Function.comp_apply, callReport, callReport, hsegments]
        simp only [LineReader.bytes, hrest]
        rfl
    · rw [if_neg hnone] at hsegments ⊢
      congr 1
      · rw [callReport, hsegments]
        rfl
      · refine map_congr_left fun call _ => ?_
        rw [Function.comp_apply, callReport, callReport, hsegments]
        rfl

/-- A line as long as the limit does not fit when a newline comes after it. -/
theorem full_line_oversized : ¬ ∀ (maxBytes : ℕ) (reader : LineReader) (line rest : List UInt8),
    newline ∉ line → line.length ≤ maxBytes → reader.bytes = line ++ newline :: rest →
      (readProviderLine maxBytes reader).1 = .complete := by
  intro h
  have hfirst := h 2 ⟨[[97, 98, 10]], by decide⟩ [97, 98] [] (by decide) (by decide) (by decide)
  exact absurd hfirst (by decide)

end AgentSight.Collector
