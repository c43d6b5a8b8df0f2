import AgentSight.Sse.Parser

/-!
# Well-formed event text

What a server may put on the wire for one event: lines that are fields or comments, at least
one of them a data field, and a blank line. Parsing the text of a list of events gives the
events back one by one, whatever the line terminator.
-/

namespace AgentSight.Sse

open List

/-- The lines of one event. Every line is a field or a comment, so it has a colon; an event
without data is not dispatched. -/
structure EventText where
  lines : List String
  plain : ∀ line ∈ lines, '\r' ∉ line.toList ∧ '\n' ∉ line.toList ∧ ':' ∈ line.toList
  data : ∃ line ∈ lines, Str.startsWith (Str.trim line) "data:"

/-- The two line terminators. -/
inductive Newline where
  | lf
  | crlf
  deriving DecidableEq

def Newline.chars : Newline → List Char
  | .lf => ['\n']
  | .crlf => ['\r', '\n']

/-- Lines with their terminators. -/
def renderLines (newline : Newline) (lines : List String) : List Char :=
  lines.flatMap fun line => line.toList ++ newline.chars

/-- The text of consecutive events. -/
def render (newline : Newline) (events : List EventText) : String :=
  String.ofList (events.flatMap fun event => renderLines newline event.lines ++ newline.chars)

def EventText.parsed [External] (text : EventText) : SSEEvent := readLines text.lines

/-! ### Normalising the line terminators -/

theorem replacePair_newline (newline : Newline) (rest : List Char) :
    Str.replacePair '\r' '\n' '\n' (newline.chars ++ rest) =
      '\n' :: Str.replacePair '\r' '\n' '\n' rest := by
  cases newline with
  | lf => exact Str.replacePair_cons_of_ne (by decide)
  | crlf => exact Str.replacePair_pair

variable {lines : List String} {newline : Newline}

theorem replacePair_renderLines (hlines : ∀ line ∈ lines, '\r' ∉ line.toList) (rest : List Char) :
    Str.replacePair '\r' '\n' '\n' (renderLines newline lines ++ rest) =
      renderLines .lf lines ++ Str.replacePair '\r' '\n' '\n' rest := by
  induction lines with
  | nil => rfl
  | cons line lines ih =>
    rw [forall_mem_cons] at hlines
    simp only [renderLines, flatMap_cons, append_assoc] at ih ⊢
    rw [Str.replacePair_append hlines.1, replacePair_newline, ih hlines.2]
    rfl

theorem replacePair_render (newline : Newline) (events : List EventText) :
    Str.replacePair '\r' '\n' '\n' (render newline events).toList = (render .lf events).toList := by
  simp only [render, String.toList_ofList]
  induction events with
  | nil => rfl
  | cons event events ih =>
    simp only [flatMap_cons, append_assoc]
    rw [replacePair_renderLines fun line hline => (event.plain line hline).1,
      replacePair_newline, ih]
    rfl

/-! ### Cutting the text into blocks -/

/-- Lines joined as a block holds them. -/
def block (lines : List String) : List Char := ['\n'].intercalate (lines.map String.toList)

theorem splitPair_block (hne : lines ≠ [])
    (hlines : ∀ line ∈ lines, '\n' ∉ line.toList ∧ line.toList ≠ []) (rest : List Char) :
    Str.splitPair '\n' '\n' (renderLines .lf lines ++ '\n' :: rest) =
      block lines :: Str.splitPair '\n' '\n' rest := by
  induction lines with
  | nil => exact absurd rfl hne
  | cons line lines ih =>
    rw [forall_mem_cons] at hlines
    cases lines with
    | nil =>
      have hpair := Str.splitPair_append hlines.1.1
        (Str.splitPair_pair (a := '\n') (b := '\n') rest)
      simpa [renderLines, block, Newline.chars] using hpair
    | cons next lines =>
      have htail := ih (by simp) hlines.2
      obtain ⟨c, cs, hnext⟩ := exists_cons_of_ne_nil (hlines.2 next (by simp)).2
      have hc : c ≠ '\n' := by
        rintro rfl
        exact (hlines.2 next (by simp)).1 (by simp [hnext])
      -- a terminator followed by a line is no blank line
      have hjoin : Str.splitPair '\n' '\n'
          ('\n' :: (renderLines .lf (next :: lines) ++ '\n' :: rest)) =
          ('\n' :: block (next :: lines)) :: Str.splitPair '\n' '\n' rest := by
        rw [renderLines, flatMap_cons, hnext] at htail ⊢
        simp only [cons_append] at htail ⊢
        simp only [Str.splitPair, htail, Str.onto]
        simp [hc]
      have hwhole := Str.splitPair_append hlines.1.1 hjoin
      simpa [renderLines, block, Newline.chars] using hwhole

theorem splitPair_render (events : List EventText) :
    Str.splitPair '\n' '\n' (render .lf events).toList =
      events.map (fun event => block event.lines) ++ [[]] := by
  simp only [render, String.toList_ofList]
  induction events with
  | nil => rfl
  | cons event events ih =>
    obtain ⟨line, hline, -⟩ := event.data
    have hsplit := splitPair_block (ne_nil_of_mem hline)
      (fun line hline => ⟨(event.plain line hline).2.1,
        ne_nil_of_mem (event.plain line hline).2.2⟩)
      (events.flatMap fun event => renderLines .lf event.lines ++ Newline.lf.chars)
    rw [ih] at hsplit
    simpa [Newline.chars] using hsplit

/-! ### Reading a block back -/

variable {line : String}

theorem mem_block {c : Char} (hline : line ∈ lines) (hc : c ∈ line.toList) : c ∈ block lines := by
  induction lines with
  | nil => exact absurd hline not_mem_nil
  | cons first lines ih =>
    cases lines with
    | nil =>
      rw [mem_singleton] at hline
      simpa [block, hline] using hc
    | cons next lines =>
      simp only [block, map_cons, intercalate_cons_cons, mem_append]
      rcases mem_cons.mp hline with rfl | hrest
      · exact .inl (.inl hc)
      · exact .inr (ih hrest)

theorem split_block (hne : lines ≠ []) (hlines : ∀ line ∈ lines, '\n' ∉ line.toList) :
    Str.split (String.ofList (block lines)) (· == '\n') = lines := by
  have hsplit : Str.splitChars (· == '\n') (block lines) = lines.map String.toList := by
    induction lines with
    | nil => exact absurd rfl hne
    | cons line lines ih =>
      rw [forall_mem_cons] at hlines
      have hplain : ∀ c ∈ line.toList, (c == '\n') = false := by
        intro c hc
        simpa using fun hnewline : c = '\n' => hlines.1 (hnewline ▸ hc)
      cases lines with
      | nil => simpa [block] using Str.splitChars_of_forall hplain
      | cons next lines =>
        have htail := ih (by simp) hlines.2
        have hcons := Str.splitChars_append hplain (c := '\n') (by decide) (block (next :: lines))
        rw [htail] at hcons
        simpa [block] using hcons
  rw [Str.split, String.toList_ofList, hsplit]
  simp

/-! ### The fields of an event -/

theorem Fields.dataLines_readLine (fields : Fields) (line : String) :
    fields.dataLines <+: (fields.readLine line).dataLines := by
  simp only [Fields.readLine]
  split
  · exact prefix_rfl
  · split
    · exact prefix_append _ _
    · split <;> exact prefix_rfl

theorem Fields.dataLines_foldl (fields : Fields) (lines : List String) :
    fields.dataLines <+: (lines.foldl Fields.readLine fields).dataLines := by
  induction lines generalizing fields with
  | nil => exact prefix_rfl
  | cons line lines ih => exact (fields.dataLines_readLine line).trans (ih _)

theorem Fields.dataLines_ne_nil {fields : Fields}
    (h : Str.startsWith (Str.trim line) "data:") : (fields.readLine line).dataLines ≠ [] := by
  have hevent : Str.startsWith (Str.trim line) "event:" = false := by
    obtain ⟨rest, hrest⟩ := isPrefixOf_iff_prefix.mp h
    simp [Str.startsWith, ← hrest, List.isPrefixOf]
  simp [Fields.readLine, Str.stripPrefix, h, hevent]

section

variable [External]

theorem EventText.isSome_data (text : EventText) : text.parsed.data.isSome := by
  obtain ⟨line, hline, hdata⟩ := text.data
  obtain ⟨before, after, hlines⟩ := append_of_mem hline
  have hne : (text.lines.foldl Fields.readLine {}).dataLines ≠ [] := by
    rw [hlines, foldl_append, foldl_cons]
    intro hnil
    have hkept := Fields.dataLines_foldl ((before.foldl Fields.readLine {}).readLine line) after
    rw [hnil, prefix_nil] at hkept
    exact Fields.dataLines_ne_nil hdata hkept
  simp [EventText.parsed, readLines, Fields.toEvent, hne]

theorem readBlock_block (text : EventText) :
    readBlock (String.ofList (block text.lines)) = some text.parsed := by
  obtain ⟨line, hline, -⟩ := text.data
  have hcolon : ':' ∈ block text.lines := mem_block hline (text.plain line hline).2.2
  have htrim : Str.trim (String.ofList (block text.lines)) ≠ "" := by
    intro hempty
    have hmem : ':' ∈ (Str.trim (String.ofList (block text.lines))).toList :=
      Str.mem_trim (by simpa using hcolon) (by decide)
    simp [hempty] at hmem
  have hlines : Str.split (String.ofList (block text.lines)) (· == '\n') = text.lines :=
    split_block (ne_nil_of_mem hline) fun line hline => (text.plain line hline).2.1
  have hdata := text.isSome_data
  rw [EventText.parsed] at hdata
  simp [readBlock, htrim, hlines, hdata, EventText.parsed]

/-- The parser gives back the events whose text a chunk is. -/
theorem parseSseEventsFromChunk_render (newline : Newline) (events : List EventText) :
    parseSseEventsFromChunk (render newline events) = events.map EventText.parsed := by
  have hrest : readBlock (String.ofList []) = none := by
    simp [readBlock, Str.trim]
  simp only [parseSseEventsFromChunk, replacePair_render, splitPair_render, map_append,
    map_map, filterMap_append, filterMap_map, Function.comp_def, readBlock_block]
  simp [hrest]

end

/-! ### What a rendered text holds -/

variable {events : List EventText}

/-- What the text of an event holds, the text of a chunk with it holds. -/
theorem infix_render {event : EventText} {cs : List Char} (hevent : event ∈ events)
    (hcs : cs <:+: renderLines newline event.lines ++ newline.chars) :
    cs <:+: (render newline events).toList := by
  obtain ⟨before, after, rfl⟩ := append_of_mem hevent
  obtain ⟨front, back, hwhole⟩ := hcs
  refine ⟨(render newline before).toList ++ front, back ++ (render newline after).toList, ?_⟩
  simp [render, ← hwhole]

theorem infix_renderLines
    (hline : line ∈ lines) : line.toList ++ newline.chars <:+: renderLines newline lines := by
  obtain ⟨before, after, rfl⟩ := append_of_mem hline
  exact ⟨renderLines newline before, renderLines newline after, by simp [renderLines]⟩

theorem line_infix_render {event : EventText} (hevent : event ∈ events)
    (hline : line ∈ event.lines) :
    line.toList <:+: (render newline events).toList :=
  infix_render hevent ((infix_append' [] _ _).trans
    ((infix_renderLines hline).trans (infix_append' [] _ _)))

/-- An event ends in a blank line. -/
theorem infix_blank (newline : Newline) (event : EventText) :
    newline.chars ++ newline.chars <:+: renderLines newline event.lines ++ newline.chars := by
  obtain ⟨line, hline, -⟩ := event.data
  obtain ⟨front, last, hlines⟩ := eq_nil_or_concat event.lines |>.resolve_left
    (ne_nil_of_mem hline)
  exact ⟨renderLines newline front ++ last.toList, [], by simp [renderLines, hlines]⟩

/-! ### No line is a chunk size -/

theorem chunkSize_of_colon (h : ':' ∈ line.toList) : chunkSize line = none := by
  have hmem : ':' ∈ (Str.trim line).toList := Str.mem_trim h (by decide)
  have hall : (Str.trim line).toList.all isAsciiHexdigit = false :=
    all_eq_false.mpr ⟨':', hmem, by decide⟩
  simp [chunkSize, hall]

theorem cleanLines_eq_nil (h : ∀ line ∈ lines, chunkSize line = none) :
    cleanLines chunkSize false lines = [] := by
  induction lines with
  | nil => rfl
  | cons line lines ih =>
    rw [forall_mem_cons] at h
    simp [cleanLines, h.1, ih h.2]

theorem splitPair_renderLines (hlines : ∀ line ∈ lines, '\r' ∉ line.toList) (rest : List Char) :
    Str.splitPair '\r' '\n' (renderLines .crlf lines ++ rest) =
      lines.map String.toList ++ Str.splitPair '\r' '\n' rest := by
  induction lines with
  | nil => rfl
  | cons line lines ih =>
    rw [forall_mem_cons] at hlines
    have hline := Str.splitPair_append hlines.1
      (Str.splitPair_pair (a := '\r') (b := '\n') (renderLines .crlf lines ++ rest))
    rw [ih hlines.2] at hline
    simpa [renderLines, Newline.chars] using hline

theorem notMem_render_lf (events : List EventText) : '\r' ∉ (render .lf events).toList := by
  simp only [render, renderLines, Newline.chars, String.toList_ofList, mem_flatMap,
    mem_append, mem_singleton, not_exists, not_and, not_or]
  intro event _
  refine ⟨fun line hline => ⟨(event.plain line hline).1, by decide⟩, by decide⟩

/-- A line of rendered events, as the chunk cleaner cuts them, is blank or has a colon. -/
theorem colon_mem_of_mem_splitPair
    {part : List Char} (h : part ∈ Str.splitPair '\r' '\n' (render newline events).toList) :
    part = [] ∨ ':' ∈ part := by
  cases newline with
  | lf =>
    rw [Str.splitPair_of_notMem (notMem_render_lf events), mem_singleton] at h
    subst h
    cases events with
    | nil => exact .inl rfl
    | cons event events =>
      obtain ⟨line, hline, -⟩ := event.data
      exact .inr ((line_infix_render mem_cons_self hline).subset (event.plain line hline).2.2)
  | crlf =>
    simp only [render, String.toList_ofList] at h
    induction events with
    | nil => exact .inl (by simpa [Str.splitPair] using h)
    | cons event events ih =>
      simp only [flatMap_cons, append_assoc] at h
      rw [splitPair_renderLines fun line hline => (event.plain line hline).1] at h
      change part ∈ _ ++ Str.splitPair '\r' '\n' ('\r' :: '\n' :: _) at h
      rw [Str.splitPair_pair, mem_append, mem_cons] at h
      rcases h with hline | rfl | hrest
      · obtain ⟨line, hmem, rfl⟩ := mem_map.mp hline
        exact .inr (event.plain line hmem).2.2
      · exact .inl rfl
      · exact ih hrest

theorem cleanChunkedContent_render (newline : Newline) (events : List EventText) :
    cleanChunkedContent (render newline events) = "" := by
  have hnone : cleanLines chunkSize false
      ((Str.splitPair '\r' '\n' (render newline events).toList).map String.ofList) = [] := by
    refine cleanLines_eq_nil fun line hline => ?_
    obtain ⟨part, hpart, rfl⟩ := mem_map.mp hline
    rcases colon_mem_of_mem_splitPair hpart with rfl | hcolon
    · decide
    · exact chunkSize_of_colon (by simpa using hcolon)
  rw [cleanChunkedContent, hnone]
  rfl

/-! ### A rendered chunk -/

theorem isSseData_render (newline : Newline) (hne : events ≠ []) :
    isSseData (render newline events) := by
  obtain ⟨event, rest, rfl⟩ := exists_cons_of_ne_nil hne
  obtain ⟨line, hline, hdata⟩ := event.data
  have hfield : Str.contains (render newline (event :: rest)) "data:" = true :=
    decide_eq_true ((Str.contains_of_startsWith_trim hdata).trans
      (line_infix_render mem_cons_self hline))
  have hblank : Str.contains (render newline (event :: rest)) "\r\n\r\n" = true ∨
      Str.contains (render newline (event :: rest)) "\n\n" = true := by
    have hinfix := infix_render (mem_cons_self (l := rest)) (infix_blank newline event)
    cases newline with
    | lf => exact .inr (decide_eq_true hinfix)
    | crlf => exact .inl (decide_eq_true hinfix)
  rcases hblank with h | h <;> simp [isSseData, hfield, h]

variable [External]

theorem parseSseEvents_render (newline : Newline) (events : List EventText) :
    parseSseEvents (render newline events) = events.map EventText.parsed := by
  have hempty : (Str.trim "").isEmpty := by decide
  rw [parseSseEvents, cleanChunkedContent_render, if_pos hempty, parseSseEventsFromChunk_render]

end AgentSight.Sse
