import AgentSight.Sse.Parser

/-!
# Events line by line

`parse_sse_events_from_chunk` cuts its text into blocks at pairs of line feeds and each block into
lines. It reads the same events as one pass over the lines that ends an event at every blank line,
so a further blank line beside a blank line, at the start or at the end changes nothing.
-/

namespace AgentSight.Sse

open Json (Value)
open List

/-- The lines of a text whose line ends are line feeds. -/
def lineChars (cs : List Char) : List (List Char) := Str.splitChars (· == '\n') cs

def normalize (cs : List Char) : List Char := Str.replacePair '\r' '\n' '\n' cs

/-! ### Lines of a text -/

theorem lineChars_append (cs rest : List Char) :
    lineChars (cs ++ '\n' :: rest) = lineChars cs ++ lineChars rest :=
  Str.splitChars_concat (by decide) cs rest

variable (cs : List Char)

theorem lineChars_newline : lineChars ('\n' :: cs) = [] :: lineChars cs :=
  lineChars_append [] cs

variable {line : List Char}

theorem lineChars_of_notMem (h : '\n' ∉ line) : lineChars line = [line] :=
  Str.splitChars_of_forall fun c hc => by simpa using ne_of_mem_of_not_mem hc h

theorem lineChars_ne_nil : lineChars cs ≠ [] := Str.splitChars_ne_nil

/-- The first line of a text and what follows it. -/
theorem exists_first_line :
    ∃ line, '\n' ∉ line ∧ (cs = line ∨ ∃ rest, cs = line ++ '\n' :: rest) := by
  induction cs with
  | nil => exact ⟨[], not_mem_nil, .inl rfl⟩
  | cons c cs ih =>
    by_cases hc : c = '\n'
    · exact ⟨[], not_mem_nil, .inr ⟨cs, by rw [hc]; rfl⟩⟩
    · obtain ⟨line, hline, hcs⟩ := ih
      refine ⟨c :: line, not_mem_cons_of_ne_of_not_mem (Ne.symm hc) hline, ?_⟩
      obtain rfl | ⟨rest, rfl⟩ := hcs
      · exact .inl rfl
      · exact .inr ⟨rest, rfl⟩

/-! ### One pass over the lines -/

theorem trim_eq_empty {line : String} (h : ∀ c ∈ line.toList, Str.isWhitespace c = true) :
    Str.trim line = "" := by
  simp [Str.trim, dropWhile_eq_nil_iff.mpr h]

section

variable (fields : Fields)

theorem readLine_blank {line : String}
    (h : ∀ c ∈ line.toList, Str.isWhitespace c = true) : fields.readLine line = fields := by
  simp [Fields.readLine, trim_eq_empty h, Str.stripPrefix, Str.startsWith]

/-- A field has a colon. -/
theorem readLine_of_notMem {line : String} (h : ':' ∉ line.toList) :
    fields.readLine line = fields := by
  have hnone name (hname : ':' ∈ name.toList) :
      Str.stripPrefix (Str.trim line) name = none := by
    cases hstrip : Str.stripPrefix (Str.trim line) name with
    | none => rfl
    | some rest =>
      have hbegins := Str.startsWith_iff.mp (Str.stripPrefix_eq_some hstrip)
      exact absurd ((Str.infix_trim line).subset (hbegins.subset hname)) h
  simp [Fields.readLine, hnone]

theorem readLine_nil : fields.readLine (String.ofList []) = fields :=
  readLine_blank fields (by simp)

theorem foldl_readLine_blank {lines : List String}
    (h : ∀ line ∈ lines, ∀ c ∈ line.toList, Str.isWhitespace c = true) :
    lines.foldl Fields.readLine fields = fields := by
  induction lines with
  | nil => rfl
  | cons line lines ih =>
    rw [forall_mem_cons] at h
    rw [foldl_cons, readLine_blank fields h.1, ih h.2]

end

theorem splitPair_single {rest first : List Char} {blocks : List (List Char)}
    (hrest : rest.head? ≠ some '\n') (h : Str.splitPair '\n' '\n' rest = first :: blocks) :
    Str.splitPair '\n' '\n' ('\n' :: rest) = ('\n' :: first) :: blocks := by
  cases rest with
  | nil =>
    obtain ⟨rfl, rfl⟩ := cons.inj h
    rfl
  | cons c rest =>
    have hc : c ≠ '\n' := fun heq => hrest (by rw [heq]; rfl)
    simp [Str.splitPair, hc, h, Str.onto]

section

variable [External]

/-- The event of a block, if it is one. -/
def Fields.emit (fields : Fields) : Option SSEEvent :=
  if fields.toEvent.event.isSome || fields.toEvent.data.isSome then some fields.toEvent else none

/-- The event of a block whose first lines gave `fields`. -/
def readFrom (fields : Fields) (block : List Char) : Option SSEEvent :=
  (((lineChars block).map String.ofList).foldl Fields.readLine fields).emit

/-- A pass over lines, with what the current block has given so far. -/
def readStream (fields : Fields) : List (List Char) → List SSEEvent
  | [] => fields.emit.toList
  | line :: lines =>
    if line = [] then fields.emit.toList ++ readStream {} lines
    else readStream (fields.readLine (String.ofList line)) lines

theorem emit_empty : ({} : Fields).emit = none := rfl

/-- A block is read line by line; one of white space gives nothing. -/
theorem readBlock_eq (block : List Char) : readBlock (String.ofList block) = readFrom {} block := by
  unfold readBlock readFrom
  split
  · next hblank =>
    have hwhite : ∀ c ∈ block, Str.isWhitespace c = true := by
      intro c hc
      by_contra hnot
      rw [Bool.not_eq_true] at hnot
      have hmem := Str.mem_trim (s := String.ofList block) (by simpa using hc) hnot
      rw [String.isEmpty_iff.mp hblank] at hmem
      exact not_mem_nil hmem
    rw [foldl_readLine_blank, emit_empty]
    intro line hline c hc
    obtain ⟨part, hpart, rfl⟩ := mem_map.mp hline
    exact hwhite c (Str.mem_of_mem_splitChars hpart c (by simpa using hc))
  · simp only [readLines, Fields.emit, Str.split, String.toList_ofList]
    rfl

variable (fields : Fields)

theorem readFrom_line (h : '\n' ∉ line) :
    readFrom fields line = (fields.readLine (String.ofList line)).emit := by
  rw [readFrom, lineChars_of_notMem h, map_singleton, foldl_cons, foldl_nil]

theorem readFrom_append (h : '\n' ∉ line)
    (block : List Char) : readFrom fields (line ++ '\n' :: block) =
      readFrom (fields.readLine (String.ofList line)) block := by
  rw [readFrom, lineChars_append, lineChars_of_notMem h, singleton_append, map_cons,
    foldl_cons, ← readFrom]

/-- A line that is not blank, or the first of a block, is read. -/
theorem readStream_cons (line : List Char) (lines : List (List Char))
    (h : line = [] → fields = {}) :
    readStream fields (line :: lines) =
      readStream (fields.readLine (String.ofList line)) lines := by
  by_cases hempty : line = []
  · obtain rfl := h hempty
    rw [hempty]
    rfl
  · rw [readStream, if_neg hempty]

/-- A blank line ends the block. -/
theorem readStream_blank (line : List Char) (lines : List (List Char)) :
    readStream fields (line :: [] :: lines) =
      (fields.readLine (String.ofList line)).emit.toList ++ readStream {} lines := by
  by_cases hempty : line = []
  · rw [hempty, readLine_nil]
    rfl
  · rw [readStream, if_neg hempty, readStream, if_pos rfl]

/-- A block goes on at a line feed that no other follows. -/
theorem readStream_eq (cs : List Char) (h : cs.head? = some '\n' → fields = {}) :
    ∃ first blocks, Str.splitPair '\n' '\n' cs = first :: blocks ∧
      readStream fields (lineChars cs) =
        (readFrom fields first).toList ++ blocks.filterMap (readFrom {}) := by
  induction hlength : cs.length using Nat.strong_induction_on generalizing cs fields with
  | _ n ih =>
  subst hlength
  obtain ⟨line, hline, hcs | ⟨rest, rfl⟩⟩ := exists_first_line cs
  · subst hcs
    refine ⟨cs, [], Str.splitPair_of_notMem hline, ?_⟩
    rw [lineChars_of_notMem hline, readFrom_line fields hline]
    by_cases hempty : cs = []
    · rw [hempty, readLine_nil, readStream, readStream, emit_empty]
      simp
    · rw [readStream, if_neg hempty, readStream]
      simp
  · have hlines : lineChars (line ++ '\n' :: rest) = line :: lineChars rest := by
      rw [lineChars_append, lineChars_of_notMem hline]
      rfl
    by_cases hblank : rest.head? = some '\n'
    · -- A blank line follows: the block ends.
      obtain ⟨rest, rfl⟩ : ∃ rest', rest = '\n' :: rest' := head?_eq_some_iff.mp hblank
      obtain ⟨first, blocks, hblocks, hstream⟩ := ih rest.length (by simp; omega) {} rest
        (fun _ => rfl) rfl
      have hsplit := Str.splitPair_append hline (Str.splitPair_pair (a := '\n') (b := '\n') rest)
      refine ⟨line, first :: blocks, by rw [hsplit, hblocks, append_nil], ?_⟩
      rw [hlines, lineChars_newline, readStream_blank, hstream, readFrom_line fields hline]
      cases hfirst : readFrom {} first <;> simp [hfirst]
    · obtain ⟨first, blocks, hblocks, hstream⟩ := ih rest.length (by simp; omega)
        (fields.readLine (String.ofList line)) rest (fun hhead => absurd hhead hblank) rfl
      have hsplit := Str.splitPair_append hline (splitPair_single hblank hblocks)
      refine ⟨line ++ '\n' :: first, blocks, hsplit, ?_⟩
      rw [hlines, readFrom_append fields hline, ← hstream, readStream_cons]
      rintro rfl
      exact h rfl

/-- The events of a text are those of one pass over its lines. -/
theorem parse_eq_readStream (text : String) :
    parseSseEventsFromChunk text = readStream {} (lineChars (normalize text.toList)) := by
  obtain ⟨first, blocks, hblocks, hstream⟩ :=
    readStream_eq {} (normalize text.toList) fun _ => rfl
  have hread : readBlock ∘ String.ofList = readFrom {} := by
    funext block
    rw [Function.comp_apply, readBlock_eq]
  rw [hstream, parseSseEventsFromChunk]
  unfold normalize at hblocks
  rw [hblocks, filterMap_map, hread]
  cases hfirst : readFrom {} first <;> simp [hfirst]

/-! ### Blank lines that change nothing -/

theorem readStream_append_blank (lines : List (List Char)) :
    readStream fields (lines ++ [[]]) = readStream fields lines := by
  induction lines generalizing fields with
  | nil => simp [readStream, emit_empty]
  | cons line lines ih =>
    rw [cons_append, readStream, readStream]
    split
    · rw [ih]
    · exact ih _

theorem readStream_double (front back : List (List Char)) :
    readStream fields (front ++ [] :: [] :: back) = readStream fields (front ++ [] :: back) := by
  induction front generalizing fields with
  | nil => simp [readStream, emit_empty]
  | cons line front ih =>
    rw [cons_append, cons_append, readStream, readStream]
    split
    · rw [ih]
    · exact ih _

/-- The events of a text whose line ends are line feeds. -/
def readText (cs : List Char) : List SSEEvent := readStream {} (lineChars cs)

theorem readText_start (cs : List Char) : readText ('\n' :: cs) = readText cs := by
  rfl

theorem readText_stop (cs : List Char) : readText (cs ++ ['\n']) = readText cs := by
  rw [readText, lineChars_append, lineChars_of_notMem not_mem_nil, readStream_append_blank]
  rfl

theorem readText_double (front back : List Char) :
    readText (front ++ '\n' :: '\n' :: '\n' :: back) =
      readText (front ++ '\n' :: '\n' :: back) := by
  simp only [readText, lineChars_append, lineChars_newline]
  exact readStream_double {} (lineChars front) (lineChars back)

/-- A way to read texts that further blank lines beside a blank line, at the start or at the end do
not change. -/
structure IgnoresBlanks {α : Type*} (read : List Char → α) : Prop where
  start (cs : List Char) : read ('\n' :: cs) = read cs
  stop (cs : List Char) : read (cs ++ ['\n']) = read cs
  double (front back : List Char) : read (front ++ '\n' :: '\n' :: '\n' :: back) =
    read (front ++ '\n' :: '\n' :: back)

theorem ignoresBlanks_readText : IgnoresBlanks readText :=
  ⟨readText_start, readText_stop, readText_double⟩

/-- A text without a colon has no event. -/
theorem readText_of_notMem {cs : List Char} (h : ':' ∉ cs) : readText cs = [] := by
  have hlines : ∀ line ∈ lineChars cs, ':' ∉ line := fun line hline hmem =>
    h (Str.mem_of_mem_splitChars hline _ hmem)
  unfold readText
  generalize lineChars cs = lines at hlines
  induction lines with
  | nil => rfl
  | cons line lines ih =>
    rw [forall_mem_cons] at hlines
    rw [readStream, readLine_of_notMem {} (by simpa using hlines.1), ih hlines.2, emit_empty]
    simp

end

end AgentSight.Sse
