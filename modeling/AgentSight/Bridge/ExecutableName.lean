import AgentSight.Bridge.Metadata

/-!
# The name of an executable

`executable_basename` of `bridge/metadata.rs` is given a command line and answers with the last
component of its executable, past the environment assignments in front of it. The line is split at
white space, with no look at the quotes of the shell: a quoted value with a blank in it falls into
pieces, and the first of them that does not look like an assignment passes for the executable.

`argv_shape` is given the argument vector and answers with the class of each argument.
-/

namespace AgentSight.Bridge.Metadata

open Str List

/-! ### Command lines -/

/-- A name that the shell assigns to. -/
def isName : List Char → Bool
  | [] => false
  | c :: cs => (c == '_' || c.isAlpha) && cs.all fun c => c == '_' || c.isAlpha || c.isDigit

/-- An assignment in front of a command. The value is the text in the line, quotes included, and
nothing is asked of it. -/
structure Assignment where
  name : List Char
  value : List Char
  isName : isName name = true

def Assignment.text (assignment : Assignment) : List Char :=
  assignment.name ++ '=' :: assignment.value

/-- What separates the words of a line. -/
def isBlank (c : Char) : Bool := c == ' ' || c == '\t' || c == '\n'

/-- The text has the words in it, with blanks around each. -/
def Spells : List (List Char) → List Char → Prop
  | [], text => ∀ c ∈ text, isBlank c = true
  | word :: words, text => ∃ gap rest, text = gap ++ word ++ rest ∧ (∀ c ∈ gap, isBlank c = true) ∧
      (∀ c ∈ rest.head?, isBlank c = true) ∧ Spells words rest

/-- A command line: assignments, the executable and its arguments as they are quoted. -/
structure CommandLine where
  assignments : List Assignment
  executable : List Char
  arguments : List (List Char)
  text : List Char
  executable_ne : executable ≠ []
  executable_plain : ∀ c ∈ executable, isWhitespace c = false
  executable_not : isEnvAssignment (String.ofList executable) = false
  spells : Spells (assignments.map Assignment.text ++ executable :: arguments) text

/-- The last component of a path that may be shown: not empty and without `=`. -/
def lastComponent (word : String) : Option String :=
  if lastPart word '/' ≠ "" ∧ '=' ∉ (lastPart word '/').toList then some (lastPart word '/')
  else none

/-- What an argument is as an option, whatever it says. -/
structure OptionShape where
  dash : Bool
  digits : Bool
  path : Bool
  equals : Bool
  deriving DecidableEq, Repr

def optionShape (token : String) : OptionShape where
  dash := startsWith token "-"
  digits := !token.isEmpty && token.toList.all Char.isDigit
  path := containsChar token '/' || startsWith token "~" || startsWith token "."
  equals := containsChar token '='

/-- As many arguments of the same shapes, behind any executables. -/
def SameShape : List String → List String → Prop
  | [], [] => True
  | _ :: args, _ :: args' =>
    List.Forall₂ (fun arg arg' => optionShape arg = optionShape arg') args args'
  | _, _ => False

/-- The basename of a line is that of its executable, and the shape of an argument vector depends on
the shapes of the arguments only. -/
structure HidesArguments (line : CommandLine) : Prop where
  basename : executableBasename (String.ofList line.text) =
    lastComponent (String.ofList line.executable)
  shape : ∀ argv argv' : List String, SameShape argv argv' → argvShape argv = argvShape argv'

/-- The pieces of the assignments that are not assignments, with white space for the border of a
piece. -/
def foreignPieces (line : CommandLine) : List String :=
  (line.assignments.flatMap fun assignment =>
    splitWhitespace (String.ofList assignment.text)).filter (! isEnvAssignment ·)

/-- Where a value has a piece that is not an assignment, the first one ends as the executable
does. -/
def Unbroken (line : CommandLine) : Prop :=
  ∀ piece ∈ (foreignPieces line).head?,
    lastComponent piece = lastComponent (String.ofList line.executable)

/-! ### Pieces between white space -/

variable {cs gap rest text word : List Char} {words : List (List Char)} {line : CommandLine}

/-- `split_whitespace`, in characters. -/
def pieces (cs : List Char) : List (List Char) := (splitChars isWhitespace cs).filter (· ≠ [])

theorem splitWhitespace_ofList (cs : List Char) :
    splitWhitespace (String.ofList cs) = (pieces cs).map String.ofList := by
  rw [splitWhitespace, split, String.toList_ofList, filter_map]
  congr 1
  refine filter_congr fun part _ => ?_
  cases part <;> simp

theorem pieces_append_cons {c : Char} (hc : isWhitespace c = true) (cs rest : List Char) :
    pieces (cs ++ c :: rest) = pieces cs ++ pieces rest := by
  rw [pieces, splitChars_concat hc, filter_append, pieces, pieces]

theorem pieces_append_white (hgap : ∀ c ∈ gap, isWhitespace c = true) (rest : List Char) :
    pieces (gap ++ rest) = pieces rest := by
  induction gap with
  | nil => rfl
  | cons c gap ih =>
    rw [forall_mem_cons] at hgap
    have hfirst := pieces_append_cons hgap.1 [] (gap ++ rest)
    rw [ih hgap.2] at hfirst
    exact hfirst

theorem pieces_white (hgap : ∀ c ∈ gap, isWhitespace c = true) : pieces gap = [] := by
  simpa [pieces, splitChars] using pieces_append_white hgap []

theorem pieces_append (cs : List Char) (hrest : ∀ c ∈ rest.head?, isWhitespace c = true) :
    pieces (cs ++ rest) = pieces cs ++ pieces rest := by
  cases rest with
  | nil => simp [pieces, splitChars]
  | cons c rest =>
    have hc := hrest c rfl
    have hback := pieces_append_cons hc [] rest
    rw [pieces_append_cons hc, ← nil_append (c :: rest), hback]
    rfl

theorem pieces_plain (hne : word ≠ []) (hword : ∀ c ∈ word, isWhitespace c = false) :
    pieces word = [word] := by
  rw [pieces, splitChars_of_forall hword]
  simp [hne]

/-- Trimming takes no piece away. -/
theorem pieces_trim (cs : List Char) : pieces (trim (String.ofList cs)).toList = pieces cs := by
  have hfront := takeWhile_append_dropWhile (p := isWhitespace) (l := cs)
  have hback := takeWhile_append_dropWhile (p := isWhitespace)
    (l := (cs.dropWhile isWhitespace).reverse)
  generalize hmiddle : cs.dropWhile isWhitespace = middle at hfront hback
  have htrail : ∀ c ∈ (middle.reverse.takeWhile isWhitespace).reverse, isWhitespace c = true :=
    fun c hc => mem_takeWhile_imp (mem_reverse.mp hc)
  have hsplit : middle = (middle.reverse.dropWhile isWhitespace).reverse ++
      (middle.reverse.takeWhile isWhitespace).reverse := by
    rw [← reverse_append, hback, reverse_reverse]
  rw [trim, String.toList_ofList, String.toList_ofList, hmiddle]
  conv_rhs => rw [← hfront, pieces_append_white fun c hc => mem_takeWhile_imp hc, hsplit,
    pieces_append _ fun c hc => htrail c (mem_of_mem_head? hc), pieces_white htrail,
    append_nil]

theorem isWhitespace_of_isBlank {c : Char} (h : isBlank c = true) : isWhitespace c = true := by
  simp only [isBlank, Bool.or_eq_true, beq_iff_eq, or_assoc] at h
  obtain rfl | rfl | rfl := h <;> decide

/-- The pieces of a line are the pieces of its words. -/
theorem pieces_of_spells (h : Spells words text) : pieces text = words.flatMap pieces := by
  induction words generalizing text with
  | nil => exact pieces_white fun c hc => isWhitespace_of_isBlank (h c hc)
  | cons word words ih =>
    obtain ⟨gap, rest, rfl, hgap, hhead, hrest⟩ := h
    rw [flatMap_cons, append_assoc,
      pieces_append_white fun c hc => isWhitespace_of_isBlank (hgap c hc),
      pieces_append _ fun c hc => isWhitespace_of_isBlank (hhead c hc), ih hrest]

/-! ### The first piece -/

theorem executableBasename_eq (cs : List Char) : executableBasename (String.ofList cs) =
    ((splitWhitespace (String.ofList cs)).find? (! isEnvAssignment ·)).bind lastComponent := by
  have hpieces : splitWhitespace (trim (String.ofList cs)) =
      splitWhitespace (String.ofList cs) := by
    rw [← String.ofList_toList (s := trim (String.ofList cs)), splitWhitespace_ofList, pieces_trim,
      splitWhitespace_ofList]
  have hlast first : (if !(lastPart first '/').isEmpty &&
      !containsChar (lastPart first '/') '=' then some (lastPart first '/') else none) =
      lastComponent first := by
    simp [lastComponent, containsChar]
  simp only [executableBasename, hlast, ← hpieces]
  split_ifs with hempty
  · rw [String.isEmpty_iff] at hempty
    rw [hempty]
    rfl
  · rfl

theorem executableBasename_line (line : CommandLine) :
    executableBasename (String.ofList line.text) = lastComponent
      ((foreignPieces line).head?.getD (String.ofList line.executable)) := by
  have hexecutable : [String.ofList line.executable].find? (! isEnvAssignment ·) =
      some (String.ofList line.executable) := by
    simp [line.executable_not]
  have hpieces : splitWhitespace (String.ofList line.text) =
      (line.assignments.flatMap fun assignment =>
        splitWhitespace (String.ofList assignment.text)) ++ ([String.ofList line.executable] ++
        (line.arguments.flatMap pieces).map String.ofList) := by
    simp only [splitWhitespace_ofList, pieces_of_spells line.spells, flatMap_append,
      flatMap_cons, flatMap_map, map_append, map_flatMap,
      pieces_plain line.executable_ne line.executable_plain, map_singleton]
  rw [executableBasename_eq, hpieces, find?_append, find?_append, hexecutable,
    foreignPieces, head?_filter]
  cases List.find? _ _ <;> rfl

/-! ### Shapes -/

theorem tokenShape_congr {token token' : String} (h : optionShape token = optionShape token') :
    tokenShape 1 token = tokenShape 1 token' := by
  rw [optionShape, optionShape, OptionShape.mk.injEq] at h
  obtain ⟨hdash, hdigits, hpath, hequals⟩ := h
  simp [tokenShape, hdash, hdigits, hpath, hequals]

/-- The first token is the executable, whatever it says. -/
theorem argvShape_cons (executable : String) (args : List String) :
    argvShape (executable :: args) = argvShape ("" :: args) := rfl

theorem argvShape_of_sameShape {argv argv' : List String} (h : SameShape argv argv') :
    argvShape argv = argvShape argv' := by
  match argv, argv', h with
  | [], [], _ => rfl
  | executable :: args, executable' :: args', h =>
    rw [argvShape_cons, argvShape_cons executable']
    exact argvShape_congr (.cons rfl (Forall₂.imp (fun _ _ => tokenShape_congr) h))

/-- **When the name of an executable hides the arguments.** -/
theorem executable_name_hides_iff (line : CommandLine) : HidesArguments line ↔ Unbroken line := by
  have hbasename := executableBasename_line line
  constructor
  · rintro ⟨hshown, -⟩ piece hpiece
    rwa [hbasename, hpiece] at hshown
  · intro hunbroken
    refine ⟨?_, fun _ _ => argvShape_of_sameShape⟩
    rw [hbasename]
    cases hhead : (foreignPieces line).head? with
    | none => rfl
    | some piece => exact hunbroken piece hhead

/-- `FOO="a b" cmd` -/
def quotedBlank : CommandLine where
  assignments := [⟨"FOO".toList, "\"a b\"".toList, by decide⟩]
  executable := "cmd".toList
  arguments := []
  text := "FOO=\"a b\" cmd".toList
  executable_ne := by decide
  executable_plain := by decide +kernel
  executable_not := by decide +kernel
  spells := ⟨[], " cmd".toList, by decide +kernel, by decide +kernel, by rintro _ ⟨⟩; rfl,
    [' '], [], by decide, by decide, nofun, fun _ hc => nomatch hc⟩

/-- A quoted blank brings the end of a value forward. -/
theorem executable_name_shows_value : ¬ ∀ line : CommandLine, HidesArguments line := by
  intro h
  have hshown : executableBasename (String.ofList quotedBlank.text) = some "b\"" := by
    decide +kernel
  have hbasename := (h quotedBlank).basename
  rw [hshown] at hbasename
  revert hbasename
  decide +kernel

end AgentSight.Bridge.Metadata
