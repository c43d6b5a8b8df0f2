import AgentSight.Lib.ByteOffsets
import AgentSight.Json
import AgentSight.Text

/-!
# Scanning the script of a custom tool call

Codex logs a custom tool call as a script. `extract_js_string_fields` of `session/src/parser.rs`
looks in it for keys that are followed by a string literal, and `codex_custom_tool_calls` for the
tools that it calls; `codex_custom_tool_input` puts the two together. Both scan by byte offsets into
the text, and a slice at an offset inside a character is a panic.
-/

namespace AgentSight.Session

open ByteOffsets Str
open Json (Value)

/-- How a scan ends. `unfinished` is the loop that has not ended after a number of rounds. -/
inductive Outcome (α : Type) where
  | returned (a : α)
  | panicked
  | unfinished
  deriving DecidableEq

namespace Outcome

variable {α β : Type}

def bind (o : Outcome α) (f : α → Outcome β) : Outcome β :=
  match o with
  | returned a => f a
  | panicked => panicked
  | unfinished => unfinished

theorem bind_eq_returned {o : Outcome α} {f : α → Outcome β} {b : β} :
    o.bind f = returned b ↔ ∃ a, o = returned a ∧ f a = returned b := by
  cases o with
  | returned a => simp [bind]
  | panicked => simp [bind]
  | unfinished => simp [bind]

/-- A slice that may fail. -/
def ofSlice : Option α → Outcome α
  | some a => returned a
  | none => panicked

end Outcome

/-- `str::find` of a string: the offset of its first occurrence. -/
def strFind (pat text : List Char) : Option ℕ :=
  (splitOnceChars pat text).map fun (before, _) => byteLength before

def trimStart (text : List Char) : List Char := text.dropWhile isWhitespace

/-- A character of an identifier. -/
def isWordChar (ch : Char) : Bool := ch.isAlphanum || ch = '_'

/-- An apostrophe, a quotation mark or a backtick. -/
def isQuote (ch : Char) : Bool := ch = '\x27' || ch = '\x22' || ch = '\x60'

/-! ### String literals -/

def unescape (ch : Char) : Char :=
  if ch = 'n' then '\n' else if ch = 'r' then '\r' else if ch = 't' then '\t' else ch

/-- The loop of `parse_js_string` from an offset on. -/
def parseJsStringFrom (quote : Char) (index : ℕ) (escaped : Bool) (decoded : List Char) :
    List Char → Option (List Char × ℕ)
  | [] => none
  | ch :: rest =>
    if escaped then
      parseJsStringFrom quote (index + ch.utf8Size) false (decoded ++ [unescape ch]) rest
    else if ch = '\\' then parseJsStringFrom quote (index + ch.utf8Size) true decoded rest
    else if ch = quote then some (decoded, index + ch.utf8Size + quote.utf8Size)
    else parseJsStringFrom quote (index + ch.utf8Size) false (decoded ++ [ch]) rest

/-- The decoded string and the bytes of the literal, its opening quote included. -/
def parseJsString (raw : List Char) (quote : Char) : Option (List Char × ℕ) :=
  parseJsStringFrom quote 0 false [] raw

/-! ### Fields -/

structure FieldScan where
  offset : ℕ
  values : List (List Char)
  /-- The offsets that the scan went on from. Nothing reads them. -/
  visited : List ℕ
  deriving DecidableEq

/-- One round of the loop of `extract_js_string_fields`: `none` at its end. -/
def scanField (raw key : List Char) (scan : FieldScan) : Outcome (Option FieldScan) :=
  (Outcome.ofSlice (sliceFrom raw scan.offset)).bind fun here =>
  match strFind key here with
  | none => .returned none
  | some relative =>
    let start := scan.offset + relative
    (Outcome.ofSlice (sliceTo raw start)).bind fun front =>
    (Outcome.ofSlice (sliceFrom raw (start + byteLength key))).bind fun tail =>
    let visited := scan.visited ++ [start + byteLength key]
    let next := FieldScan.mk (start + byteLength key) scan.values visited
    if front.getLast?.any isWordChar || tail.head?.any isWordChar then .returned (some next)
    else
      match (strFind [':'] tail).filter (· ≤ 4) with
      | none => .returned (some next)
      | some colon =>
        (Outcome.ofSlice (sliceFrom tail (colon + 1))).bind fun rest =>
        let value := trimStart rest
        match value.head?.filter isQuote with
        | none => .returned (some next)
        | some quote =>
          (Outcome.ofSlice (sliceFrom value quote.utf8Size)).bind fun body =>
          match parseJsString body quote with
          | none => .returned (some next)
          | some (decoded, consumed) =>
            let offset := start + byteLength key + colon + 1 + consumed
            let values :=
              if decoded ≠ [] ∧ decoded ∉ scan.values then scan.values ++ [decoded]
              else scan.values
            .returned (some ⟨offset, values, scan.visited ++ [offset]⟩)

/-- The loop, for a number of rounds. -/
def scanFields (raw key : List Char) : ℕ → FieldScan → Outcome FieldScan
  | 0, _ => .unfinished
  | rounds + 1, scan =>
    (scanField raw key scan).bind fun next =>
    match next with
    | none => .returned scan
    | some scan => scanFields raw key rounds scan

/-- The scan for one key. Each round passes at least a byte. -/
def scanKey (raw key : List Char) (values : List (List Char)) : Outcome FieldScan :=
  scanFields raw key (byteLength raw + 2) ⟨0, values, []⟩

def extractJsStringFields (raw : List Char) (keys : List (List Char)) :
    Outcome (List (List Char)) :=
  keys.foldl (fun values key => values.bind fun values =>
    (scanKey raw key values).bind fun scan => .returned scan.values) (.returned [])

/-! ### Calls -/

/-- One round of the loop of `codex_custom_tool_calls`: `none` at its end. -/
def scanCall (raw : List Char) (offset : ℕ) (calls : List (List Char)) :
    Outcome (Option (ℕ × List (List Char))) :=
  (Outcome.ofSlice (sliceFrom raw offset)).bind fun here =>
  match strFind "tools.".toList here with
  | none => .returned none
  | some relative =>
    let start := offset + relative + byteLength "tools.".toList
    (Outcome.ofSlice (sliceFrom raw start)).bind fun tail =>
    let name := tail.takeWhile isWordChar
    (Outcome.ofSlice (sliceFrom tail (byteLength name))).bind fun rest =>
    let calls :=
      if name ≠ [] ∧ (trimStart rest).head? = some '(' then calls ++ [name] else calls
    let offset :=
      if name ≠ [] then start + byteLength name
      else
        match tail.head? with
        | some ch => start + ch.utf8Size
        | none => byteLength raw
    .returned (some (offset, calls))

def scanCalls (raw : List Char) : ℕ → ℕ × List (List Char) → Outcome (List (List Char))
  | 0, _ => .unfinished
  | rounds + 1, (offset, calls) =>
    (scanCall raw offset calls).bind fun next =>
    match next with
    | none => .returned calls
    | some next => scanCalls raw rounds next

def codexCustomToolCalls (raw : List Char) : Outcome (List (List Char)) :=
  scanCalls raw (byteLength raw + 2) (0, [])

/-! ### The input of a call -/

/-- `truncate_clean`. -/
def truncateClean (text : List Char) (limit : ℕ) : List Char :=
  let text := (" ".intercalate (splitWhitespace (String.ofList text))).toList
  if text.length ≤ limit then text else text.take (limit - 1) ++ ['.']

/-- The keys that `codex_custom_tool_input` scans for, one list for each scan. -/
def customToolKeys : List (List (List Char)) :=
  [["command".toList, "cmd".toList], ["file_path".toList, "path".toList], ["workdir".toList],
    ["task_name".toList], ["target".toList], ["message".toList], ["step".toList],
    ["status".toList]]

def textValue (chars : List Char) : Value := .string (String.ofList chars)

/-- The fields of the object, sorted by their keys. -/
def codexCustomToolInput (outerName raw : List Char) : Outcome (List Char × Value) :=
  (codexCustomToolCalls raw).bind fun nestedCalls =>
  let nestedName :=
    if contains (String.ofList raw) "Promise.all" || 1 < nestedCalls.length then
      "composite".toList
    else nestedCalls.head?.getD outerName
  (extractJsStringFields raw ["command".toList, "cmd".toList]).bind fun commands =>
  (extractJsStringFields raw ["file_path".toList, "path".toList]).bind fun paths =>
  (extractJsStringFields raw ["workdir".toList]).bind fun workdirs =>
  (extractJsStringFields raw ["task_name".toList]).bind fun taskNames =>
  (extractJsStringFields raw ["target".toList]).bind fun targets =>
  (extractJsStringFields raw ["message".toList]).bind fun messages =>
  let field (key : String) (values : List (List Char)) : List (String × Value) :=
    (values.head?.map fun value => (key, textValue value)).toList
  let command :=
    if commands ≠ [] then
      [("command", Value.string ("\n".intercalate (commands.map String.ofList)))]
    else []
  let fallback :=
    if commands = [] ∧ trim (String.ofList raw) ≠ "" then
      [("text", textValue (truncateClean raw 600))]
    else []
  let rest (plan : List (String × Value)) : Value :=
    .object (command ++ field "message" messages ++ field "path" paths ++ plan ++
      field "target" targets ++ field "task_name" taskNames ++ fallback ++
      field "workdir" workdirs)
  if nestedName = "update_plan".toList then
    (extractJsStringFields raw ["step".toList]).bind fun steps =>
    (extractJsStringFields raw ["status".toList]).bind fun statuses =>
    let plan := steps.zipIdx.map fun (step, index) =>
      Value.object
        [("status", textValue ((statuses[index]?).getD "pending".toList)), ("step", textValue step)]
    .returned (nestedName, rest [("plan", .array plan)])
  else .returned (nestedName, rest [])

end AgentSight.Session
