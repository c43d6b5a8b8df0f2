import AgentSight.View.Canonical

/-!
# Reading server-sent events

The parsing half of `analyzers/sse_processor.rs`: how a captured chunk is recognised as
server-sent events, how chunked transfer framing is taken off it, and how its text becomes a
list of `SSEEvent`.
-/

namespace AgentSight.Sse

open Json (Value)

structure SSEEvent where
  event : Option String
  data : Option String
  id : Option String
  parsedData : Option Value
  rawData : Option String
  deriving DecidableEq

def isSseData (data : String) : Bool :=
  let hasSsePatterns := Str.contains data "event:" && Str.contains data "data:"
  let hasSseContentType := Str.contains data "text/event-stream"
  let hasChunkedSse := Str.contains data "Transfer-Encoding: chunked" &&
    (Str.contains data "event:" || Str.contains data "data:")
  let hasSseDataOnly := Str.contains data "data:" &&
    (Str.contains data "\r\n\r\n" || Str.contains data "\n\n")
  hasSsePatterns || hasSseContentType || hasChunkedSse || hasSseDataOnly

/-! ### One event block -/

/-- What the lines of a block have given so far. -/
structure Fields where
  event : Option String := none
  id : Option String := none
  dataLines : List String := []

def Fields.readLine (fields : Fields) (line : String) : Fields :=
  let line := Str.trim line
  match Str.stripPrefix line "event:" with
  | some rest => { fields with event := some (Str.trim rest) }
  | none =>
    match Str.stripPrefix line "data:" with
    | some rest => { fields with dataLines := fields.dataLines ++ [Str.trim rest] }
    | none =>
      match Str.stripPrefix line "id:" with
      | some rest => { fields with id := some (Str.trim rest) }
      | none => fields

section

variable [External]

def Fields.toEvent (fields : Fields) : SSEEvent :=
  if fields.dataLines.isEmpty then
    { event := fields.event, data := none, id := fields.id, parsedData := none, rawData := none }
  else
    let combinedData := "\n".intercalate fields.dataLines
    let parsed := External.fromStr combinedData
    { event := fields.event
      data := some combinedData
      id := fields.id
      parsedData := parsed
      rawData := if parsed.isSome then none else some combinedData }

def readLines (lines : List String) : SSEEvent := (lines.foldl Fields.readLine {}).toEvent

/-- One iteration of the loop over the blocks of a chunk. -/
def readBlock (block : String) : Option SSEEvent :=
  if (Str.trim block).isEmpty then none
  else
    let event := readLines (Str.split block (· == '\n'))
    if event.event.isSome || event.data.isSome then some event else none

def parseSseEventsFromChunk (chunkContent : String) : List SSEEvent :=
  let normalized := Str.replacePair '\r' '\n' '\n' chunkContent.toList
  ((Str.splitPair '\n' '\n' normalized).map String.ofList).filterMap readBlock

end

/-! ### Chunked transfer framing -/

def isAsciiHexdigit (c : Char) : Bool :=
  c.isDigit || ('a' ≤ c && c ≤ 'f') || ('A' ≤ c && c ≤ 'F')

/-- The value of a hexadecimal digit. -/
def hexValue (c : Char) : ℕ :=
  if c.isDigit then c.toNat - 48 else if 'a' ≤ c then c.toNat - 87 else c.toNat - 55

/-- The size a line announces when it has the shape of a chunk-size line:
`u32::from_str_radix(line, 16).unwrap_or(0)`. -/
def chunkSize (line : String) : Option ℕ :=
  let line := Str.trim line
  if !line.isEmpty && line.toList.all isAsciiHexdigit then
    let size := line.toList.foldl (fun n c => 16 * n + hexValue c) 0
    some (if size < 2 ^ 32 then size else 0)
  else none

/-- The loop of `clean_chunked_content` over the lines, with whether the line before the
current one announced a chunk. -/
def cleanLines (chunkSize : String → Option ℕ) (announced : Bool) : List String → List String
  | [] => []
  | line :: rest =>
    if announced then line :: cleanLines chunkSize false rest
    else
      match chunkSize line with
      | none => cleanLines chunkSize false rest
      | some 0 => []
      | some _ => cleanLines chunkSize true rest

def cleanChunkedContent (content : String) : String :=
  "\n".intercalate
    (cleanLines chunkSize false ((Str.splitPair '\r' '\n' content.toList).map String.ofList))

variable [External]

def parseSseEvents (data : String) : List SSEEvent :=
  let cleanData := cleanChunkedContent data
  parseSseEventsFromChunk (if (Str.trim cleanData).isEmpty then data else cleanData)

/-! ### A bare usage fragment -/

/-- The scan of `extract_json_object_after_key` from the opening brace on: the characters up to
the brace that closes it. -/
def scanObject (depth : ℕ) (inString escape : Bool) : List Char → Option (List Char)
  | [] => none
  | c :: cs =>
    if inString then
      let (inString, escape) :=
        if escape then (true, false)
        else if c == '\\' then (true, true)
        else if c == '"' then (false, false)
        else (true, false)
      (scanObject depth inString escape cs).map (c :: ·)
    else if c == '"' then (scanObject depth true escape cs).map (c :: ·)
    else if c == '{' then (scanObject (depth + 1) false escape cs).map (c :: ·)
    else if c == '}' then
      if depth - 1 = 0 then some [c] else (scanObject (depth - 1) false escape cs).map (c :: ·)
    else (scanObject depth false escape cs).map (c :: ·)

/-- What is left of `cs` from the first occurrence of `pat` on. -/
def findChars (pat : List Char) : List Char → Option (List Char)
  | [] => if pat.isEmpty then some [] else none
  | c :: cs => if pat.isPrefixOf (c :: cs) then some (c :: cs) else findChars pat cs

def extractJsonObjectAfterKey (text key : String) : Option String := do
  let fromKey ← findChars key.toList text.toList
  let object ← findChars ['{'] fromKey
  (scanObject 0 false false object).map String.ofList

/-- The characters of a string literal up to the quote that closes it. -/
def scanString (escape : Bool) : List Char → Option (List Char)
  | [] => none
  | c :: cs =>
    if escape then (scanString false cs).map (c :: ·)
    else if c == '\\' then (scanString true cs).map (c :: ·)
    else if c == '"' then some []
    else (scanString false cs).map (c :: ·)

def extractJsonStringField (text key : String) : Option String := do
  let keyPattern := "\"" ++ key ++ "\""
  let fromKey ← findChars keyPattern.toList text.toList
  let afterColon ← findChars [':'] (fromKey.drop keyPattern.toList.length)
  match (afterColon.drop 1).dropWhile Str.isWhitespace with
  | '"' :: rest =>
    let raw ← scanString false rest
    (External.fromStr ("\"" ++ String.ofList raw ++ "\"")).bind (·.asStr)
  | _ => none

def parseUsageMetadataFragment (data : String) : Option SSEEvent := do
  let usage ← extractJsonObjectAfterKey data "\"usageMetadata\""
  let usageJson ← External.fromStr usage
  let hasTokens := (usageJson.get "promptTokenCount").isSome ||
    (usageJson.get "candidatesTokenCount").isSome || (usageJson.get "totalTokenCount").isSome
  if !hasTokens then none
  let model := (extractJsonStringField data "modelVersion").or (extractJsonStringField data "model")
  -- the map iterates in key order
  let parsed := (model.toList.map fun model => ("modelVersion", Value.string model)) ++
    [("usageMetadata", usageJson)]
  return { event := some "message_stop", data := none, id := none,
           parsedData := some (.object parsed), rawData := none }

end AgentSight.Sse
