import AgentSight.Session.Transcript

/-!
# Reading a Cursor transcript

`parse_cursor_jsonl` of `session/src/parser.rs`: the records of a Cursor transcript name prompts,
tools and responses, but neither models nor usage nor times. The only clock is the one that Cursor
wraps a prompt in. After the transcript those of its sub-agents are read, and their work counts for
the prompt that delegated it.

As for the other agents, the events of tools, the files and the working directory are left out.
-/

namespace AgentSight.Session

open Str
open Json (Value)

/-- `str::parse::<i64>`. -/
def parseI64 (text : String) : Option ℤ :=
  let value := match text.toList with
    | '-' :: digits => (parseDigits digits).map fun n => -(n : ℤ)
    | '+' :: digits => (parseDigits digits).map fun n => (n : ℤ)
    | digits => (parseDigits digits).map fun n => (n : ℤ)
  value.filter fun n => -2 ^ 63 ≤ n ∧ n < 2 ^ 63

def cursorTextOf (record : Value) : String :=
  match (record.pointer ["message", "content"]).bind (·.asArray) with
  | some parts =>
    trim ("\n".intercalate
      ((parts.filter fun part => typeOf part = some "text").filterMap (·.strField "text")))
  | none => ""

def cursorToolUses (record : Value) : List Value :=
  Transcript.toolUses ((record.pointer ["message", "content"]).getD .null)

/-- The time in the wrapper of a prompt. `parseStamp` is `NaiveDateTime::parse_from_str` for the
format of Cursor, in milliseconds. -/
def cursorWrapperTsMs (parseStamp : String → Option ℤ) (text : String) : Option ℤ :=
  (splitOnce text "<timestamp>").bind fun (_, rest) =>
  (splitOnce rest "</timestamp>").bind fun (raw, _) =>
  let raw := trim raw
  let (stamp, offsetHours) := match rsplitOnce raw "(UTC" with
    | some (stamp, hours) => (trim stamp, (parseI64 (trim (trimEndMatches hours ')'))).getD 0)
    | none => (raw, 0)
  (parseStamp stamp).map fun naive => naive - offsetHours * 3600000

def cursorUserQuery (text : String) : String :=
  match splitOnce text "<user_query>" with
  | some (_, rest) => trim (((splitOnce rest "</user_query>").map (·.1)).getD rest)
  | none => trim text

/-- The prompt of a sub-agent that a tool use delegates to. -/
def cursorDelegation (part : Value) : Option String :=
  if part.strField "name" = some "Task" then
    (((((part.get "input").bind (·.get "prompt")).bind (·.asStr)).filter (trim · ≠ ""))).map trim
  else none

/-- What is known while a transcript is absorbed. -/
structure CursorRun where
  session : Transcript
  currentTsMs : Option ℤ := none
  delegations : List (ℕ × String) := []

inductive CursorScope where
  | parent
  | subagent
  deriving DecidableEq

namespace CursorRun

variable [Crates] (parseStamp : String → Option ℤ) (scope : CursorScope) (r : CursorRun)

/-- A user record. That of a sub-agent holds no prompt of the user. -/
def user (record : Value) : CursorRun :=
  let raw := cursorTextOf record
  let r := { r with currentTsMs := (cursorWrapperTsMs parseStamp raw).or r.currentTsMs }
  let text := cursorUserQuery raw
  if scope = .parent ∧ text ≠ "" then
    let session := r.session.upsertPrompt r.currentTsMs text
    { r with session := { session with
        promptPreview := session.promptPreview.or (some (truncated text 180)) } }
  else r

def toolUse (part : Value) : CursorRun :=
  { r with
    session := match (part.strField "name").filter (· ≠ "") with
      | some name => r.session.addTool name
      | none => r.session
    delegations :=
      if scope = .parent then
        r.delegations ++ ((cursorDelegation part).map (r.session.currentPromptIndex, ·)).toList
      else r.delegations }

def response (text : String) : LlmResponse where
  tsMs := r.currentTsMs
  promptIndex := r.session.currentPromptIndex
  model := ""
  sourceId := ""
  textHash := shortHash text 12
  text := boundedDetailText text
  preview := truncated text 140
  inputTokens := 0
  outputTokens := 0
  cacheTokens := 0
  totalTokens := 0
  responsePhase := ""

def assistant (record : Value) : CursorRun :=
  let r := (cursorToolUses record).foldl (toolUse scope) r
  let text := cursorTextOf record
  if text = "" then r else { r with session := r.session.logResponse (r.response text) }

/-- One turn of the loop of `cursor_absorb_transcript`. -/
def absorb (record : Value) : CursorRun :=
  -- The end of a turn marks events of tools only.
  if typeOf record = some "turn_ended" then r
  else
    match record.strField "role" with
    | some "user" => r.user parseStamp scope record
    | some "assistant" => r.assistant scope record
    | _ => r

end CursorRun

section

variable [Crates]

/-- The record of a line, which is trimmed first. -/
def cursorRecord (line : List Char) : Option Value :=
  let line := trim (String.ofList line)
  if line = "" then none else Crates.fromStr line.toList

def cursorRecordsOf (content : List Char) : List Value := (lines content).filterMap cursorRecord

def cursorFirstUserText (records : List Value) : Option String :=
  records.findSome? fun record =>
    if record.strField "role" = some "user" then
      (some (cursorTextOf record)).filter (· ≠ "")
    else none

def cursorDelegatingPromptIndex (records : List Value) (delegations : List (ℕ × String)) :
    Option ℕ :=
  if delegations = [] then none
  else
    (cursorFirstUserText records).bind fun opening =>
      (delegations.find? fun (_, prompt) => contains opening prompt).map (·.1)

/-- What `parse_cursor_jsonl` knows of a transcript and those of its sub-agents. -/
def cursorTranscript (parseStamp : String → Option ℤ) (children : List (List Char))
    (content : List Char) : Transcript :=
  let parent := (cursorRecordsOf content).foldl (CursorRun.absorb parseStamp .parent)
    { session := {} }
  children.foldl (fun s child =>
    let records := cursorRecordsOf child
    let index := (cursorDelegatingPromptIndex records parent.delegations).getD
      parent.session.currentPromptIndex
    (records.foldl (CursorRun.absorb parseStamp .subagent)
      { session := { s with currentPromptIndex := index } }).session) parent.session

end

/-- Nothing was used, and neither a prompt nor a model is known. -/
def Transcript.showsNothing (s : Transcript) : Bool :=
  let modelUsage := if s.modelUsage.isEmpty then s.claudeMessageModels else s.modelUsage
  (totalUsage modelUsage).totalTokens = 0 && s.tools.isEmpty && s.promptPreview = none &&
    s.model = none

theorem Transcript.finish_eq_none {s : Transcript} : s.finish = none ↔ s.showsNothing = true := by
  unfold Transcript.finish Transcript.showsNothing
  simp [and_assoc]

/-- `finish_with_events`. -/
def Transcript.finishWithEvents (s : Transcript) : Option AgentSession :=
  if s.showsNothing then none
  else
    some
      { model := s.model, usage := totalUsage s.modelUsage, modelUsage := s.modelUsage
        tools := s.tools, promptPreview := s.promptPreview, prompts := s.prompts
        llmResponses := s.llmResponses, plan := [] }

def parseCursorJsonl [Crates] (parseStamp : String → Option ℤ) (children : List (List Char))
    (content : List Char) : Option AgentSession :=
  (cursorTranscript parseStamp children content).finishWithEvents

end AgentSight.Session
