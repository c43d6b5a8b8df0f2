import AgentSight.Lib.WrappingSum
import AgentSight.Session.ScriptScan

/-!
# The records of a transcript

The functions of `session/src/parser.rs` that read one record of a Claude or Codex transcript: the
text of a message, whether it starts a prompt, the usage it reports, the ids that it is known by and
the plan it sets. A record is a JSON value, and a floating point number its exact rational value.
-/

namespace AgentSight.Session

open Str
open Json (Value)

/-- What the parser takes from other crates. -/
class Crates where
  /-- `serde_json::from_str`. -/
  fromStr : List Char → Option Value
  /-- `Value::to_string`. -/
  toJson : Value → String
  /-- The SHA-256 digest of a text, in hexadecimal. -/
  sha256 : String → String
  /-- `DateTime::parse_from_rfc3339`, in milliseconds. -/
  parseRfc3339 : String → Option ℤ

/-! ### Fields -/

def jsonI64 (value : Value) (key : String) : Int64 :=
  .ofInt (((value.get key).bind (·.asI64)).getD 0)

def jsonU64 (value : Value) (key : String) : ℕ := ((value.get key).bind (·.asU64)).getD 0

/-- A string at a pointer. -/
def strAt (value : Value) (tokens : List String) : Option String :=
  (value.pointer tokens).bind (·.asStr)

def typeOf (value : Value) : Option String := value.strField "type"

def tsMsFromEvent [Crates] (value : Value) : Option ℤ :=
  (value.strField "timestamp").bind Crates.parseRfc3339

def rfc3339Seconds [Crates] (value : String) : Option ℚ :=
  (Crates.parseRfc3339 value).map fun millis => millis / 1000

def hexDigit (c : Char) : Option ℕ :=
  if c.isDigit then some (c.toNat - '0'.toNat)
  else if 'a' ≤ c ∧ c ≤ 'f' then some (c.toNat - 'a'.toNat + 10)
  else if 'A' ≤ c ∧ c ≤ 'F' then some (c.toNat - 'A'.toNat + 10)
  else none

/-- `u64::from_str_radix` at 16. -/
def fromStrRadix16 (text : List Char) : Option ℕ :=
  let digits := match text with
    | '+' :: digits => digits
    | digits => digits
  if digits = [] then none
  else ((digits.mapM hexDigit).map (·.foldl (fun n digit => 16 * n + digit) 0)).filter (· < 2 ^ 64)

def uuid7Seconds (value : String) : Option ℚ :=
  match split value (· = '-') with
  | high :: low :: version :: _ =>
    if startsWith version "7" then
      (fromStrRadix16 (high ++ low).toList).map fun millis => millis / 1000
    else none
  | _ => none

/-! ### Texts -/

/-- The first `n` digits of the digest. -/
def shortHash [Crates] (text : String) (n : ℕ) : String :=
  String.ofList ((Crates.sha256 text).toList.take n)

/-- `truncate_clean` of a string. -/
def truncated (text : String) (limit : ℕ) : String :=
  String.ofList (truncateClean text.toList limit)

def maxDetailTextBytes : ℕ := 64 * 1024

/-- The longest front of the text of at most a number of bytes. -/
def frontWithin : ℕ → List Char → List Char
  | _, [] => []
  | bytes, c :: text =>
    if c.utf8Size ≤ bytes then c :: frontWithin (bytes - c.utf8Size) text else []

def boundedDetailText (text : String) : String :=
  if text.utf8ByteSize ≤ maxDetailTextBytes then text
  else String.ofList (frontWithin maxDetailTextBytes text.toList) ++
    "\n[… message truncated by AgentSight …]"

def hostContextPrefixes : List String :=
  ["<environment_context", "<recommended_plugins", "<app-context", "<skills_instructions",
    "<permissions instructions", "<collaboration_mode", "<subagent_notification"]

def cleanPromptText (text : String) : Option String :=
  let text := trim text
  let text := trim (((stripPrefix text "<session>").bind (stripSuffix · "</session>")).getD text)
  let request := if startsWith text "<in-app-browser-context" then
      (rsplitOnce text "## My request:").map fun (_, request) => trim request
    else some text
  request.bind fun text =>
    if hostContextPrefixes.any (startsWith text ·) then none
    else if text = "" then none
    else some text

/-- The text of one item of a content. -/
def itemText (item : Value) : Option String :=
  match item.asStr with
  | some text => some text
  | none =>
    let typ := (typeOf item).getD ""
    if typ = "tool_result" ∨ typ = "tool_use" ∨ typ = "function_call" then none
    else if typ = "thinking" then (item.strField "thinking").filter (· ≠ "")
    else ((item.get "text").or (item.get "content")).bind (·.asStr)

def contentToText (value : Value) : String :=
  match value with
  | .string s => s
  | .array items => "\n".intercalate (items.filterMap itemText)
  | .object fields =>
    ((((Value.object fields).get "text").or ((Value.object fields).get "content")).bind
      (·.asStr)).getD ""
  | _ => ""

def isToolBlock (value : Value) : Bool :=
  typeOf value = some "tool_use" || typeOf value = some "function_call" ||
    typeOf value = some "tool_result"

mutual

def collectLocalText : Value → List String
  | .string text => [text]
  | .array items => collectLocalItems items
  | .object fields =>
    if isToolBlock (.object fields) then []
    else collectLocalField "text" fields ++ collectLocalField "content" fields ++
      collectLocalField "message" fields ++ collectLocalField "input" fields ++
      collectLocalField "prompt" fields
  | _ => []

def collectLocalItems : List Value → List String
  | [] => []
  | item :: items => collectLocalText item ++ collectLocalItems items

/-- The texts of the field of a name. -/
def collectLocalField (key : String) : List (String × Value) → List String
  | [] => []
  | (name, value) :: fields =>
    if name = key then collectLocalText value else collectLocalField key fields

end

def localMessagePreview (value : Value) : Option String :=
  cleanPromptText ("\n".intercalate (collectLocalText value))

/-! ### Claude -/

def claudeIsToolResult (content : Value) : Bool :=
  content.asArray.any fun items =>
    !items.isEmpty && items.all fun item => typeOf item = some "tool_result"

def isClaudeToolResult (obj : Value) : Bool :=
  (obj.get "toolUseResult").isSome || (obj.get "tool_use_result").isSome ||
    ((obj.pointer ["message", "content"]).bind (·.asArray)).any fun items =>
      items.any fun item => typeOf item = some "tool_result"

def attachmentTypes : List String := ["attachment", "document", "file", "image"]

def claudeUserStartsPrompt (obj content : Value) (text : String)
    (activePromptId : Option String) : Bool :=
  if (obj.get "isMeta").bind (·.asBool) = some true ∨ (obj.get "sourceToolUseID").isSome ∨
      (obj.get "sourceToolAssistantUUID").isSome ∨
      ["attachment", "attachments", "image", "images"].any (fun key => (obj.get key).isSome) ∨
      content.asArray.any (fun items => !items.isEmpty && items.all fun item =>
        (typeOf item).any (· ∈ attachmentTypes)) ∨
      ["<local-command-caveat>", "<local-command-stdout>", "<system-reminder>",
        "<ide_opened_file>", "<ide_selection>"].any (startsWith text ·) then
    false
  else
    match (obj.strField "promptId").filter (· ≠ "") with
    | some promptId => activePromptId ≠ some promptId
    | none => activePromptId = none

def claudeUsageKey (obj : Value) : String :=
  ((((obj.get "requestId").or (obj.pointer ["message", "id"])).or (obj.get "uuid")).bind
    (·.asStr)).getD "usage"

def claudeSourceCompletionId (obj : Value) : String :=
  ((((obj.pointer ["message", "id"]).or (obj.get "requestId")).or (obj.get "uuid")).bind
    (·.asStr)).getD ""

/-! ### Usage -/

/-- The counts are `i64`, whose sums wrap around in a build without overflow checks. -/
structure TokenUsage where
  inputTokens : Int64 := 0
  outputTokens : Int64 := 0
  cacheCreationTokens : Int64 := 0
  cacheReadTokens : Int64 := 0
  totalTokens : Int64 := 0
  deriving DecidableEq

def TokenUsage.add (u : TokenUsage) (input output cacheCreation cacheRead total : Int64) :
    TokenUsage where
  inputTokens := u.inputTokens + input
  outputTokens := u.outputTokens + output
  cacheCreationTokens := u.cacheCreationTokens + cacheCreation
  cacheReadTokens := u.cacheReadTokens + cacheRead
  totalTokens := u.totalTokens +
    if 0 < total then total else input + output + cacheCreation + cacheRead

def codexTokenUsage (value : Value) : TokenUsage :=
  let input := max (jsonI64 value "input_tokens") 0
  let output := max (jsonI64 value "output_tokens") 0
  let cache := max (jsonI64 value "cached_input_tokens") 0
  let input := input - cache
  { inputTokens := input, outputTokens := output, cacheCreationTokens := 0,
    cacheReadTokens := cache, totalTokens := input + output + cache }

/-! ### Plans -/

structure PlanStep where
  step : String
  status : String
  deriving DecidableEq

/-- `str::trim_matches`. -/
def trimMatches (p : Char → Bool) (text : String) : String :=
  String.ofList ((text.toList.dropWhile p).reverse.dropWhile p).reverse

def semanticTaskLabel (text : String) : String :=
  let selected := trim text
  let selected :=
    match rsplitOnce selected "## My request for Codex:" with
    | some (_, request) => request
    | none => (((splitOnce selected "<objective>").bind fun (_, rest) =>
        splitOnce rest "</objective>").map (·.1)).getD selected
  let label := truncated (trimMatches (fun c => c = '\x27' || c = '\x22') selected) 120
  if label = "" then "unnamed task" else label

/-- `str::to_lowercase`, as far as it decides whether a text is one of the words below: of the
letters that are not ASCII, only the Kelvin sign becomes one that is. -/
def lowercased (text : String) : String :=
  String.ofList (text.toList.map fun c => if c = '\u212a' then 'k' else c.toLower)

def continuationPrompts : List String :=
  ["继续", "继续做", "去做", "开始", "嗯", "好", "好的", "continue", "go on", "proceed", "do it", "ok", "okay"]

def isContinuationPrompt (text : String) : Bool := lowercased (trim text) ∈ continuationPrompts

/-- The plan of a task. Which of its steps is active matters to no function here. -/
structure SemanticTaskStack where
  root : Option String := none
  plan : List PlanStep := []
  deriving DecidableEq

/-- A new prompt clears the plan, and a prompt to go on does not. -/
def SemanticTaskStack.observeUser (stack : SemanticTaskStack) (text : String) : SemanticTaskStack :=
  let label := semanticTaskLabel text
  if stack.root.isSome ∧ isContinuationPrompt label then stack
  else { root := some label, plan := [] }

def planStep (item : Value) : Option PlanStep :=
  (((item.get "step").or (item.get "content")).bind (·.asStr)).map fun step =>
    { step := semanticTaskLabel step, status := (item.strField "status").getD "pending" }

/-- The steps that an input sets, if it sets any. -/
def planSteps (input : Value) : Option (List PlanStep) :=
  (((input.get "plan").or (input.get "todos")).bind (·.asArray)).map (·.filterMap planStep)

def SemanticTaskStack.observePlan (stack : SemanticTaskStack) (input : Value) : SemanticTaskStack :=
  match planSteps input with
  | some steps => { stack with plan := steps }
  | none => stack

def isPlanTool (name : String) : Bool :=
  toAsciiLowercase name ∈ ["update_plan", "todowrite", "todo_write"]

def parseToolArgs [Crates] (value : Value) : Value :=
  match value.asStr with
  | some text => (Crates.fromStr text.toList).getD (.object [("text", .string text)])
  | none => value

end AgentSight.Session
