import AgentSight.Http.Event

/-!
# HTTP/1 messages

`parse_http_message` finds the start line, the header fields and the body of a message by looking
for line ends. A message that is rendered and parsed again has its start line and its body, whatever
the body is but blank, and of each header name the last value, without the blanks around it.
-/

namespace AgentSight.Http

open Str (splitPair splitOnceChars)
open List

/-! ### The parser -/

/-- The case mapping of the standard library. -/
class UnicodeCase where
  /-- `str::to_lowercase`. -/
  toLowercase : String → String
  toLowercase_ascii (s : String) : (∀ c ∈ s.toList, c.toNat < 128) →
    toLowercase s = Str.toAsciiLowercase s

inductive HTTPMessageType where
  | request
  | response
  deriving DecidableEq

structure HTTPMessage where
  messageType : HTTPMessageType
  firstLine : String
  headers : Headers
  body : Option String
  rawData : String
  method : Option String
  path : Option String
  protocol : Option String
  statusCode : Option ℕ
  statusText : Option String
  deriving DecidableEq

/-- `splitn(3, ' ')`. -/
def splitn3 (line : List Char) : List (List Char) :=
  match splitOnceChars [' '] line with
  | none => [line]
  | some (first, rest) =>
    match splitOnceChars [' '] rest with
    | none => [first, rest]
    | some (second, third) => [first, second, third]

def methods : List String := ["GET", "POST", "PUT", "DELETE", "HEAD", "OPTIONS", "PATCH"]

/-- What the first line says, in a message without headers and body. -/
def parseFirstLine (data : String) (firstLine : List Char) : Option HTTPMessage :=
  let message : HTTPMessage :=
    { messageType := .request, firstLine := String.ofList firstLine, headers := [], body := none,
      rawData := data, method := none, path := none, protocol := none, statusCode := none,
      statusText := none }
  if Str.startsWith (String.ofList firstLine) "HTTP/" then
    let message := { message with messageType := .response }
    match (splitn3 firstLine).map String.ofList with
    | protocol :: code :: rest =>
      some { message with
        statusCode := Str.parseUnsigned (2 ^ 16 - 1) code
        statusText := rest.head?
        protocol := some protocol }
    | _ => some message
  else
    match (splitn3 firstLine).map String.ofList with
    | [method, path, protocol] =>
      if method ∈ methods ∧ Str.startsWith protocol "HTTP/" then
        some { message with
          method := some method
          path := some path
          protocol := some protocol }
      else none
    | _ => none

section Headers

variable [UnicodeCase]

/-- One line of the headers. -/
def insertLine (headers : Headers) (line : List Char) : Headers :=
  match splitOnceChars [':'] line with
  | none => headers
  | some (key, value) =>
    headers.insert (UnicodeCase.toLowercase (Str.trim (String.ofList key)))
      (Str.trim (String.ofList value))

/-- The lines up to an empty one, and the lines after it if there is one. -/
def parseHeaders (headers : Headers) : List (List Char) → Headers × Option (List (List Char))
  | [] => (headers, none)
  | line :: lines =>
    if line = [] then (headers, some lines) else parseHeaders (insertLine headers line) lines

def bodyOf (lines : List (List Char)) : Option String :=
  if lines = [] then none
  else
    let content := String.ofList (['\r', '\n'].intercalate lines)
    if Str.trim content = "" then none else some content

def parseHttpMessage (data : String) : Option HTTPMessage :=
  match splitPair '\r' '\n' data.toList with
  | [] => none
  | firstLine :: lines =>
    (parseFirstLine data firstLine).map fun message =>
      let (headers, bodyLines) := parseHeaders [] lines
      { message with headers, body := bodyLines.bind bodyOf }

end Headers

/-! ### Messages -/

/-- A character of a token. -/
def isTokenChar (c : Char) : Bool :=
  c.isAlphanum || c ∈ "!#$%&'*+-.^_\x60|~".toList

/-- A header field: a token, and a value that has no line end. -/
structure Field where
  name : String
  value : String
  token : ∀ c ∈ name.toList, isTokenChar c = true
  inLine : '\r' ∉ value.toList

/-- The first line of a request. -/
structure RequestLine where
  method : String
  path : String
  protocol : String
  token : ∀ c ∈ method.toList, isTokenChar c = true
  path_word : ' ' ∉ path.toList ∧ '\r' ∉ path.toList
  version : Str.startsWith protocol "HTTP/" = true
  inLine : '\r' ∉ protocol.toList

/-- The first line of a response. -/
structure StatusLine where
  protocol : String
  code : ℕ
  reason : Option String
  version : Str.startsWith protocol "HTTP/" = true
  protocol_word : ' ' ∉ protocol.toList ∧ '\r' ∉ protocol.toList
  code_lt : code < 2 ^ 16
  inLine : ∀ text ∈ reason, '\r' ∉ text.toList

inductive StartLine where
  | request (line : RequestLine)
  | response (line : StatusLine)

def StartLine.text : StartLine → List Char
  | request line => line.method.toList ++ ' ' :: (line.path.toList ++ ' ' :: line.protocol.toList)
  | response line => line.protocol.toList ++ ' ' :: (Nat.toDigits 10 line.code ++
      match line.reason with
      | none => []
      | some reason => ' ' :: reason.toList)

def Field.text (field : Field) : List Char := field.name.toList ++ ':' :: ' ' :: field.value.toList

structure Message where
  start : StartLine
  fields : List Field
  body : String

def Message.text (message : Message) : List Char :=
  message.start.text ++ '\r' :: '\n' ::
    (message.fields.flatMap (fun field => field.text ++ ['\r', '\n']) ++
      '\r' :: '\n' :: message.body.toList)

/-- The start line, the last value of each name, and a body that is not blank. -/
structure Recovers (message : Message) (parsed : HTTPMessage) : Prop where
  start : match message.start with
    | .request line => parsed.messageType = .request ∧ parsed.method = some line.method ∧
        parsed.path = some line.path ∧ parsed.protocol = some line.protocol ∧
        parsed.statusCode = none ∧ parsed.statusText = none
    | .response line => parsed.messageType = .response ∧ parsed.statusCode = some line.code ∧
        parsed.statusText = line.reason ∧ parsed.protocol = some line.protocol ∧
        parsed.method = none ∧ parsed.path = none
  headers (key : String) : parsed.headers.get key =
    ((message.fields.filter fun field => Str.toAsciiLowercase field.name = key).getLast?).map
      fun field => Str.trim field.value
  body : parsed.body = if Str.trim message.body = "" then none else some message.body
  firstLine : parsed.firstLine = String.ofList message.start.text
  rawData : parsed.rawData = String.ofList message.text

/-! ### Tokens -/

theorem notMem_of_isTokenChar {cs : List Char} (h : ∀ c ∈ cs, isTokenChar c = true) {d : Char}
    (hd : isTokenChar d = false) : d ∉ cs := by
  intro hmem
  rw [h d hmem] at hd
  cases hd

theorem lt_of_isTokenChar {c : Char} (h : isTokenChar c = true) : c.toNat < 128 := by
  rw [isTokenChar, Bool.or_eq_true] at h
  rcases h with h | h
  · change (decide (_ ∧ _) || (_ && _) || (_ && _)) = true at h
    simp only [Bool.or_eq_true, Bool.and_eq_true, decide_eq_true_eq, ge_iff_le,
      UInt32.le_iff_toNat_le] at h
    simp at h
    omega
  · have hascii : ∀ d ∈ "!#$%&'*+-.^_\x60|~".toList, d.toNat < 128 := by decide
    exact hascii c (of_decide_eq_true h)

theorem isWhitespace_of_isTokenChar {c : Char} (h : isTokenChar c = true) :
    Str.isWhitespace c = false := by
  rw [isTokenChar, Bool.or_eq_true] at h
  rcases h with h | h
  · exact Str.isWhitespace_of_isAlphanum h
  · have hprintable : ∀ d ∈ "!#$%&'*+-.^_\x60|~".toList, Str.isWhitespace d = false := by decide
    exact hprintable c (of_decide_eq_true h)

/-! ### Lines -/

/-- A line and the end of it. -/
theorem splitPair_line {line : List Char} (h : '\r' ∉ line) (rest : List Char) :
    splitPair '\r' '\n' (line ++ '\r' :: '\n' :: rest) = line :: splitPair '\r' '\n' rest := by
  rw [Str.splitPair_append h (Str.splitPair_pair rest), append_nil]

theorem Field.notMem_text (field : Field) : '\r' ∉ field.text := by
  have hname : '\r' ∉ field.name.toList := notMem_of_isTokenChar field.token (by decide)
  simp [Field.text, hname, field.inLine]

theorem StartLine.notMem_text (start : StartLine) : '\r' ∉ start.text := by
  cases start with
  | request line =>
    have hmethod : '\r' ∉ line.method.toList := notMem_of_isTokenChar line.token (by decide)
    simp [StartLine.text, hmethod, line.path_word.2, line.inLine]
  | response line =>
    have hcode : '\r' ∉ Nat.toDigits 10 line.code := Str.notMem_toDigits (by decide) _
    have hreason := line.inLine
    cases hcase : line.reason with
    | none => simp [StartLine.text, line.protocol_word.2, hcode, hcase]
    | some reason =>
      rw [hcase] at hreason
      simp [StartLine.text, line.protocol_word.2, hcode, hcase, hreason reason rfl]

/-- The lines of a message are those of its start and its fields, an empty one, and those of its
body. -/
theorem splitPair_text (message : Message) :
    splitPair '\r' '\n' message.text = message.start.text ::
      (message.fields.map Field.text ++ [] :: splitPair '\r' '\n' message.body.toList) := by
  have hfields (fields : List Field) : splitPair '\r' '\n'
      (fields.flatMap (fun field => field.text ++ ['\r', '\n']) ++
        '\r' :: '\n' :: message.body.toList) =
      fields.map Field.text ++ [] :: splitPair '\r' '\n' message.body.toList := by
    induction fields with
    | nil => exact Str.splitPair_pair _
    | cons field fields ih =>
      have hline := splitPair_line field.notMem_text
        (fields.flatMap (fun field => field.text ++ ['\r', '\n']) ++
          '\r' :: '\n' :: message.body.toList)
      rw [ih] at hline
      simpa using hline
  rw [Message.text, splitPair_line message.start.notMem_text, hfields]

/-! ### Header maps -/

theorem Headers.get_cons (name value key : String) (headers : Headers) :
    Headers.get ((name, value) :: headers) key =
      if key = name then some value else headers.get key := by
  rw [Headers.get]
  by_cases h : key = name
  · simp [h]
  · have hne : (name == key) = false := by simpa using Ne.symm h
    simp [h, hne, Headers.get]

theorem Headers.get_insert (headers : Headers) (name value key : String) :
    (headers.insert name value).get key = if key = name then some value else headers.get key := by
  induction headers with
  | nil => exact Headers.get_cons name value key []
  | cons entry headers ih =>
    obtain ⟨k, v⟩ := entry
    rw [Headers.insert]
    by_cases hlt : name < k
    · rw [if_pos hlt, Headers.get_cons]
    · rw [if_neg hlt]
      by_cases heq : name = k
      · rw [if_pos heq, Headers.get_cons, Headers.get_cons, heq]
        split_ifs <;> rfl
      · rw [if_neg heq, Headers.get_cons, Headers.get_cons, ih]
        by_cases hkey : key = k
        · rw [if_pos hkey, if_pos hkey, if_neg fun hname => heq (hname.symm.trans hkey)]
        · rw [if_neg hkey, if_neg hkey]

section Parse

variable [UnicodeCase]

theorem Field.insertLine (field : Field) (headers : Headers) : insertLine headers field.text =
      headers.insert (Str.toAsciiLowercase field.name) (Str.trim field.value) := by
  have hcolon : ':' ∉ field.name.toList := notMem_of_isTokenChar field.token (by decide)
  have hname : Str.trim field.name = field.name :=
    Str.trim_eq_self fun c hc => isWhitespace_of_isTokenChar (field.token c hc)
  have hlower : UnicodeCase.toLowercase field.name = Str.toAsciiLowercase field.name :=
    UnicodeCase.toLowercase_ascii _ fun c hc => lt_of_isTokenChar (field.token c hc)
  have hvalue : Str.trim (String.ofList (' ' :: field.value.toList)) = Str.trim field.value := by
    simp [Str.trim, Str.isWhitespace]
  rw [Http.insertLine, Field.text, Str.splitOnceChars_append hcolon]
  dsimp only
  rw [String.ofList_toList, hname, hlower, hvalue]

/-- The fields are inserted one after the other, up to the empty line. -/
theorem parseHeaders_fields (fields : List Field) (headers : Headers) (lines : List (List Char)) :
    parseHeaders headers (fields.map Field.text ++ [] :: lines) =
      (fields.foldl (fun headers field =>
        headers.insert (Str.toAsciiLowercase field.name) (Str.trim field.value)) headers,
        some lines) := by
  induction fields generalizing headers with
  | nil => rfl
  | cons field fields ih =>
    have hne : field.text ≠ [] := by simp [Field.text]
    rw [map_cons, cons_append, parseHeaders, if_neg hne, ih, field.insertLine]
    rfl

omit [UnicodeCase] in
/-- Of fields with one name the last stays. -/
theorem get_foldl_insert (fields : List Field) (headers : Headers) (key : String) :
    (fields.foldl (fun headers field =>
      headers.insert (Str.toAsciiLowercase field.name) (Str.trim field.value)) headers).get key =
      (((fields.filter fun field => Str.toAsciiLowercase field.name = key).getLast?).map
        fun field => Str.trim field.value).or (headers.get key) := by
  induction fields generalizing headers with
  | nil => rfl
  | cons field fields ih =>
    rw [foldl_cons, ih, Headers.get_insert, filter_cons]
    by_cases hkey : Str.toAsciiLowercase field.name = key
    · rw [if_pos hkey.symm, if_pos (by simpa using hkey), getLast?_cons]
      cases (fields.filter fun field => Str.toAsciiLowercase field.name = key).getLast? <;> rfl
    · simp [hkey, Ne.symm hkey]

omit [UnicodeCase] in
theorem bodyOf_body (body : String) : bodyOf (splitPair '\r' '\n' body.toList) =
      if Str.trim body = "" then none else some body := by
  rw [bodyOf, if_neg Str.splitPair_ne_nil, Str.intercalate_splitPair]
  rw [String.ofList_toList]

omit [UnicodeCase] in
theorem parseUnsigned_toDigits {n : ℕ} (h : n < 2 ^ 16) :
    Str.parseUnsigned (2 ^ 16 - 1) (String.ofList (Nat.toDigits 10 n)) = some n := by
  have hdigits : ∀ c ∈ Nat.toDigits 10 n, c.isDigit = true := fun c hc =>
    Nat.isDigit_of_mem_toDigits (by decide) (by decide) hc
  have hvalue : (Nat.toDigits 10 n).foldl (fun n c => 10 * n + (c.toNat - 48)) 0 = n := by
    have hofDigits : Nat.ofDigitChars 10 (Nat.toDigits 10 n) 0 = n := by simp
    exact hofDigits
  have hparse : Str.parseDigits (Nat.toDigits 10 n) = some n := by
    rw [Str.parseDigits, hvalue]
    simp [all_eq_true.mpr hdigits, Nat.toDigits_ne_nil]
  have hle : n ≤ 2 ^ 16 - 1 := by omega
  rw [Str.parseUnsigned, String.toList_ofList]
  split
  · next cs hplus =>
    have hsign := hdigits '+' (by rw [hplus]; exact mem_cons_self)
    cases hsign
  · rw [hparse, Option.filter_some, if_pos (decide_eq_true hle)]

omit [UnicodeCase] in
theorem splitn3_two {first second : List Char} (hfirst : ' ' ∉ first) (hsecond : ' ' ∉ second) :
    splitn3 (first ++ ' ' :: second) = [first, second] := by
  simp [splitn3, Str.splitOnceChars_append hfirst, Str.splitOnceChars_of_notMem hsecond]

omit [UnicodeCase] in
theorem splitn3_three {first second : List Char} (hfirst : ' ' ∉ first) (hsecond : ' ' ∉ second)
    (third : List Char) :
    splitn3 (first ++ ' ' :: (second ++ ' ' :: third)) = [first, second, third] := by
  simp [splitn3, Str.splitOnceChars_append hfirst, Str.splitOnceChars_append hsecond]

/-! ### Parsing messages -/

omit [UnicodeCase] in
theorem startsWith_ofList {text : List Char} {pat : String} :
    Str.startsWith (String.ofList text) pat = true ↔ pat.toList <+: text := by
  have htext : (String.ofList text).toList = text := String.toList_ofList
  rw [Str.startsWith_iff, htext]

omit [UnicodeCase] in
theorem parseFirstLine_request (data : String) (line : RequestLine) (h : line.method ∈ methods) :
    parseFirstLine data (StartLine.request line).text =
      some { messageType := .request, firstLine := String.ofList (StartLine.request line).text,
             headers := [], body := none, rawData := data, method := some line.method,
             path := some line.path, protocol := some line.protocol, statusCode := none,
             statusText := none } := by
  have hspace : ' ' ∉ line.method.toList := notMem_of_isTokenChar line.token (by decide)
  have hslash : '/' ∉ line.method.toList := notMem_of_isTokenChar line.token (by decide)
  have hstart : Str.startsWith (String.ofList (StartLine.request line).text) "HTTP/" = false := by
    rw [Bool.eq_false_iff, ne_eq, startsWith_ofList]
    intro hversion
    have hmethod : line.method.toList ++ [' '] <+: (StartLine.request line).text :=
      ⟨line.path.toList ++ ' ' :: line.protocol.toList, by simp [StartLine.text]⟩
    rcases prefix_or_prefix_of_prefix hversion hmethod with hle | hle
    · have hmem : '/' ∈ line.method.toList ++ [' '] := hle.subset (by decide)
      simp [hslash] at hmem
    · have hmem : ' ' ∈ "HTTP/".toList := hle.subset (by simp)
      revert hmem
      decide
  rw [parseFirstLine]
  rw [hstart, StartLine.text, splitn3_three hspace line.path_word.1]
  simp [h, line.version]

omit [UnicodeCase] in
theorem parseFirstLine_response (data : String) (line : StatusLine) :
    parseFirstLine data (StartLine.response line).text =
      some { messageType := .response, firstLine := String.ofList (StartLine.response line).text,
             headers := [], body := none, rawData := data, method := none, path := none,
             protocol := some line.protocol, statusCode := some line.code,
             statusText := line.reason } := by
  have hcode : ' ' ∉ Nat.toDigits 10 line.code := Str.notMem_toDigits (by decide) _
  have hstart : Str.startsWith (String.ofList (StartLine.response line).text) "HTTP/" = true := by
    rw [startsWith_ofList]
    exact (Str.startsWith_iff.mp line.version).trans (prefix_append _ _)
  rw [parseFirstLine]
  rw [hstart, StartLine.text]
  cases hreason : line.reason with
  | none =>
    rw [append_nil, splitn3_two line.protocol_word.1 hcode]
    simp only [map_cons, map_nil, parseUnsigned_toDigits line.code_lt,
      String.ofList_toList]
    rfl
  | some reason =>
    rw [splitn3_three line.protocol_word.1 hcode]
    simp only [map_cons, map_nil, parseUnsigned_toDigits line.code_lt,
      String.ofList_toList]
    rfl

/-- **Messages are parsed as they are rendered.** -/
theorem parseHttpMessage_text (message : Message)
    (h : ∀ line, message.start = .request line → line.method ∈ methods) :
    ∃ parsed, parseHttpMessage (String.ofList message.text) = some parsed ∧
      Recovers message parsed := by
  rw [parseHttpMessage, String.toList_ofList, splitPair_text]
  dsimp only
  rw [parseHeaders_fields]
  have hheaders := get_foldl_insert message.fields []
  cases hstart : message.start with
  | request line =>
    rw [parseFirstLine_request _ line (h line hstart)]
    refine ⟨_, rfl, ?_, fun key => ?_, bodyOf_body message.body, ?_, rfl⟩
    · simp [hstart]
    · rw [hheaders]
      cases (message.fields.filter fun field => Str.toAsciiLowercase field.name = key).getLast? <;>
        rfl
    · rw [hstart]
  | response line =>
    rw [parseFirstLine_response]
    refine ⟨_, rfl, ?_, fun key => ?_, bodyOf_body message.body, ?_, rfl⟩
    · simp [hstart]
    · rw [hheaders]
      cases (message.fields.filter fun field => Str.toAsciiLowercase field.name = key).getLast? <;>
        rfl
    · rw [hstart]

end Parse

/-! ### Messages on which more is asked for -/

section Example

/-- ASCII letters in lower case. -/
@[reducible] def asciiCase : UnicodeCase where
  toLowercase := Str.toAsciiLowercase
  toLowercase_ascii _ _ := rfl

local instance : UnicodeCase := asciiCase

/-- A request line of HTTP/1.1 with a method that is a token. -/
def requestOf (method : String) (h : ∀ c ∈ method.toList, isTokenChar c = true) : StartLine :=
  .request { method, path := "/", protocol := "HTTP/1.1", token := h, path_word := by decide,
             version := by decide, inLine := by decide }

def cookie (value : String) (h : '\r' ∉ value.toList) : Field where
  name := "Cookie"
  value
  token := by decide
  inLine := h

/-- A body with line ends, an empty line and what looks like a field. -/
def postLines : Message where
  start := requestOf "POST" (by decide)
  fields := [cookie "a" (by decide)]
  body := "x: y\r\n\r\nz\r\n"

theorem parseHttpMessage_postLines :
    ∃ parsed, parseHttpMessage (String.ofList postLines.text) = some parsed ∧
      Recovers postLines parsed :=
  parseHttpMessage_text postLines fun line hline => by
    cases hline
    decide

/-- A method the parser does not take. -/
def connect : Message where
  start := requestOf "CONNECT" (by decide)
  fields := []
  body := ""

/-- Two fields of one name, the second with a blank after its value, and a blank body. -/
def twoCookies : Message where
  start := requestOf "GET" (by decide)
  fields := [cookie "a" (by decide), cookie "b " (by decide)]
  body := "\r\n"

/-- Not every method is taken; the first of two values, blanks around a value and a blank body are
not kept. -/
theorem parseHttpMessage_connect_twoCookies : parseHttpMessage (String.ofList connect.text) = none ∧
      (parseHttpMessage (String.ofList twoCookies.text)).map
        (fun parsed => (parsed.headers, parsed.body)) = some ([("cookie", "b")], none) := by
  decide +kernel

end Example

end AgentSight.Http
