import AgentSight.View.Canonical

/-!
# HTTP events

`HTTPEvent` of `analyzers/protocol_events.rs`, the header maps of the HTTP parser and the byte
and string conversions its events go through.
-/

namespace AgentSight.Http

open Json (Value)
open View (Event)

/-! ### UTF-8 -/

def isContinuation (b : UInt8) : Bool := 0x80 ≤ b && b ≤ 0xBF

/-- The code point of a leading byte's bits and the continuation bytes after it. -/
def codePoint (lead : ℕ) (rest : List UInt8) : Char :=
  Char.ofNat (rest.foldl (fun n b => n * 64 + b.toNat % 64) lead)

/-- The first character of a text that is not empty, or `none` for a maximal invalid part, and
what follows it. -/
def decodeChar (b : UInt8) (rest : List UInt8) : Option Char × List UInt8 :=
  if b < 0x80 then (some (Char.ofNat b.toNat), rest)
  else if 0xC2 ≤ b && b ≤ 0xDF then
    match rest with
    | c :: rest =>
      if isContinuation c then (some (codePoint (b.toNat % 32) [c]), rest) else (none, c :: rest)
    | [] => (none, [])
  else if 0xE0 ≤ b && b ≤ 0xEF then
    let low : UInt8 := if b = 0xE0 then 0xA0 else 0x80
    let high : UInt8 := if b = 0xED then 0x9F else 0xBF
    match rest with
    | c :: rest =>
      if low ≤ c && c ≤ high then
        match rest with
        | d :: rest =>
          if isContinuation d then (some (codePoint (b.toNat % 16) [c, d]), rest)
          else (none, d :: rest)
        | [] => (none, [])
      else (none, c :: rest)
    | [] => (none, [])
  else if 0xF0 ≤ b && b ≤ 0xF4 then
    let low : UInt8 := if b = 0xF0 then 0x90 else 0x80
    let high : UInt8 := if b = 0xF4 then 0x8F else 0xBF
    match rest with
    | c :: rest =>
      if low ≤ c && c ≤ high then
        match rest with
        | d :: rest =>
          if isContinuation d then
            match rest with
            | e :: rest =>
              if isContinuation e then (some (codePoint (b.toNat % 8) [c, d, e]), rest)
              else (none, e :: rest)
            | [] => (none, [])
          else (none, d :: rest)
        | [] => (none, [])
      else (none, c :: rest)
    | [] => (none, [])
  else (none, rest)

/-- The characters and invalid parts of a text. Each takes a byte, so the length is fuel
enough. -/
def decodeChars : ℕ → List UInt8 → List (Option Char)
  | 0, _ | _, [] => []
  | fuel + 1, b :: rest =>
    let (char, rest) := decodeChar b rest
    char :: decodeChars fuel rest

/-- `String::from_utf8_lossy`. -/
def fromUtf8Lossy (bytes : List UInt8) : String :=
  String.ofList ((decodeChars bytes.length bytes).map (·.getD (Char.ofNat 0xFFFD)))

/-- `ssl_json_string_to_bytes`. -/
def sslJsonStringToBytes (data : String) : List UInt8 :=
  data.toList.flatMap fun c =>
    if c.toNat ≤ 0xFF then [UInt8.ofNat c.toNat] else String.utf8EncodeChar c

/-! ### Hexadecimal text -/

def hexDigit (n : ℕ) : Char := Char.ofNat (if n < 10 then 48 + n else 87 + n)

/-- `hex::encode`. -/
def hexEncode (bytes : List UInt8) : String :=
  String.ofList (bytes.flatMap fun b => [hexDigit (b.toNat / 16), hexDigit (b.toNat % 16)])

/-! ### Header maps -/

/-- A `HashMap<String, String>`. Nothing observes its iteration order but the JSON it is
serialized to, which is in key order, so it stands as its entries in key order. -/
abbrev Headers := List (String × String)

namespace Headers

def get (headers : Headers) (name : String) : Option String :=
  (headers.find? (·.1 == name)).map (·.2)

def insert (name value : String) : Headers → Headers
  | [] => [(name, value)]
  | (k, v) :: rest =>
    if name < k then (name, value) :: (k, v) :: rest
    else if name = k then (name, value) :: rest
    else (k, v) :: insert name value rest

/-- `entry(name).or_insert(value)`. -/
def orInsert (headers : Headers) (name value : String) : Headers :=
  if (get headers name).isSome then headers else insert name value headers

def extend (headers other : Headers) : Headers :=
  other.foldr (fun (name, value) headers => insert name value headers) headers

/-- `headers_size`. -/
def size (headers : Headers) : ℕ :=
  (headers.map fun (k, v) => k.utf8ByteSize + v.utf8ByteSize).sum

end Headers

/-! ### The event -/

structure HTTPEvent where
  tid : ℕ
  messageType : String
  firstLine : String
  method : Option String
  path : Option String
  protocol : Option String
  statusCode : Option ℕ
  statusText : Option String
  headers : Headers
  body : Option String
  bodyHex : Option String
  totalSize : ℕ
  hasBody : Bool
  isChunked : Bool
  contentLength : Option ℕ
  originalSource : String
  rawData : Option String

/-- `serde_json::to_value` of the struct; a map iterates in key order. -/
def HTTPEvent.toValue (event : HTTPEvent) : Value :=
  .object [("body", .ofOptString event.body), ("body_hex", .ofOptString event.bodyHex),
      ("content_length", .ofOptNat event.contentLength),
      ("first_line", .string event.firstLine),
      ("has_body", .bool event.hasBody),
      ("headers", .object (event.headers.map fun (k, v) => (k, .string v))),
      ("is_chunked", .bool event.isChunked),
      ("message_type", .string event.messageType),
      ("method", .ofOptString event.method),
      ("original_source", .string event.originalSource),
      ("path", .ofOptString event.path),
      ("protocol", .ofOptString event.protocol),
      ("raw_data", .ofOptString event.rawData),
      ("status_code", .ofOptNat event.statusCode),
      ("status_text", .ofOptString event.statusText),
      ("tid", .ofNat event.tid),
      ("total_size", .ofNat event.totalSize)]

def HTTPEvent.toEvent (event : HTTPEvent) (originalEvent : Event) : Event where
  timestamp := originalEvent.timestamp
  source := "http_parser"
  pid := originalEvent.pid
  comm := originalEvent.comm
  data := event.toValue

end AgentSight.Http
