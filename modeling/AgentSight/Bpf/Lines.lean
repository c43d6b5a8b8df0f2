import AgentSight.Bpf.AggMap
import AgentSight.Bpf.FileOpens
import AgentSight.Bpf.Jsonl

/-!
# The lines of the tracers

What the process tracer (`bpf/process.c`, `bpf/process_ext/map_flush.h`), the TLS tracer
(`bpf/sslsniff.c`) and the stdio tracer (`bpf/stdiocap.c`) write to their standard output. A
line is one JSON object; the functions that print one are kept as the lists of its members, and
`Printed` is what one `printf` conversion, or one call of an escaper, writes for a value.

The strings of the events are C strings. The process tracer composes them into buffers with
`json_escape`, both other tracers stream their data with `json_print_escaped` and paste the
name of the process with `%s`.
-/

namespace AgentSight.Bpf

/-! ### Numbers -/

/-- The bytes of characters that are ASCII. -/
def bytesOf (text : List Char) : List UInt8 := text.map fun c => UInt8.ofNat c.toNat

/-- `%d`. -/
def signedText (n : ℤ) : List Char :=
  if n < 0 then '-' :: Nat.toDigits 10 n.natAbs else Nat.toDigits 10 n.natAbs

/-- The whole number nearest to `n / d`, the even one of two. -/
def roundHalfEven (n d : ℕ) : ℕ :=
  if 2 * (n % d) < d ∨ 2 * (n % d) = d ∧ n / d % 2 = 0 then n / d else n / d + 1

/-- `(double)n` for a 64-bit `n`. -/
def toDouble (n : UInt64) : ℕ :=
  let scale := 2 ^ (Nat.log2 n.toNat - 52)
  roundHalfEven n.toNat scale * scale

/-- `%.3f` of `(double)delta_ns / 1000000`, in thousandths. The quotient is the double
`mantissa / 2 ^ scale`. -/
def thousandths (deltaNs : UInt64) : ℕ :=
  let n := toDouble deltaNs
  let scale := 72 - Nat.log2 (n * 2 ^ 20 / 1000000)
  let mantissa := roundHalfEven (n * 2 ^ scale) 1000000
  roundHalfEven (mantissa * 1000) (2 ^ scale)

def millisecondsText (deltaNs : UInt64) : List Char :=
  let n := thousandths deltaNs
  Nat.toDigits 10 (n / 1000) ++ '.' :: [n / 100 % 10, n / 10 % 10, n % 10].map Nat.digitChar

/-! ### Members -/

/-- What is written for a value. -/
inductive Printed where
  /-- `%u` and `%llu`. -/
  | decimal (n : ℕ)
  /-- `%d`. -/
  | signed (n : Int32)
  /-- `%.3f` of the milliseconds. -/
  | milliseconds (deltaNs : UInt64)
  | bool (b : Bool)
  | null
  /-- A string of the source, between quotes. -/
  | constant (s : String)
  /-- `\"%s\"` of what `json_escape` copies into a buffer of `dstSize` bytes. -/
  | escaped {size : ℕ} (src : CString size) (dstSize : ℕ) (fits : 2 * size ≤ dstSize)
  /-- `json_print_escaped_quoted`. -/
  | streamed (buf : List UInt8)
  /-- `\"%s\"` of a string as it is. -/
  | raw (s : List UInt8)
  /-- `%02x` of every byte, between quotes. -/
  | hex (buf : List UInt8)

def Printed.text : Printed → List UInt8
  | decimal n => bytesOf (Nat.toDigits 10 n)
  | signed n => bytesOf (signedText n.toInt)
  | milliseconds deltaNs => bytesOf (millisecondsText deltaNs)
  | bool b => ascii (if b then "true" else "false")
  | null => ascii "null"
  | constant s => 34 :: ascii s ++ [34]
  | escaped src dstSize _ => 34 :: jsonEscape src.bytes dstSize ++ [34]
  | streamed buf => jsonPrintEscapedQuoted buf
  | raw s => 34 :: s ++ [34]
  | hex buf => 34 :: buf.flatMap (fun b => [hexByte (b.toNat / 16), hexByte (b.toNat % 16)]) ++ [34]

/-- A member of the object of a line. -/
inductive Field where
  | member (key : String) (value : Printed)
  /-- `printf(",%s", extra_fields)`: a text that is a member already. -/
  | pasted (text : String)

def Field.text : Field → List UInt8
  | member key value => 34 :: ascii key ++ 34 :: 58 :: value.text
  | pasted text => ascii text

/-- The fields with commas between them. -/
def fieldsText : List Field → List UInt8
  | [] => []
  | [f] => f.text
  | f :: g :: rest => f.text ++ 44 :: fieldsText (g :: rest)

/-- The object without the newline that ends the line. -/
def objectText (fields : List Field) : List UInt8 := 123 :: fieldsText fields ++ [125]

/-- `json_escape_field` into a buffer of twice the array and one. -/
def jsonEscapeField {size : ℕ} (src : CString size) : Printed :=
  .escaped src (2 * size + 1) (Nat.le_succ _)

/-! ### What the tracers ask the system -/

/-- The container id that `get_container_id` finds: the start of a run of hexadecimal digits. -/
structure ContainerId where
  bytes : List UInt8
  hex : ∀ b ∈ bytes, (48 ≤ b ∧ b ≤ 57) ∨ (97 ≤ b ∧ b ≤ 102)

/-- The answers of the kernel while a line is printed. -/
structure System where
  /-- `get_ns_pid`. -/
  getNsPid : Int32 → Int32
  /-- `get_container_id`. -/
  getContainerId : Int32 → Option ContainerId
  /-- What the map of exits has for the pid. -/
  exitMem : UInt32 → Option UInt64
  pageSizeKb : UInt64
  /-- `resolve_fd_path`. -/
  resolveFdPath : UInt32 → Int32 → Option (CString maxFilenameLen)
  /-- `resolve_fd_target`, up to a NUL. -/
  resolveFdTarget : UInt32 → Int32 → Option (List UInt8)
  getsid : Int32 → Int32

def printContainerFields (sys : System) (hostPid : Int32) : List Field :=
  if 0 < sys.getNsPid hostPid then
    .member "ns_pid" (.signed (sys.getNsPid hostPid)) ::
      match sys.getContainerId hostPid with
      | some id => if id.bytes ≠ [] then [.member "container_id" (.raw id.bytes)] else []
      | none => []
  else []

/-! ### The process tracer -/

/-- The string in an array of bytes. -/
def CString.ofBytes {size : ℕ} (bytes : List UInt8) (h : 0 < size) : CString size where
  bytes := (bytes.take (size - 1)).takeWhile (· ≠ 0)
  fits := by
    have htake := List.length_take_le (size - 1) bytes
    have hle := (List.takeWhile_prefix (p := (· ≠ 0)) (l := bytes.take (size - 1))).length_le
    omega
  noNul hmem := by simpa using List.mem_takeWhile_imp hmem

/-- `postprocess_full_command`. -/
def postprocessFullCommand (buf : Vector UInt8 maxCommandLen) (argLen : UInt32) :
    CString maxCommandLen :=
  if argLen = 0 ∨ maxCommandLen - 1 < argLen.toNat then CString.ofBytes buf.toList (by decide)
  else
    CString.ofBytes ((buf.toList.take argLen.toNat).mapIdx fun i b =>
        if i < argLen.toNat - 1 ∧ b = 0 then 32 else b)
      (by decide)

def printExecEvent (sys : System) (e : Event) (filename : CString maxFilenameLen) : List Field :=
  [.member "timestamp" (.decimal e.timestampNs.toNat), .member "event" (.constant "EXEC"),
    .member "comm" (jsonEscapeField e.comm), .member "pid" (.signed e.pid),
    .member "ppid" (.signed e.ppid), .member "filename" (jsonEscapeField filename),
    .member "full_command" (jsonEscapeField (postprocessFullCommand e.fullCommand e.exitCode))] ++
    printContainerFields sys e.pid

def printExitEvent (sys : System) (e : Event) : List Field :=
  [.member "timestamp" (.decimal e.timestampNs.toNat), .member "event" (.constant "EXIT"),
    .member "comm" (jsonEscapeField e.comm), .member "pid" (.signed e.pid),
    .member "ppid" (.signed e.ppid), .member "exit_code" (.decimal e.exitCode.toNat)] ++
    (if e.durationNs ≠ 0 then
      [.member "duration_ms" (.decimal (e.durationNs / 1000000).toNat)] else []) ++
    (match sys.exitMem e.pid.toUInt32 with
      | some hiwaterRss => [.member "vm_hwm_kb" (.decimal (hiwaterRss * sys.pageSizeKb).toNat)]
      | none => []) ++
    printContainerFields sys e.pid

def printBashReadlineEvent (sys : System) (e : Event) (command : CString maxCommandLen) :
    List Field :=
  [.member "timestamp" (.decimal e.timestampNs.toNat),
    .member "event" (.constant "BASH_READLINE"), .member "comm" (jsonEscapeField e.comm),
    .member "pid" (.signed e.pid), .member "command" (jsonEscapeField command)] ++
    printContainerFields sys e.pid

def printFileOpenEvent (sys : System) (l : FileOpenLine) : List Field :=
  [.member "timestamp" (.decimal l.timestampNs.toNat), .member "event" (.constant "FILE_OPEN"),
    .member "comm" (jsonEscapeField l.comm), .member "pid" (.signed l.pid),
    .member "count" (.decimal l.count.toNat), .member "filepath" (jsonEscapeField l.filepath),
    .member "flags" (.signed l.flags)] ++
    (match l.extraFields with
      | some extraFields => if extraFields ≠ "" then [.pasted extraFields] else []
      | none => []) ++
    printContainerFields sys l.pid

/-- The fields of the line that `handle_event` prints with these arguments. -/
def Line.fields (sys : System) : Line → List Field
  | .exec e filename => printExecEvent sys e filename
  | .exit e => printExitEvent sys e
  | .rateLimitWarning timestampNs pid =>
    [.member "timestamp" (.decimal timestampNs.toNat), .member "event" (.constant "WARNING"),
      .member "comm" (.constant ""), .member "pid" (.signed pid),
      .member "type" (.constant "FILE_RATE_LIMIT"),
      .member "message" (.constant "Process had 30+ file ops per second")]
  | .bashReadline e command => printBashReadlineEvent sys e command
  | .fileOpen line => printFileOpenEvent sys line
  | .unknown timestampNs type =>
    [.member "timestamp" (.decimal timestampNs.toNat), .member "event" (.constant "UNKNOWN"),
      .member "event_type" (.signed type.toInt32)]

/-! ### The aggregation map -/

def detailLen : ℕ := 64

def eventTypeWrite : UInt32 := 15

def eventTypeName (type : UInt32) : String :=
  if type = 10 then "FILE_DELETE"
  else if type = 11 then "FILE_RENAME"
  else if type = 12 then "DIR_CREATE"
  else if type = 13 then "FILE_TRUNCATE"
  else if type = 14 then "CHDIR"
  else if type = 15 then "WRITE"
  else if type = 20 then "NET_BIND"
  else if type = 21 then "NET_LISTEN"
  else if type = 22 then "NET_CONNECT"
  else if type = 30 then "PGRP_CHANGE"
  else if type = 31 then "SESSION_CREATE"
  else if type = 32 then "SIGNAL_SEND"
  else if type = 33 then "PROC_FORK"
  else if type = 40 then "MMAP_SHARED"
  else if type = 41 then "COW_FAULT"
  else "UNKNOWN"

def isSpaceByte (b : UInt8) : Bool := b = 32 || (9 ≤ b && b ≤ 13)

def isDigitByte (b : UInt8) : Bool := 48 ≤ b && b ≤ 57

/-- The sign of a number of `strtol` and what follows it. -/
def strtolSign : List UInt8 → Bool × List UInt8
  | 45 :: rest => (true, rest)
  | 43 :: rest => (false, rest)
  | rest => (false, rest)

/-- `strtol(s, &end, 10)`, with what `end` points to; `none` where that is `s`. -/
def strtol (s : List UInt8) : Option (ℤ × List UInt8) :=
  let (negative, rest) := strtolSign (s.dropWhile isSpaceByte)
  let digits := rest.takeWhile isDigitByte
  if digits = [] then none
  else
    let n : ℤ := digits.foldl (fun (n : ℤ) b => 10 * n + (b.toNat - 48 : ℕ)) 0
    some (max (-2 ^ 63) (min (2 ^ 63 - 1) (if negative then -n else n)), rest.dropWhile isDigitByte)

def parseFdDetail : List UInt8 → Option Int32
  | 102 :: 100 :: 61 :: rest =>
    match strtol rest with
    | some (fd, []) => some (Int32.ofInt fd)
    | _ => none
  | _ => none

/-- `print_summary_json`. The arrays of the map end with a NUL. -/
def printSummaryJson (sys : System) (key : AggKey) (val : AggValue) : List Field :=
  let extra : CString maxFilenameLen := .ofBytes val.extra (by decide)
  let comm : CString taskCommLen := .ofBytes val.comm (by decide)
  let detail : CString detailLen := .ofBytes key.detail (by decide)
  let fd := if key.eventType = eventTypeWrite then parseFdDetail detail.bytes else none
  let path := fd.bind (sys.resolveFdPath key.pid)
  [.member "timestamp" (.decimal val.lastTs.toNat), .member "event" (.constant "SUMMARY"),
    .member "comm" (.escaped comm (taskCommLen * 2) (by decide)),
    .member "pid" (.decimal key.pid.toNat),
    .member "type" (.constant (eventTypeName key.eventType)),
    .member "detail" (match path with
        | some path => .escaped path (maxFilenameLen * 2) (by decide)
        | none => .escaped detail (maxFilenameLen * 2) (by decide)),
    .member "count" (.decimal val.count.toNat)] ++
    (if 0 < val.totalBytes then [.member "total_bytes" (.decimal val.totalBytes.toNat)] else []) ++
    (match fd with
      | some fd => [.member "fd" (.signed fd), .member "path_resolved" (.bool path.isSome)]
      | none => []) ++
    (if jsonEscape extra.bytes (maxFilenameLen * 2) ≠ [] then
      [.member "extra" (.escaped extra (maxFilenameLen * 2) (by decide))] else [])

/-- The line of `check_overflow` for a total above zero. -/
def checkOverflow (total : UInt64) : List Field :=
  [.member "timestamp" (.decimal 0), .member "event" (.constant "WARNING"),
    .member "comm" (.constant ""), .member "pid" (.decimal 0),
    .member "type" (.constant "AGG_MAP_OVERFLOW"),
    .member "overflow_count" (.decimal total.toNat)]

/-! ### The TLS tracer -/

namespace Sslsniff

def maxBufSize : ℕ := 256 * 1024

/-- The values of `rw`, which index `rw_event`. -/
inductive Rw where
  | read
  | write
  | handshake
  deriving DecidableEq

def Rw.event : Rw → String
  | read => "READ/RECV"
  | write => "WRITE/SEND"
  | handshake => "HANDSHAKE"

/-- `struct probe_SSL_data_t`. -/
structure ProbeSslData where
  timestampNs : UInt64
  deltaNs : UInt64
  pid : UInt32
  tid : UInt32
  uid : UInt32
  len : UInt32
  bufSize : UInt32
  bufFilled : Int32
  rw : Rw
  comm : CString taskCommLen
  buf : Vector UInt8 maxBufSize
  isHandshake : Int32

structure Env where
  comm : Option (List UInt8)
  sessionId : Int32

/-- The bytes of the event that `print_event` works on. -/
def ProbeSslData.filled (event : ProbeSslData) : List UInt8 :=
  if event.bufFilled = 1 then event.buf.toList.take event.bufSize.toNat else []

/-- Whether the bytes may start a masked WebSocket frame. -/
def wantsHex : List UInt8 → Bool
  | b :: c :: _ => b &&& 0x80 ≠ 0 && b &&& 0x30 = 0 && b &&& 0x0f ≤ 2 && c &&& 0x80 ≠ 0
  | _ => false

/-- `print_event`; `none` where the filters drop the event. -/
def printEvent (sys : System) (env : Env) (event : ProbeSslData) : Option (List Field) :=
  let data := event.filled
  let bufSize := UInt32.ofNat data.length
  if env.comm.any (· ≠ event.comm.bytes) then none
  else if 0 < env.sessionId ∧ sys.getsid event.pid.toInt32 ≠ env.sessionId then none
  else
    some <|
      [.member "function" (.constant event.rw.event),
        .member "timestamp_ns" (.decimal event.timestampNs.toNat),
        .member "comm" (.raw event.comm.bytes), .member "pid" (.signed event.pid.toInt32),
        .member "len" (.signed event.len.toInt32),
        .member "buf_size" (.decimal event.bufSize.toNat),
        .member "uid" (.signed event.uid.toInt32), .member "tid" (.signed event.tid.toInt32),
        .member "latency_ms"
          (if event.deltaNs ≠ 0 then .milliseconds event.deltaNs else .decimal 0),
        .member "is_handshake" (.bool (event.isHandshake ≠ 0))] ++
      (if 0 < bufSize then
        .member "data" (.streamed data) ::
          ((if wantsHex data then [.member "data_hex" (.hex data)] else []) ++
          if bufSize < event.len then
            [.member "truncated" (.bool true),
              .member "bytes_lost" (.signed (event.len - bufSize).toInt32)]
          else [.member "truncated" (.bool false)])
      else [.member "data" .null, .member "truncated" (.bool false)]) ++
      printContainerFields sys event.pid.toInt32

end Sslsniff

/-! ### The stdio tracer -/

namespace Stdiocap

def maxBufSize : ℕ := 8192

/-- `struct stdiocap_event_t`. -/
structure StdiocapEvent where
  timestampNs : UInt64
  deltaNs : UInt64
  pid : UInt32
  tid : UInt32
  uid : UInt32
  fd : Int32
  len : UInt32
  bufSize : UInt32
  isRead : Bool
  comm : CString taskCommLen
  buf : Vector UInt8 maxBufSize

def fdRole (fd : Int32) : String :=
  if fd = 0 then "stdin"
  else if fd = 1 then "stdout"
  else if fd = 2 then "stderr"
  else "fd"

/-- `print_event` with the `comm` of its environment; `none` where that drops the event. -/
def printEvent (sys : System) (comm : Option (List UInt8)) (event : StdiocapEvent) :
    Option (List Field) :=
  let data := event.buf.toList.take event.bufSize.toNat
  let bufSize := UInt32.ofNat data.length
  if comm.any (· ≠ event.comm.bytes) then none
  else
    some <|
      [.member "direction" (.constant (if event.isRead then "READ" else "WRITE")),
        .member "timestamp_ns" (.decimal event.timestampNs.toNat),
        .member "comm" (.raw event.comm.bytes), .member "pid" (.decimal event.pid.toNat),
        .member "tid" (.decimal event.tid.toNat), .member "uid" (.decimal event.uid.toNat),
        .member "fd" (.signed event.fd), .member "fd_role" (.constant (fdRole event.fd)),
        .member "fd_target" (match sys.resolveFdTarget event.pid event.fd with
            | some target => .streamed target
            | none => .null),
        .member "len" (.decimal event.len.toNat), .member "buf_size" (.decimal bufSize.toNat),
        .member "latency_ms" (.milliseconds event.deltaNs)] ++
      (if bufSize = 0 then [.member "data" .null, .member "truncated" (.bool false)]
      else
        .member "data" (.streamed data) ::
          if bufSize < event.len then
            [.member "truncated" (.bool true),
              .member "bytes_lost" (.decimal (event.len - bufSize).toNat)]
          else [.member "truncated" (.bool false)])

end Stdiocap

end AgentSight.Bpf
