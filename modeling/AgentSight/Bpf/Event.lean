import Mathlib.Data.UInt

/-!
# The events and lines of the process tracer

`struct event` of `bpf/process.h`, which the BPF programs fill in and the userspace thread
reads, and the lines that `bpf/process.c` prints for it. A line is kept here as the arguments
of the function that prints it.
-/

namespace AgentSight.Bpf

def taskCommLen : ℕ := 16

def maxFilenameLen : ℕ := 127

def maxCommandLen : ℕ := 256

/-- A string in an array of `size` bytes: what stands before its NUL. -/
structure CString (size : ℕ) where
  bytes : List UInt8
  fits : bytes.length < size
  noNul : 0 ∉ bytes
  deriving DecidableEq

structure FileOp where
  filepath : CString maxFilenameLen
  fd : Int32
  flags : Int32
  /-- `true` for an open, `false` for a close. -/
  isOpen : Bool
  deriving DecidableEq

/-- The tag of an event and the member of the union that it selects. -/
inductive EventBody where
  /-- `EVENT_TYPE_PROCESS` without `exit_event`. -/
  | exec (filename : CString maxFilenameLen)
  /-- `EVENT_TYPE_PROCESS` with `exit_event`. -/
  | exit
  | bashReadline (command : CString maxCommandLen)
  | fileOperation (fileOp : FileOp)
  /-- A type that `handle_event` has no case for. -/
  | unknown (type : UInt32)
  deriving DecidableEq

structure Event where
  pid : Int32
  ppid : Int32
  /-- For an exec, the length of the arguments in `fullCommand`. -/
  exitCode : UInt32
  durationNs : UInt64
  timestampNs : UInt64
  comm : CString taskCommLen
  /-- The raw bytes of the arguments, NULs between them. -/
  fullCommand : Vector UInt8 maxCommandLen
  body : EventBody
  deriving DecidableEq

/-- The arguments of `print_file_open_event`. -/
structure FileOpenLine where
  timestampNs : UInt64
  comm : CString taskCommLen
  pid : Int32
  count : UInt32
  filepath : CString maxFilenameLen
  flags : Int32
  extraFields : Option String
  deriving DecidableEq

inductive Line where
  | exec (e : Event) (filename : CString maxFilenameLen)
  | exit (e : Event)
  | rateLimitWarning (timestampNs : UInt64) (pid : Int32)
  | bashReadline (e : Event) (command : CString maxCommandLen)
  | fileOpen (line : FileOpenLine)
  | unknown (timestampNs : UInt64) (type : UInt32)
  deriving DecidableEq

end AgentSight.Bpf
