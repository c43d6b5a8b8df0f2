import Mathlib.Data.Nat.Notation

/-!
# HTTP/2 frames

`parse_http2_frames` and the payload functions of `analyzers/http_parser.rs`.
-/

namespace AgentSight.Http

structure HTTP2Frame where
  frameType : UInt8
  flags : UInt8
  streamId : ℕ
  payload : List UInt8
  deriving DecidableEq

namespace HTTP2Frame

def endStream (frame : HTTP2Frame) : Bool := frame.flags &&& 0x1 != 0

def endHeaders (frame : HTTP2Frame) : Bool := frame.flags &&& 0x4 != 0

end HTTP2Frame

/-- The client connection preface, `PRI * HTTP/2.0\r\n\r\nSM\r\n\r\n`. -/
def preface : List UInt8 :=
  [0x50, 0x52, 0x49, 0x20, 0x2A, 0x20, 0x48, 0x54, 0x54, 0x50, 0x2F, 0x32, 0x2E, 0x30,
    0x0D, 0x0A, 0x0D, 0x0A, 0x53, 0x4D, 0x0D, 0x0A, 0x0D, 0x0A]

/-- The loop of `parse_http2_frames`. A frame takes nine bytes at least, so the length is fuel
enough. Frames of unknown types are left out. -/
def parseFrames : ℕ → List UInt8 → Option (List HTTP2Frame)
  | _, [] => some []
  | fuel + 1, l₀ :: l₁ :: l₂ :: frameType :: flags :: s₀ :: s₁ :: s₂ :: s₃ :: rest =>
    let length := l₀.toNat <<< 16 ||| l₁.toNat <<< 8 ||| l₂.toNat
    let streamId :=
      (s₀ &&& 0x7f).toNat <<< 24 ||| s₁.toNat <<< 16 ||| s₂.toNat <<< 8 ||| s₃.toNat
    if rest.length < length then none
    else
      let frames := parseFrames fuel (rest.drop length)
      if 0x9 < frameType then frames
      else frames.map ({ frameType, flags, streamId, payload := rest.take length } :: ·)
  | _, _ => none

def parseHttp2Frames (bytes : List UInt8) : Option (List HTTP2Frame) :=
  let bytes := if preface.isPrefixOf bytes then bytes.drop preface.length else bytes
  (parseFrames bytes.length bytes).filter (!·.isEmpty)

/-- The part of a payload between `start` and `end_`, nothing where that is no range. -/
def slice (payload : List UInt8) (start end_ : ℕ) : List UInt8 :=
  if start > end_ || end_ > payload.length then [] else (payload.take end_).drop start

def headersPayload (flags : UInt8) (payload : List UInt8) : List UInt8 :=
  let priority := if flags &&& 0x20 != 0 then 5 else 0
  if flags &&& 0x8 != 0 then
    match payload with
    | [] => []
    | padLen :: _ => slice payload (1 + priority) (payload.length - padLen.toNat)
  else slice payload priority payload.length

def dataPayload (flags : UInt8) (payload : List UInt8) : List UInt8 :=
  if flags &&& 0x8 = 0 then payload
  else
    match payload with
    | [] => []
    | padLen :: _ => slice payload 1 (payload.length - padLen.toNat)

end AgentSight.Http
