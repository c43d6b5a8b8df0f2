import AgentSight.Bridge.Resume
import AgentSight.Lib.ByteFrames

/-!
# Frames and the reader loop

The frame codec of `agentsight-protocol/src/bridge/codec.rs`, a little-endian body length
before a CBOR body, and `reader_loop` of the server, which appends what it reads to a buffer
and takes frames off its front. CBOR is a library, so its two directions are parameters.

The loop compares the buffer with twice the frame limit right after a read, when it may hold
many complete frames, and stops reading as soon as `handle_message` asks it to.
`readerLoop_chunks` says what is handed over for any way the frames are cut into reads.
-/

namespace AgentSight.Bridge

open ByteFrames List

/-! ### The codec -/

inductive BridgeCodecError where
  | frameTooLarge (len max : ℕ)
  | encode (detail : String)
  | decode (detail : String)
  deriving DecidableEq

/-- The CBOR library. -/
structure Cbor where
  intoWriter : BridgeMessage → Except String (List UInt8)
  fromReader : List UInt8 → Except String BridgeMessage

/-- Decoding inverts encoding. -/
def Cbor.Inverts (cbor : Cbor) : Prop :=
  ∀ message body, cbor.intoWriter message = .ok body → cbor.fromReader body = .ok message

/-- `FRAME_HEADER_BYTES`. -/
def frameHeaderBytes : ℕ := 4

section Codec

variable (cbor : Cbor)

def encodeBody (message : BridgeMessage) : Except BridgeCodecError (List UInt8) :=
  (cbor.intoWriter message).mapError .encode

def decodeBody (body : List UInt8) : Except BridgeCodecError BridgeMessage :=
  (cbor.fromReader body).mapError .decode

def encodeFrame (message : BridgeMessage) (maxFrameBytes : ℕ) :
    Except BridgeCodecError (List UInt8) :=
  match encodeBody cbor message with
  | .error e => .error e
  | .ok body =>
    if maxFrameBytes < body.length then .error (.frameTooLarge body.length maxFrameBytes)
    else .ok (toLe frameHeaderBytes body.length ++ body)

/-- One frame from the front of the buffer and the bytes it takes, if a whole one is there. -/
def readFrame (buffer : List UInt8) (maxFrameBytes : ℕ) :
    Except BridgeCodecError (Option (BridgeMessage × ℕ)) :=
  if buffer.length < frameHeaderBytes then .ok none
  else
    let len := fromLe (buffer.take frameHeaderBytes)
    if maxFrameBytes < len then .error (.frameTooLarge len maxFrameBytes)
    else if buffer.length < frameHeaderBytes + len then .ok none
    else
      match decodeBody cbor ((buffer.take (frameHeaderBytes + len)).drop frameHeaderBytes) with
      | .error e => .error e
      | .ok message => .ok (some (message, frameHeaderBytes + len))

variable {cbor} {message : BridgeMessage} {frame : List UInt8} {maxFrameBytes : ℕ}

/-- An encoded frame is its header and a body within the limit. -/
theorem encodeFrame_eq_ok (h : encodeFrame cbor message maxFrameBytes = .ok frame) :
    ∃ body, cbor.intoWriter message = .ok body ∧ body.length ≤ maxFrameBytes ∧
      frame = toLe frameHeaderBytes body.length ++ body := by
  rw [encodeFrame, encodeBody] at h
  rcases hbody : cbor.intoWriter message with e | body
  · simp [hbody, Except.mapError] at h
  · simp only [hbody, Except.mapError] at h
    split_ifs at h with hmax
    exact ⟨body, rfl, not_lt.mp hmax, (Except.ok.inj h).symm⟩

theorem length_le_of_encodeFrame (h : encodeFrame cbor message maxFrameBytes = .ok frame) :
    frame.length ≤ frameHeaderBytes + maxFrameBytes := by
  obtain ⟨body, -, hle, rfl⟩ := encodeFrame_eq_ok h
  rw [length_append, length_toLe]
  omega

theorem length_le_of_encodeFrames {messages : List BridgeMessage} {frames : List (List UInt8)}
    (h : List.Forall₂ (fun message frame => encodeFrame cbor message maxFrameBytes = .ok frame)
      messages frames) : ∀ frame ∈ frames, frame.length ≤ frameHeaderBytes + maxFrameBytes := by
  induction h with
  | nil => simp
  | cons hencode _ ih =>
    intro frame hframe
    obtain rfl | hframe := mem_cons.mp hframe
    · exact length_le_of_encodeFrame hencode
    · exact ih frame hframe

/-- **The codec round trip.** `readFrame` takes an encoded frame off the front of any buffer,
and waits for the rest of an unfinished one. -/
theorem isFrame_of_encodeFrame (hcbor : cbor.Inverts) (hmax : maxFrameBytes < 2 ^ 32)
    (h : encodeFrame cbor message maxFrameBytes = .ok frame) :
    IsFrame (readFrame cbor · maxFrameBytes) message frame := by
  obtain ⟨body, hbody, hle, rfl⟩ := encodeFrame_eq_ok h
  have hlen : fromLe (toLe frameHeaderBytes body.length) = body.length :=
    fromLe_toLe (by rw [frameHeaderBytes]; omega)
  have hhead rest : (toLe frameHeaderBytes body.length ++ rest).take
      frameHeaderBytes = toLe frameHeaderBytes body.length :=
    take_left' (length_toLe ..)
  have htotal : (toLe frameHeaderBytes body.length ++ body).length =
      frameHeaderBytes + body.length := by
    rw [length_append, length_toLe]
  refine ⟨?_, fun rest => ?_, fun buffer hpre hlt => ?_⟩
  · rw [htotal, frameHeaderBytes]
    omega
  · have hlong : ¬(toLe frameHeaderBytes body.length ++ body ++ rest).length <
        frameHeaderBytes + body.length := by
      rw [length_append]
      omega
    have hshort : ¬(toLe frameHeaderBytes body.length ++ body ++ rest).length <
        frameHeaderBytes := by omega
    have hread : ((toLe frameHeaderBytes body.length ++ body ++ rest).take
        (frameHeaderBytes + body.length)).drop frameHeaderBytes = body := by
      rw [take_left' htotal, drop_left' (length_toLe ..)]
    rw [readFrame, if_neg hshort, append_assoc, hhead, hlen, ← append_assoc]
    simp only [if_neg (not_lt.mpr hle), if_neg hlong, hread, decodeBody,
      hcbor message body hbody, Except.mapError, htotal]
  · rw [htotal] at hlt
    by_cases hshort : buffer.length < frameHeaderBytes
    · rw [readFrame, if_pos hshort]
    · -- the header is whole, and says what the encoder wrote
      have htake : buffer.take frameHeaderBytes = toLe frameHeaderBytes body.length := by
        obtain ⟨rest, hrest⟩ := hpre
        have htake : (buffer ++ rest).take frameHeaderBytes = buffer.take frameHeaderBytes :=
          take_append_of_le_length (not_lt.mp hshort)
        rw [← htake, hrest]
        exact hhead body
      rw [readFrame, htake, hlen]
      simp [if_neg (not_lt.mpr hle), if_pos hlt]

/-- A frame taken is in the buffer, and is not empty. -/
theorem consumed_of_readFrame {buffer : List UInt8} {consumed : ℕ}
    (h : readFrame cbor buffer maxFrameBytes = .ok (some (message, consumed))) :
    0 < consumed ∧ consumed ≤ buffer.length := by
  rw [readFrame] at h
  split at h
  · simp at h
  · dsimp only at h
    split_ifs at h with hbig hpart
    · simp at h
    · split at h
      · simp at h
      · obtain ⟨-, rfl⟩ : _ ∧ _ = consumed := by simpa using h
        refine ⟨?_, not_lt.mp hpart⟩
        rw [frameHeaderBytes]
        omega

end Codec

/-! ### The loop -/

/-- What one read of the socket gives; no bytes at the end of the stream. -/
inductive ReadOutcome where
  | bytes (chunk : List UInt8)
  | failed
  | timedOut
  deriving DecidableEq

/-- Why `reader_loop` returned. -/
inductive ReaderEnd where
  | closed
  | endOfStream
  | readFailed
  | idleTimeout
  | codec (error : BridgeCodecError)
  | bufferLimit
  deriving DecidableEq

/-- The variables of `reader_loop`. -/
structure Reading where
  buffer : List UInt8
  negotiated : Bool
  /-- History: the messages handed to `handle_message`. -/
  handed : List BridgeMessage
  deriving DecidableEq

def Reading.start : Reading := ⟨[], false, []⟩

/-- Drain a frame and hand its message over. -/
def Reading.handle (config : BridgeServerConfig) (r : Reading) (message : BridgeMessage)
    (consumed : ℕ) : Reading where
  buffer := r.buffer.drop consumed
  negotiated := (handleMessage config r.negotiated message).2.1
  handed := r.handed ++ [message]

section Loop

variable (cbor : Cbor) (config : BridgeServerConfig)

/-- The inner loop, `while let Some((message, consumed)) = read_frame(..)?`. -/
def drainFrames : ℕ → Reading → Reading × Option ReaderEnd
  | 0, r => (r, none)
  | fuel + 1, r =>
    match readFrame cbor r.buffer config.maxFrameBytes with
    | .error e => (r, some (.codec e))
    | .ok none => (r, none)
    | .ok (some (message, consumed)) =>
      match (handleMessage config r.negotiated message).2.2 with
      | .continue => drainFrames fuel (r.handle config message consumed)
      | .close => (r.handle config message consumed, some .closed)

/-- `reader_loop` over the outcomes of its reads; it waits for another one when it has not
returned. -/
def readerLoop : Reading → List ReadOutcome → Reading × Option ReaderEnd
  | r, [] => drainFrames cbor config (r.buffer.length + 1) r
  | r, outcome :: outcomes =>
    match drainFrames cbor config (r.buffer.length + 1) r with
    | (r, some stop) => (r, some stop)
    | (r, none) =>
      match outcome with
      | .timedOut => (r, some .idleTimeout)
      | .failed => (r, some .readFailed)
      | .bytes chunk =>
        if chunk = [] then (r, some .endOfStream)
        else
          let r := { r with buffer := r.buffer ++ chunk }
          if config.maxFrameBytes * 2 < r.buffer.length then (r, some .bufferLimit)
          else readerLoop r outcomes

/-- The fuel is enough: the inner loop ends when there is no whole frame left. -/
theorem drainFrames_waits {fuel : ℕ} {r r' : Reading} (hfuel : r.buffer.length < fuel)
    (h : drainFrames cbor config fuel r = (r', none)) :
    readFrame cbor r'.buffer config.maxFrameBytes = .ok none := by
  induction fuel generalizing r with
  | zero => omega
  | succ fuel ih =>
    rw [drainFrames] at h
    split at h
    · simp at h
    · next hread =>
      obtain ⟨rfl, -⟩ := Prod.mk.inj h
      exact hread
    · next message consumed hread =>
      split at h
      · refine ih ?_ h
        have := consumed_of_readFrame hread
        rw [Reading.handle, length_drop]
        omega
      · simp at h

end Loop

/-! ### Chunk-invariance -/

/-- The messages up to the first after which `handle_message` closes the connection. -/
def untilClose (config : BridgeServerConfig) : Bool → List BridgeMessage → List BridgeMessage
  | _, [] => []
  | negotiated, message :: messages =>
    match handleMessage config negotiated message with
    | (_, negotiated', .continue) => message :: untilClose config negotiated' messages
    | (_, _, .close) => [message]

section Chunks

variable {cbor : Cbor} {config : BridgeServerConfig} {messages : List BridgeMessage}
  {frames : List (List UInt8)} {arrived : List UInt8} {r r' : Reading}

/-- The bytes of the frames the loop takes before it is asked to close. -/
def bytesUntilClose (config : BridgeServerConfig) (messages : List BridgeMessage)
    (frames : List (List UInt8)) : ℕ :=
  (frames.take (untilClose config false messages).length).flatten.length

/-- Every read of `chunks`, after `arrived` and before the loop is asked to close, leaves at
most `limit` bytes in the buffer: what is left over of an unfinished frame, and the chunk. -/
def Fits (config : BridgeServerConfig) (limit : ℕ) (messages : List BridgeMessage)
    (frames : List (List UInt8)) (arrived : ℕ) (chunks : List (List UInt8)) : Prop :=
  ∀ pre chunk post, chunks = pre ++ chunk :: post →
    arrived + pre.flatten.length < bytesUntilClose config messages frames →
    leftover frames (arrived + pre.flatten.length) + chunk.length ≤ limit

/-- The loop has taken some of the frames, and holds the rest of what arrived. -/
structure Progress (cbor : Cbor) (config : BridgeServerConfig) (messages : List BridgeMessage)
    (frames : List (List UInt8)) (arrived : List UInt8) (r : Reading) : Prop where
  split : ∃ rest done todo, messages = r.handed ++ rest ∧ frames = done ++ todo ∧
    done.length = r.handed.length ∧ done.flatten ++ r.buffer = arrived ∧
    List.Forall₂ (IsFrame (readFrame cbor · config.maxFrameBytes)) rest todo ∧
    untilClose config false messages = r.handed ++ untilClose config r.negotiated rest

/-- Between reads, no whole frame is left. -/
theorem Progress.waiting (h : Progress cbor config messages frames arrived r)
    (harrived : arrived <+: frames.flatten)
    (hread : readFrame cbor r.buffer config.maxFrameBytes = .ok none) :
    r.buffer.length = leftover frames arrived.length ∧ (arrived.length < frames.flatten.length →
        arrived.length < bytesUntilClose config messages frames) := by
  obtain ⟨rest, done, todo, hmessages, rfl, hlen, rfl, hframes, huntil⟩ := h.split
  rw [flatten_append] at harrived
  have hbuffer : r.buffer <+: todo.flatten := (prefix_append_right_inj _).mp harrived
  rw [length_append, leftover_append]
  cases hframes with
  | nil =>
    -- every frame has been handed over
    have hnil : r.buffer = [] := by simpa using hbuffer
    simp [hnil, leftover]
  | @cons message frame rest todo hframe hframes =>
    have hlt : r.buffer.length < frame.length := by
      by_contra hge
      obtain ⟨more, hmore⟩ := prefix_of_prefix_length_le (prefix_append _ _) hbuffer
        (not_lt.mp hge)
      rw [← hmore, hframe.whole] at hread
      simp at hread
    rw [leftover, if_neg (not_le.mpr hlt)]
    refine ⟨rfl, fun _ => ?_⟩
    -- the frame that is arriving comes before the close
    have hcons : ∃ more, untilClose config r.negotiated (message :: rest) = message :: more := by
      rw [untilClose]
      split <;> exact ⟨_, rfl⟩
    obtain ⟨more, hmore⟩ := hcons
    rw [bytesUntilClose, huntil, hmore, length_append, ← hlen, take_length_add_append,
      length_cons, take_succ_cons]
    simp only [flatten_append, flatten_cons, length_append]
    omega

/-- The loop was asked to close, with every message before that handed over. -/
structure Closed (config : BridgeServerConfig) (messages : List BridgeMessage)
    (frames : List (List UInt8)) (arrived : List UInt8) (r : Reading) : Prop where
  handed : r.handed = untilClose config false messages
  bytes : bytesUntilClose config messages frames ≤ arrived.length

/-- One look at the buffer. -/
theorem Progress.readFrame (h : Progress cbor config messages frames arrived r)
    (harrived : arrived <+: frames.flatten) :
    Bridge.readFrame cbor r.buffer config.maxFrameBytes = .ok none ∨ ∃ message consumed,
        Bridge.readFrame cbor r.buffer config.maxFrameBytes = .ok (some (message, consumed)) ∧
        ((handleMessage config r.negotiated message).2.2 = .continue →
          Progress cbor config messages frames arrived (r.handle config message consumed)) ∧
        ((handleMessage config r.negotiated message).2.2 = .close →
          Closed config messages frames arrived (r.handle config message consumed)) := by
  obtain ⟨rest, done, todo, hmessages, rfl, hlen, rfl, hframes, huntil⟩ := h.split
  rw [flatten_append] at harrived
  have hbuffer : r.buffer <+: todo.flatten := (prefix_append_right_inj _).mp harrived
  cases hframes with
  | nil =>
    have hnil : r.buffer = [] := by simpa using hbuffer
    refine .inl ?_
    rw [hnil]
    rfl
  | @cons message frame rest todo hframe hframes =>
    by_cases hle : frame.length ≤ r.buffer.length
    · obtain ⟨more, hmore⟩ := prefix_of_prefix_length_le (prefix_append _ _) hbuffer hle
      have hread := hframe.whole more
      rw [hmore] at hread
      refine .inr ⟨message, frame.length, hread, fun hflow => ?_, fun hflow => ?_⟩
      · refine ⟨rest, done ++ [frame], todo, ?_, ?_, ?_, ?_, hframes, ?_⟩
        · simp [Reading.handle, hmessages]
        · simp
        · simp [Reading.handle, hlen]
        · simp [Reading.handle, ← hmore]
        · rw [huntil, untilClose]
          split
          · next hhandle => simp [Reading.handle, hhandle]
          · next hhandle => simp [hhandle] at hflow
      · -- nothing is handed over after the message that closes
        have hlast : untilClose config r.negotiated (message :: rest) = [message] := by
          rw [untilClose]
          split
          · next hhandle => simp [hhandle] at hflow
          · rfl
        rw [hlast] at huntil
        refine ⟨huntil.symm, ?_⟩
        rw [bytesUntilClose, huntil, length_append, ← hlen, take_length_add_append]
        simp [← hmore]
    · refine .inl (hframe.waits r.buffer ?_ (not_le.mp hle))
      exact prefix_of_prefix_length_le hbuffer (prefix_append _ _) (not_le.mp hle).le

/-- The inner loop, by induction on its fuel. -/
theorem Progress.drainFrames {fuel : ℕ} {stop : Option ReaderEnd}
    (h : Progress cbor config messages frames arrived r) (harrived : arrived <+: frames.flatten)
    (hdrain : Bridge.drainFrames cbor config fuel r = (r', stop)) :
    (stop = none ∧ Progress cbor config messages frames arrived r') ∨
      (stop = some .closed ∧ Closed config messages frames arrived r') := by
  induction fuel generalizing r with
  | zero =>
    obtain ⟨rfl, rfl⟩ := Prod.mk.inj hdrain
    exact .inl ⟨rfl, h⟩
  | succ fuel ih =>
    rw [Bridge.drainFrames] at hdrain
    obtain hnone | ⟨message, consumed, hread, hgo, hclose⟩ := h.readFrame harrived
    · simp only [hnone] at hdrain
      obtain ⟨rfl, rfl⟩ := Prod.mk.inj hdrain
      exact .inl ⟨rfl, h⟩
    · simp only [hread] at hdrain
      split at hdrain
      · next hflow => exact ih (hgo hflow) hdrain
      · next hflow =>
        obtain ⟨rfl, rfl⟩ := Prod.mk.inj hdrain
        exact .inr ⟨rfl, hclose hflow⟩

/-- All that arrived has been taken. -/
theorem Progress.handed_eq (h : Progress cbor config messages frames frames.flatten r)
    (hread : Bridge.readFrame cbor r.buffer config.maxFrameBytes = .ok none) :
    r.handed = untilClose config false messages := by
  obtain ⟨rest, done, todo, hmessages, rfl, hlen, hall, hframes, huntil⟩ := h.split
  rw [flatten_append] at hall
  have hbuffer := append_cancel_left hall
  cases hframes with
  | nil => simp [huntil, untilClose]
  | @cons message frame rest todo hframe hframes =>
    rw [hbuffer, flatten_cons, hframe.whole] at hread
    simp at hread

/-- More bytes arrive. -/
theorem Progress.append (h : Progress cbor config messages frames arrived r)
    (chunk : List UInt8) : Progress cbor config messages frames (arrived ++ chunk)
      { r with buffer := r.buffer ++ chunk } := by
  obtain ⟨rest, done, todo, hmessages, hsplit, hlen, rfl, hframes, huntil⟩ := h.split
  exact ⟨rest, done, todo, hmessages, hsplit, hlen, by simp, hframes, huntil⟩

variable {chunks : List (List UInt8)}

theorem fits_cons {limit n : ℕ} {chunk : List UInt8} :
    Fits config limit messages frames n (chunk :: chunks) ↔
      (n < bytesUntilClose config messages frames → leftover frames n + chunk.length ≤ limit) ∧
      Fits config limit messages frames (n + chunk.length) chunks := by
  constructor
  · intro h
    refine ⟨fun hn => h [] chunk chunks rfl hn, fun pre next post hsplit hn => ?_⟩
    have hlen : n + chunk.length + pre.flatten.length = n + (chunk :: pre).flatten.length := by
      simp only [flatten_cons, length_append]
      omega
    rw [hlen] at hn ⊢
    exact h (chunk :: pre) next post (by rw [hsplit, cons_append]) hn
  · rintro ⟨hfirst, hrest⟩ pre next post hsplit hn
    cases pre with
    | nil =>
      obtain ⟨rfl, -⟩ := cons.inj hsplit
      exact hfirst hn
    | cons first pre =>
      obtain ⟨rfl, htail⟩ := cons.inj hsplit
      have hlen : n + (chunk :: pre).flatten.length = n + chunk.length + pre.flatten.length := by
        simp only [flatten_cons, length_append]
        omega
      rw [hlen] at hn ⊢
      exact hrest pre next post htail hn

/-- What the loop comes to on reads that give all the bytes still to come. -/
structure LoopOutcome (config : BridgeServerConfig) (messages : List BridgeMessage)
    (fits : Prop) (result : Reading × Option ReaderEnd) : Prop where
  ends : result.2 = none ∨ result.2 = some .closed ∨ result.2 = some .bufferLimit
  limit : result.2 = some .bufferLimit ↔ ¬fits
  handed : fits → result.1.handed = untilClose config false messages
  inOrder : result.1.handed <+: untilClose config false messages

/-- The loop, by induction on the reads. -/
theorem Progress.readerLoop (h : Progress cbor config messages frames arrived r)
    (hall : arrived ++ chunks.flatten = frames.flatten) (hne : ∀ chunk ∈ chunks, chunk ≠ []) :
    LoopOutcome config messages
      (Fits config (config.maxFrameBytes * 2) messages frames arrived.length chunks)
      (Bridge.readerLoop cbor config r (chunks.map .bytes)) := by
  induction chunks generalizing arrived r with
  | nil =>
    have hfits : Fits config (config.maxFrameBytes * 2) messages frames arrived.length [] :=
      fun pre chunk post hsplit => by simp at hsplit
    rw [flatten_nil, append_nil] at hall
    subst hall
    rw [map_nil, Bridge.readerLoop]
    rcases hdrain : Bridge.drainFrames cbor config (r.buffer.length + 1) r with ⟨r', stop⟩
    obtain ⟨rfl, hr⟩ | ⟨rfl, hr⟩ := h.drainFrames (prefix_refl _) hdrain
    · have hread := drainFrames_waits cbor config (Nat.lt_succ_self _) hdrain
      have hhanded := hr.handed_eq hread
      exact ⟨.inl rfl, iff_of_false (by simp) (not_not_intro hfits), fun _ => hhanded,
        by simp [hhanded]⟩
    · exact ⟨.inr (.inl rfl), iff_of_false (by simp) (not_not_intro hfits), fun _ => hr.handed,
        by simp [hr.handed]⟩
  | cons chunk chunks ih =>
    have harrived : arrived <+: frames.flatten := ⟨_, hall⟩
    have hchunk : chunk ≠ [] := hne chunk mem_cons_self
    rw [map_cons, Bridge.readerLoop]
    rcases hdrain : Bridge.drainFrames cbor config (r.buffer.length + 1) r with ⟨r', stop⟩
    obtain ⟨rfl, hr⟩ | ⟨rfl, hr⟩ := h.drainFrames harrived hdrain
    · have hread := drainFrames_waits cbor config (Nat.lt_succ_self _) hdrain
      obtain ⟨hleft, hopen⟩ := hr.waiting harrived hread
      have hmore : arrived.length < frames.flatten.length := by
        have := length_pos_iff.mpr hchunk
        rw [← hall]
        simp only [flatten_cons, length_append]
        omega
      simp only [if_neg hchunk, length_append]
      rw [fits_cons, ← hleft]
      split_ifs with hover
      · -- the buffer limit
        have hnot : ¬(arrived.length < bytesUntilClose config messages frames →
            r'.buffer.length + chunk.length ≤ config.maxFrameBytes * 2) :=
          fun hfirst => absurd (hfirst (hopen hmore)) (not_le.mpr hover)
        refine ⟨by simp, by simp [hnot], fun hfits => absurd hfits.1 hnot, ?_⟩
        obtain ⟨rest, done, todo, -, -, -, -, -, huntil⟩ := hr.split
        rw [huntil]
        exact prefix_append _ _
      · have hnext := ih (hr.append chunk) (by simpa using hall)
          fun c hc => hne c (mem_cons_of_mem _ hc)
        rw [length_append] at hnext
        have hiff : ((arrived.length < bytesUntilClose config messages frames →
            r'.buffer.length + chunk.length ≤ config.maxFrameBytes * 2) ∧
            Fits config (config.maxFrameBytes * 2) messages frames
              (arrived.length + chunk.length) chunks) ↔
            Fits config (config.maxFrameBytes * 2) messages frames
              (arrived.length + chunk.length) chunks :=
          and_iff_right fun _ => not_lt.mp hover
        rwa [hiff]
    · have hfits : Fits config (config.maxFrameBytes * 2) messages frames arrived.length
          (chunk :: chunks) := by
        intro pre next post _ hn
        have := hr.bytes
        omega
      exact ⟨.inr (.inl rfl), iff_of_false (by simp) (not_not_intro hfits), fun _ => hr.handed,
        by simp [hr.handed]⟩

/-- A limit with room for a frame and a whole read is never exceeded. -/
theorem fits_of_room {limit : ℕ} (hlimit : frameHeaderBytes + config.maxFrameBytes + 16383 ≤ limit)
    (hall : chunks.flatten = frames.flatten)
    (hframes : ∀ frame ∈ frames, frame.length ≤ frameHeaderBytes + config.maxFrameBytes)
    (hread : ∀ chunk ∈ chunks, chunk.length ≤ 16384) :
    Fits config limit messages frames 0 chunks := by
  intro pre chunk post hsplit hn
  have hle : 0 + pre.flatten.length ≤ frames.flatten.length := by
    rw [← hall, hsplit, flatten_append, length_append]
    omega
  have hpos : 0 < frameHeaderBytes + config.maxFrameBytes := by
    rw [frameHeaderBytes]
    omega
  have hleft := leftover_lt hle hpos hframes
  have hchunk := hread chunk (by simp [hsplit])
  omega

end Chunks

/-- **Chunk-invariance of the reader loop.** Whatever way the frames of `messages` are cut into
reads of at most 16384 bytes, the loop never fails on a frame; it hands over the messages in
order up to the first that closes the connection, unless some read before that leaves more than
twice the frame limit in the buffer, and exactly then it ends at the limit. No read does when
the frame limit is at least 16387. -/
theorem readerLoop_chunks {cbor : Cbor} (hcbor : cbor.Inverts) (config : BridgeServerConfig)
    (hmax : config.maxFrameBytes < 2 ^ 32) {messages : List BridgeMessage}
    {frames : List (List UInt8)} (hframes : List.Forall₂
      (fun message frame => encodeFrame cbor message config.maxFrameBytes = .ok frame)
      messages frames)
    {chunks : List (List UInt8)} (hall : chunks.flatten = frames.flatten)
    (hread : ∀ chunk ∈ chunks, 1 ≤ chunk.length ∧ chunk.length ≤ 16384) :
    LoopOutcome config messages (Fits config (config.maxFrameBytes * 2) messages frames 0 chunks)
        (readerLoop cbor config .start (chunks.map .bytes)) ∧
      (16387 ≤ config.maxFrameBytes →
        Fits config (config.maxFrameBytes * 2) messages frames 0 chunks) := by
  have hstart : Progress cbor config messages frames [] .start :=
    ⟨messages, [], frames, rfl, rfl, rfl, rfl,
      hframes.imp fun _ _ => isFrame_of_encodeFrame hcbor hmax, by simp [Reading.start]⟩
  refine ⟨hstart.readerLoop hall fun chunk hchunk => ?_, fun hroom => ?_⟩
  · exact length_pos_iff.mp (hread chunk hchunk).1
  · refine fits_of_room ?_ hall (fun frame hframe => ?_) fun chunk hchunk => (hread chunk hchunk).2
    · rw [frameHeaderBytes]
      omega
    · exact length_le_of_encodeFrames hframes frame hframe

/-! ### The golden vectors

`hello_metadata_only` and `ack` of `tests/fixtures/bridge-v1`, which pin the CBOR encoding. -/

def goldenHello : BridgeMessage :=
  .hello
    { supportedVersions := [1], product := "aro", productVersion := "0.1.0",
      maxFrameBytes := maxFrameBytes, disclosure := .metadataOnly }

def goldenHelloBody : List UInt8 :=
  [0xa2, 0x63, 0x6d, 0x73, 0x67, 0x65, 0x68, 0x65, 0x6c, 0x6c, 0x6f, 0x64, 0x64, 0x61, 0x74,
    0x61, 0xa5, 0x72, 0x73, 0x75, 0x70, 0x70, 0x6f, 0x72, 0x74, 0x65, 0x64, 0x5f, 0x76, 0x65,
    0x72, 0x73, 0x69, 0x6f, 0x6e, 0x73, 0x81, 0x01, 0x67, 0x70, 0x72, 0x6f, 0x64, 0x75, 0x63,
    0x74, 0x63, 0x61, 0x72, 0x6f, 0x6f, 0x70, 0x72, 0x6f, 0x64, 0x75, 0x63, 0x74, 0x5f, 0x76,
    0x65, 0x72, 0x73, 0x69, 0x6f, 0x6e, 0x65, 0x30, 0x2e, 0x31, 0x2e, 0x30, 0x6f, 0x6d, 0x61,
    0x78, 0x5f, 0x66, 0x72, 0x61, 0x6d, 0x65, 0x5f, 0x62, 0x79, 0x74, 0x65, 0x73, 0x1a, 0x00,
    0x10, 0x00, 0x00, 0x6a, 0x64, 0x69, 0x73, 0x63, 0x6c, 0x6f, 0x73, 0x75, 0x72, 0x65, 0xa1,
    0x64, 0x6d, 0x6f, 0x64, 0x65, 0x6d, 0x6d, 0x65, 0x74, 0x61, 0x64, 0x61, 0x74, 0x61, 0x5f,
    0x6f, 0x6e, 0x6c, 0x79]

def goldenAck : BridgeMessage := .ack 128

def goldenAckBody : List UInt8 :=
  [0xa2, 0x63, 0x6d, 0x73, 0x67, 0x63, 0x61, 0x63, 0x6b, 0x64, 0x64, 0x61, 0x74, 0x61, 0xa1,
    0x70, 0x74, 0x68, 0x72, 0x6f, 0x75, 0x67, 0x68, 0x5f, 0x73, 0x65, 0x71, 0x75, 0x65, 0x6e,
    0x63, 0x65, 0x18, 0x80]

/-- CBOR on the two vectors. -/
def goldenCbor : Cbor where
  intoWriter message :=
    if message = goldenHello then .ok goldenHelloBody
    else if message = goldenAck then .ok goldenAckBody
    else .error "not a golden vector"
  fromReader body :=
    if body = goldenHelloBody then .ok goldenHello
    else if body = goldenAckBody then .ok goldenAck
    else .error "not a golden vector"

theorem inverts_goldenCbor : goldenCbor.Inverts := by
  intro message body h
  simp only [goldenCbor] at h ⊢
  split_ifs at h with hhello hack
  · rw [hhello, if_pos (Except.ok.inj h).symm]
  · have hne : goldenAckBody ≠ goldenHelloBody := by decide
    rw [hack, ← Except.ok.inj h, if_neg hne, if_pos rfl]

/-- A frame of one of the vectors. -/
def goldenFrame (body : List UInt8) : List UInt8 := toLe frameHeaderBytes body.length ++ body

/-- A hello and an acknowledgement, cut in the middle of a header. -/
theorem readerLoop_golden :
    (readerLoop goldenCbor { (default : BridgeServerConfig) with maxFrameBytes := maxFrameBytes }
      .start ([goldenFrame goldenHelloBody ++ [34], [0, 0, 0] ++ goldenAckBody].map
        .bytes)).1.handed = [goldenHello, goldenAck] := by
  obtain ⟨hloop, hroom⟩ := @readerLoop_chunks goldenCbor inverts_goldenCbor
    { (default : BridgeServerConfig) with maxFrameBytes := maxFrameBytes } (by decide)
    [goldenHello, goldenAck] [goldenFrame goldenHelloBody, goldenFrame goldenAckBody]
    (.cons (by decide +kernel) (.cons (by decide +kernel) .nil))
    [goldenFrame goldenHelloBody ++ [34], [0, 0, 0] ++ goldenAckBody]
    (by decide +kernel) (by decide +kernel)
  rw [hloop.handed (hroom (by decide))]
  decide

/-- **A message after one that closes the connection is not handed over**: a client that does
not begin with a hello. -/
theorem readerLoop_stops_at_close :
    ¬∀ (cbor : Cbor) (config : BridgeServerConfig) (messages : List BridgeMessage)
      (frames chunks : List (List UInt8)), cbor.Inverts → config.maxFrameBytes < 2 ^ 32 →
      List.Forall₂ (fun message frame =>
        encodeFrame cbor message config.maxFrameBytes = .ok frame) messages frames →
      chunks.flatten = frames.flatten →
      (∀ chunk ∈ chunks, 1 ≤ chunk.length ∧ chunk.length ≤ 16384) →
      (readerLoop cbor config .start (chunks.map .bytes)).1.handed = messages := by
  intro hall
  have h := hall goldenCbor { (default : BridgeServerConfig) with maxFrameBytes := maxFrameBytes }
    [goldenAck, goldenAck] [goldenFrame goldenAckBody, goldenFrame goldenAckBody]
    [goldenFrame goldenAckBody ++ goldenFrame goldenAckBody] inverts_goldenCbor (by decide)
    (.cons (by decide) (.cons (by decide) .nil)) (by decide)
    (by decide)
  revert h
  decide

-- Three frames in one read are over a small limit, though each of them is within it.
example : (readerLoop goldenCbor { (default : BridgeServerConfig) with maxFrameBytes := 34 } .start
      [.bytes ((List.replicate 3 (goldenFrame goldenAckBody)).flatten)]).2 =
      some .bufferLimit := by
  decide +kernel

end AgentSight.Bridge
