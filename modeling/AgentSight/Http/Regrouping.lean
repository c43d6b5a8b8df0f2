import AgentSight.Http.FrameCodec
import AgentSight.Http.Http2

/-!
# Frames in captured events

The frames of a connection come in captured reads and writes, several in one or each in its own.
What `HTTP2State` does with a frame depends on its thread, on its direction and on the frames before
it, and not on the event it came in: only the time, the process and its name are those of the event.
The client preface is the exception, for it is taken off every event that starts with its bytes, and
a frame of an unknown type may start with them too.
-/

namespace AgentSight.Http

open BigEndian List
open View (Event)

/-- What the parser makes of the frames alone, without what it takes of the event they came in. -/
def unwrapped (event : Event) : String × Json.Value := (event.source, event.data)

/-- The event as it would be had its frames come in another one. -/
def rewrapped (original event : Event) : Event :=
  { event with timestamp := original.timestamp, pid := original.pid, comm := original.comm }

/-! ### One frame -/

/-- The frames of another event of the thread and the direction. -/
def Capture.within (capture : Capture) (original : Event) : Capture :=
  { capture with originalEvent := original }

section Frame

variable (capture : Capture) (original : Event)

theorem emit_within (streamId : ℕ) (direction : HTTP2Direction) (stream : HTTP2StreamState) :
    emit (capture.within original) streamId direction stream =
      ((emit capture streamId direction stream).1,
        (emit capture streamId direction stream).2.map (rewrapped original)) := by
  cases direction with
  | request =>
    unfold emit
    split_ifs <;> rfl
  | response =>
    unfold emit
    split_ifs <;> rfl

theorem handleHeaders_within (frame : HTTP2Frame) (headers : Headers) (stream : HTTP2StreamState) :
    handleHeaders (capture.within original) frame headers stream =
      ((handleHeaders capture frame headers stream).1,
        (handleHeaders capture frame headers stream).2.map (rewrapped original)) := by
  unfold handleHeaders
  split_ifs
  · exact emit_within capture original _ _ _
  · rfl

variable [External]

theorem handleData_within (frame : HTTP2Frame) (stream : HTTP2StreamState) :
    handleData (capture.within original) frame stream = ((handleData capture frame stream).1,
        (handleData capture frame stream).2.map (rewrapped original)) := by
  have hdirection : (capture.within original).direction = capture.direction := rfl
  unfold handleData
  rw [hdirection]
  cases capture.direction with
  | request =>
    split_ifs
    · exact emit_within capture original _ _ _
    · rfl
  | response =>
    dsimp only
    split_ifs
    · exact emit_within capture original _ _ _
    · rfl

namespace HTTP2State

variable [Hpack] (state : HTTP2State)

omit [External] in
theorem updateStream_within (key : StreamKey)
    {f g : HTTP2StreamState → HTTP2StreamState × Option Event}
    (h : ∀ stream, g stream = ((f stream).1, (f stream).2.map (rewrapped original))) :
    state.updateStream key g =
      ((state.updateStream key f).1, (state.updateStream key f).2.map (rewrapped original)) := by
  rw [updateStream, updateStream, h]

omit [External] in
theorem handleHeadersFrame_within (frame : HTTP2Frame) :
    state.handleHeadersFrame (capture.within original) frame =
      ((state.handleHeadersFrame capture frame).1,
        (state.handleHeadersFrame capture frame).2.map (rewrapped original)) := by
  unfold handleHeadersFrame
  dsimp only [Capture.within]
  split_ifs
  · rcases state.decodeHeaders capture.direction (headersPayload frame.flags frame.payload) with
      ⟨next, _ | headers⟩
    · rfl
    · exact updateStream_within original next _ fun stream =>
        handleHeaders_within capture original frame headers stream
  · rfl
  · rfl

/-- **A frame does to the state what it would do in another event.** -/
theorem handleFrame_within (frame : HTTP2Frame) :
    state.handleFrame (capture.within original) frame = ((state.handleFrame capture frame).1,
        (state.handleFrame capture frame).2.map (rewrapped original)) := by
  have htid : (capture.within original).tid = capture.tid := rfl
  have hdata := updateStream_within original state (capture.tid, frame.streamId)
    fun stream => handleData_within capture original frame stream
  have hheaders := handleHeadersFrame_within capture original state frame
  have hcontinuation (state : HTTP2State) pending :
      state.handleContinuation (capture.within original) frame pending =
        state.handleContinuation capture frame pending := rfl
  unfold handleFrame
  simp only [htid, hdata, hheaders, hcontinuation]
  split_ifs
  · rfl
  · rfl
  · rfl
  · rfl
  · rfl
  · have hlookup : state.pendingHeaders.lookup ((capture.within original).tid, frame.streamId) =
        state.pendingHeaders.lookup (capture.tid, frame.streamId) := rfl
    rw [hlookup]
    rcases state.pendingHeaders.lookup (capture.tid, frame.streamId) with _ | pending
    · rfl
    · dsimp only
      split_ifs <;> rfl
  · rfl

end HTTP2State

end Frame

/-! ### Groups -/

/-- A captured read or write that holds whole frames, after the preface or without it. -/
structure FrameGroup where
  event : Event
  direction : HTTP2Direction
  withPreface : Bool
  frames : List (Bool × HTTP2Frame)
  isDirected : directionFromFunction ((event.data.strField "function").getD "") = some direction
  isWellFormed : ∀ item ∈ frames, item.2.IsWellFormed

/-- A frame with the thread and the direction it was captured with. -/
abbrev TaggedFrame := (ℕ × HTTP2Direction) × HTTP2Frame

namespace FrameGroup

def bytes (group : FrameGroup) : List UInt8 :=
  startOf group.withPreface ++ encodeFrames group.frames

def tagged (group : FrameGroup) : List TaggedFrame :=
  group.frames.map fun item => ((group.event.data.u64Field "tid", group.direction), item.2)

/-- No frame starts with the bytes of the preface. -/
def IsPlain (group : FrameGroup) : Prop :=
  ∀ item ∈ group.frames, ¬preface <+: item.2.encode item.1

end FrameGroup

section Groups

variable [External] [Hpack]

/-- The events that `HTTP2State` makes of the groups, one after the other. -/
def handleGroups (includeRawData : Bool) : HTTP2State → List FrameGroup → HTTP2State × List Event
  | state, [] => (state, [])
  | state, group :: groups =>
    let (next, events) := state.handleEvent group.event group.bytes includeRawData
    let (last, events') := handleGroups includeRawData next groups
    (last, events.getD [] ++ events')

/-- What the frames come to, each on its own. -/
def handleTagged (includeRawData : Bool) :
    HTTP2State → List TaggedFrame → HTTP2State × List (String × Json.Value)
  | state, [] => (state, [])
  | state, ((tid, direction), frame) :: frames =>
    let capture : Capture := { tid, direction, originalEvent := default, includeRawData }
    let (next, event) := if frame.isKnown then state.handleFrame capture frame else (state, none)
    let (last, events) := handleTagged includeRawData next frames
    (last, event.toList.map unwrapped ++ events)

variable (includeRawData : Bool)

theorem handleTagged_append (state : HTTP2State)
    (frames frames' : List TaggedFrame) :
    handleTagged includeRawData state (frames ++ frames') =
      ((handleTagged includeRawData (handleTagged includeRawData state frames).1 frames').1,
        (handleTagged includeRawData state frames).2 ++
          (handleTagged includeRawData (handleTagged includeRawData state frames).1
            frames').2) := by
  induction frames generalizing state with
  | nil => rfl
  | cons item frames ih =>
    rw [cons_append, handleTagged, handleTagged]
    simp [ih, append_assoc]

/-- The frames of an event are handled one after the other. -/
theorem handleFrames_tagged (capture : Capture) (state : HTTP2State) (frames : List HTTP2Frame) :
    ((state.handleFrames capture (frames.filter HTTP2Frame.isKnown)).1,
        (state.handleFrames capture (frames.filter HTTP2Frame.isKnown)).2.map unwrapped) =
      handleTagged capture.includeRawData state
        (frames.map fun frame => ((capture.tid, capture.direction), frame)) := by
  induction frames generalizing state with
  | nil => rfl
  | cons frame frames ih =>
    rw [map_cons, handleTagged]
    by_cases hknown : frame.isKnown = true
    · have hframe : state.handleFrame capture frame = _ := HTTP2State.handleFrame_within
        { capture with originalEvent := default } capture.originalEvent state frame
      rw [filter_cons_of_pos hknown, if_pos hknown, HTTP2State.handleFrames, hframe]
      dsimp only
      rw [← ih]
      simp only [map_append, Option.toList_map, map_map]
      rfl
    · rw [filter_cons_of_neg hknown, if_neg hknown]
      dsimp only
      rw [← ih]
      rfl

omit [External] [Hpack] in
/-- Only a frame that is as long as the preface says may start with it. -/
theorem not_preface_prefix_append {reserved : Bool} {frame : HTTP2Frame}
    (h : frame.IsWellFormed) (hplain : ¬preface <+: frame.encode reserved) (rest : List UInt8) :
    ¬preface <+: frame.encode reserved ++ rest := by
  intro hprefix
  refine hplain (prefix_of_prefix_length_le hprefix (prefix_append _ _) ?_)
  obtain ⟨tail, htail⟩ := hprefix
  have hthree := congrArg (List.take 3) htail
  rw [HTTP2Frame.encode, HTTP2Frame.header, append_assoc, append_assoc,
    take_append_of_le_length (by decide),
    take_append_of_le_length (length_toBytes 3 _).ge,
    take_of_length_le (length_toBytes 3 _).le] at hthree
  have hmod : frame.payload.length % 256 ^ 3 = frame.payload.length :=
    Nat.mod_eq_of_lt h.length_lt
  have hlength := congrArg ofBytes hthree
  rw [ofBytes_toBytes, hmod] at hlength
  rw [length_encode, ← hlength]
  decide

omit [External] [Hpack] in
theorem not_preface_prefix_bytes {group : FrameGroup} (hplain : group.IsPlain) :
    ¬preface <+: encodeFrames group.frames := by
  rcases hframes : group.frames with _ | ⟨item, frames⟩
  · decide
  · have hmem : item ∈ group.frames := hframes ▸ mem_cons_self
    exact not_preface_prefix_append (group.isWellFormed item hmem) (hplain item hmem) _

/-- What the frames of a group are handled with. -/
def FrameGroup.capture (group : FrameGroup) (includeRawData : Bool) : Capture where
  tid := group.event.data.u64Field "tid"
  direction := group.direction
  originalEvent := group.event
  includeRawData

omit [External] [Hpack] in
theorem captureOf_group (group : FrameGroup) (includeRawData : Bool) :
    HTTP2State.captureOf group.event includeRawData = some (group.capture includeRawData) := by
  rw [HTTP2State.captureOf, group.isDirected]
  rfl

theorem handleGroups_parsed (group : FrameGroup) {frames : List HTTP2Frame}
    (h : parseHttp2Frames (startOf group.withPreface ++ encodeFrames group.frames) = some frames)
    {includeRawData : Bool} {state : HTTP2State} {groups : List FrameGroup} :
    handleGroups includeRawData state (group :: groups) =
      let next := state.handleFrames (group.capture includeRawData) frames
      ((handleGroups includeRawData next.1 groups).1,
        next.2 ++ (handleGroups includeRawData next.1 groups).2) := by
  rw [handleGroups, HTTP2State.handleEvent, FrameGroup.bytes, h, captureOf_group]
  rfl

/-- The parser makes of an event what its frames come to, each on its own. -/
theorem handleEvent_group (state : HTTP2State) (group : FrameGroup)
    (hplain : group.IsPlain) :
    ((state.handleEvent group.event group.bytes includeRawData).1,
        ((state.handleEvent group.event group.bytes includeRawData).2.getD []).map unwrapped) =
      handleTagged includeRawData state group.tagged := by
  have hframes : framesOf (encodeFrames group.frames) =
      some ((group.frames.map Prod.snd).filter HTTP2Frame.isKnown) := by
    have hall := framesOf_encodeFrames group.isWellFormed []
    rw [append_nil] at hall
    rw [hall]
    exact congrArg some (append_nil _)
  have htagged := handleFrames_tagged (group.capture includeRawData) state
    (group.frames.map Prod.snd)
  rw [map_map] at htagged
  rw [HTTP2State.handleEvent, captureOf_group, FrameGroup.bytes,
    parseHttp2Frames_start (.inr (not_preface_prefix_bytes hplain)), hframes]
  refine Eq.trans ?_ htagged
  by_cases hnone : (group.frames.map Prod.snd).filter HTTP2Frame.isKnown = []
  · rw [hnone]
    rfl
  · rw [Option.filter_some_pos (by simpa using hnone)]
    rfl

theorem handleGroups_tagged (state : HTTP2State)
    {groups : List FrameGroup} (hplain : ∀ group ∈ groups, group.IsPlain) :
    ((handleGroups includeRawData state groups).1,
        (handleGroups includeRawData state groups).2.map unwrapped) =
      handleTagged includeRawData state (groups.flatMap FrameGroup.tagged) := by
  induction groups generalizing state with
  | nil => rfl
  | cons group groups ih =>
    rw [forall_mem_cons] at hplain
    have hgroup := handleEvent_group includeRawData state group hplain.1
    have hrest := ih (state.handleEvent group.event group.bytes includeRawData).1 hplain.2
    rw [flatMap_cons, handleTagged_append, ← hgroup, ← hrest, handleGroups]
    simp [map_append]

/-- **The grouping of the frames does not matter.** The state and the events are the same for any
two groupings of the same frames, none of which starts with the bytes of the preface. -/
theorem handleGroups_regroup (includeRawData : Bool) (state : HTTP2State)
    {groups groups' : List FrameGroup}
    (hframes : groups.flatMap FrameGroup.tagged = groups'.flatMap FrameGroup.tagged)
    (hplain : ∀ group ∈ groups, group.IsPlain) (hplain' : ∀ group ∈ groups', group.IsPlain) :
    (handleGroups includeRawData state groups).1 = (handleGroups includeRawData state groups').1 ∧
      (handleGroups includeRawData state groups).2.map unwrapped =
        (handleGroups includeRawData state groups').2.map unwrapped := by
  have hsame := handleGroups_tagged includeRawData state hplain
  rw [hframes, ← handleGroups_tagged includeRawData state hplain'] at hsame
  exact Prod.ext_iff.mp hsame

end Groups

/-! ### Groupings of a connection -/

/-- Every header block is an empty field list. -/
@[reducible] def emptyBlocks : Hpack where
  Decoder := Unit
  new := ()
  decode decoder _ := (decoder, some [])

/-- The values of the bodies below are no JSON. -/
@[reducible] def plainBodies : External where
  fromStr _ := none
  valueToString _ := ""
  toVec _ := ""
  sha256Hex _ := ""
  parseF64 _ := none

/-- A captured write of thread 7. -/
def writeEvent : Event where
  timestamp := 1
  source := "ssl"
  pid := 7
  comm := "claude"
  data := .object [("function", .string "WRITE/SEND"), ("tid", .number (.posInt 7))]

/-- A write of whole frames. -/
def writeGroup (withPreface : Bool) (frames : List (Bool × HTTP2Frame))
    (h : ∀ item ∈ frames, item.2.IsWellFormed) : FrameGroup where
  event := writeEvent
  direction := .request
  withPreface
  frames
  isDirected := by decide
  isWellFormed := h

def settingsFrame : HTTP2Frame where
  frameType := 0x4
  flags := 0
  streamId := 0
  payload := []

/-- HEADERS that end the block and the stream. -/
def requestFrame : HTTP2Frame where
  frameType := 0x1
  flags := 0x5
  streamId := 1
  payload := []

theorem settingsFrame_isWellFormed : settingsFrame.IsWellFormed := ⟨by decide, by decide⟩

theorem requestFrame_isWellFormed : requestFrame.IsWellFormed := ⟨by decide, by decide⟩

section Plain

local instance : Hpack := emptyBlocks

local instance : External := plainBodies

/-- SETTINGS and HEADERS in one write and in two. -/
theorem requestGroups_regroup : (handleGroups false HTTP2State.new
        [writeGroup true [(false, settingsFrame), (false, requestFrame)] (by
          simp [settingsFrame_isWellFormed, requestFrame_isWellFormed])]).2.map unwrapped =
      (handleGroups false HTTP2State.new
        [writeGroup true [(false, settingsFrame)] (by simp [settingsFrame_isWellFormed]),
          writeGroup false [(false, requestFrame)] (by
            simp [requestFrame_isWellFormed])]).2.map unwrapped := by
  refine (handleGroups_regroup false HTTP2State.new ?_ (fun group hgroup => ?_)
    (fun group hgroup => ?_)).2
  · rfl
  · obtain rfl := mem_singleton.mp hgroup
    intro item hitem
    obtain rfl | rfl : item = (false, settingsFrame) ∨ item = (false, requestFrame) := by
      simpa [writeGroup] using hitem
    · decide
    · decide
  · obtain rfl | hgroup := mem_cons.mp hgroup
    · intro item hitem
      obtain rfl : item = (false, settingsFrame) := mem_singleton.mp hitem
      decide
    · obtain rfl := mem_singleton.mp hgroup
      intro item hitem
      obtain rfl : item = (false, requestFrame) := mem_singleton.mp hitem
      decide

end Plain

section Shadowed

local instance : Hpack := emptyBlocks

local instance : External := plainBodies

theorem encodeFrames_singleton (reserved : Bool) (frame : HTTP2Frame) :
    encodeFrames [(reserved, frame)] = frame.encode reserved := append_nil _

/-- Fills what the preface says is the length of the frame it shows up in. -/
def fillerFrame : HTTP2Frame where
  frameType := 0xFF
  flags := 0
  streamId := 0
  payload := List.replicate 5263912 0

/-- What stands behind the bytes of the preface in the frame below. -/
def innerFrames : List (Bool × HTTP2Frame) := [(false, requestFrame), (false, fillerFrame)]

/-- A frame of an unknown type that starts with the bytes of the preface. -/
def shadowFrame : HTTP2Frame where
  frameType := 0x20
  flags := 0x2A
  streamId := 0x20485454
  payload := preface.drop 9 ++ encodeFrames innerFrames

theorem length_fillerFrame : fillerFrame.payload.length = 5263912 := by
  exact length_replicate

theorem length_innerFrames : (encodeFrames innerFrames).length = 5263930 := by
  have hencode : encodeFrames innerFrames =
      requestFrame.encode false ++ (fillerFrame.encode false ++ []) := rfl
  have hrequest : requestFrame.payload.length = 0 := rfl
  rw [hencode, append_nil, length_append, length_encode, length_encode, hrequest,
    length_fillerFrame]

theorem length_shadowFrame : shadowFrame.payload.length = 0x505249 := by
  have hpreface : (preface.drop 9).length = 15 := rfl
  rw [shadowFrame, length_append, hpreface, length_innerFrames]

theorem header_shadowFrame : shadowFrame.header false = preface.take 9 := by
  rw [HTTP2Frame.header, length_shadowFrame]
  decide

theorem encode_shadowFrame : shadowFrame.encode false = preface ++ encodeFrames innerFrames := by
  rw [HTTP2Frame.encode, header_shadowFrame, shadowFrame, ← append_assoc,
    take_append_drop]

theorem fillerFrame_isWellFormed : fillerFrame.IsWellFormed where
  length_lt := by
    rw [length_fillerFrame]
    decide
  streamId_lt := by decide

theorem shadowFrame_isWellFormed : shadowFrame.IsWellFormed where
  length_lt := by
    rw [length_shadowFrame]
    decide
  streamId_lt := by decide

theorem innerFrames_isWellFormed : ∀ item ∈ innerFrames, item.2.IsWellFormed := by
  simp [innerFrames, requestFrame_isWellFormed, fillerFrame_isWellFormed]

def joinedGroup : FrameGroup :=
  writeGroup true [(false, settingsFrame), (false, shadowFrame)] (by
    simp [settingsFrame_isWellFormed, shadowFrame_isWellFormed])

def settingsGroup : FrameGroup :=
  writeGroup true [(false, settingsFrame)] (by simp [settingsFrame_isWellFormed])

def shadowGroup : FrameGroup :=
  writeGroup false [(false, shadowFrame)] (by simp [shadowFrame_isWellFormed])

theorem parseHttp2Frames_joined : parseHttp2Frames (startOf true ++
      encodeFrames [(false, settingsFrame), (false, shadowFrame)]) = some [settingsFrame] := by
  have hwell : ∀ item ∈ [(false, settingsFrame), (false, shadowFrame)], item.2.IsWellFormed := by
    simp [settingsFrame_isWellFormed, shadowFrame_isWellFormed]
  have hframes := framesOf_encodeFrames hwell []
  rw [append_nil] at hframes
  rw [parseHttp2Frames_start (.inl rfl), hframes]
  rfl

theorem parseHttp2Frames_shadow :
    parseHttp2Frames (startOf false ++ encodeFrames [(false, shadowFrame)]) =
      some [requestFrame] := by
  have hbytes : startOf false ++ encodeFrames [(false, shadowFrame)] =
      startOf true ++ encodeFrames innerFrames := by
    rw [encodeFrames_singleton, encode_shadowFrame, startOf, if_neg Bool.false_ne_true,
      nil_append, startOf, if_pos rfl]
  have hframes := framesOf_encodeFrames innerFrames_isWellFormed []
  rw [append_nil] at hframes
  rw [hbytes, parseHttp2Frames_start (.inl rfl), hframes]
  rfl

/-- In an event of its own the frame is read as the preface and what stands behind it. -/
theorem shadowGroup_differs : [joinedGroup].flatMap FrameGroup.tagged =
        [settingsGroup, shadowGroup].flatMap FrameGroup.tagged ∧
      (handleGroups false HTTP2State.new [joinedGroup]).2.map unwrapped ≠
        (handleGroups false HTTP2State.new [settingsGroup, shadowGroup]).2.map unwrapped := by
  refine ⟨rfl, fun hsame => ?_⟩
  have hsettings : parseHttp2Frames (startOf true ++ encodeFrames [(false, settingsFrame)]) =
      some [settingsFrame] := by decide
  have hjoined : (handleGroups false HTTP2State.new [joinedGroup]).2 = [] := by
    rw [handleGroups_parsed joinedGroup parseHttp2Frames_joined]
    rfl
  have hsplit : (handleGroups false HTTP2State.new [settingsGroup, shadowGroup]).2.length = 1 := by
    rw [handleGroups_parsed settingsGroup hsettings]
    dsimp only
    rw [handleGroups_parsed shadowGroup parseHttp2Frames_shadow]
    rfl
  have hlength := congrArg List.length hsame
  rw [hjoined, length_map, length_map, hsplit] at hlength
  exact absurd hlength (by decide)

end Shadowed

end AgentSight.Http
