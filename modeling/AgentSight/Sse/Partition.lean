import AgentSight.Sse.EventText
import AgentSight.Sse.Merged

/-!
# Partition invariance

A stream is cut into chunks, each captured as one SSL event. While the stream is open its
events stand in one buffer, whatever the cuts; the chunk with the first completion marker
flushes it; what follows the marker fills buffers that are never worth an event.
-/

namespace AgentSight.Sse

open Json (Value)
open View (Event)
open List SSEProcessor

/-! ### Streams -/

/-- A list of events, cut at its first completion marker. -/
structure Stream where
  body : List SSEEvent
  marker : SSEEvent
  tail : List SSEEvent
  messageId : Option String

def Stream.events (stream : Stream) : List SSEEvent := stream.body ++ stream.marker :: stream.tail

/-- The events agree on one message id, which the first event that is not a keepalive carries if
any does. -/
structure Identified (messageId : Option String) (events : List SSEEvent) : Prop where
  agree : ∀ event ∈ events, extractMessageId [event] = none ∨ extractMessageId [event] = messageId
  first : ∀ event ∈ events.find? (!isKeepalive ·), extractMessageId [event] = messageId

structure Stream.WellFormed (stream : Stream) : Prop where
  unmarked : ∀ event ∈ stream.body, event.marksEnd = false
  marked : stream.marker.marksEnd
  text : (stream.body.foldl Content.accumulate {}).accumulatedText.utf8ByteSize ≤ 50000
  json : (stream.body.foldl Content.accumulate {}).accumulatedJson.utf8ByteSize ≤ 50000
  carries : ∃ event ∈ stream.body ++ [stream.marker], event.carriesContent
  quiet : ∀ event ∈ stream.tail, event.isQuiet
  identified : Identified stream.messageId stream.events

/-! ### Cuts -/

/-- An SSL event whose data is the text of consecutive events. -/
structure Chunk where
  event : Event
  newline : Newline
  texts : List EventText
  nonempty : texts ≠ []
  ssl : event.source = "ssl"
  data : event.data.strField "data" = some (render newline texts)

section

variable [External]

def Chunk.events (chunk : Chunk) : List SSEEvent := chunk.texts.map EventText.parsed

/-- The chunk consists of `ping` and `message_delta` events. -/
def Chunk.isKeepalive (chunk : Chunk) : Bool := chunk.events.all Sse.isKeepalive

/-- What the processor skips says nothing. -/
def Chunk.SkipsNothing (chunk : Chunk) : Prop :=
  chunk.isKeepalive → ∀ event ∈ chunk.events, event.carriesContent = false ∧ event.marksEnd = false

instance (chunk : Chunk) : Decidable chunk.SkipsNothing := by
  unfold Chunk.SkipsNothing
  infer_instance

/-- No chunk comes later than the timeout after the chunk before it, also not when the chunks of
keepalives in between are not counted. -/
def Punctual (timeoutMs : ℕ) (cut : List Chunk) : Prop :=
  ∀ before chunk between next after, cut = before ++ chunk :: (between ++ next :: after) →
      (∀ skipped ∈ between, skipped.isKeepalive) →
        next.event.timestamp - chunk.event.timestamp ≤ timeoutMs

/-- A cut of the stream into chunks of one thread. -/
structure Cuts (stream : Stream) (pid tid timeoutMs : ℕ) (cut : List Chunk) : Prop where
  events : cut.flatMap Chunk.events = stream.events
  pid : ∀ chunk ∈ cut, pidOf chunk.event = pid
  tid : ∀ chunk ∈ cut, tidOf chunk.event = tid
  skips : ∀ chunk ∈ cut, chunk.SkipsNothing
  punctual : Punctual timeoutMs cut

end

/-! ### Buffers of a thread -/

def Owns (thread : String) (entry : String × SSEAccumulator) : Prop :=
  Str.startsWith entry.1 thread

instance (thread : String) : DecidablePred (Owns thread) :=
  fun _ => inferInstanceAs (Decidable (_ = true))

theorem startsWith_append (thread rest : String) : Str.startsWith (thread ++ rest) thread := by
  simp [Str.startsWith]

/-- No buffer of the thread, and room for one. -/
structure Waiting (thread : String) (max : ℕ) (buffers : Buffers) : Prop where
  none_owned : ∀ entry ∈ buffers, ¬ Owns thread entry
  room : buffers.length < max

/-- The thread's only buffer is the one of `connectionId`. -/
structure Receiving (thread : String) (max : ℕ) (connectionId : String)
    (accumulator : SSEAccumulator) (buffers : Buffers) : Prop where
  owned : Str.startsWith connectionId thread
  others : ∃ others, buffers.Perm ((connectionId, accumulator) :: others) ∧
    Waiting thread max others

/-- Every buffer of the thread holds events that say nothing. -/
def Finished (thread : String) (buffers : Buffers) : Prop :=
  ∀ entry ∈ buffers, Owns thread entry →
    entry.2.toContent = {} ∧ ∀ event ∈ entry.2.events, event.isQuiet

/-! ### The buffers a chunk meets -/

variable {buffers : Buffers} {entry : String × SSEAccumulator}

theorem mem_removeOldest (h : entry ∈ removeOldest buffers) : entry ∈ buffers := by
  rw [removeOldest] at h
  split at h
  · exact mem_of_mem_filter h
  · exact h

variable {max : ℕ}

theorem mem_evictOverCapacity (h : entry ∈ evictOverCapacity buffers max) : entry ∈ buffers := by
  rw [evictOverCapacity] at h
  generalize buffers.length - max = n at h
  induction n generalizing buffers with
  | zero => exact h
  | succ n ih => exact mem_removeOldest (ih h)

theorem evictOverCapacity_of_le (h : buffers.length ≤ max) :
    evictOverCapacity buffers max = buffers := by
  rw [evictOverCapacity, Nat.sub_eq_zero_of_le h]
  rfl

theorem lookup_of_notMem {key : String} {new : SSEAccumulator}
    (h : ∀ entry ∈ buffers, entry.1 ≠ key) : lookup buffers key new = new := by
  have hnone : buffers.find? (·.1 == key) = none :=
    find?_eq_none.mpr fun entry hentry => by simpa using h entry hentry
  simp [lookup, hnone]

/-- The first element with a property that only one element has. -/
theorem find?_eq_some_of_unique {α : Type} {p : α → Bool} {l : List α} {x : α} (hmem : x ∈ l)
    (hx : p x) (hunique : ∀ y ∈ l, p y → y = x) : l.find? p = some x := by
  cases hfind : l.find? p with
  | none => exact absurd hx (find?_eq_none.mp hfind x hmem)
  | some y => rw [hunique y (mem_of_find?_eq_some hfind) (find?_some hfind)]

namespace Waiting

variable {thread : String} {max : ℕ} {buffers buffers' : Buffers}

section

variable (h : Waiting thread max buffers)
include h

theorem filter (p : String × SSEAccumulator → Bool) :
    Waiting thread max (buffers.filter p) where
  none_owned entry hentry := h.none_owned entry (mem_of_mem_filter hentry)
  room := lt_of_le_of_lt (length_filter_le _ _) h.room

theorem perm (hperm : buffers.Perm buffers') :
    Waiting thread max buffers' where
  none_owned entry hentry := h.none_owned entry (hperm.mem_iff.mpr hentry)
  room := hperm.length_eq ▸ h.room

theorem ne_of_owned {key : String}
    (hkey : Str.startsWith key thread) : ∀ entry ∈ buffers, entry.1 ≠ key := by
  rintro entry hentry rfl
  exact h.none_owned entry hentry hkey

theorem finished : Finished thread buffers :=
  fun entry hentry howned => absurd howned (h.none_owned entry hentry)

end

end Waiting

namespace Receiving

variable {thread : String} {max : ℕ} {connectionId : String} {accumulator : SSEAccumulator}
  {buffers seen : Buffers}

section

variable (h : Receiving thread max connectionId accumulator buffers)
include h

theorem perm
    (hperm : buffers.Perm seen) : Receiving thread max connectionId accumulator seen := by
  obtain ⟨others, hothers, hwaiting⟩ := h.others
  exact ⟨h.owned, others, hperm.symm.trans hothers, hwaiting⟩

theorem filter
    {p : String × SSEAccumulator → Bool} (hp : p (connectionId, accumulator)) :
    Receiving thread max connectionId accumulator (buffers.filter p) := by
  obtain ⟨others, hothers, hwaiting⟩ := h.others
  refine ⟨h.owned, others.filter p, ?_, hwaiting.filter p⟩
  simpa [hp] using hothers.filter p

theorem length_le :
    buffers.length ≤ max := by
  obtain ⟨others, hothers, hwaiting⟩ := h.others
  have hroom := hwaiting.room
  rw [hothers.length_eq, length_cons]
  omega

theorem mem :
    (connectionId, accumulator) ∈ buffers := by
  obtain ⟨others, hothers, -⟩ := h.others
  exact hothers.mem_iff.mpr mem_cons_self

/-- A buffer of the thread is the one that is being received. -/
theorem eq_of_owned (hentry : entry ∈ buffers) (howned : Owns thread entry) :
    entry = (connectionId, accumulator) := by
  obtain ⟨others, hothers, hwaiting⟩ := h.others
  rcases mem_cons.mp (hothers.mem_iff.mp hentry) with heq | hother
  · exact heq
  · exact absurd howned (hwaiting.none_owned entry hother)

theorem lookup_eq
    (new : SSEAccumulator) : lookup buffers connectionId new = accumulator := by
  have hfind : buffers.find? (·.1 == connectionId) = some (connectionId, accumulator) := by
    refine find?_eq_some_of_unique h.mem (by simp) fun entry hentry hkey => ?_
    have howned : Owns thread entry := by
      rw [Owns, beq_iff_eq.mp hkey]
      exact h.owned
    exact h.eq_of_owned hentry howned
  simp [lookup, hfind]

theorem remove :
    Waiting thread max (remove buffers connectionId) := by
  obtain ⟨others, hothers, hwaiting⟩ := h.others
  have hperm : (Sse.remove buffers connectionId).Perm (others.filter (·.1 != connectionId)) := by
    simpa [Sse.remove] using hothers.filter (·.1 != connectionId)
  exact (hwaiting.filter _).perm hperm.symm

end

end Receiving

/-! ### The connection of a chunk -/

theorem startsWith_generateConnectionId (event : Event) (events : List SSEEvent) :
    Str.startsWith (generateConnectionId event events) (connPrefix event) := by
  rw [generateConnectionId]
  split <;> exact startsWith_append _ _

theorem startsWith_finalConnectionId (buffers : Buffers) (event : Event) (events : List SSEEvent) :
    Str.startsWith (finalConnectionId buffers event events) (connPrefix event) := by
  rw [finalConnectionId]
  split
  · exact startsWith_append _ _
  · split
    · next existingId accumulator hfind =>
      have hopen := find?_some hfind
      simp only [isOpenStream, Bool.and_eq_true] at hopen
      exact hopen.1.1
    · exact startsWith_generateConnectionId event events

variable {messageId : Option String}

theorem Identified.extractMessageId {events chunk : List SSEEvent}
    (h : Identified messageId events) (hchunk : ∀ event ∈ chunk, event ∈ events) :
    extractMessageId chunk = none ∨ extractMessageId chunk = messageId := by
  cases hid : Sse.extractMessageId chunk with
  | none => exact .inl rfl
  | some id =>
    obtain ⟨event, hmem, hevent⟩ := exists_of_extractMessageId hid
    have hagree := h.agree event (hchunk event hmem)
    simp only [hevent, reduceCtorEq, false_or] at hagree
    exact .inr hagree

/-- The chunk that has the first event that is no keepalive carries the message id. -/
theorem Identified.extractMessageId_first
    {chunk rest : List SSEEvent} (h : Identified messageId (chunk ++ rest))
    (hchunk : chunk.all isKeepalive = false) : Sse.extractMessageId chunk = messageId := by
  have hsome : (chunk.find? (!isKeepalive ·)).isSome := by
    simpa using hchunk
  obtain ⟨event, hfind⟩ := Option.isSome_iff_exists.mp hsome
  have hfirst := h.first event (by simp [find?_append, hfind])
  rcases h.extractMessageId (fun event hevent =>
      mem_append_left rest hevent) with
    hnone | hid
  · rw [hnone, ← hfirst]
    exact (extractMessageId_eq_none hnone (mem_of_find?_eq_some hfind)).symm
  · exact hid

/-! ### One chunk -/

/-- The accumulator has received exactly `events`. -/
structure Holds (events : List SSEEvent) (accumulator : SSEAccumulator) : Prop where
  events_eq : accumulator.events = events
  content_eq : accumulator.toContent = events.foldl Content.accumulate {}
  open_ : accumulator.isComplete = false

variable {accumulator : SSEAccumulator}

theorem Holds.accumulate {kept : List SSEEvent}
    (h : Holds kept accumulator) (events : List SSEEvent) (timestamp : ℕ) :
    Holds (kept ++ events) (accumulateContent
      { accumulator with lastUpdate := timestamp, endTime := timestamp } events) where
  events_eq := by rw [accumulateContent_events, h.events_eq]
  content_eq := by rw [accumulateContent_toContent, h.content_eq, foldl_append]
  open_ := by rw [accumulateContent_isComplete, h.open_]

/-- The stream a chunk continues or starts: the buffer it is appended to holds `kept`, and no
other buffer is the thread's. -/
structure Continues (thread : String) (max : ℕ) (kept : List SSEEvent) (connectionId : String)
    (buffers : Buffers) (event : Event) (events : List SSEEvent) : Prop where
  final : finalConnectionId buffers event events = connectionId
  owned : Str.startsWith connectionId thread
  holds : Holds kept (lookup buffers connectionId (.new event.timestamp))
  waiting : Waiting thread max (remove buffers connectionId)

theorem Waiting.continues {event : Event}
    (h : Waiting (connPrefix event) max buffers) (events : List SSEEvent) :
    Continues (connPrefix event) max [] (finalConnectionId buffers event events) buffers event
      events where
  final := rfl
  owned := startsWith_finalConnectionId buffers event events
  holds := by
    rw [lookup_of_notMem (h.ne_of_owned (startsWith_finalConnectionId buffers event events))]
    exact ⟨rfl, rfl, rfl⟩
  waiting := h.filter _

variable {connectionId : String}

theorem Receiving.continues {event : Event} {kept events : List SSEEvent}
    (h : Receiving (connPrefix event) max connectionId accumulator buffers)
    (hholds : Holds kept accumulator) (hkept : ∀ event ∈ kept, event.marksEnd = false)
    (hid : ∀ messageId, extractMessageId events = some messageId →
      connectionId = connPrefix event ++ messageId) :
    Continues (connPrefix event) max kept connectionId buffers event events where
  final := by
    rw [finalConnectionId]
    split
    · next messageId hmessage => exact (hid messageId hmessage).symm
    · have hstop : accumulator.events.any (·.isType "message_stop") = false := by
        refine any_eq_false.mpr fun event hevent => ?_
        have hmarks := hkept event (hholds.events_eq ▸ hevent)
        simp only [SSEEvent.marksEnd, Bool.or_eq_false_iff] at hmarks
        simp [hmarks]
      have hfind : buffers.find? (isOpenStream event) = some (connectionId, accumulator) := by
        refine find?_eq_some_of_unique h.mem (by simp [isOpenStream, h.owned, hholds.open_, hstop])
          fun entry hentry hopen => h.eq_of_owned hentry ?_
        simp only [isOpenStream, Bool.and_eq_true] at hopen
        exact hopen.1.1
      rw [hfind]
  owned := h.owned
  holds := by rw [h.lookup_eq]; exact hholds
  waiting := h.remove

/-- A buffer of the thread, found or new, says nothing. -/
theorem Finished.lookup {thread : String}
    (h : Finished thread buffers) (howned : Str.startsWith connectionId thread) (timestamp : ℕ) :
    (lookup buffers connectionId (.new timestamp)).toContent = {} ∧
      ∀ event ∈ (lookup buffers connectionId (.new timestamp)).events, event.isQuiet := by
  rw [Sse.lookup]
  cases hfind : buffers.find? (·.1 == connectionId) with
  | none => exact ⟨rfl, fun event hevent => absurd hevent not_mem_nil⟩
  | some entry =>
    have hkey : entry.1 = connectionId := by simpa using find?_some hfind
    exact h entry (mem_of_find?_eq_some hfind) (by rw [Owns, hkey]; exact howned)

section

variable [External] [PrettyPrinter] {thread connectionId : String} {max : ℕ}
  {kept events : List SSEEvent} {buffers : Buffers} {event : Event}

section

variable (h : Continues thread max kept connectionId buffers event events)
include h

/-- A chunk before the completion marker stays in the buffer. -/
theorem Continues.absorb_open
    (hmarks : ∀ event ∈ kept ++ events, event.marksEnd = false)
    (htext : ((kept ++ events).foldl Content.accumulate {}).accumulatedText.utf8ByteSize ≤ 50000)
    (hjson : ((kept ++ events).foldl Content.accumulate {}).accumulatedJson.utf8ByteSize ≤ 50000) :
    ∃ accumulator, (absorb buffers event events true).2 = none ∧
      Receiving thread max connectionId accumulator (absorb buffers event events true).1 ∧
      Holds (kept ++ events) accumulator ∧ accumulator.lastUpdate = event.timestamp := by
  have hholds := h.holds.accumulate events event.timestamp
  have hincomplete := not_isSseComplete (hholds.events_eq ▸ hmarks)
    (hholds.content_eq ▸ htext) (hholds.content_eq ▸ hjson)
  have habsorb : absorb buffers event events true = (insert buffers connectionId (accumulateContent
        { lookup buffers connectionId (.new event.timestamp) with
          lastUpdate := event.timestamp
          endTime := event.timestamp } events), none) := by
    simp [absorb, h.final, hincomplete]
  rw [habsorb]
  exact ⟨_, rfl, ⟨h.owned, _, Perm.refl _, h.waiting⟩, hholds, by simp⟩

/-- The chunk with a completion marker flushes the stream. -/
theorem Continues.absorb_last
    (hmarks : ∃ event ∈ kept ++ events, event.marksEnd)
    (hcarries : ∃ event ∈ kept ++ events, event.carriesContent) :
    ∃ merged, (absorb buffers event events true).2 = some merged ∧ Merges (kept ++ events) merged ∧
      Finished thread (absorb buffers event events true).1 := by
  have hholds := h.holds.accumulate events event.timestamp
  obtain ⟨marker, hmarker, hmarks⟩ := hmarks
  obtain ⟨carrier, hcarrier, hcarries⟩ := hcarries
  have hcomplete := isSseComplete_of_marksEnd (hholds.events_eq ▸ hmarker) hmarks
  have hmeaningful := hasMeaningfulContent_of_carriesContent (hholds.events_eq ▸ hcarrier) hcarries
  have habsorb : absorb buffers event events true =
      (remove buffers connectionId, some (createMergedEvent connectionId (accumulateContent
        { lookup buffers connectionId (.new event.timestamp) with
          lastUpdate := event.timestamp
          endTime := event.timestamp } events) event)) := by
    simp [absorb, h.final, hcomplete, hmeaningful]
  rw [habsorb]
  exact ⟨_, rfl, merges_createMergedEvent hholds.content_eq hholds.events_eq _ _,
    h.waiting.finished⟩

end

/-- What follows the marker never makes an event. -/
theorem Finished.absorb (h : Finished (connPrefix event) buffers)
    (hquiet : ∀ event ∈ events, event.isQuiet) :
    (absorb buffers event events true).2 = none ∧
      Finished (connPrefix event) (absorb buffers event events true).1 := by
  let connectionId := finalConnectionId buffers event events
  let accumulator := accumulateContent { Sse.lookup buffers connectionId (.new event.timestamp) with
      lastUpdate := event.timestamp
      endTime := event.timestamp } events
  obtain ⟨hcontent, hevents⟩ :=
    h.lookup (startsWith_finalConnectionId buffers event events) event.timestamp
  have hsilent : accumulator.toContent = {} := by
    rw [accumulateContent_toContent, ← foldl_accumulate_filter, filter_eq_nil_iff.mpr]
    · exact hcontent
    · intro event hevent
      simp [(SSEEvent.isQuiet_iff.mp (hquiet event hevent)).1]
  have hheld : ∀ event ∈ accumulator.events, event.isQuiet := by
    intro event hevent
    rw [accumulateContent_events, mem_append] at hevent
    exact hevent.elim (hevents event) (hquiet event)
  have hmeaningless : hasMeaningfulContent accumulator = false :=
    not_hasMeaningfulContent hsilent hheld
  have hrest : Finished (connPrefix event) (remove buffers connectionId) :=
    fun entry hentry => h entry (mem_of_mem_filter hentry)
  have habsorb : Sse.absorb buffers event events true =
      if isSseComplete accumulator then (remove buffers connectionId, none)
      else (insert buffers connectionId accumulator, none) := by
    simp [Sse.absorb, accumulator, connectionId, hmeaningless]
  rw [habsorb]
  split
  · exact ⟨rfl, hrest⟩
  · refine ⟨rfl, fun entry hentry howned => ?_⟩
    rcases mem_cons.mp hentry with rfl | hother
    · exact ⟨hsilent, hheld⟩
    · exact hrest entry hother howned

end

/-! ### One captured event -/

/-- The buffers that outlive the timeout and the eviction. -/
def SSEProcessor.retained (self : SSEProcessor) (buffers : Buffers) (event : Event) : Buffers :=
  evictOverCapacity (buffers.filter fun entry =>
    decide (event.timestamp - entry.2.lastUpdate ≤ self.timeoutMs)) self.maxBuffers

section

variable {self : SSEProcessor} {buffers : Buffers} {thread connectionId : String} {event : Event}

theorem Waiting.retained (h : Waiting thread self.maxBuffers buffers) :
    Waiting thread self.maxBuffers (self.retained buffers event) := by
  have hfilter := h.filter fun entry =>
    decide (event.timestamp - entry.2.lastUpdate ≤ self.timeoutMs)
  rwa [SSEProcessor.retained, evictOverCapacity_of_le hfilter.room.le]

theorem Receiving.retained (h : Receiving thread self.maxBuffers connectionId accumulator buffers)
    (htime : event.timestamp - accumulator.lastUpdate ≤ self.timeoutMs) :
    Receiving thread self.maxBuffers connectionId accumulator (self.retained buffers event) := by
  have hfilter := h.filter (p := fun entry =>
    decide (event.timestamp - entry.2.lastUpdate ≤ self.timeoutMs)) (by simpa using htime)
  rwa [SSEProcessor.retained, evictOverCapacity_of_le hfilter.length_le]

theorem Finished.retained (h : Finished thread buffers) :
    Finished thread (self.retained buffers event) :=
  fun entry hentry => h entry (mem_of_mem_filter (mem_evictOverCapacity hentry))

end

/-! ### What is left of a stream -/

/-- A chunk ends before the marker or contains it. -/
theorem chunk_cases {chunk rest body tail : List SSEEvent} {marker : SSEEvent}
    (h : chunk ++ rest = body ++ marker :: tail) :
    (∃ left, body = chunk ++ left ∧ rest = left ++ marker :: tail) ∨
      ∃ front, chunk = body ++ marker :: front ∧ tail = front ++ rest := by
  rcases append_eq_append_iff.mp h with ⟨left, rfl, hrest⟩ | ⟨front, rfl, htail⟩
  · exact .inl ⟨left, rfl, hrest⟩
  · cases front with
    | nil => exact .inl ⟨[], by simp, by simpa using htail.symm⟩
    | cons event front =>
      obtain ⟨rfl, rfl⟩ := cons.inj htail
      exact .inr ⟨front, rfl, rfl⟩

/-- A stream stays well-formed without a skipped chunk. -/
theorem Stream.WellFormed.skip (kept : List SSEEvent) {chunk left tail : List SSEEvent}
    {marker : SSEEvent}
    (h : Stream.WellFormed ⟨kept ++ (chunk ++ left), marker, tail, messageId⟩)
    (hkeepalive : chunk.all isKeepalive)
    (hnothing : ∀ event ∈ chunk, event.carriesContent = false) :
    Stream.WellFormed ⟨kept ++ left, marker, tail, messageId⟩ := by
  have hfilter : (kept ++ (chunk ++ left)).filter SSEEvent.carriesContent =
      (kept ++ left).filter SSEEvent.carriesContent := by
    have hchunk : chunk.filter SSEEvent.carriesContent = [] :=
      filter_eq_nil_iff.mpr fun event hevent => by simp [hnothing event hevent]
    simp [hchunk]
  have hcontent : (kept ++ left).foldl Content.accumulate {} =
      (kept ++ (chunk ++ left)).foldl Content.accumulate {} := by
    rw [← foldl_accumulate_filter, ← hfilter, foldl_accumulate_filter]
  have hsubset : ∀ event ∈ kept ++ left, event ∈ kept ++ (chunk ++ left) := by
    intro event hevent
    rcases mem_append.mp hevent with hkept | hleft
    · exact mem_append_left _ hkept
    · exact mem_append_right _ (mem_append_right _ hleft)
  have hfind : chunk.find? (!isKeepalive ·) = none :=
    find?_eq_none.mpr fun event hevent => by
      simpa using all_eq_true.mp hkeepalive event hevent
  obtain ⟨carrier, hcarrier, hcarries⟩ := h.carries
  exact
    { unmarked := fun event hevent => h.unmarked event (hsubset event hevent)
      marked := h.marked
      text := hcontent ▸ h.text
      json := hcontent ▸ h.json
      carries := by
        refine ⟨carrier, ?_, hcarries⟩
        have hmem : carrier ∈ (kept ++ (chunk ++ left)).filter SSEEvent.carriesContent ∨
            carrier = marker := by simpa [hcarries, or_assoc] using hcarrier
        rw [hfilter] at hmem
        simpa [hcarries, or_assoc] using hmem
      quiet := h.quiet
      identified :=
        { agree := fun event hevent => h.identified.agree event (by
            rcases mem_append.mp hevent with hfront | hback
            · exact mem_append_left _ (hsubset event hfront)
            · exact mem_append_right _ hback)
          first := fun event hevent => h.identified.first event (by
            simpa [Stream.events, hfind] using hevent) } }

/-! ### What a chunk holds -/

section

variable [External]

theorem sseEventsOf_chunk (chunk : Chunk) :
    sseEventsOf chunk.event = some (chunk.events, true) := by
  have hpayload : ssePayload chunk.event = some (render chunk.newline chunk.texts, true) := by
    simp [ssePayload, chunk.ssl, chunk.data]
  have hne : chunk.events ≠ [] := by simpa [Chunk.events] using chunk.nonempty
  have hsse := isSseData_render chunk.newline chunk.nonempty
  rw [sseEventsOf, hpayload]
  simp only [Option.bind_eq_bind, Option.bind_some, hsse, if_true, parseSseEvents_render]
  simpa [Chunk.events] using hne

/-- The punctuality of what is left of a cut, from the time the buffer was last updated. -/
def Timely (timeoutMs : ℕ) : ℕ → List Chunk → Prop
  | _, [] => True
  | last, chunk :: cut =>
    chunk.event.timestamp - last ≤ timeoutMs ∧ Timely timeoutMs chunk.event.timestamp cut ∧
      (chunk.isKeepalive → Timely timeoutMs last cut)

variable {cut : List Chunk} {timeoutMs : ℕ}

theorem Punctual.timely (before between : List Chunk) {chunk : Chunk}
    (h : Punctual timeoutMs (before ++ chunk :: (between ++ cut)))
    (hbetween : ∀ skipped ∈ between, skipped.isKeepalive) :
    Timely timeoutMs chunk.event.timestamp cut := by
  induction cut generalizing before chunk between with
  | nil => trivial
  | cons next cut ih =>
    refine ⟨h before chunk between next cut rfl hbetween, ?_, fun hnext => ?_⟩
    · have hcut : before ++ chunk :: (between ++ next :: cut) =
          (before ++ chunk :: between) ++ next :: ([] ++ cut) := by simp
      exact ih _ _ (hcut ▸ h) (fun _ hmem => absurd hmem not_mem_nil)
    · have hcut : before ++ chunk :: (between ++ next :: cut) =
          before ++ chunk :: ((between ++ [next]) ++ cut) := by simp
      refine ih _ _ (hcut ▸ h) fun skipped hskipped => ?_
      rcases mem_append.mp hskipped with hold | hnew
      · exact hbetween skipped hold
      · exact mem_singleton.mp hnew ▸ hnext

/-- A cut whose chunks all come within the timeout of one another is punctual. -/
theorem punctual_of_forall
    (h : ∀ chunk ∈ cut, ∀ next ∈ cut, next.event.timestamp - chunk.event.timestamp ≤ timeoutMs) :
    Punctual timeoutMs cut := by
  rintro before chunk between next after rfl -
  exact h chunk (by simp) next (by simp)

theorem Punctual.tail {chunk : Chunk}
    (h : Punctual timeoutMs (chunk :: cut)) : Punctual timeoutMs cut := by
  intro before first between next after hcut
  exact h (chunk :: before) first between next after (by rw [hcut]; rfl)

/-! ### Runs -/

variable [PrettyPrinter]

/-- What the processor does with a chunk, once its text is parsed. -/
def SSEProcessor.processChunk (self : SSEProcessor) (buffers : Buffers) (event : Event)
    (events : List SSEEvent) : Buffers × Option Event :=
  if events.all isKeepalive && !contains buffers (generateConnectionId event events) then
    (buffers, none)
  else absorb (self.retained buffers event) event events true

theorem SSEProcessor.processEvent_chunk (self : SSEProcessor) (buffers : Buffers) (chunk : Chunk) :
    self.processEvent buffers chunk.event = self.processChunk buffers chunk.event chunk.events := by
  rw [processEvent, sseEventsOf_chunk]
  rfl

/-- `process`, on chunks whose texts are parsed. -/
def SSEProcessor.processChunks (self : SSEProcessor) (buffers : Buffers) :
    List (Event × List SSEEvent) → Buffers × List Event
  | [] => (buffers, [])
  | (event, events) :: chunks =>
    let (next, output) := self.processChunk buffers event events
    let (last, outputs) := self.processChunks next chunks
    (last, output.toList ++ outputs)

theorem SSEProcessor.process_chunks (self : SSEProcessor) (buffers : Buffers) (cut : List Chunk) :
    self.process buffers (cut.map Chunk.event) =
      self.processChunks buffers (cut.map fun chunk => (chunk.event, chunk.events)) := by
  induction cut generalizing buffers with
  | nil => rfl
  | cons chunk cut ih =>
    simp [map_cons, process, processChunks,
      processEvent_chunk, ih]

variable {self : SSEProcessor} {buffers last : Buffers} {outputs : List Event} {thread : String}
  {chunk : Chunk} {cut : List Chunk} {kept body tail : List SSEEvent} {marker : SSEEvent}
  {messageId : Option String}

/-- Nothing comes out after the marker. -/
theorem run_finished (h : Finished thread buffers)
    (hthread : ∀ chunk ∈ cut, connPrefix chunk.event = thread)
    (hquiet : ∀ event ∈ cut.flatMap Chunk.events, event.isQuiet)
    (hrun : self.Run buffers (cut.map Chunk.event) last outputs) : outputs = [] := by
  induction cut generalizing buffers outputs with
  | nil => cases hrun; rfl
  | cons chunk cut ih =>
    rw [forall_mem_cons] at hthread
    cases hrun with
    | cons hperm hstep hrest =>
      next seen next rest output =>
      have hseen : Finished thread seen := fun entry hentry => h entry (hperm.mem_iff.mpr hentry)
      have hchunk : ∀ event ∈ chunk.events, event.isQuiet := fun event hevent =>
        hquiet event (mem_flatMap.mpr ⟨chunk, by simp, hevent⟩)
      have hnext : output = none ∧ Finished thread next := by
        rw [processEvent_chunk, processChunk] at hstep
        split at hstep
        · obtain ⟨rfl, rfl⟩ := Prod.mk.inj hstep
          exact ⟨rfl, hseen⟩
        · obtain rfl := hthread.1
          have hkept : Finished (connPrefix chunk.event) (self.retained seen chunk.event) :=
            hseen.retained
          have habsorb := hkept.absorb hchunk
          rw [hstep] at habsorb
          exact habsorb
      obtain ⟨rfl, hfinished⟩ := hnext
      rw [ih hfinished hthread.2 (fun event hevent => hquiet event (by simp_all)) hrest]
      rfl

/-- A chunk that is not skipped is appended to the open stream or flushes it; `hreceiving` says
what the rest of the run does in the first case. -/
theorem run_absorb (kept : List SSEEvent) {seen next : Buffers} {output : Option Event}
    (hcontinues : Continues thread self.maxBuffers kept connectionId seen chunk.event chunk.events)
    (hstream : Stream.WellFormed ⟨kept ++ body, marker, tail, messageId⟩)
    (hevents : chunk.events ++ cut.flatMap Chunk.events = body ++ marker :: tail)
    (hthread : ∀ chunk ∈ cut, connPrefix chunk.event = thread)
    (hstep : absorb seen chunk.event chunk.events true = (next, output))
    (hrest : self.Run next (cut.map Chunk.event) last outputs)
    (hreceiving : ∀ accumulator left,
      Receiving thread self.maxBuffers connectionId accumulator next →
        Holds (kept ++ chunk.events) accumulator →
          accumulator.lastUpdate = chunk.event.timestamp → body = chunk.events ++ left →
            cut.flatMap Chunk.events = left ++ marker :: tail → ∃ merged, outputs = [merged] ∧
                Merges (kept ++ chunk.events ++ (left ++ marker :: tail)) merged) :
    ∃ merged, output.toList ++ outputs = [merged] ∧
      Merges (kept ++ (body ++ marker :: tail)) merged := by
  have hnext : next = (absorb seen chunk.event chunk.events true).1 := by rw [hstep]
  have houtput : output = (absorb seen chunk.event chunk.events true).2 := by rw [hstep]
  rcases chunk_cases hevents with ⟨left, hbody, hleft⟩ | ⟨front, hchunk, htail⟩
  · -- the marker is still to come
    have hextends := extends_foldl_accumulate
      ((kept ++ chunk.events).foldl Content.accumulate {}) left
    rw [← foldl_append, append_assoc, ← hbody] at hextends
    obtain ⟨accumulator, hnone, hreceives, hholds, hupdate⟩ := hcontinues.absorb_open
      (fun event hevent => hstream.unmarked event (by
        rw [hbody, ← append_assoc]
        exact mem_append_left _ hevent))
      (hextends.utf8ByteSize_text.trans hstream.text)
      (hextends.utf8ByteSize_json.trans hstream.json)
    obtain ⟨merged, rfl, hmerges⟩ :=
      hreceiving accumulator left (hnext ▸ hreceives) hholds hupdate hbody hleft
    refine ⟨merged, by rw [houtput, hnone]; rfl, ?_⟩
    rw [hbody, append_assoc, ← append_assoc]
    exact hmerges
  · -- the chunk has the marker
    have hsubset : ∀ event ∈ kept ++ body ++ [marker], event ∈ kept ++ chunk.events := by
      intro event hevent
      rw [hchunk]
      simp only [mem_append, mem_cons, not_mem_nil, or_false] at hevent ⊢
      tauto
    obtain ⟨carrier, hcarrier, hcarries⟩ := hstream.carries
    obtain ⟨merged, hsome, hmerges, hfinished⟩ := hcontinues.absorb_last
      ⟨marker, hsubset marker (by simp), hstream.marked⟩
      ⟨carrier, hsubset carrier hcarrier, hcarries⟩
    have hquiet : ∀ event ∈ front ++ cut.flatMap Chunk.events, event.isQuiet :=
      fun event hevent => hstream.quiet event (htail ▸ hevent)
    rw [← hnext] at hfinished
    have hnil := run_finished hfinished hthread
      (fun event hevent => hquiet event (mem_append_right _ hevent)) hrest
    refine ⟨merged, by rw [houtput, hsome, hnil]; rfl, hmerges.congr ?_⟩
    have hsilent : ∀ events : List SSEEvent, (∀ event ∈ events, event.isQuiet) →
        events.filter SSEEvent.carriesContent = [] := fun events hevents =>
      filter_eq_nil_iff.mpr fun event hevent => by
        simp [(SSEEvent.isQuiet_iff.mp (hevents event hevent)).1]
    rw [hchunk, filter_append, filter_append, filter_append, filter_append,
      filter_cons, filter_cons, hsilent tail hstream.quiet,
      hsilent front fun event hevent => hquiet event (mem_append_left _ hevent)]

/-- A chunk of keepalives that is skipped holds nothing that the merged event shows; `hrest` says
what the rest of the run does. -/
theorem run_skip (kept : List SSEEvent)
    (hstream : Stream.WellFormed ⟨kept ++ body, marker, tail, messageId⟩)
    (hevents : chunk.events ++ cut.flatMap Chunk.events = body ++ marker :: tail)
    (hkeepalive : chunk.isKeepalive) (hskips : chunk.SkipsNothing)
    (hrest : ∀ left, Stream.WellFormed ⟨kept ++ left, marker, tail, messageId⟩ →
      cut.flatMap Chunk.events = left ++ marker :: tail →
        ∃ merged, outputs = [merged] ∧ Merges (kept ++ (left ++ marker :: tail)) merged) :
    ∃ merged, outputs = [merged] ∧ Merges (kept ++ (body ++ marker :: tail)) merged := by
  have hnothing := hskips hkeepalive
  rcases chunk_cases hevents with ⟨left, hbody, hleft⟩ | ⟨front, hchunk, -⟩
  · obtain ⟨merged, hmerged, hmerges⟩ := hrest left
      (Stream.WellFormed.skip kept (hbody ▸ hstream) hkeepalive
        fun event hevent => (hnothing event hevent).1) hleft
    refine ⟨merged, hmerged, hmerges.congr ?_⟩
    have hsilent : chunk.events.filter SSEEvent.carriesContent = [] :=
      filter_eq_nil_iff.mpr fun event hevent => by simp [(hnothing event hevent).1]
    simp [hbody, hsilent]
  · have hmarker := (hnothing marker (by simp [hchunk])).2
    exact absurd hstream.marked (by simp [hmarker])

theorem run_receiving (h : Receiving thread self.maxBuffers connectionId accumulator buffers)
    (hholds : Holds kept accumulator)
    (hkey : ∀ id, messageId = some id → connectionId = thread ++ id)
    (hstream : Stream.WellFormed ⟨kept ++ body, marker, tail, messageId⟩)
    (hevents : cut.flatMap Chunk.events = body ++ marker :: tail)
    (hthread : ∀ chunk ∈ cut, connPrefix chunk.event = thread)
    (hskips : ∀ chunk ∈ cut, chunk.SkipsNothing)
    (htimely : Timely self.timeoutMs accumulator.lastUpdate cut)
    (hrun : self.Run buffers (cut.map Chunk.event) last outputs) :
    ∃ merged, outputs = [merged] ∧ Merges (kept ++ (body ++ marker :: tail)) merged := by
  induction cut generalizing buffers outputs kept body accumulator with
  | nil => simp at hevents
  | cons chunk cut ih =>
    rw [forall_mem_cons] at hthread hskips
    obtain ⟨htime, hchunkTimely, hskipTimely⟩ := htimely
    cases hrun with
    | cons hperm hstep hrest =>
      next seen next rest output =>
      rw [processEvent_chunk, processChunk] at hstep
      split at hstep
      · -- a chunk of keepalives that is skipped
        next hskip =>
        obtain ⟨rfl, rfl⟩ := Prod.mk.inj hstep
        have hkeepalive : chunk.isKeepalive := (Bool.and_eq_true _ _ ▸ hskip).1
        exact run_skip kept hstream hevents hkeepalive hskips.1 fun left hwell hleft =>
          ih (h.perm hperm) hholds hwell hleft hthread.2 hskips.2 (hskipTimely hkeepalive) hrest
      · obtain rfl := hthread.1
        have hretained : Receiving (connPrefix chunk.event) self.maxBuffers connectionId accumulator
            (self.retained seen chunk.event) := (h.perm hperm).retained htime
        have hid : ∀ id, extractMessageId chunk.events = some id →
            connectionId = connPrefix chunk.event ++ id := by
          intro id hid
          have hagree := hstream.identified.extractMessageId fun event hevent => by
              rw [Stream.events, append_assoc, ← hevents]
              exact mem_append_right _ (mem_append_left _ hevent)
          rw [hid] at hagree
          exact hkey id (hagree.resolve_left (by simp)).symm
        have hcontinues := hretained.continues hholds
          (fun event hevent => hstream.unmarked event (mem_append_left _ hevent)) hid
        refine run_absorb kept hcontinues hstream hevents hthread.2 hstep hrest ?_
        intro accumulator' left hreceives hholds' hupdate hbody hleft
        refine ih hreceives hholds' ?_ hleft hthread.2 hskips.2 (hupdate ▸ hchunkTimely) hrest
        rw [append_assoc, ← hbody]
        exact hstream

theorem run_waiting (h : Waiting thread self.maxBuffers buffers)
    (hstream : Stream.WellFormed ⟨body, marker, tail, messageId⟩)
    (hevents : cut.flatMap Chunk.events = body ++ marker :: tail)
    (hthread : ∀ chunk ∈ cut, connPrefix chunk.event = thread)
    (hskips : ∀ chunk ∈ cut, chunk.SkipsNothing) (hpunctual : Punctual self.timeoutMs cut)
    (hrun : self.Run buffers (cut.map Chunk.event) last outputs) :
    ∃ merged, outputs = [merged] ∧ Merges (body ++ marker :: tail) merged := by
  induction cut generalizing buffers outputs body with
  | nil => simp at hevents
  | cons chunk cut ih =>
    rw [forall_mem_cons] at hthread hskips
    cases hrun with
    | cons hperm hstep hrest =>
      next seen next rest output =>
      obtain rfl := hthread.1
      have hseen := h.perm hperm
      rw [processEvent_chunk] at hstep
      change (if chunk.isKeepalive && _ then _ else _) = _ at hstep
      cases hkeepalive : chunk.isKeepalive with
      | true =>
        -- there is no stream a chunk of keepalives could continue
        have hcontains : contains seen (generateConnectionId chunk.event chunk.events) = false :=
          any_eq_false.mpr fun entry hentry => by
            simpa using hseen.ne_of_owned
              (startsWith_generateConnectionId chunk.event chunk.events) entry hentry
        simp only [hkeepalive, hcontains, Bool.not_false, Bool.and_self, if_true] at hstep
        obtain ⟨rfl, rfl⟩ := Prod.mk.inj hstep
        exact run_skip [] hstream hevents hkeepalive hskips.1 fun left hwell hleft =>
          ih hseen hwell hleft hthread.2 hskips.2 hpunctual.tail hrest
      | false =>
        simp only [hkeepalive, Bool.false_and, Bool.false_eq_true, if_false] at hstep
        have hretained : Waiting (connPrefix chunk.event) self.maxBuffers
            (self.retained seen chunk.event) := hseen.retained
        have hcontinues := hretained.continues chunk.events
        have hfirst : extractMessageId chunk.events = messageId := by
          have hidentified := hstream.identified
          rw [Stream.events, ← hevents] at hidentified
          exact hidentified.extractMessageId_first hkeepalive
        refine run_absorb [] hcontinues hstream hevents hthread.2 hstep hrest ?_
        intro accumulator left hreceives hholds hupdate hbody hleft
        refine run_receiving hreceives hholds ?_ (hbody ▸ hstream) hleft hthread.2 hskips.2 ?_ hrest
        · intro id hid
          rw [finalConnectionId, hfirst, hid]
        · rw [hupdate]
          exact Punctual.timely [] [] hpunctual (fun _ hmem => absurd hmem not_mem_nil)

/-- For every well-formed stream, every cut of it into chunks of one thread and every run over a
capture in which the thread has no buffer yet, the processor lets exactly one event out, a merged
event, with the text, the JSON and the token usage that it has when one chunk holds the stream. -/
theorem partition_invariant (self : SSEProcessor) (stream : Stream) (hstream : stream.WellFormed)
    {pid tid : ℕ} {cut : List Chunk} (hcut : Cuts stream pid tid self.timeoutMs cut)
    {whole : Chunk} (hwhole : whole.events = stream.events) (hpid : pidOf whole.event = pid)
    (htid : tidOf whole.event = tid) {buffers buffers' last last' : Buffers}
    {outputs outputs' : List Event}
    (hbuffers : Waiting (threadPrefix pid tid) self.maxBuffers buffers)
    (hbuffers' : Waiting (threadPrefix pid tid) self.maxBuffers buffers')
    (hrun : self.Run buffers (cut.map Chunk.event) last outputs)
    (hrun' : self.Run buffers' [whole.event] last' outputs') :
    ∃ merged merged', outputs = [merged] ∧ outputs' = [merged'] ∧
      merged.source = "sse_processor" ∧ merged'.source = "sse_processor" ∧
      merged.data.get "text_content" = merged'.data.get "text_content" ∧
      merged.data.get "json_content" = merged'.data.get "json_content" ∧
      View.extractTokenUsageFromSse merged.data = View.extractTokenUsageFromSse merged'.data := by
  have hthread : ∀ chunk ∈ cut, connPrefix chunk.event = threadPrefix pid tid := by
    intro chunk hchunk
    rw [connPrefix, hcut.pid chunk hchunk, hcut.tid chunk hchunk]
  -- the chunk with the marker is not one of keepalives, so the stream is not either
  have hspoken : whole.isKeepalive = false := by
    have hmarker : stream.marker ∈ cut.flatMap Chunk.events := by
      rw [hcut.events]
      simp [Stream.events]
    obtain ⟨chunk, hchunk, hmem⟩ := mem_flatMap.mp hmarker
    have hchunkSpoken : chunk.isKeepalive = false := by
      by_contra hkeepalive
      have hnothing := hcut.skips chunk hchunk (by simpa using hkeepalive) _ hmem
      exact absurd hstream.marked (by simp [hnothing.2])
    obtain ⟨event, hevent, hspeaks⟩ := all_eq_false.mp hchunkSpoken
    refine all_eq_false.mpr ⟨event, ?_, hspeaks⟩
    rw [hwhole, ← hcut.events]
    exact mem_flatMap.mpr ⟨chunk, hchunk, hevent⟩
  obtain ⟨merged, hmerged, hmerges⟩ := run_waiting hbuffers hstream hcut.events hthread
    hcut.skips hcut.punctual hrun
  have hone : whole.events = stream.body ++ stream.marker :: stream.tail := hwhole
  obtain ⟨merged', hmerged', hmerges'⟩ := run_waiting hbuffers' hstream
    (by simpa using hone : [whole].flatMap Chunk.events = _) (by simp [connPrefix, hpid, htid])
    (by simp [Chunk.SkipsNothing, hspoken]) (punctual_of_forall (by simp)) hrun'
  exact ⟨merged, merged', hmerged, hmerged', hmerges.source, hmerges'.source,
    hmerges.text.trans hmerges'.text.symm, hmerges.json.trans hmerges'.json.symm,
    hmerges.usage.trans hmerges'.usage.symm⟩

end

/-! ### A chat completion in chunks -/

section Example

def saysA : String := "\x7b\"choices\":[\x7b\"delta\":\x7b\"content\":\"a\"\x7d\x7d]\x7d"

def saysB : String := "\x7b\"choices\":[\x7b\"delta\":\x7b\"content\":\"b\"\x7d\x7d]\x7d"

def counts : String := "\x7b\"usage\":\x7b\"total_tokens\":1\x7d\x7d"

/-- A delta with the usage so far, as some servers send with every delta. -/
def saysAndCounts : String :=
  "\x7b\"choices\":[\x7b\"delta\":\x7b\"content\":\"a\"\x7d\x7d]," ++
    "\"usage\":\x7b\"total_tokens\":1\x7d\x7d"

def choicesOf (text : String) : String × Value :=
  ("choices", .array [.object [("delta", .object [("content", .string text)])]])

def usageField : String × Value := ("usage", .object [("total_tokens", .ofNat 1)])

/-- A `serde_json` for streams of these four texts and of `[DONE]`. -/
@[reducible] def chatOnly : External where
  fromStr text :=
    if text = saysA then some (.object [choicesOf "a"])
    else if text = saysB then some (.object [choicesOf "b"])
    else if text = counts then some (.object [usageField])
    else if text = saysAndCounts then some (.object [choicesOf "a", usageField])
    else none
  valueToString _ := ""
  toVec _ := ""
  sha256Hex _ := ""
  parseF64 _ := none

local instance instChatOnly : External := chatOnly

/-- These streams have no JSON to print. -/
local instance instNoPrinter : PrettyPrinter := ⟨fun _ => ""⟩

def dataText (data : String) (plain : ∀ line ∈ ["data: " ++ data],
      '\r' ∉ line.toList ∧ '\n' ∉ line.toList ∧ ':' ∈ line.toList)
    (field : ∃ line ∈ ["data: " ++ data], Str.startsWith (Str.trim line) "data:") : EventText :=
  ⟨["data: " ++ data], plain, field⟩

def textA : EventText := dataText saysA (by decide +kernel) (by decide +kernel)

def textB : EventText := dataText saysB (by decide +kernel) (by decide +kernel)

def textUsage : EventText := dataText counts (by decide +kernel) (by decide +kernel)

def textBoth : EventText := dataText saysAndCounts (by decide +kernel) (by decide +kernel)

def textDone : EventText := dataText "[DONE]" (by decide +kernel) (by decide +kernel)

/-- An event with a JSON object as its data. -/
def objectEvent (data : String) (fields : List (String × Value)) : SSEEvent :=
  { event := none, data := some data, id := none, parsedData := some (.object fields),
    rawData := none }

def doneEvent : SSEEvent :=
  { event := none, data := some "[DONE]", id := none, parsedData := none, rawData := some "[DONE]" }

theorem parsed_textA : textA.parsed = objectEvent saysA [choicesOf "a"] := by decide

theorem parsed_textB : textB.parsed = objectEvent saysB [choicesOf "b"] := by decide

theorem parsed_textUsage : textUsage.parsed = objectEvent counts [usageField] := by
  decide

theorem parsed_textBoth :
    textBoth.parsed = objectEvent saysAndCounts [choicesOf "a", usageField] := by decide +kernel

theorem parsed_textDone : textDone.parsed = doneEvent := by decide

/-- A chunk that thread 9 of process 7 reads. -/
def readAt (timestamp : ℕ) (texts : List EventText) (nonempty : texts ≠ []) : Chunk where
  event :=
    { timestamp
      source := "ssl"
      pid := 7
      comm := "node"
      data := .object [("data", .string (render .lf texts)), ("pid", .ofNat 7), ("tid", .ofNat 9)] }
  newline := .lf
  texts
  nonempty
  ssl := rfl
  data := rfl

def processor : SSEProcessor := .newWithTimeout 30000

/-- A delta, the usage and `[DONE]`, each in a chunk of its own. -/
def chatCut : List Chunk :=
  [readAt 1 [textA] (by simp), readAt 2 [textUsage] (by simp), readAt 3 [textDone] (by simp)]

def chatStream : Stream :=
  ⟨[objectEvent saysA [choicesOf "a"]], objectEvent counts [usageField], [doneEvent], none⟩

theorem chatStream_wellFormed : chatStream.WellFormed where
  unmarked := by decide
  marked := by decide
  text := by decide
  json := by decide
  carries := by decide
  quiet := by decide
  identified := ⟨by decide, by decide⟩

theorem chatCut_cuts : Cuts chatStream 7 9 30000 chatCut where
  events := by
    simp [chatCut, readAt, Chunk.events, parsed_textA, parsed_textUsage, parsed_textDone,
      chatStream, Stream.events]
  pid := by decide
  tid := by decide
  skips := by
    have hspoken : ∀ chunk ∈ chatCut, chunk.isKeepalive = false := by
      simp [chatCut, readAt, Chunk.isKeepalive, Chunk.events, parsed_textA, parsed_textUsage,
        parsed_textDone, objectEvent, doneEvent, isKeepalive, SSEEvent.isType]
    exact fun chunk hchunk hkeepalive => by simp [hspoken chunk hchunk] at hkeepalive
  punctual := punctual_of_forall (by decide)

/-- A stream in three chunks and in one. -/
theorem partition_invariant_of_chat :
    ∃ outputs outputs' last last', processor.Run [] (chatCut.map Chunk.event) last outputs ∧
      processor.Run [] [(readAt 1 [textA, textUsage, textDone] (by simp)).event] last' outputs' ∧
      ∃ merged merged', outputs = [merged] ∧ outputs' = [merged'] ∧
        merged.source = "sse_processor" ∧ merged'.source = "sse_processor" ∧
        merged.data.get "text_content" = merged'.data.get "text_content" ∧
        merged.data.get "json_content" = merged'.data.get "json_content" ∧
        View.extractTokenUsageFromSse merged.data = View.extractTokenUsageFromSse merged'.data := by
  have hrun := processor.run_process [] (chatCut.map Chunk.event)
  have hrun' := processor.run_process [] [(readAt 1 [textA, textUsage, textDone] (by simp)).event]
  have hempty : Waiting (threadPrefix 7 9) processor.maxBuffers [] :=
    ⟨fun _ hmem => absurd hmem not_mem_nil, by decide⟩
  have hwhole : (readAt 1 [textA, textUsage, textDone] (by simp)).events = chatStream.events := by
    simp [readAt, Chunk.events, parsed_textA, parsed_textUsage, parsed_textDone, chatStream,
      Stream.events]
  exact ⟨_, _, _, _, hrun, hrun', partition_invariant processor chatStream chatStream_wellFormed
    chatCut_cuts hwhole rfl rfl hempty hempty hrun hrun'⟩

/-- A stream that reports its usage with its first delta and ends in `[DONE]`: in one chunk it
makes one event, cut after the first delta it makes two. -/
theorem early_usage_splits_stream :
    (∃ outputs last, processor.Run [] ([readAt 1 [textBoth] (by simp), readAt 2 [textB] (by simp),
        readAt 3 [textDone] (by simp)].map Chunk.event) last outputs ∧ outputs.length = 2 ∧
        ∀ output ∈ outputs, output.source = "sse_processor") ∧
      ∃ outputs last,
        processor.Run [] [(readAt 1 [textBoth, textB, textDone] (by simp)).event] last outputs ∧
        outputs.length = 1 := by
  have hsplit := processor.process_chunks [] [readAt 1 [textBoth] (by simp),
    readAt 2 [textB] (by simp), readAt 3 [textDone] (by simp)]
  have hwhole := processor.process_chunks [] [readAt 1 [textBoth, textB, textDone] (by simp)]
  simp only [map_cons, map_nil, Chunk.events, readAt, parsed_textBoth, parsed_textB,
    parsed_textDone] at hsplit hwhole
  refine ⟨⟨_, _, processor.run_process [] _, ?_⟩, _, _, processor.run_process [] _, ?_⟩
  · simp only [map_cons, map_nil, readAt]
    rw [hsplit]
    decide
  · simp only [readAt]
    rw [hwhole]
    decide

end Example

end AgentSight.Sse
