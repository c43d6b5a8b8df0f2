import AgentSight.Lib.Eviction
import AgentSight.Sse.Partition

/-!
# Which stream a chunk is appended to

A chunk without a message id goes to the first stream of its thread that is open, in the order in
which the map of buffers iterates. Which buffers are left to be searched depends on that order
too, when the eviction takes some of several that were updated at one time. The chunk is appended
to the same stream in every order, and to its own, exactly when one stream at most is in question.
What is never mixed is the chunks of two threads, and chunks that bear two message ids.
-/

namespace AgentSight.Sse

open Json (Value)
open View (Event)
open Eviction List SSEProcessor

/-- What a stream is known by: its thread and the id of its message, if it has one. -/
structure Origin where
  pid : ℕ
  tid : ℕ
  message : Option String
  deriving DecidableEq

def lastUpdateOf (entry : String × SSEAccumulator) : ℕ := entry.2.lastUpdate

/-- The buffers that have not timed out. -/
def SSEProcessor.timely (self : SSEProcessor) (buffers : Buffers) (event : Event) : Buffers :=
  buffers.filter fun entry => decide (event.timestamp - entry.2.lastUpdate ≤ self.timeoutMs)

/-- How many of them are evicted. -/
def SSEProcessor.excess (self : SSEProcessor) (buffers : Buffers) (event : Event) : ℕ :=
  (self.timely buffers event).length - self.maxBuffers

/-- The key a chunk is filed under, with what is there. -/
def destination (buffers : Buffers) (event : Event) (sseEvents : List SSEEvent) :
    String × Option SSEAccumulator :=
  let connectionId := finalConnectionId buffers event sseEvents
  (connectionId, (buffers.find? (·.1 == connectionId)).map (·.2))

section

variable [External]

/-- Whether a chunk of keepalives is dropped. -/
def skips (buffers : Buffers) (event : Event) (sseEvents : List SSEEvent) : Bool :=
  sseEvents.all isKeepalive && !contains buffers (generateConnectionId event sseEvents)

/-- The stream that `process` appends an event to, with what was received of it; `none` when the
event passes or is dropped. -/
def SSEProcessor.appendsTo (self : SSEProcessor) (buffers : Buffers) (event : Event) :
    Option (String × Option SSEAccumulator) :=
  match sseEventsOf event with
  | none => none
  | some (sseEvents, _) =>
    if skips buffers event sseEvents then none
    else some (destination (self.retained buffers event) event sseEvents)

/-- A buffer that is open to a chunk without a message id and may outlive the eviction. -/
def SSEProcessor.Eligible (self : SSEProcessor) (buffers : Buffers) (event : Event)
    (entry : String × SSEAccumulator) : Prop :=
  entry ∈ self.timely buffers event ∧ isOpenStream event entry ∧
    MayStay lastUpdateOf (self.excess buffers event) (self.timely buffers event) entry

/-- A chunk without a message id looks for an open stream of its thread, and there is one. -/
def SSEProcessor.Searches (self : SSEProcessor) (buffers : Buffers) (event : Event)
    (sseEvents : List SSEEvent) : Prop :=
  extractMessageId sseEvents = none ∧ ∃ entry, self.Eligible buffers event entry

/-- The buffers in question: the open streams of the thread if they are searched, else the one
under the chunk's own key. -/
structure SSEProcessor.Candidate (processor : SSEProcessor) (buffers : Buffers) (event : Event)
    (sseEvents : List SSEEvent) (entry : String × SSEAccumulator) : Prop where
  timely : entry ∈ processor.timely buffers event
  mayStay : MayStay lastUpdateOf (processor.excess buffers event)
    (processor.timely buffers event) entry
  searched : processor.Searches buffers event sseEvents → isOpenStream event entry
  filed : ¬ processor.Searches buffers event sseEvents →
    entry.1 = generateConnectionId event sseEvents

/-- The message id that a chunk bears. -/
def bears (event : Event) : Option String := (sseEventsOf event).bind (extractMessageId ·.1)

/-- The event is a chunk of the stream: it comes from the stream's thread and bears the id of its
message or none. -/
structure Origin.Sends (origin : Origin) (event : Event) : Prop where
  pid : pidOf event = origin.pid
  tid : tidOf event = origin.tid
  message : ∀ id ∈ bears event, origin.message = some id

/-- A chunk that was received: the stream it is of, and the message id it bears. -/
structure Piece where
  origin : Origin
  bears : Option String
  deriving DecidableEq

/-- The chunks that each buffer holds, by its key. -/
abbrev Holdings := String → List Piece

/-- A chunk joins what is held under the key that it is appended to. -/
def Holdings.add (held : Holdings) (piece : Piece) :
    Option (String × Option SSEAccumulator) → Holdings
  | none => held
  | some (connectionId, found) =>
    Function.update held connectionId ((if found.isSome then held connectionId else []) ++ [piece])

/-- At most one buffer is in question; it holds chunks of the chunk's stream only and is not
evicted. -/
def SSEProcessor.Settled (self : SSEProcessor) (held : Holdings) (buffers : Buffers)
    (event : Event) (origin : Origin) : Prop :=
  ∀ sseEvents allowJsonFragment, sseEventsOf event = some (sseEvents, allowJsonFragment) →
    skips buffers event sseEvents = false →
    ∀ entry, self.Candidate buffers event sseEvents entry →
      (∀ piece ∈ held entry.1, piece.origin = origin) ∧
      ¬ MayGo lastUpdateOf (self.excess buffers event) (self.timely buffers event) entry ∧
      ∀ other, self.Candidate buffers event sseEvents other → other = entry

variable [PrettyPrinter]

/-- The stream that the event is appended to and what comes out are the same in every order of
the buffers, and an event of the stream `origin` is not appended to what was received of
another. -/
structure SSEProcessor.Attributes (processor : SSEProcessor) (held : Holdings)
    (buffers : Buffers) (event : Event) (origin : Origin) : Prop where
  sameStream : ∀ seen seen', buffers.Perm seen → buffers.Perm seen' →
    processor.appendsTo seen event = processor.appendsTo seen' event
  sameOutput : ∀ seen seen', buffers.Perm seen → buffers.Perm seen' →
    (processor.processEvent seen event).2 = (processor.processEvent seen' event).2
  unmixed : ∀ seen, buffers.Perm seen → ∀ connectionId accumulator,
    processor.appendsTo seen event = some (connectionId, some accumulator) →
    ∀ piece ∈ held connectionId, piece.origin = origin

/-- In every order of the buffers, the event is appended to a stream of its thread, all chunks of
which are of that thread; if it bears a message id the key has it, and no chunk that the stream
holds bears another one. -/
structure SSEProcessor.KeepsApart (processor : SSEProcessor) (held : Holdings)
    (buffers : Buffers) (event : Event) (origin : Origin) : Prop where
  keyed : ∀ seen, buffers.Perm seen → ∀ connectionId found,
    processor.appendsTo seen event = some (connectionId, found) →
    Str.startsWith connectionId (threadPrefix origin.pid origin.tid) ∧
      ∀ id ∈ bears event, connectionId = threadPrefix origin.pid origin.tid ++ id
  apart : ∀ seen, buffers.Perm seen → ∀ connectionId accumulator,
    processor.appendsTo seen event = some (connectionId, some accumulator) →
    ∀ piece ∈ held connectionId, piece.origin.pid = origin.pid ∧ piece.origin.tid = origin.tid ∧
      ∀ id ∈ bears event, ∀ id' ∈ piece.bears, id' = id

/-- What is partially received after chunks of any streams, with the buffers in any order at every
chunk. -/
inductive SSEProcessor.Received (self : SSEProcessor) : Buffers → Holdings → Prop
  | start : Received self [] fun _ => []
  | chunk {buffers seen : Buffers} {held : Holdings} {event : Event} {origin : Origin}
      (h : Received self buffers held) (hperm : buffers.Perm seen) (hsends : origin.Sends event) :
      Received self (self.processEvent seen event).1
        (held.add ⟨origin, bears event⟩ (self.appendsTo seen event))

end

/-! ### Orders of the buffers and evictions -/

section Orders

variable {self : SSEProcessor} {buffers kept : Buffers} {event : Event} {n : ℕ}
  {entry : String × SSEAccumulator}

/-- The keys of a map are distinct. -/
def Keyed (buffers : Buffers) : Prop := (buffers.map Prod.fst).Nodup

instance : Decidable (Keyed buffers) := inferInstanceAs (Decidable (List.Nodup _))

theorem Keyed.perm (h : Keyed buffers) (hperm : buffers.Perm kept) : Keyed kept :=
  (hperm.map Prod.fst).nodup_iff.mp h

theorem Keyed.eq (h : Keyed buffers) {other : String × SSEAccumulator} (hentry : entry ∈ buffers)
    (hother : other ∈ buffers) (hkey : entry.1 = other.1) : entry = other :=
  inj_on_of_nodup_map h hentry hother hkey

theorem oldest_eq_none : oldest buffers = none ↔ buffers = [] := by
  cases buffers with
  | nil => simp [oldest]
  | cons entry rest =>
    simp only [oldest, reduceCtorEq, iff_false]
    split
    · exact Option.some_ne_none _
    · split <;> exact Option.some_ne_none _

theorem mem_of_oldest (h : oldest buffers = some entry) :
    entry ∈ buffers ∧ ∀ other ∈ buffers, lastUpdateOf entry ≤ lastUpdateOf other := by
  induction buffers generalizing entry with
  | nil => cases h
  | cons first rest ih =>
    simp only [oldest] at h
    split at h
    · next hnone =>
      obtain rfl := Option.some.inj h
      obtain rfl := oldest_eq_none.mp hnone
      simp
    · next other hother =>
      obtain ⟨hmem, hleast⟩ := ih hother
      split at h
      · next hle =>
        obtain rfl := Option.some.inj h
        refine ⟨mem_cons_self, forall_mem_cons.mpr ⟨le_refl _, fun last hlast => ?_⟩⟩
        exact hle.trans (hleast last hlast)
      · next hlt =>
        obtain rfl := Option.some.inj h
        exact ⟨mem_cons_of_mem _ hmem, forall_mem_cons.mpr ⟨(not_le.mp hlt).le, hleast⟩⟩

/-- An entry that comes first and is at least as old as the others is the one taken out. -/
theorem oldest_cons {rest : Buffers} (h : ∀ other ∈ rest, lastUpdateOf entry ≤ lastUpdateOf other) :
    oldest (entry :: rest) = some entry := by
  rw [oldest]
  cases hrest : oldest rest with
  | none => rfl
  | some other => exact if_pos (h other (mem_of_oldest hrest).1)

theorem remove_cons {rest : Buffers} (h : Keyed (entry :: rest)) :
    remove (entry :: rest) entry.1 = rest := by
  have hfresh := (nodup_cons.mp h).1
  rw [remove, filter_cons_of_neg (by simp)]
  refine filter_eq_self.mpr fun other hother => ?_
  simp only [bne_iff_ne]
  rintro heq
  exact hfresh (heq ▸ mem_map_of_mem hother)

theorem removeOldest_cons {rest : Buffers} (hkeyed : Keyed (entry :: rest))
    (h : ∀ other ∈ rest, lastUpdateOf entry ≤ lastUpdateOf other) :
    removeOldest (entry :: rest) = rest := by
  rw [removeOldest, oldest_cons h]
  exact remove_cons hkeyed

theorem perm_removeOldest (hkeyed : Keyed buffers) (h : oldest buffers = some entry) :
    buffers.Perm (entry :: removeOldest buffers) := by
  obtain ⟨front, back, rfl⟩ := append_of_mem (mem_of_oldest h).1
  have hperm : (front ++ entry :: back).Perm (entry :: (front ++ back)) := perm_middle
  have hrest : removeOldest (front ++ entry :: back) = front ++ back := by
    have hcons := remove_cons (hkeyed.perm hperm)
    rw [removeOldest, h, ← hcons]
    simp [remove]
  rw [hrest]
  exact hperm

/-- Taking out the first of the oldest entries, time after time, is an eviction. -/
theorem evicts_removeOldest (hkeyed : Keyed buffers) (h : n ≤ buffers.length) :
    Evicts lastUpdateOf n buffers (removeOldest^[n] buffers) := by
  induction n generalizing buffers with
  | zero => exact .done (.refl _)
  | succ n ih =>
    cases hentry : oldest buffers with
    | none =>
      rw [oldest_eq_none.mp hentry] at h
      cases h
    | some entry =>
      have hperm := perm_removeOldest hkeyed hentry
      have hlength := hperm.length_eq
      rw [length_cons] at hlength
      have hrest : Keyed (removeOldest buffers) := (nodup_cons.mp (hkeyed.perm hperm)).2
      refine .evict hperm (fun other hother => ?_) (ih hrest (by omega))
      exact (mem_of_oldest hentry).2 other (hperm.mem_iff.mpr (mem_cons_of_mem _ hother))

/-- Every eviction is what happens in some order. -/
theorem exists_order (hkeyed : Keyed buffers) (h : Evicts lastUpdateOf n buffers kept) :
    ∃ seen, buffers.Perm seen ∧ removeOldest^[n] seen = kept := by
  induction h with
  | done hkept => exact ⟨_, hkept, rfl⟩
  | @evict n buffers rest kept item hperm holdest _ ih =>
    obtain ⟨seen, hseen, hkept⟩ := ih (nodup_cons.mp (hkeyed.perm hperm)).2
    have hitems : buffers.Perm (item :: seen) := hperm.trans (hseen.cons item)
    refine ⟨item :: seen, hitems, ?_⟩
    rw [Function.iterate_succ_apply, removeOldest_cons (hkeyed.perm hitems), hkept]
    exact fun other hother => holdest other (hseen.mem_iff.mpr hother)

theorem Keyed.timely (h : Keyed buffers) (self : SSEProcessor) (event : Event) :
    Keyed (self.timely buffers event) :=
  Nodup.sublist (filter_sublist.map Prod.fst) h

/-- What the search meets: the timely buffers less an eviction, in any order. -/
theorem retained_iff (hkeyed : Keyed buffers) :
    (∃ seen, buffers.Perm seen ∧ self.retained seen event = kept) ↔
      Evicts lastUpdateOf (self.excess buffers event) (self.timely buffers event) kept := by
  constructor
  · rintro ⟨seen, hperm, rfl⟩
    have htimely : (self.timely buffers event).Perm (self.timely seen event) := hperm.filter _
    have hevicts := evicts_removeOldest (n := self.excess seen event)
      ((hkeyed.perm hperm).timely self event) (Nat.sub_le _ _)
    rw [excess, htimely.length_eq]
    exact hevicts.perm_left htimely.symm
  · intro h
    obtain ⟨order, horder, hkept⟩ := exists_order (hkeyed.timely self event) h
    let onTime : String × SSEAccumulator → Bool :=
      fun entry => decide (event.timestamp - entry.2.lastUpdate ≤ self.timeoutMs)
    have htimely : ∀ entry ∈ order, onTime entry = true := fun entry hentry =>
      of_mem_filter (horder.mem_iff.mpr hentry)
    refine ⟨order ++ buffers.filter (!onTime ·), ?_, ?_⟩
    · exact (filter_append_perm onTime buffers).symm.trans (horder.append_right _)
    · have hfilter : (order ++ buffers.filter (!onTime ·)).filter onTime = order := by
        simp [filter_append, filter_filter, filter_eq_self.mpr htimely]
      rw [retained, hfilter, evictOverCapacity, ← horder.length_eq]
      exact hkept

end Orders

/-! ### The stream that is chosen -/

section Choice

variable {self : SSEProcessor} {held : Holdings} {buffers kept seen : Buffers}
  {event : Event} {origin : Origin} {sseEvents : List SSEEvent} {entry : String × SSEAccumulator}

/-- What an eviction leaves of the timely buffers. -/
def SSEProcessor.Survives (self : SSEProcessor) (buffers : Buffers) (event : Event)
    (kept : Buffers) : Prop :=
  Evicts lastUpdateOf (self.excess buffers event) (self.timely buffers event) kept

theorem keyed_of_survives (hkeyed : Keyed buffers) (h : self.Survives buffers event kept) :
    Keyed kept := by
  obtain ⟨gone, hgone⟩ := h.exists_gone
  have hnodup := (hkeyed.timely self event).perm hgone
  rw [Keyed, map_append] at hnodup
  exact hnodup.of_append_right

theorem candidate_of_mem (h : self.Survives buffers event kept) (hentry : entry ∈ kept)
    (hsearched : self.Searches buffers event sseEvents → isOpenStream event entry)
    (hfiled : ¬ self.Searches buffers event sseEvents →
      entry.1 = generateConnectionId event sseEvents) :
    self.Candidate buffers event sseEvents entry :=
  ⟨h.subset hentry, h.mayStay hentry, hsearched, hfiled⟩

/-- Without a search the chunk is filed under its own key. -/
theorem finalConnectionId_of_not_searches (h : self.Survives buffers event kept)
    (hsearches : ¬ self.Searches buffers event sseEvents) :
    finalConnectionId kept event sseEvents = generateConnectionId event sseEvents := by
  unfold finalConnectionId generateConnectionId
  cases hid : extractMessageId sseEvents with
  | some messageId => rfl
  | none =>
    have hclosed : kept.find? (isOpenStream event) = none := by
      refine find?_eq_none.mpr fun entry hentry hopen => hsearches ⟨hid, entry, ?_⟩
      exact ⟨h.subset hentry, hopen, h.mayStay hentry⟩
    simp [hclosed]

/-- The chunk is appended to the buffer in question that the search meets first. -/
theorem destination_eq (hkeyed : Keyed buffers) (h : self.Survives buffers event kept)
    (hentry : entry ∈ kept) (hcandidate : self.Candidate buffers event sseEvents entry)
    (hfirst : self.Searches buffers event sseEvents →
      kept.find? (isOpenStream event) = some entry) :
    destination kept event sseEvents = (entry.1, some entry.2) := by
  have hkey : finalConnectionId kept event sseEvents = entry.1 := by
    by_cases hsearches : self.Searches buffers event sseEvents
    · rw [finalConnectionId, hsearches.1, hfirst hsearches]
    · rw [finalConnectionId_of_not_searches h hsearches, hcandidate.filed hsearches]
  have hfind : kept.find? (·.1 == entry.1) = some entry := by
    refine find?_eq_some_of_unique hentry (by simp) fun other hother heq => ?_
    exact (keyed_of_survives hkeyed h).eq hother hentry (by simpa using heq)
  rw [destination, hkey, hfind]
  rfl

/-- Any buffer in question may be the one the search meets first. -/
theorem exists_destination (hkeyed : Keyed buffers)
    (hcandidate : self.Candidate buffers event sseEvents entry) :
    ∃ kept, self.Survives buffers event kept ∧
      destination kept event sseEvents = (entry.1, some entry.2) := by
  obtain ⟨kept, hkept, hentry⟩ := exists_stays hcandidate.timely hcandidate.mayStay
  obtain ⟨front, back, rfl⟩ := append_of_mem hentry
  have hfirst := hkept.perm_right (perm_middle : (front ++ entry :: back).Perm _)
  refine ⟨entry :: (front ++ back), hfirst, ?_⟩
  refine destination_eq hkeyed hfirst mem_cons_self hcandidate fun hsearches => ?_
  exact find?_cons_of_pos (hcandidate.searched hsearches)

theorem destination_of_candidate (hkeyed : Keyed buffers) (h : self.Survives buffers event kept)
    (hentry : entry ∈ kept) (hcandidate : self.Candidate buffers event sseEvents entry)
    (honly : ∀ other, self.Candidate buffers event sseEvents other → other = entry) :
    destination kept event sseEvents = (entry.1, some entry.2) := by
  refine destination_eq hkeyed h hentry hcandidate fun hsearches => ?_
  refine find?_eq_some_of_unique hentry (hcandidate.searched hsearches) fun other hother hopen => ?_
  exact honly other (candidate_of_mem h hother (fun _ => hopen) fun hnot => absurd hsearches hnot)

/-- With no buffer in question the chunk starts one under its own key. -/
theorem destination_of_none (h : self.Survives buffers event kept)
    (hnone : ∀ entry, ¬ self.Candidate buffers event sseEvents entry) :
    destination kept event sseEvents = (generateConnectionId event sseEvents, none) := by
  have hsearches : ¬ self.Searches buffers event sseEvents := by
    rintro ⟨hid, entry, htimely, hopen, hstay⟩
    refine hnone entry ⟨htimely, hstay, fun _ => hopen, fun hnot => ?_⟩
    exact absurd ⟨hid, entry, htimely, hopen, hstay⟩ hnot
  have hfind : kept.find? (·.1 == generateConnectionId event sseEvents) = none := by
    refine find?_eq_none.mpr fun entry hentry hkey => hnone entry ?_
    refine candidate_of_mem h hentry (fun hsearch => absurd hsearch hsearches) fun _ => ?_
    simpa using hkey
  rw [destination, finalConnectionId_of_not_searches h hsearches, hfind]
  rfl

theorem skips_perm (hperm : buffers.Perm seen) (event : Event) (sseEvents : List SSEEvent) :
    skips seen event sseEvents = skips buffers event sseEvents := by
  have hcontains key : contains seen key = contains buffers key := by
    rw [contains, contains, Bool.eq_iff_iff]
    simp [hperm.mem_iff]
  rw [skips, skips, hcontains]

theorem survives_retained (hkeyed : Keyed buffers) (hperm : buffers.Perm seen) :
    self.Survives buffers event (self.retained seen event) :=
  (retained_iff hkeyed).mp ⟨seen, hperm, rfl⟩

variable [External]

/-- A settled chunk goes to one stream in every order. -/
theorem exists_appendsTo (hkeyed : Keyed buffers) (h : self.Settled held buffers event origin) :
    ∃ stream, (∀ seen, buffers.Perm seen → self.appendsTo seen event = stream) ∧
      ∀ connectionId accumulator, stream = some (connectionId, some accumulator) →
        ∀ piece ∈ held connectionId, piece.origin = origin := by
  cases hevents : sseEventsOf event with
  | none =>
    refine ⟨none, fun seen _ => ?_, fun _ _ heq => by cases heq⟩
    rw [appendsTo, hevents]
  | some parsed =>
    obtain ⟨sseEvents, allowJsonFragment⟩ := parsed
    have happends seen (hperm : buffers.Perm seen) : self.appendsTo seen event =
        if skips buffers event sseEvents then none
        else some (destination (self.retained seen event) event sseEvents) := by
      simp [appendsTo, hevents, skips_perm hperm]
    cases hskips : skips buffers event sseEvents with
    | true =>
      refine ⟨none, fun seen hperm => ?_, fun _ _ heq => by cases heq⟩
      simp [happends seen hperm, hskips]
    | false =>
      have hsettled := h sseEvents allowJsonFragment hevents hskips
      by_cases hcandidates : ∃ entry, self.Candidate buffers event sseEvents entry
      · obtain ⟨entry, hcandidate⟩ := hcandidates
        obtain ⟨hheld, hgo, honly⟩ := hsettled entry hcandidate
        refine ⟨some (entry.1, some entry.2), fun seen hperm => ?_, fun _ _ heq => ?_⟩
        · have hsurvives : self.Survives buffers event (self.retained seen event) :=
            survives_retained hkeyed hperm
          have hentry : entry ∈ self.retained seen event :=
            by_contra fun hgone => hgo (hsurvives.mayGo hcandidate.timely hgone)
          simp only [happends seen hperm, hskips, Bool.false_eq_true, if_false]
          rw [destination_of_candidate hkeyed hsurvives hentry hcandidate honly]
        · cases heq
          exact hheld
      · refine ⟨some (generateConnectionId event sseEvents, none), fun seen hperm => ?_,
          fun _ _ heq => by cases heq⟩
        have hsurvives : self.Survives buffers event (self.retained seen event) :=
          survives_retained hkeyed hperm
        simp only [happends seen hperm, hskips, Bool.false_eq_true, if_false]
        rw [destination_of_none hsurvives (not_exists.mp hcandidates)]

variable [PrettyPrinter]

/-- What comes out of a chunk depends on the stream it is appended to only. -/
theorem absorb_output {buffers' : Buffers} {allowJsonFragment : Bool}
    (h : destination buffers event sseEvents = destination buffers' event sseEvents) :
    (absorb buffers event sseEvents allowJsonFragment).2 =
      (absorb buffers' event sseEvents allowJsonFragment).2 := by
  obtain ⟨hkey, hfound⟩ := Prod.mk.inj h
  rw [hkey] at hfound
  have hlookup : lookup buffers (finalConnectionId buffers' event sseEvents)
      (.new event.timestamp) =
        lookup buffers' (finalConnectionId buffers' event sseEvents) (.new event.timestamp) := by
    rw [lookup, hfound]
    rfl
  simp only [absorb, hkey, hlookup]
  split <;> rfl

theorem processEvent_output {seen' : Buffers} (hperm : buffers.Perm seen)
    (hperm' : buffers.Perm seen') (h : self.appendsTo seen event = self.appendsTo seen' event) :
    (self.processEvent seen event).2 = (self.processEvent seen' event).2 := by
  unfold appendsTo at h
  unfold processEvent
  cases hevents : sseEventsOf event with
  | none => rfl
  | some parsed =>
    simp only [hevents] at h ⊢
    have hskips : skips seen event parsed.1 = skips seen' event parsed.1 :=
      (skips_perm hperm event parsed.1).trans (skips_perm hperm' event parsed.1).symm
    rw [hskips] at h
    unfold skips at h hskips
    rw [hskips]
    split
    · rfl
    · next hkeeps =>
      simp only [hkeeps, Bool.false_eq_true, if_false, Option.some.injEq] at h
      exact absorb_output h

/-- Of buffers with distinct keys. -/
theorem attributes_iff_of_keyed (self : SSEProcessor) (held : Holdings) {buffers : Buffers}
    (hkeyed : Keyed buffers) (event : Event) (origin : Origin) :
    self.Attributes held buffers event origin ↔ self.Settled held buffers event origin := by
  constructor
  · intro h sseEvents allowJsonFragment hevents hskips entry hcandidate
    have happends kept (hkept : self.Survives buffers event kept) : ∃ seen,
        buffers.Perm seen ∧
          self.appendsTo seen event = some (destination kept event sseEvents) := by
      obtain ⟨seen, hperm, rfl⟩ := (retained_iff hkeyed).mpr hkept
      refine ⟨seen, hperm, ?_⟩
      simp only [appendsTo, hevents, skips_perm hperm, hskips, Bool.false_eq_true,
        if_false]
    obtain ⟨kept, hkept, hdestination⟩ := exists_destination hkeyed hcandidate
    obtain ⟨seen, hperm, hseen⟩ := happends kept hkept
    rw [hdestination] at hseen
    -- In any other order the chunk is appended to the same buffer.
    have hsame kept' (hkept' : self.Survives buffers event kept') :
        destination kept' event sseEvents = (entry.1, some entry.2) := by
      obtain ⟨seen', hperm', hseen'⟩ := happends kept' hkept'
      rw [h.sameStream seen' seen hperm' hperm, hseen] at hseen'
      exact (Option.some.inj hseen').symm
    refine ⟨h.unmixed seen hperm entry.1 entry.2 hseen, fun hgo => ?_, fun other hother => ?_⟩
    · obtain ⟨kept', hkept', hgone⟩ := exists_goes
        (Nodup.of_map Prod.fst (hkeyed.timely self event)) (Nat.sub_le _ _)
        hcandidate.timely hgo
      obtain ⟨hkey, hfound⟩ := Prod.mk.inj (hsame kept' hkept')
      obtain ⟨found, hfind, hfound⟩ := Option.map_eq_some_iff.mp hfound
      have hfoundKey : found.1 = entry.1 := by
        simpa [hkey] using find?_some hfind
      exact hgone (Prod.ext hfoundKey hfound ▸ mem_of_find?_eq_some hfind)
    · obtain ⟨kept', hkept', hdestination'⟩ := exists_destination hkeyed hother
      have hkey := (Prod.mk.inj (hdestination'.symm.trans (hsame kept' hkept'))).1
      exact (hkeyed.timely self event).eq hother.timely hcandidate.timely hkey
  · intro h
    obtain ⟨stream, happends, hheld⟩ := exists_appendsTo hkeyed h
    have hsame : ∀ seen seen', buffers.Perm seen → buffers.Perm seen' →
        self.appendsTo seen event = self.appendsTo seen' event :=
      fun seen seen' hperm hperm' =>
        (happends seen hperm).trans (happends seen' hperm').symm
    constructor
    · exact hsame
    · intro seen seen' hperm hperm'
      exact processEvent_output hperm hperm' (hsame seen seen' hperm hperm')
    · intro seen hperm connectionId accumulator heq
      exact hheld connectionId accumulator ((happends seen hperm).symm.trans heq)

end Choice

/-! ### What the buffers hold -/

/-- A key names one thread. -/
theorem thread_of_startsWith {key : String} {pid tid pid' tid' : ℕ}
    (h : Str.startsWith key (threadPrefix pid tid))
    (h' : Str.startsWith key (threadPrefix pid' tid')) : pid = pid' ∧ tid = tid' := by
  have hsplit {pid tid : ℕ} (h : Str.startsWith key (threadPrefix pid tid)) :
      ∃ rest, key = toString pid ++ ":" ++ (toString tid ++ ":" ++ rest) := by
    obtain ⟨rest, hrest⟩ := Str.startsWith_iff.mp h
    refine ⟨String.ofList rest, String.toList_inj.mp ?_⟩
    simp [← hrest, threadPrefix]
  have hcolon (n : ℕ) : ':' ∉ (toString n).toList := by
    rw [Nat.toString_eq_repr, Nat.toList_repr]
    exact Str.notMem_toDigits (by decide) n
  have hsame {m n : ℕ} (h : toString m = toString n) : m = n := by
    rw [Nat.toString_eq_repr, Nat.toString_eq_repr] at h
    exact Str.toDigits_injective (by rw [← Nat.toList_repr, h, Nat.toList_repr])
  obtain ⟨rest, hrest⟩ := hsplit h
  obtain ⟨rest', hrest'⟩ := hsplit h'
  obtain ⟨hpid, htids⟩ := Str.split_colon (hcolon pid) (hcolon pid') (hrest.symm.trans hrest')
  exact ⟨hsame hpid, hsame (Str.split_colon (hcolon tid) (hcolon tid') htids).1⟩

/-- The chunk may stand under the key: that names its thread, and its message if it bears an
id. -/
def Piece.FiledUnder (piece : Piece) (key : String) : Prop :=
  Str.startsWith key (threadPrefix piece.origin.pid piece.origin.tid) ∧
    ∀ id ∈ piece.bears, key = threadPrefix piece.origin.pid piece.origin.tid ++ id

/-- The keys are distinct, and what is held under each may stand there. -/
structure Tracks (held : Holdings) (buffers : Buffers) : Prop where
  keyed : Keyed buffers
  filed : ∀ entry ∈ buffers, ∀ piece ∈ held entry.1, piece.FiledUnder entry.1

section Held

variable {self : SSEProcessor} {held : Holdings} {buffers seen : Buffers} {event : Event}
  {origin : Origin}

theorem Tracks.perm (h : Tracks held buffers) (hperm : buffers.Perm seen) : Tracks held seen :=
  ⟨h.keyed.perm hperm, fun entry hentry => h.filed entry (hperm.mem_iff.mpr hentry)⟩

variable [External]

/-- A chunk is appended to a stream whose key it may stand under. -/
theorem filedUnder_of_appendsTo (hsends : origin.Sends event) {connectionId : String}
    {found : Option SSEAccumulator} (h : self.appendsTo seen event = some (connectionId, found)) :
    Piece.FiledUnder ⟨origin, bears event⟩ connectionId := by
  unfold appendsTo at h
  split at h
  · cases h
  · next sseEvents allowJsonFragment hevents =>
    split at h
    · cases h
    · obtain ⟨rfl, -⟩ := Prod.mk.inj (Option.some.inj h)
      have hthread : connPrefix event = threadPrefix origin.pid origin.tid := by
        rw [connPrefix, hsends.pid, hsends.tid]
      refine ⟨hthread ▸ startsWith_finalConnectionId _ event sseEvents, fun id hid => ?_⟩
      have hbears : extractMessageId sseEvents = some id := by
        simpa [bears, hevents] using hid
      simp only [finalConnectionId, hbears, hthread]

theorem mem_of_appendsTo {connectionId : String} {accumulator : SSEAccumulator}
    (h : self.appendsTo seen event = some (connectionId, some accumulator)) :
    (connectionId, accumulator) ∈ seen := by
  unfold appendsTo at h
  split at h
  · cases h
  · split at h
    · cases h
    · obtain ⟨rfl, hfound⟩ := Prod.mk.inj (Option.some.inj h)
      obtain ⟨⟨key, _⟩, hfind, rfl⟩ := Option.map_eq_some_iff.mp hfound
      have hkey := find?_some hfind
      obtain rfl := eq_of_beq hkey
      exact mem_of_mem_filter (mem_evictOverCapacity (mem_of_find?_eq_some hfind))

variable [PrettyPrinter]

theorem absorb_buffers (sseEvents : List SSEEvent) (allowJsonFragment : Bool) :
    (absorb buffers event sseEvents allowJsonFragment).1 =
        remove buffers (finalConnectionId buffers event sseEvents) ∨
      ∃ accumulator, (absorb buffers event sseEvents allowJsonFragment).1 =
        insert buffers (finalConnectionId buffers event sseEvents) accumulator := by
  simp only [absorb]
  split
  · exact .inl rfl
  · exact .inr ⟨_, rfl⟩

/-- The buffers after an event: those it leaves, less or with the one that it is appended to. -/
theorem processEvent_buffers (self : SSEProcessor) (seen : Buffers) (event : Event) :
    ((self.processEvent seen event).1 = seen ∧
      self.appendsTo seen event = none) ∨
    ∃ connectionId found, self.appendsTo seen event = some (connectionId, found) ∧
      ((self.processEvent seen event).1 = remove (self.retained seen event) connectionId ∨
        ∃ accumulator, (self.processEvent seen event).1 =
          insert (self.retained seen event) connectionId accumulator) := by
  unfold SSEProcessor.processEvent appendsTo
  cases sseEventsOf event with
  | none => exact .inl ⟨rfl, rfl⟩
  | some parsed =>
    cases hskips : skips seen event parsed.1 with
    | true =>
      refine .inl ⟨?_, by simp [hskips]⟩
      unfold skips at hskips
      simp [hskips]
    | false =>
      refine .inr ⟨_, _, by simp only [hskips]; rfl, ?_⟩
      unfold skips at hskips
      simp only [hskips]
      exact absorb_buffers parsed.1 parsed.2

theorem Tracks.chunk (h : Tracks held buffers) (hperm : buffers.Perm seen)
    (hsends : origin.Sends event) : Tracks (held.add ⟨origin, bears event⟩
      (self.appendsTo seen event)) (self.processEvent seen event).1 := by
  have hseen := h.perm hperm
  have hkept : Keyed (self.retained seen event) :=
    keyed_of_survives hseen.keyed (survives_retained hseen.keyed (.refl _))
  obtain ⟨hbuffers, hnone⟩ | ⟨connectionId, found, happends, hbuffers⟩ :=
    processEvent_buffers self seen event
  · rw [hbuffers, hnone]
    exact hseen
  · rw [happends]
    have hremoved : Keyed (remove (self.retained seen event) connectionId) :=
      Nodup.sublist (filter_sublist.map Prod.fst) hkept
    have hfiled : ∀ entry ∈ remove (self.retained seen event) connectionId,
        ∀ piece ∈ held.add ⟨origin, bears event⟩ (some (connectionId, found)) entry.1,
          piece.FiledUnder entry.1 := by
      intro entry hentry piece hpiece
      obtain ⟨hmem, hne⟩ := mem_filter.mp hentry
      rw [Holdings.add, Function.update_of_ne (by simpa using hne)] at hpiece
      exact hseen.filed entry (mem_of_mem_filter (mem_evictOverCapacity hmem)) piece hpiece
    obtain hbuffers | ⟨accumulator, hbuffers⟩ := hbuffers
    · rw [hbuffers]
      exact ⟨hremoved, hfiled⟩
    · rw [hbuffers]
      refine ⟨nodup_cons.mpr ⟨by simp [remove], hremoved⟩, forall_mem_cons.mpr ⟨?_, hfiled⟩⟩
      intro piece hpiece
      rw [Holdings.add, Function.update_self, mem_append, mem_singleton] at hpiece
      obtain hpiece | rfl := hpiece
      · cases found with
        | none => cases hpiece
        | some found => exact hseen.filed _ (mem_of_appendsTo happends) piece hpiece
      · exact filedUnder_of_appendsTo hsends happends

theorem SSEProcessor.Received.tracks (h : self.Received buffers held) : Tracks held buffers := by
  induction h with
  | start => exact ⟨nodup_nil, fun _ hentry => (not_mem_nil hentry).elim⟩
  | chunk _ hperm hsends ih => exact ih.chunk hperm hsends

/-- Whatever was received and whatever chunk comes next: threads and message ids are kept apart;
and in every order of the map the chunk is appended to one stream, with one outcome, and never to
another than its own, exactly when at most one buffer is in question, which holds chunks of its own
stream only and cannot be evicted. -/
theorem attributes_iff (h : self.Received buffers held) (hsends : origin.Sends event) :
    self.KeepsApart held buffers event origin ∧
      (self.Attributes held buffers event origin ↔ self.Settled held buffers event origin) := by
  have htracks := h.tracks
  refine ⟨⟨fun seen _ connectionId found happends => filedUnder_of_appendsTo hsends happends, ?_⟩,
    attributes_iff_of_keyed self held htracks.keyed event origin⟩
  intro seen hperm connectionId accumulator happends piece hpiece
  have hmem := hperm.mem_iff.mpr (mem_of_appendsTo happends)
  obtain ⟨hthread, hnamed⟩ := htracks.filed _ hmem piece hpiece
  obtain ⟨hown, hbears⟩ := filedUnder_of_appendsTo hsends happends
  obtain ⟨hpid, htid⟩ := thread_of_startsWith hthread hown
  refine ⟨hpid, htid, fun id hid id' hid' => ?_⟩
  have hkeys := (hnamed id' hid').symm.trans (hbears id hid)
  rw [hpid, htid] at hkeys
  exact String.append_right_inj _ |>.mp hkeys

end Held

/-! ### Two streams of one thread -/

section Example

def opensA : String :=
  "\x7b\"id\":\"a\",\"choices\":[\x7b\"delta\":\x7b\"content\":\"a\"\x7d\x7d]\x7d"

def opensB : String :=
  "\x7b\"id\":\"b\",\"choices\":[\x7b\"delta\":\x7b\"content\":\"b\"\x7d\x7d]\x7d"

/-- A `serde_json` for streams of these two texts and of `[DONE]`. -/
@[reducible] def twoStreams : External where
  fromStr text :=
    if text = opensA then some (.object [choicesOf "a", ("id", .string "a")])
    else if text = opensB then some (.object [choicesOf "b", ("id", .string "b")])
    else none
  valueToString _ := ""
  toVec _ := ""
  sha256Hex _ := ""
  parseF64 _ := none

local instance instTwoStreams : External := twoStreams

local instance instBlankPrinter : PrettyPrinter := ⟨fun _ => ""⟩

def textOpensA : EventText := dataText opensA (by decide) (by decide +kernel)

def textOpensB : EventText := dataText opensB (by decide) (by decide +kernel)

theorem parsed_textOpensA :
    textOpensA.parsed = objectEvent opensA [choicesOf "a", ("id", .string "a")] := by
  decide

theorem parsed_textOpensB :
    textOpensB.parsed = objectEvent opensB [choicesOf "b", ("id", .string "b")] := by
  decide

theorem parsed_textEnd : textDone.parsed = doneEvent := by decide

def startA : Chunk := readAt 1 [textOpensA] (by simp)

def startB : Chunk := readAt 2 [textOpensB] (by simp)

def finish : Chunk := readAt 3 [textDone] (List.cons_ne_nil _ _)

theorem finish_events : finish.events = [doneEvent] := by
  simp [finish, readAt, Chunk.events, parsed_textEnd]

/-- The start of the other stream, read in thread 8. -/
def startB8 : Chunk :=
  { startB with
    event := { startB.event with
      data := .object [("data", .string (render .lf [textOpensB])), ("pid", .ofNat 7),
        ("tid", .ofNat 8)] }
    ssl := rfl
    data := rfl }

def eventOpensA : SSEEvent := objectEvent opensA [choicesOf "a", ("id", .string "a")]

def eventOpensB : SSEEvent := objectEvent opensB [choicesOf "b", ("id", .string "b")]

theorem startA_events : startA.events = [eventOpensA] := by
  simp [startA, readAt, Chunk.events, parsed_textOpensA, eventOpensA]

theorem startB_events : startB.events = [eventOpensB] ∧ startB8.events = [eventOpensB] := by
  simp [startB8, startB, readAt, Chunk.events, parsed_textOpensB, eventOpensB]

theorem bears_chunk (chunk : Chunk) : bears chunk.event = extractMessageId chunk.events := by
  simp [bears, sseEventsOf_chunk]

theorem appendsTo_chunk (buffers : Buffers) (chunk : Chunk) :
    processor.appendsTo buffers chunk.event = if skips buffers chunk.event chunk.events then none
      else some (destination (processor.retained buffers chunk.event) chunk.event
        chunk.events) := by
  simp only [appendsTo, sseEventsOf_chunk]

/-- The accumulator of a stream after its one event. -/
def startedWith (name data : String) (time : ℕ) : SSEAccumulator :=
  { SSEAccumulator.new time with
    messageId := some name
    accumulatedText := name
    events := [objectEvent data [choicesOf name, ("id", .string name)]] }

def afterA : Buffers := [("7:9:a", startedWith "a" opensA 1)]

theorem afterA_eq : (processor.processEvent [] startA.event).1 = afterA := by
  rw [processEvent_chunk, startA_events]
  decide

/-- The buffers after the start of both streams, where the second is read in the one thread or the
other. -/
def started (second : Chunk) : Buffers := (processor.processEvent afterA second.event).1

theorem started_eq : started startB = ("7:9:b", startedWith "b" opensB 2) :: afterA ∧
      started startB8 = ("7:8:b", startedWith "b" opensB 2) :: afterA := by
  rw [started, started, processEvent_chunk, processEvent_chunk, startB_events.1, startB_events.2]
  decide

/-- Both streams have started, and the buffer of the first holds its one chunk. -/
theorem received_started {second : Chunk} (hevents : second.events = [eventOpensB])
    (hpid : pidOf second.event = 7)
    (hother : (processor.appendsTo afterA second.event).map Prod.fst ≠ some "7:9:a") :
    ∃ held, processor.Received (started second) held ∧
      held "7:9:a" = [⟨⟨7, 9, some "a"⟩, some "a"⟩] := by
  have hfirst : Origin.Sends ⟨7, 9, some "a"⟩ startA.event :=
    ⟨by decide, by decide, by rw [bears_chunk, startA_events]; decide⟩
  have hsecond : Origin.Sends ⟨7, tidOf second.event, some "b"⟩ second.event := by
    refine ⟨hpid, rfl, fun id hid => ?_⟩
    rw [bears_chunk, hevents] at hid
    exact hid
  have hopens : processor.appendsTo [] startA.event = some ("7:9:a", none) := by
    rw [appendsTo_chunk, startA_events]
    decide
  have hreceived : processor.Received afterA
      (Holdings.add (fun _ => []) ⟨⟨7, 9, some "a"⟩, bears startA.event⟩
        (some ("7:9:a", none))) := by
    rw [← afterA_eq, ← hopens]
    exact .chunk .start (.refl _) hfirst
  refine ⟨_, .chunk hreceived (.refl _) hsecond, ?_⟩
  rw [bears_chunk, startA_events]
  cases happends : processor.appendsTo afterA second.event with
  | none => rfl
  | some stream =>
    obtain ⟨connectionId, found⟩ := stream
    have hne : "7:9:a" ≠ connectionId := by
      rintro rfl
      rw [happends] at hother
      exact hother rfl
    rw [Holdings.add, Function.update_of_ne hne]
    rfl

/-- The end of a stream goes to the one open stream of its thread. -/
theorem attributes_apart : ∃ held, processor.Received (started startB8) held ∧
    processor.Attributes held (started startB8) finish.event ⟨7, 9, some "a"⟩ := by
  obtain ⟨held, hreceived, hholds⟩ := received_started startB_events.2 rfl (by
    rw [appendsTo_chunk, startB_events.2]
    decide)
  have hsends : Origin.Sends ⟨7, 9, some "a"⟩ finish.event :=
    ⟨by decide, by decide, by rw [bears_chunk, finish_events]; decide⟩
  refine ⟨held, hreceived, (attributes_iff hreceived hsends).2.mpr ?_⟩
  intro sseEvents allowJsonFragment hevents _ entry hcandidate
  have hparsed : sseEventsOf finish.event = some ([doneEvent], true) := by
    rw [sseEventsOf_chunk, finish_events]
  obtain ⟨rfl, rfl⟩ := Prod.mk.inj (Option.some.inj (hevents.symm.trans hparsed))
  rw [started_eq.2] at hcandidate ⊢
  generalize hboth : ("7:8:b", startedWith "b" opensB 2) :: afterA = both at hcandidate ⊢
  have htimely : processor.timely both finish.event = both := by
    subst hboth
    decide
  have hsearches : processor.Searches both finish.event [doneEvent] := by
    refine ⟨by decide, ("7:9:a", startedWith "a" opensA 1), ?_⟩
    rw [SSEProcessor.Eligible, htimely]
    subst hboth
    exact ⟨by simp [afterA], by decide, by decide +kernel⟩
  have honly other (hother : processor.Candidate both finish.event [doneEvent] other) :
      other = ("7:9:a", startedWith "a" opensA 1) := by
    have hmem := hboth ▸ htimely ▸ hother.timely
    obtain rfl | hmem := mem_cons.mp hmem
    · exact absurd (hother.searched hsearches) (by decide)
    · exact mem_singleton.mp hmem
  obtain rfl := honly entry hcandidate
  refine ⟨by simp [hholds], ?_, honly⟩
  rw [SSEProcessor.excess, htimely, ← hboth]
  exact Nat.not_lt_zero _

/-- The text that comes out with the end of a stream. -/
def finishedText (buffers : Buffers) : Option String :=
  (processor.processEvent buffers finish.event).2.bind fun output =>
    output.data.strField "text_content"

theorem finishedText_started : finishedText (started startB) = some "b" ∧
      finishedText (started startB).reverse = some "a" := by
  simp only [finishedText, processEvent_chunk, finish_events, started_eq.1]
  decide

/-- The end of one of two streams of a thread comes without a message id: which one is let out
depends on the order of the map. -/
theorem finish_depends_on_order : (∃ held, processor.Received (started startB) held) ∧
      ∀ held origin, ¬ processor.Attributes held (started startB) finish.event origin := by
  obtain ⟨held, hreceived, -⟩ := received_started startB_events.1 rfl (by
    rw [appendsTo_chunk, startB_events.1]
    decide)
  refine ⟨⟨held, hreceived⟩, fun held origin h => ?_⟩
  have hsame := h.sameOutput (started startB) (started startB).reverse (.refl _)
    (reverse_perm _).symm
  have htexts : finishedText (started startB) = finishedText (started startB).reverse := by
    rw [finishedText, finishedText, hsame]
  rw [finishedText_started.1, finishedText_started.2] at htexts
  exact absurd htexts (by decide)

end Example

end AgentSight.Sse
