import AgentSight.Http.Http2
import AgentSight.View.PendingAge

/-!
# Streams and threads

An HTTP/2 event has the thread id that `synthetic_http2_tid` makes of its thread and its stream id,
and the view pairs a response with a request of the same process and thread id. Two streams share
an id when their stream ids are a million apart for each step between the thread ids.
-/

namespace AgentSight.Http

open Transition
open View (Event MaterializedView PairLog ViewSink canonicalAt)

/-! ### Thread ids -/

/-- The thread id that the events of a stream have. -/
def tidOf (key : StreamKey) : ℕ := syntheticHttp2Tid key.1 key.2

/-- The stream ids are a million apart for each step between the thread ids, or both streams are
past the largest id. -/
def Collides (key key' : StreamKey) : Prop :=
  (∃ gap, 0 < gap ∧ key'.1 = key.1 + gap ∧ key.2 = key'.2 + gap * 1000000) ∨
    (key ≠ key' ∧ 2 ^ 64 - 1 ≤ key.1 * 1000000 + key.2 ∧ 2 ^ 64 - 1 ≤ key'.1 * 1000000 + key'.2)

theorem tidOf_eq (key : StreamKey) : tidOf key = min (key.1 * 1000000 + key.2) (2 ^ 64 - 1) := by
  rw [tidOf, syntheticHttp2Tid]
  omega

theorem Collides.tidOf_eq {key key' : StreamKey} (h : Collides key key') :
    key ≠ key' ∧ tidOf key = tidOf key' := by
  rw [Http.tidOf_eq, Http.tidOf_eq]
  rcases h with ⟨gap, hpos, htid, hstream⟩ | ⟨hne, hlarge, hlarge'⟩
  · refine ⟨?_, ?_⟩
    · rintro rfl
      omega
    · have hsame : key.1 * 1000000 + key.2 = key'.1 * 1000000 + key'.2 := by omega
      rw [hsame]
  · exact ⟨hne, by rw [min_eq_right hlarge, min_eq_right hlarge']⟩

/-- Two streams share an id when they collide, in one order or the other. -/
theorem collides_of_tidOf_eq {key key' : StreamKey} (hne : key ≠ key')
    (h : tidOf key = tidOf key') : Collides key key' ∨ Collides key' key := by
  rw [tidOf_eq, tidOf_eq] at h
  by_cases hlarge : 2 ^ 64 - 1 ≤ key.1 * 1000000 + key.2 ∧
      2 ^ 64 - 1 ≤ key'.1 * 1000000 + key'.2
  · exact .inl (.inr ⟨hne, hlarge⟩)
  · rcases lt_trichotomy key.1 key'.1 with hlt | heq | hgt
    · exact .inl (.inl ⟨key'.1 - key.1, by omega, by omega, by omega⟩)
    · exact absurd (Prod.ext heq (by omega)) hne
    · exact .inr (.inl ⟨key.1 - key'.1, by omega, by omega, by omega⟩)

theorem tidOf_injOn_iff (streams : Set StreamKey) :
    streams.InjOn tidOf ↔ ∀ key ∈ streams, ∀ key' ∈ streams, ¬Collides key key' := by
  constructor
  · intro hinj key hkey key' hkey' hcollides
    obtain ⟨hne, htid⟩ := hcollides.tidOf_eq
    exact hne (hinj hkey hkey' htid)
  · intro hapart key hkey key' hkey' htid
    by_contra hne
    rcases collides_of_tidOf_eq hne htid with h | h
    · exact hapart key hkey key' hkey' h
    · exact hapart key' hkey' key hkey h

/-! ### Events -/

/-- An event of the stream, as the parser makes it. -/
def IsStreamEvent (key : StreamKey) (event : Event) : Prop :=
  ∃ stream original includeRawData,
    event = createHttp2RequestEvent key.1 key.2 stream original includeRawData ∨
      event = createHttp2ResponseEvent key.1 key.2 stream original includeRawData

theorem IsStreamEvent.tid {key : StreamKey} {event : Event} (h : IsStreamEvent key event) :
    (event.data.get "tid").bind (·.asU64) = some (tidOf key) := by
  obtain ⟨stream, original, includeRawData, rfl | rfl⟩ := h
  · rfl
  · rfl

/-! ### Pairs -/

section Pairs

variable {σ : Type} [External]

/-- No response of a stream has the request of another. -/
def NeverCrossed (streams : Set StreamKey) (s : PairLog σ) : Prop :=
  ∀ pair ∈ s.pairs, ∀ x ∈ s.taken, ∀ y ∈ s.taken,
    x.2.eventId = pair.1.eventId → y.2.eventId = pair.2.eventId →
      ∀ key ∈ streams, ∀ key' ∈ streams, IsStreamEvent key x.1 → IsStreamEvent key' y.1 → key = key'

/-- Streams with ids of their own are not crossed. -/
theorem neverCrossed_of_injOn {streams : Set StreamKey} (h : streams.InjOn tidOf)
    {s : PairLog σ} (htraced : s.Traced) : NeverCrossed streams s := by
  intro pair hpair x hx y hy hxid hyid key hkey key' hkey' hxevent hyevent
  obtain ⟨x', hx', y', hy', hrequest, hresponse, hstream⟩ := htraced.paired pair hpair
  obtain rfl : x = x' := htraced.unique x hx x' hx' (by rw [hxid, ← hrequest]; rfl)
  obtain rfl : y = y' := htraced.unique y hy y' hy' (by rw [hyid, hresponse])
  obtain ⟨n, -, hxcanonical⟩ := htraced.issued x hx
  obtain ⟨m, -, hycanonical⟩ := htraced.issued y hy
  have hxtid : x.2.tid = some (tidOf key) := by
    rw [hxcanonical]
    exact hxevent.tid
  have hytid : y.2.tid = some (tidOf key') := by
    rw [hycanonical]
    exact hyevent.tid
  have hxpid : x.2.pid = some x.1.pid := by
    rw [hxcanonical]
    rfl
  have hypid : y.2.pid = some y.1.pid := by
    rw [hycanonical]
    rfl
  refine h hkey hkey' ?_
  rw [View.CanonicalEvent.stream, View.CanonicalEvent.stream, hxtid, hytid, hxpid, hypid] at hstream
  simpa using congrArg (·.map Prod.snd) hstream

variable [ViewSink σ]

/-- **The streams of HTTP/2 events.** A set of streams has a thread id for each, and no response is
paired with the request of another stream in any run over their events, exactly when no two of them
collide. -/
theorem tidOf_pairing_iff (streams : Set StreamKey) :
    (streams.InjOn tidOf ∧ ∀ (sinks : List σ) (maxAuditEvents maxResourceSamples : Option ℕ)
        (mutations : Option Bridge.MutationEmitter) (s : PairLog σ),
        Reaches PairLog.step (fun _ event => ∃ key ∈ streams, IsStreamEvent key event)
          (PairLog.start sinks maxAuditEvents maxResourceSamples mutations) s →
            NeverCrossed streams s) ↔
      ∀ key ∈ streams, ∀ key' ∈ streams, ¬Collides key key' := by
  rw [← tidOf_injOn_iff]
  exact ⟨And.left, fun h =>
    ⟨h, fun _ _ _ _ _ hreach => neverCrossed_of_injOn h (PairLog.traced_of_reaches hreach)⟩⟩

end Pairs

/-- Two streams of a thread and the next. -/
theorem syntheticHttp2Tid_collision :
    ¬∀ streams : Set StreamKey, (∀ key ∈ streams, key.2 < 2 ^ 31) → streams.InjOn tidOf := by
  intro h
  have hinj := h {(4242, 1000001), (4243, 1)} (by simp)
  have hsame : ((4242, 1000001) : StreamKey) = (4243, 1) := hinj (by simp) (by simp) (by decide)
  exact absurd hsame (by decide)

end AgentSight.Http
