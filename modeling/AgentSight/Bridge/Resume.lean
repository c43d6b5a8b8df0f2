import AgentSight.Bridge.Sequencing

/-!
# What a resume returns

`BridgeHub::resume` looks at the oldest buffered sequence only. The shared counter leaves
holes in the buffer's sequences, so a request that asks for numbers just before the oldest
buffered one is refused even when those numbers were never broadcast. `resume_exact` says
what the answer is in every reachable state: a replay is complete and in order, and a refusal
names the oldest buffered sequence.
-/

namespace AgentSight.Bridge

open List

namespace Server

/-- No envelope broadcast with a sequence above `after` has left the replay buffer. -/
def NothingDiscarded (s : Server) (after : ℕ) : Prop :=
  ∀ e ∈ s.log, after < e.sequence → e ∈ s.hub.replay

/-- The condition `resume` tests: the oldest buffered sequence is at most the one asked for
next, or, with nothing buffered, the client is not ahead of the counter. -/
def InReach (s : Server) (after : ℕ) : Prop :=
  match s.hub.replay.head? with
  | none => after ≤ s.hub.sequence
  | some front => front.sequence ≤ after + 1

/-- The envelopes broadcast after `after`. -/
def after (s : Server) (after : ℕ) : List ViewMutationEnvelope :=
  s.log.filter fun e => decide (after < e.sequence)

variable {bodyBytes : BridgeMessage → ℕ} {s : Server} {a : ℕ}

section

variable (h : s.Sequenced)
include h

theorem Sequenced.log_increasing :
    s.log.Pairwise fun e e' => e.sequence < e'.sequence := by
  have hinc := h.increasing
  rw [issued, map_append, pairwise_append] at hinc
  exact pairwise_map.mp hinc.1

/-- What has left the buffer is older than everything in it. -/
theorem Sequenced.lt_front_of_notMem {front e : ViewMutationEnvelope}
    (hfront : s.hub.replay.head? = some front) (he : e ∈ s.log) (hnot : e ∉ s.hub.replay) :
    e.sequence < front.sequence := by
  have hinc := h.log_increasing
  rw [h.replay] at hfront hnot
  rw [← take_append_drop (s.log.length - s.hub.config.replayCapacity) s.log] at hinc he
  have htake := (mem_append.mp he).resolve_right hnot
  exact (pairwise_append.mp hinc).2.2 e htake front (mem_of_head? hfront)

/-- With room for one envelope, the buffer is empty only before the first broadcast. -/
theorem Sequenced.log_eq_nil (hcap : 0 < s.hub.config.replayCapacity)
    (hnone : s.hub.replay.head? = none) : s.log = [] := by
  rw [head?_eq_none_iff, h.replay, drop_eq_nil_iff] at hnone
  exact length_eq_zero_iff.mp (by omega)

theorem Sequenced.nothingDiscarded (hcap : 0 < s.hub.config.replayCapacity)
    (hreach : s.InReach a) : s.NothingDiscarded a := by
  intro e he hlt
  rw [InReach] at hreach
  by_contra hnot
  split at hreach
  · next hnone => simp [h.log_eq_nil hcap hnone] at he
  · next front hfront =>
    have := h.lt_front_of_notMem hfront he hnot
    omega

/-- When nothing above `a` was discarded, the buffer holds what the log holds above `a`. -/
theorem Sequenced.filter_replay (hd : s.NothingDiscarded a) :
    (s.hub.replay.filter fun e => decide (a < e.sequence)) = s.after a := by
  have hinc := h.log_increasing
  rw [← take_append_drop (s.log.length - s.hub.config.replayCapacity) s.log] at hinc
  have hnil : (s.log.take (s.log.length - s.hub.config.replayCapacity)).filter
      (fun e => decide (a < e.sequence)) = [] := by
    refine filter_eq_nil_iff.mpr fun e he hlt => ?_
    have hmem := hd e (mem_of_mem_take he) (of_decide_eq_true hlt)
    rw [h.replay] at hmem
    exact lt_irrefl _ ((pairwise_append.mp hinc).2.2 e he e hmem)
  rw [after, ← take_append_drop (s.log.length - s.hub.config.replayCapacity) s.log,
    filter_append, hnil, nil_append, h.replay]

theorem Sequenced.after_increasing :
    (s.after a).Pairwise fun e e' => e.sequence < e'.sequence :=
  h.log_increasing.filter _

end

/-- `resume` in terms of its condition; the addition does not overflow below the greatest
`u64`. -/
theorem resume_eq (ha : a + 1 < 2 ^ 64) :
    (s.InReach a → s.hub.resume a = .ok (s.hub.replay.filter fun e => decide (a < e.sequence))) ∧
    (¬ s.InReach a → s.hub.resume a = .unavailable (s.hub.replay.head?.map (·.sequence))) := by
  rw [InReach, BridgeHub.resume]
  cases hhead : s.hub.replay.head? with
  | none =>
    have hnil := head?_eq_none_iff.mp hhead
    constructor <;> intro h <;> simp [h, hnil]
  | some front =>
    have hover : ¬ 2 ^ 64 ≤ a + 1 := not_le.mpr ha
    constructor <;> intro h <;> simp only at h ⊢ <;> rw [if_neg hover]
    · rw [if_neg (not_lt.mpr h)]
    · rw [if_pos (not_le.mp h), Option.map_some]

/-- A replay was in reach and is what the buffer holds after the sequence asked for. -/
theorem resume_eq_ok {L : List ViewMutationEnvelope} (h : s.hub.resume a = .ok L) :
    s.InReach a ∧ L = s.hub.replay.filter fun e => decide (a < e.sequence) := by
  rw [BridgeHub.resume] at h
  rw [InReach]
  cases hhead : s.hub.replay.head? with
  | none =>
    simp only [hhead] at h
    split at h
    · next hle => exact ⟨hle, by simpa [head?_eq_none_iff.mp hhead] using h.symm⟩
    · cases h
  | some front =>
    simp only [hhead] at h
    split at h
    · cases h
    · split at h
      · cases h
      · next hle => exact ⟨not_lt.mp hle, (BridgeHub.ResumeOutcome.ok.inj h).symm⟩

/-- **Resume exactness.** In every reachable state of a hub that buffers at least one
envelope, `resume` of a sequence below the greatest `u64` replays exactly the envelopes
broadcast after it, in increasing order and none discarded, or refuses and names the oldest
sequence buffered; it replays if and only if the request is in reach of the buffer. -/
theorem resume_exact {config : BridgeServerConfig} (hcap : 0 < config.replayCapacity)
    (h : Transition.Reaches (step bodyBytes) Transition.always (init config) s)
    (ha : a + 1 < 2 ^ 64) :
    (∀ earliest, s.hub.resume a ≠ .overflow earliest) ∧
    ((∃ L, s.hub.resume a = .ok L) ↔ s.InReach a) ∧
    (∀ L, s.hub.resume a = .ok L → s.NothingDiscarded a ∧ L = s.after a ∧
      L.Pairwise fun e e' => e.sequence < e'.sequence) ∧
    (¬ s.InReach a → s.hub.resume a = .unavailable (s.hub.replay.head?.map (·.sequence))) := by
  have hs := (sequenced_and_traced h).1
  rw [← config_eq h] at hcap
  obtain ⟨hok, hrefused⟩ := resume_eq (s := s) ha
  by_cases hreach : s.InReach a
  · have hd := hs.nothingDiscarded hcap hreach
    have hL := (hok hreach).trans (congrArg _ (hs.filter_replay hd))
    refine ⟨by simp [hL], by simp [hL, hreach], fun L h => ?_, fun h => absurd hreach h⟩
    obtain rfl : s.after a = L := by simpa [hL] using h
    exact ⟨hd, rfl, hs.after_increasing⟩
  · have hU := hrefused hreach
    exact ⟨by simp [hU], by simp [hU, hreach], by simp [hU], hrefused⟩

/-! ### Runs

Pieces of the concrete runs here and in the later modules: one mutation broadcast, one piece
of a reader's work, a connection opened and negotiated. -/

def emitRow : List Action :=
  [.allocate .insert (.rowEvicted "audit_event" "row") none .unknown, .broadcast 0]

def readOp (mutations : List ViewMutation) : Action :=
  .read 1 { nowNs := 0, mutations := mutations, evicted := 0 }

def handshake : List Action :=
  [.connect, .receive 1 (.hello { (default : BridgeHello) with supportedVersions := [1] }),
    readOp [], readOp [], readOp []]

/-- A server for one connection with room for `outbound` messages and `replay` envelopes. -/
def smallConfig (outbound replay : ℕ) : BridgeServerConfig :=
  { (default : BridgeServerConfig) with
    maxConnections := 1, maxFrameBytes := 1024, outboundCapacity := outbound,
    replayCapacity := replay }

/-- One broadcast, a snapshot row that takes sequence 2, another broadcast. -/
private def holeRun : List Action :=
  handshake ++ emitRow ++
    [.receive 1 (.snapshotRequest none), readOp [.rowEvicted "audit_event" "row"], readOp [],
      readOp [], readOp []] ++ emitRow

/-- With a buffer of one envelope, the client that has seen 2 is given 3. -/
theorem resume_exact_after_hole :
    ∃ s, Transition.Reaches (step fun _ => 0) Transition.always (init (smallConfig 8 1)) s ∧
      ∃ L, s.hub.resume 2 = .ok L ∧ s.NothingDiscarded 2 ∧ L = s.after 2 := by
  obtain ⟨s, hs, hreach⟩ := Transition.exists_reaches_of_run
    (step fun _ => 0) Transition.always (init (smallConfig 8 1))
    (Q := fun s => s.hub.replay.head?.map (·.sequence) = some 3) holeRun (by decide)
  obtain ⟨-, hiff, hok, -⟩ := resume_exact (a := 2) (by decide) hs (by decide)
  obtain ⟨front, hfront, hseq⟩ := Option.map_eq_some_iff.mp hreach
  obtain ⟨L, hL⟩ := hiff.mpr (by simp [InReach, hfront, hseq])
  exact ⟨s, hs, L, hL, (hok L hL).1, (hok L hL).2.1⟩

/-- **A refusal though nothing was discarded.** The client that has seen 1 is refused, though
the only envelope broadcast after it is still buffered. -/
theorem resume_refuses_across_hole :
    ¬ ∀ (config : BridgeServerConfig) (s : Server) (a : ℕ), a < 2 ^ 64 →
      Transition.Reaches (step fun _ => 0) Transition.always (init config) s →
        ((∃ L, s.hub.resume a = .ok L) ↔ s.NothingDiscarded a) := by
  intro hall
  obtain ⟨s, hs, hrefused, hkept⟩ := Transition.exists_reaches_of_run
    (step fun _ => 0) Transition.always (init (smallConfig 8 1))
    (Q := fun s => s.hub.resume 1 = .unavailable (some 3) ∧
      s.log.all (fun e => decide (1 < e.sequence → e ∈ s.hub.replay)) = true)
    holeRun (by decide)
  have hnone : s.NothingDiscarded 1 := fun e he hlt =>
    of_decide_eq_true (all_eq_true.mp hkept e he) hlt
  obtain ⟨L, hL⟩ := (hall _ s 1 (by decide) hs).mpr hnone
  simp [hrefused] at hL

end Server

end AgentSight.Bridge
