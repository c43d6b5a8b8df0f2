import AgentSight.Bridge.Resume

/-!
# Whose stream a resume continues

A `ResumeRequest` names the node and the boot its sequence counts in; `handle_message` passes
the sequence on and drops the other two, and `resume` compares the sequence with the counter
only when nothing is buffered. A request for a stream that is not the hub's own is refused
exactly when it happens to be out of reach of the replay buffer.
-/

namespace AgentSight.Bridge

namespace BridgeHub

/-- The request continues this hub's stream, from a position it has reached. -/
def IsOwn (h : BridgeHub) (request : ResumeRequest) : Prop :=
  request.nodeId = h.config.nodeId ∧ request.bootId = h.config.bootId ∧
    request.afterSequence ≤ h.sequence

instance (h : BridgeHub) (request : ResumeRequest) : Decidable (h.IsOwn request) :=
  inferInstanceAs (Decidable (_ ∧ _ ∧ _))

/-- The buffer has nothing to say about what follows the position: with nothing buffered, it
is ahead of the counter; otherwise the oldest buffered envelope does not join on to it. -/
def OutOfReach (h : BridgeHub) (afterSequence : ℕ) : Prop :=
  match h.replay.head? with
  | none => h.sequence < afterSequence
  | some front => afterSequence + 1 < front.sequence ∨ 2 ^ 64 ≤ afterSequence + 1

/-- A replay, even an empty one, is for the hub's own clients; everyone else is told that the
position is not available. -/
def ResumesOwnOnly (h : BridgeHub) (request : ResumeRequest) : Prop :=
  ((∃ envelopes, h.resume request.afterSequence = .ok envelopes) → h.IsOwn request) ∧
    (¬h.IsOwn request → ∃ earliest,
      resumeReplies (h.resume request.afterSequence) = [.resumeUnavailable earliest])

variable {h : BridgeHub} {request : ResumeRequest} {afterSequence : ℕ}

/-- `resume` replays exactly what is in reach. -/
theorem exists_resume_eq_ok_iff :
    (∃ envelopes, h.resume afterSequence = .ok envelopes) ↔ ¬h.OutOfReach afterSequence := by
  rw [resume, OutOfReach]
  cases h.replay.head? with
  | none =>
    split_ifs with hle <;> simp [hle]
  | some front =>
    simp only
    split_ifs with hover hlt
    · exact iff_of_false (by simp) (not_not_intro (.inr hover))
    · exact iff_of_false (by simp) (not_not_intro (.inl hlt))
    · have hin : ¬(afterSequence + 1 < front.sequence ∨ 2 ^ 64 ≤ afterSequence + 1) := by
        rintro (h | h)
        · exact hlt h
        · exact hover h
      exact iff_of_true ⟨_, rfl⟩ hin

/-- What is out of reach is refused. -/
theorem resumeReplies_of_outOfReach (hout : h.OutOfReach afterSequence) :
    ∃ earliest, resumeReplies (h.resume afterSequence) = [.resumeUnavailable earliest] := by
  have hnot : ¬∃ envelopes, h.resume afterSequence = .ok envelopes := by
    rw [exists_resume_eq_ok_iff]
    exact not_not_intro hout
  cases hr : h.resume afterSequence with
  | ok envelopes => exact absurd ⟨envelopes, hr⟩ hnot
  | unavailable earliest => exact ⟨earliest, rfl⟩
  | overflow earliest => exact ⟨some earliest, rfl⟩

/-- **Resume identity.** A hub answers a request as its identity demands if and only if the
request is for the hub's own stream or is out of reach of the replay buffer. -/
theorem resumesOwnOnly_iff (h : BridgeHub) (request : ResumeRequest) :
    h.ResumesOwnOnly request ↔ h.IsOwn request ∨ h.OutOfReach request.afterSequence := by
  constructor
  · rintro ⟨hreplayed, -⟩
    by_cases hout : h.OutOfReach request.afterSequence
    · exact .inr hout
    · exact .inl (hreplayed (exists_resume_eq_ok_iff.mpr hout))
  · rintro (hown | hout)
    · exact ⟨fun _ => hown, fun hnot => absurd hown hnot⟩
    · refine ⟨fun hok => ?_, fun _ => resumeReplies_of_outOfReach hout⟩
      exact absurd hout (exists_resume_eq_ok_iff.mp hok)

/-- A hub of the second boot of a node. -/
def secondBoot : BridgeHub :=
  .new { (default : BridgeServerConfig) with
    nodeId := "node", bootId := some "boot-2", replayCapacity := 8 }

/-- **A client of the first boot is told it is caught up**, as long as its position is not
ahead of the new counter; once something is buffered, also when it is. -/
theorem secondBoot_resumes_firstBoot :
    ¬∀ (h : BridgeHub) (request : ResumeRequest), h.ResumesOwnOnly request := by
  intro hall
  have hown := (hall secondBoot ⟨"node", some "boot-1", 0⟩).1 ⟨[], by decide⟩
  exact absurd hown (by decide)

end BridgeHub

end AgentSight.Bridge
