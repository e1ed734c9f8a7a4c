import Dbgapi.Wave.Invariant

set_option autoImplicit false

/-! # What the operations do to the event queue

`update`, `amd_dbgapi_wave_stop` and `amd_dbgapi_wave_resume` each either leave the event queue
and the wave's last stop event alone, or enqueue one pending stop event for the wave and make it
the wave's last stop event (`EventEffect`). They enqueue one only when every earlier event of the
wave has been processed: `update` and a stop request only for a wave that was running and
visible, a resume only past the guard that the last stop event is processed; a wave they leave
running after that is hidden at its terminating instruction. And a wave they leave running,
and not hidden at a terminating instruction, without a new event had all its events processed
already.
-/

namespace Dbgapi

/-- Every event of the wave `id` has been processed. -/
def AllProcessed (events : List Event) (id : Nat) : Prop :=
  ∀ e ∈ events, e.wave = id → e.state = .processed

/-- What an operation on `w` may do to the event queue: nothing, or enqueue one pending stop
event for the wave when all its events are processed, after which the wave is stopped or
hidden at its terminating instruction. A wave that is left running, and not hidden at a
terminating instruction, without a new event had all its events processed already. -/
def EventEffect (w w' : Wave) (sh sh' : Shared) : Prop :=
  (sh'.events = sh.events ∧ w'.lastStopEventId = w.lastStopEventId ∧
    (w'.state ≠ .stop → w'.visibility ≠ .hiddenAtTerminatingInstruction →
      AllProcessed sh.events w.id)) ∨
  (∃ k, sh'.events = sh.events ++ [⟨k, w.id, .pending⟩] ∧
    w'.lastStopEventId = some sh.events.length ∧ AllProcessed sh.events w.id ∧
    (w'.state ≠ .stop → w'.visibility = .hiddenAtTerminatingInstruction))

namespace Wave

variable (A : Arch) (env : SetStateEnv) {w w' : Wave} {sh sh' : Shared}

/-- `update` raises a stop event only for a running visible wave. -/
theorem update_events {u : UpdateEnv}
    (hrun : w.state ≠ .stop → w.visibility ≠ .hiddenAtTerminatingInstruction →
      AllProcessed sh.events w.id)
    (h : w.update A u sh = .ok (w', sh')) : w'.id = w.id ∧ EventEffect w w' sh sh' := by
  obtain ⟨pp, sa, h⟩ := update_ok A h
  by_cases hs : w.state = .stop
  · rw [if_pos hs] at h
    obtain ⟨rfl, rfl⟩ := h
    exact ⟨rfl, .inl ⟨rfl, rfl, fun h' => absurd hs h'⟩⟩
  · rw [if_neg hs] at h
    obtain ⟨-, h⟩ := h
    dsimp only at h
    split_ifs at h with hr
    · obtain ⟨rfl, rfl⟩ := eq_raiseEvent_iff.1 h
      exact ⟨rfl, .inr ⟨_, rfl, rfl, hrun hs (by rw [hr.2.1]; decide), by simp [hr.1]⟩⟩
    · cases h
      exact ⟨rfl, .inl ⟨rfl, rfl, fun _ hv => hrun hs hv⟩⟩

theorem suspendQueue_events {suspend : Option UpdateEnv}
    (hrun : w.state ≠ .stop → w.visibility ≠ .hiddenAtTerminatingInstruction →
      AllProcessed sh.events w.id)
    (h : w.suspendQueue A suspend sh = .ok (w', sh')) : w'.id = w.id ∧ EventEffect w w' sh sh' := by
  cases suspend with
  | none =>
    simp only [suspendQueue, except_pure, Except.ok.injEq, Prod.mk.injEq] at h
    obtain ⟨rfl, rfl⟩ := h
    exact ⟨rfl, .inl ⟨rfl, rfl, hrun⟩⟩
  | some u => exact update_events A hrun h

/-- `amd_dbgapi_wave_stop` raises at most one event: the suspension's, or the stop request's
for a wave the suspension left running. -/
theorem waveStop_events {suspend : Option UpdateEnv} {st : Status}
    (hrun : w.state ≠ .stop → w.visibility ≠ .hiddenAtTerminatingInstruction →
      AllProcessed sh.events w.id)
    (h : w.waveStop A suspend env sh = .ok (st, w', sh')) :
    w'.id = w.id ∧ EventEffect w w' sh sh' := by
  rcases (waveStop_ok A env).1 h with
    ⟨-, -, rfl, rfl⟩ | ⟨-, -, -, rfl, rfl⟩ | ⟨-, -, -, w₁, sh₁, h₁, h₂⟩
  · exact ⟨rfl, .inl ⟨rfl, rfl, hrun⟩⟩
  · exact ⟨rfl, .inl ⟨rfl, rfl, hrun⟩⟩
  obtain ⟨hid, he⟩ := suspendQueue_events A hrun h₁
  by_cases hs₁ : w₁.state = .stop
  · rw [← hs₁, setState_self A env (.inl rfl)] at h₂
    cases h₂
    exact ⟨hid, he⟩
  · obtain ⟨-, hv, h₂⟩ := (setState_stop A env hs₁).1 h₂
    obtain ⟨rfl, rfl⟩ := eq_raiseEvent_iff.1 h₂
    rcases he with ⟨he, hl, hp⟩ | ⟨k, -, -, -, hk⟩
    · exact ⟨hid, .inr ⟨_, by rw [← he, ← hid], by simp [he], hp hs₁ (by rw [hv]; decide),
        by simp⟩⟩
    · exact absurd (hk hs₁) (by rw [hv]; decide)

/-- A resume from STOP raises at most one event: the command-terminated event of a terminating
single step, or the stop event of a simulated one. -/
theorem setState_resume_events {s : WaveState} {e : BitVec 64}
    (hp : w.isParked = A.parkStoppedWaves) (hs : w.state = .stop) (hne : s ≠ .stop)
    (hv : w.visibility = .visible)
    (hall : AllProcessed sh.events w.id) (hsim : env.simulatedReport.state = .stop)
    (h : w.setState A env s e sh = .ok (w', sh')) : w'.id = w.id ∧ EventEffect w w' sh sh' := by
  by_cases hT : s = .singleStep ∧ e = 0 ∧
    terminatingNext A w.displacedStepping env.instruction = true
  · obtain ⟨rfl, rfl, hT⟩ := hT
    rw [setState_terminate A env hs (by simp [hv]) hp hT] at h
    cases h
    exact ⟨rfl, .inr ⟨.waveCommandTerminated, by simp [raiseEvent], by simp [raiseEvent], hall,
      by simp [raiseEvent]⟩⟩
  obtain ⟨-, -, r₁, sh₂, h₁, h₂, hr⟩ := (setState_resume A env hs hne hT).1 h
  obtain ⟨log, rfl⟩ := sendExceptions_ok A h₂
  obtain ⟨rfl, rfl⟩ := Prod.mk.inj_iff.1 hr
  by_cases hS : s = .singleStep ∧ e = 0 ∧ simulates env w.displacedStepping env.instruction = true
  · rw [if_pos hS] at h₁
    obtain ⟨-, pp, sa, rfl⟩ := simulateStep_ok A env h₁
    exact ⟨rfl, .inr ⟨.waveStop, by simp [raiseEvent, resumed], by simp [raiseEvent], hall,
      by simp [raiseEvent, hsim]⟩⟩
  · rw [if_neg hS] at h₁
    cases h₁
    exact ⟨rfl, .inl ⟨by simp, rfl, fun _ _ => hall⟩⟩

/-- `amd_dbgapi_wave_resume` raises at most one event, and only past its guard that the wave's
last stop event is processed; a wave it leaves running and visible had all its events
processed. -/
theorem waveResume_events {suspend : Option UpdateEnv} {mode : ResumeMode} {e : BitVec 64}
    {st : Status} (hp : w.state = .stop → w.isParked = A.parkStoppedWaves)
    (hv : w.visibility = .visible)
    (hrun : w.state ≠ .stop → w.visibility ≠ .hiddenAtTerminatingInstruction →
      AllProcessed sh.events w.id)
    (hlast : (∀ ev, lastStopEvent w sh = some ev → ev.state = .processed) →
      AllProcessed sh.events w.id)
    (hsim : env.simulatedReport.state = .stop)
    (h : w.waveResume A suspend env mode e sh = .ok (st, w', sh')) :
    w'.id = w.id ∧ EventEffect w w' sh sh' := by
  rcases (waveResume_ok A env).1 h with ⟨_, -, -, rfl, rfl⟩ | ⟨hg, -, w₁, sh₁, h₁, h₂⟩
  · exact ⟨rfl, .inl ⟨rfl, rfl, hrun⟩⟩
  obtain ⟨-, hc, hev, -⟩ := resumeGuard_eq_none.1 hg
  have hs := state_of_clientVisibleState hc
  obtain ⟨rfl, hc, pp, sa, rfl⟩ := suspendQueue_stopped A hs h₁
  have hne : (if mode = .singleStep then WaveState.singleStep else .run) ≠ .stop := by
    split <;> simp
  refine (setState_resume_events A env ?_ ?_ hne ?_ ?_ hsim h₂ :)
  exacts [hp hs, hs, hv, hlast hev]

/-- `displaced_stepping_start` changes only the wave's pc and displaced stepping, and the
buffers: the wave's control state and the events stay as they were. -/
theorem displacedSteppingStart_control {denv : DisplacedSteppingEnv} {saved : Instruction}
    (h : w.displacedSteppingStart A denv saved sh = .ok (w', sh')) :
    w.state = .stop ∧ w'.id = w.id ∧ w'.visibility = w.visibility ∧ w'.state = w.state ∧
      w'.stopReason = w.stopReason ∧ w'.lastStopEventId = w.lastStopEventId ∧
      sh'.events = sh.events := by
  obtain ⟨-, hs, ds, h₁, h₂⟩ := displacedSteppingStart_ok A h
  obtain ⟨-, rfl⟩ := (useBuffer_ok A).1 h₁
  have hev : sh'.events = sh.events := by
    rcases h₂ with ⟨n, -, rfl⟩ | ⟨-, h₂⟩
    · rfl
    · obtain ⟨-, -, -, hr⟩ := (createBuffer_ok A).1 h₂
      simp only [Prod.mk.injEq] at hr
      rw [hr.2]
  split_ifs <;> exact ⟨hs, rfl, rfl, rfl, rfl, rfl, hev⟩

/-- The operations of displaced stepping leave the events and the wave's control state alone. -/
theorem displacedSteppingStart_events {denv : DisplacedSteppingEnv} {saved : Instruction}
    (h : w.displacedSteppingStart A denv saved sh = .ok (w', sh')) :
    w'.id = w.id ∧ EventEffect w w' sh sh' := by
  obtain ⟨hs, hid, -, hs', -, hl, hev⟩ := displacedSteppingStart_control A h
  exact ⟨hid, .inl ⟨hev, hl, fun h' => absurd (hs' ▸ hs) h'⟩⟩

theorem displacedSteppingComplete_events (h : w.displacedSteppingComplete A sh = .ok (w', sh')) :
    w'.id = w.id ∧ EventEffect w w' sh sh' := by
  obtain ⟨hs, ds, -, rfl, rfl⟩ := displacedSteppingComplete_ok A h
  split_ifs <;> exact ⟨rfl, .inl ⟨rfl, rfl, fun h' => absurd hs h'⟩⟩

end Wave

end Dbgapi
