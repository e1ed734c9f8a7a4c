import Dbgapi.Wave.Events

set_option autoImplicit false

/-! # The state the client sees

`client_visible_state` reports a stopped wave whose stop event the client has not seen in the
state the wave was last resumed in, which it reads off the `SINGLE_STEP` bit of the stop reason.
The client itself knows only what the API told it: the mode of its last successful resume, and
whether an event of the wave was reported to it since. `ClientAgrees s w sh` says that the view
`s` the client holds of `w` and the wave's own state fit together, so that
`client_visible_state` returns `s` (`ClientAgrees.clientVisibleState_eq`).

The operations keep the agreement when `wave_get_state` answers as the client can follow
(`ModeReport`): a wave that has not stopped in the state it was resumed in, and a stopped wave
with a stop reason whose `SINGLE_STEP` bit says whether it was single-stepping. One history
escapes: a stop that `amd_dbgapi_wave_stop` requests while the wave single-steps. `set_state`
clears the stop reason and raises a command-terminated event; until the client has seen that
event, `client_visible_state` returns RUN while the client last resumed the wave in SINGLE_STEP
(`terminatedPending`).
-/

namespace Dbgapi

/-- The answers of `wave_get_state` for a wave last left in `prev` that the client can follow: a
wave that has not stopped is still in the state it was resumed in, and a stopped wave has a stop
reason, with the `SINGLE_STEP` bit exactly when it was single-stepping. -/
def ModeReport (prev : WaveState) (r : StateReport) : Prop :=
  if r.state = .stop then r.stopReason ≠ [] ∧ (.singleStep ∈ r.stopReason ↔ prev = .singleStep)
  else r.state = prev

/-- The state a successful `amd_dbgapi_wave_resume` in `mode` leaves the wave in. -/
def ResumeMode.state (mode : ResumeMode) : WaveState :=
  if mode = .singleStep then .singleStep else .run

/-- The client's view `s` of the wave `w` (the mode of its last successful resume, or STOP once
an event of the wave was reported after it) fits the wave. A wave that has not stopped is in the
state `s`. A stopped wave has a last stop event. While that event is pending, it is a stop event
whose `SINGLE_STEP` bit gives `s`, or a command-terminated event of a single step, which left no
stop reason. Once it is reported, `s` is STOP. -/
structure ClientAgrees (s : WaveState) (w : Wave) (sh : Shared) : Prop where
  running : w.state ≠ .stop → s = w.state
  stopped : w.state = .stop → ∃ e, lastStopEvent w sh = some e ∧
    (e.state = .pending →
      (e.kind = .waveStop ∧ s = if .singleStep ∈ w.stopReason then .singleStep else .run) ∨
      (e.kind = .waveCommandTerminated ∧ s = .singleStep ∧ .singleStep ∉ w.stopReason)) ∧
    (e.state ≠ .pending → s = .stop)

/-- The wave is stopped by a stop request that interrupted a single step, and the client has not
seen the command-terminated event yet. -/
def terminatedPending (w : Wave) (sh : Shared) : Bool :=
  w.state == .stop &&
    (lastStopEvent w sh).any fun e => e.kind == .waveCommandTerminated && e.state == .pending

/-- Under the agreement, `client_visible_state` is the client's view, except for a wave whose
stop request interrupted a single step: that one is reported RUN while the client's view is
SINGLE_STEP. -/
theorem ClientAgrees.clientVisibleState_eq {s : WaveState} {w : Wave} {sh : Shared}
    (h : ClientAgrees s w sh) :
    clientVisibleState w sh = (if terminatedPending w sh then .run else s) ∧
      (terminatedPending w sh = true → s = .singleStep) := by
  by_cases hs : w.state = .stop
  · obtain ⟨e, he, hp, hr⟩ := h.stopped hs
    cases hst : e.state
    · rcases hp hst with ⟨hk, rfl⟩ | ⟨hk, rfl, hn⟩
      · simp [clientVisibleState, terminatedPending, hs, he, hst, hk]
      · simp [clientVisibleState, terminatedPending, hs, he, hst, hk, hn]
    all_goals simp [clientVisibleState, terminatedPending, hs, he, hst, hr (by simp [hst])]
  · simp [clientVisibleState, terminatedPending, hs, h.running hs]

section Agreement

variable {s : WaveState} {w w' : Wave} {sh sh' : Shared}

theorem ClientAgrees.of_keep (h : ClientAgrees s w sh) (hs : w'.state = w.state)
    (hr : w'.stopReason = w.stopReason) (hl : lastStopEvent w' sh' = lastStopEvent w sh) :
    ClientAgrees s w' sh' :=
  ⟨fun h' => hs ▸ h.running (hs ▸ h'), fun h' => hl ▸ hr ▸ h.stopped (hs ▸ h')⟩

theorem lastStopEvent_congr (hl : w'.lastStopEventId = w.lastStopEventId)
    (he : sh'.events = sh.events) : lastStopEvent w' sh' = lastStopEvent w sh := by
  simp [lastStopEvent, hl, he]

/-- A stop event raised for a wave in STOP: the client's view is the mode the event records. -/
theorem clientAgrees_raise {k : EventKind} (hs : w.state = .stop)
    (hk : (k = .waveStop ∧ s = if .singleStep ∈ w.stopReason then .singleStep else .run) ∨
      (k = .waveCommandTerminated ∧ s = .singleStep ∧ .singleStep ∉ w.stopReason))
    (hr : (w', sh') = raiseEvent k w sh) : ClientAgrees s w' sh' := by
  obtain ⟨rfl, rfl⟩ := eq_raiseEvent_iff.1 hr
  exact ⟨fun h => absurd hs h,
    fun _ => ⟨⟨k, w.id, .pending⟩, by simp [lastStopEvent], fun _ => hk, fun h => absurd rfl h⟩⟩

end Agreement

namespace Wave

variable (A : Arch) (env : SetStateEnv) {s : WaveState} {w w' : Wave} {sh sh' : Shared}

/-- `update` keeps the agreement: a stopped wave keeps its control state, and a running one is
reported in the state it was resumed in, or stopped with that state in the `SINGLE_STEP` bit. -/
theorem update_agrees {u : UpdateEnv} (hK : w.state ≠ .stop → ModeReport w.state u.report)
    (h : ClientAgrees s w sh) (hv : w'.visibility = .visible)
    (hu : w.update A u sh = .ok (w', sh')) :
    ClientAgrees s w' sh' := by
  obtain ⟨pp, sa, hu⟩ := update_ok A hu
  by_cases hs : w.state = .stop
  · rw [if_pos hs] at hu
    obtain ⟨rfl, rfl⟩ := hu
    exact h.of_keep rfl rfl rfl
  rw [if_neg hs] at hu
  obtain ⟨-, hu⟩ := hu
  dsimp only at hu
  have hm := hK hs
  rw [h.running hs]
  unfold ModeReport at hm
  split_ifs at hm with hr
  · split_ifs at hu with hc
    · refine clientAgrees_raise hr (.inl ⟨rfl, ?_⟩) hu
      cases hw : w.state <;> simp [hw] at hs hm ⊢ <;> simp [hm.2]
    · cases hu
      exact (hc ⟨hr, hv, hm.1⟩).elim
  · rw [if_neg (fun h' => hr h'.1)] at hu
    cases hu
    exact ⟨fun _ => hm.symm, fun h' => absurd h' hr⟩

theorem update_visibility {u : UpdateEnv} (hu : w.update A u sh = .ok (w', sh')) :
    w'.visibility = w.visibility :=
  (suspendQueue_keeps A (show w.suspendQueue A (some u) sh = .ok (w', sh') from hu)).2.1

theorem suspendQueue_agrees {suspend : Option UpdateEnv}
    (hK : ∀ u, suspend = some u → w.state ≠ .stop → ModeReport w.state u.report)
    (h : ClientAgrees s w sh) (hv : w'.visibility = .visible)
    (hu : w.suspendQueue A suspend sh = .ok (w', sh')) : ClientAgrees s w' sh' := by
  cases suspend with
  | none =>
    simp only [suspendQueue, except_pure, Except.ok.injEq, Prod.mk.injEq] at hu
    obtain ⟨rfl, rfl⟩ := hu
    exact h
  | some u => exact update_agrees A (hK u rfl) h hv hu

/-- `amd_dbgapi_wave_stop` keeps the agreement: the stop request records the state the wave was
running in, as a stop event with no stop reason out of RUN, and as a command-terminated event
out of SINGLE_STEP. -/
theorem waveStop_agrees {suspend : Option UpdateEnv} {st : Status}
    (hK : ∀ u, suspend = some u → w.state ≠ .stop → ModeReport w.state u.report)
    (h : ClientAgrees s w sh) (hv : w.visibility = .visible)
    (hu : w.waveStop A suspend env sh = .ok (st, w', sh')) : ClientAgrees s w' sh' := by
  rcases (waveStop_ok A env).1 hu with
    ⟨-, -, rfl, rfl⟩ | ⟨-, -, -, rfl, rfl⟩ | ⟨-, -, -, w₁, sh₁, h₁, h₂⟩
  · exact h
  · exact h
  have ha := suspendQueue_agrees A hK h ((suspendQueue_keeps A h₁).2.1.trans hv) h₁
  by_cases hs₁ : w₁.state = .stop
  · rw [← hs₁, setState_self A env (.inl rfl)] at h₂
    cases h₂
    exact ha
  · obtain ⟨-, -, h₂⟩ := (setState_stop A env hs₁).1 h₂
    refine clientAgrees_raise rfl ?_ h₂
    rw [ha.running hs₁]
    cases hw : w₁.state <;> simp [hw] at hs₁ ⊢

theorem resumeGuard_ne_success {mode : ResumeMode} {e : BitVec 64} {g : Status}
    (h : resumeGuard mode e w sh = some g) : g ≠ .success := by
  unfold resumeGuard at h
  split_ifs at h <;> cases h <;> decide

/-- A resume out of STOP leaves a visible wave in the state it was resumed in: running, or
stopped by a simulated single step with the `SINGLE_STEP` bit reported. -/
theorem setState_resume_agrees {s : WaveState} {e : BitVec 64}
    (hsim : env.simulatedReport.state = .stop ∧ .singleStep ∈ env.simulatedReport.stopReason)
    (hp : w.isParked = A.parkStoppedWaves) (hs : w.state = .stop) (hne : s ≠ .stop)
    (hv : w.visibility = .visible) (hv' : w'.visibility = .visible)
    (h : w.setState A env s e sh = .ok (w', sh')) : ClientAgrees s w' sh' := by
  by_cases hT : s = .singleStep ∧ e = 0 ∧
    terminatingNext A w.displacedStepping env.instruction = true
  · obtain ⟨rfl, rfl, hT⟩ := hT
    rw [setState_terminate A env hs (by simp [hv]) hp hT] at h
    cases h
    simp [raiseEvent] at hv'
  obtain ⟨-, -, r₁, sh₂, h₁, h₂, hr⟩ := (setState_resume A env hs hne hT).1 h
  obtain ⟨log, rfl⟩ := sendExceptions_ok A h₂
  obtain ⟨rfl, rfl⟩ := Prod.mk.inj_iff.1 hr
  by_cases hS : s = .singleStep ∧ e = 0 ∧ simulates env w.displacedStepping env.instruction = true
  · rw [if_pos hS] at h₁
    obtain ⟨-, pp, sa, rfl⟩ := simulateStep_ok A env h₁
    refine (clientAgrees_raise hsim.1 (.inl ⟨rfl, ?_⟩) rfl).of_keep rfl rfl
      (lastStopEvent_congr rfl (by simp [raiseEvent]))
    simp [hsim.2, hS.1]
  · rw [if_neg hS] at h₁
    cases h₁
    exact ⟨fun _ => rfl, fun h' => absurd h' hne⟩

/-- `amd_dbgapi_wave_resume` keeps the agreement with the client's view updated on success to
the resume mode; a refused resume changes nothing. -/
theorem waveResume_agrees {suspend : Option UpdateEnv} {mode : ResumeMode} {e : BitVec 64}
    {st : Status}
    (hsim : env.simulatedReport.state = .stop ∧ .singleStep ∈ env.simulatedReport.stopReason)
    (hp : w.state = .stop → w.isParked = A.parkStoppedWaves) (h : ClientAgrees s w sh)
    (hv : w.visibility = .visible) (hv' : w'.visibility = .visible)
    (hu : w.waveResume A suspend env mode e sh = .ok (st, w', sh')) :
    ClientAgrees (if st = .success then mode.state else s) w' sh' := by
  rcases (waveResume_ok A env).1 hu with ⟨g, hg, rfl, rfl, rfl⟩ | ⟨hg, rfl, w₁, sh₁, h₁, h₂⟩
  · rw [if_neg (resumeGuard_ne_success hg)]
    exact h
  obtain ⟨-, hc, -, -⟩ := resumeGuard_eq_none.1 hg
  have hs := state_of_clientVisibleState hc
  obtain ⟨rfl, hc, pp, sa, rfl⟩ := suspendQueue_stopped A hs h₁
  rw [if_pos rfl]
  refine setState_resume_agrees A env hsim ?_ ?_ ?_ ?_ hv' h₂
  exacts [hp hs, hs, by unfold ResumeMode.state; split <;> simp, hv]

/-- `displaced_stepping_start` keeps the agreement. -/
theorem displacedSteppingStart_agrees {denv : DisplacedSteppingEnv} {saved : Instruction}
    (h : ClientAgrees s w sh) (hu : w.displacedSteppingStart A denv saved sh = .ok (w', sh')) :
    ClientAgrees s w' sh' := by
  obtain ⟨-, -, -, hs, hr, hl, he⟩ := displacedSteppingStart_control A hu
  exact h.of_keep hs hr (lastStopEvent_congr hl he)

/-- `displaced_stepping_complete` keeps the agreement. -/
theorem displacedSteppingComplete_agrees (h : ClientAgrees s w sh)
    (hu : w.displacedSteppingComplete A sh = .ok (w', sh')) : ClientAgrees s w' sh' := by
  obtain ⟨-, ds, -, rfl, rfl⟩ := displacedSteppingComplete_ok A hu
  exact h.of_keep (by split_ifs <;> rfl) (by split_ifs <;> rfl)
    (lastStopEvent_congr (by split_ifs <;> rfl) rfl)

end Wave

end Dbgapi
