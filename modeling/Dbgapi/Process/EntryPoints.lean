import Dbgapi.Process.Invariant

set_option autoImplicit false

/-! # What the entry points guarantee

`amd_dbgapi_wave_resume` in single-step mode on a stopped wave whose next instruction terminates
it: `set_state` terminates the wave instead of single-stepping it. The wave is left running,
hidden, unparked, without displaced stepping or stop reason, with the terminating instruction's
address in its context save area, and one command-terminated event is raised. On an architecture
that parks, `terminate` writes the address to the parked pc, and the nested `set_state (RUN)`
moves it to the context save area through `unpark`; that `unpark` needs the wave to be parked,
which the wave invariant (`Wave.Inv`) guarantees for a stopped wave.
-/

namespace Dbgapi

variable {A : Arch} {K : ArchContract} {p : Process}

/-! ## A successful stop is acknowledged -/

section Acknowledged

variable {w w₁ w' : Wave} {sh sh₁ sh' : Shared}

/-- A stopped wave the client does not see stopped has a pending last stop event. -/
theorem pending_of_clientVisibleState (hs : w.state = .stop)
    (h : clientVisibleState w sh ≠ .stop) :
    ∃ e, lastStopEvent w sh = some e ∧ e.state = .pending := by
  unfold clientVisibleState at h
  rw [if_neg (not_not.2 hs)] at h
  split at h
  · exact absurd rfl h
  · rename_i e he
    refine ⟨e, he, ?_⟩
    by_contra hp
    exact h (if_pos (EventState.reported_le.2 hp))

/-- `set_state (STOP)` leaves the wave stopped with a pending last stop event: the one it raises,
or the one a wave it finds stopped already had. -/
theorem setState_stop_pending {env : SetStateEnv}
    (h₁ : w₁.state = .stop → ∃ e, lastStopEvent w₁ sh₁ = some e ∧ e.state = .pending)
    (h₂ : w₁.setState A env .stop 0 sh₁ = .ok (w', sh')) :
    w'.state = .stop ∧ ∃ e, lastStopEvent w' sh' = some e ∧ e.state = .pending := by
  by_cases hs : w₁.state = .stop
  · rw [← hs, Wave.setState_self A env (.inl rfl)] at h₂
    cases h₂
    exact ⟨hs, h₁ hs⟩
  · obtain ⟨-, -, h₂⟩ := (Wave.setState_stop A env hs).1 h₂
    obtain ⟨rfl, rfl⟩ := eq_raiseEvent_iff.1 h₂
    exact ⟨rfl, by simp [lastStopEvent]⟩

/-- A successful `amd_dbgapi_wave_stop` on a visible wave is acknowledged: the wave is left
stopped and its last stop event is pending, whether `set_state` raised it, or the `update` of the
call's own queue suspension found the wave stopped and raised it, or the client had not yet seen
an earlier stop. This needs the architecture to report STOP only with a stop reason. -/
theorem waveStop_acknowledged {suspend : Option UpdateEnv} {env : SetStateEnv}
    (hv : w.visibility = .visible)
    (hreport : ∀ u, suspend = some u → u.report.state = .stop → u.report.stopReason ≠ [])
    (h : w.waveStop A suspend env sh = .ok (.success, w', sh')) :
    w'.state = .stop ∧ ∃ e, lastStopEvent w' sh' = some e ∧ e.state = .pending := by
  rcases (Wave.waveStop_ok A env).1 h with ⟨-, h, -⟩ | ⟨-, -, h, -⟩ | ⟨hc, -, -, w₁, sh₁, h₁, h₂⟩
  · cases h
  · cases h
  refine setState_stop_pending (fun hs₁ => ?_) h₂
  by_cases hs : w.state = .stop
  · obtain ⟨rfl, hc', pp, sa, rfl⟩ := Wave.suspendQueue_stopped A hs h₁
    exact pending_of_clientVisibleState hs hc
  cases suspend with
  | none =>
    simp only [Wave.suspendQueue, except_pure, Except.ok.injEq, Prod.mk.injEq] at h₁
    obtain ⟨rfl, rfl⟩ := h₁
    exact absurd hs₁ hs
  | some u =>
    obtain ⟨pp, sa, h₁⟩ := Wave.update_ok A h₁
    rw [if_neg hs] at h₁
    obtain ⟨-, h₁⟩ := h₁
    dsimp only at h₁
    split_ifs at h₁ with hr
    · obtain ⟨rfl, rfl⟩ := eq_raiseEvent_iff.1 h₁
      simp [lastStopEvent]
    · obtain ⟨rfl, rfl⟩ := Prod.mk.inj_iff.1 h₁
      exact absurd ⟨hs₁, hv, hreport u rfl hs₁⟩ hr

theorem waveStop_acknowledged_sample :
    (Wave.init 0 0 0 64 sampleCallbacks).visibility = .visible ∧
    (∀ u : UpdateEnv, none = some u → u.report.state = .stop → u.report.stopReason ≠ []) ∧
    (Wave.init 0 0 0 64 sampleCallbacks).waveStop (sampleArch true) none sampleStopEnv
      sampleProcess.shared = .ok (.success, sampleStoppedWave true,
        { sampleProcess.shared with
          events := [⟨.waveStop, 0, .pending⟩]
          driverLog := [.waveSetState 0 .stop 0] }) ∧
    (sampleStoppedWave true).state = .stop ∧
    ∃ e, lastStopEvent (sampleStoppedWave true)
      { sampleProcess.shared with
        events := [⟨.waveStop, 0, .pending⟩]
        driverLog := [.waveSetState 0 .stop 0] } = some e ∧ e.state = .pending :=
  have hr : ∀ u : UpdateEnv, none = some u → u.report.state = .stop → u.report.stopReason ≠ [] :=
    fun _ h => nomatch h
  ⟨rfl, hr, waveStop_sample true _,
    waveStop_acknowledged rfl hr (waveStop_sample true sampleStopEnv)⟩

end Acknowledged

/-- On a reachable stopped visible wave that passes the guards of a single-step resume without
exceptions, and whose next instruction (the displaced original, or the instruction at pc) is
terminating, `amd_dbgapi_wave_resume` succeeds once the queue suspension does, and leaves the
wave running, hidden at the terminating instruction, unparked, without displaced stepping (its
buffer released once) or stop reason, with the terminating instruction's address in the context
save area; it enqueues exactly one event, a command-terminated event for the wave, and tells
the driver only to run the wave. -/
theorem resume_terminating_instruction (hp : Reachable A K p) {w : Wave} (hw : w ∈ p.waves)
    (hv : w.visibility = .visible) {suspend : Option UpdateEnv} {env : SetStateEnv}
    (hg : Wave.resumeGuard .singleStep 0 w p.shared = none)
    (hT : Wave.terminatingNext A w.displacedStepping env.instruction = true) :
    (∀ w₁ sh₁, w.suspendQueue A suspend p.shared = .ok (w₁, sh₁) →
      ∃ r, w.waveResume A suspend env .singleStep 0 p.shared = .ok r) ∧
    ∀ st w' sh', w.waveResume A suspend env .singleStep 0 p.shared = .ok (st, w', sh') →
      st = .success ∧ w'.state = .run ∧ w'.visibility = .hiddenAtTerminatingInstruction ∧
      w'.isParked = false ∧ w'.displacedStepping = none ∧ w'.stopReason = [] ∧
      w'.csaPc A = w.callbacks.terminatingInstructionAddress ∧
      sh'.events = p.shared.events ++ [⟨.waveCommandTerminated, w.id, .pending⟩] ∧
      sh'.buffers = (releaseBuffer w.displacedStepping p.shared).buffers ∧
      sh'.driverLog = p.shared.driverLog ++ [.waveSetState w.id .run 0] := by
  obtain ⟨-, hc, -, -⟩ := Wave.resumeGuard_eq_none.1 hg
  have hs := Wave.state_of_clientVisibleState hc
  have hpk := (hp.inv w hw).isParked_of_stop hs
  have hvis : w.visibility ≠ .hiddenHaltedAtLaunch := by simp [hv]
  refine ⟨fun w₁ sh₁ h₁ => ?_, fun st w' sh' h => ?_⟩
  · obtain ⟨rfl, hc', pp, sa, rfl⟩ := Wave.suspendQueue_stopped A hs h₁
    exact ⟨_, (Wave.waveResume_ok A env).2 (.inr ⟨hg, rfl, _, _, h₁,
      Wave.setState_terminate A env hs hvis hpk hT⟩)⟩
  · rcases (Wave.waveResume_ok A env).1 h with ⟨s, hs', -⟩ | ⟨-, rfl, w₁, sh₁, h₁, h₂⟩
    · cases hs'.symm.trans hg
    obtain ⟨rfl, hc', pp, sa, hw₁⟩ := Wave.suspendQueue_stopped A hs h₁
    have hs₁ : w₁.state = .stop := by rw [hw₁]; exact hs
    have hvis₁ : w₁.visibility ≠ .hiddenHaltedAtLaunch := by rw [hw₁]; exact hvis
    have hpk₁ : w₁.isParked = A.parkStoppedWaves := by rw [hw₁]; exact hpk
    have hT₁ : Wave.terminatingNext A w₁.displacedStepping env.instruction = true := by
      rw [hw₁]; exact hT
    rw [if_pos rfl, Wave.setState_terminate A env hs₁ hvis₁ hpk₁ hT₁] at h₂
    cases h₂
    subst hw₁
    simp [raiseEvent, Wave.csaPc, SaveArea.read_write]

/-- What the hardware answers when the sample wave is single-stepped onto a terminating
instruction. -/
def sampleTerminateEnv : SetStateEnv := ⟨some [0x81], false, false, false, 0, ⟨.stop, []⟩, []⟩

theorem resume_terminating_instruction_sample :
    Reachable (sampleArch true) soundContract (sampleStopped true) ∧
    sampleStoppedWave true ∈ (sampleStopped true).waves ∧
    (sampleStoppedWave true).visibility = .visible ∧
    Wave.resumeGuard .singleStep 0 (sampleStoppedWave true) (sampleStopped true).shared = none ∧
    Wave.terminatingNext (sampleArch true) (sampleStoppedWave true).displacedStepping
      sampleTerminateEnv.instruction = true ∧
    (∀ w₁ sh₁, (sampleStoppedWave true).suspendQueue (sampleArch true) none
        (sampleStopped true).shared = .ok (w₁, sh₁) →
      ∃ r, (sampleStoppedWave true).waveResume (sampleArch true) none sampleTerminateEnv
        .singleStep 0 (sampleStopped true).shared = .ok r) ∧
    ∀ st w' sh', (sampleStoppedWave true).waveResume (sampleArch true) none sampleTerminateEnv
        .singleStep 0 (sampleStopped true).shared = .ok (st, w', sh') →
      st = .success ∧ w'.state = .run ∧ w'.visibility = .hiddenAtTerminatingInstruction ∧
      w'.isParked = false ∧ w'.displacedStepping = none ∧ w'.stopReason = [] ∧
      w'.csaPc (sampleArch true) = sampleCallbacks.terminatingInstructionAddress ∧
      sh'.events = (sampleStopped true).shared.events ++ [⟨.waveCommandTerminated, 0, .pending⟩] ∧
      sh'.buffers = (releaseBuffer none (sampleStopped true).shared).buffers ∧
      sh'.driverLog = (sampleStopped true).shared.driverLog ++ [.waveSetState 0 .run 0] := by
  have hp := reachable_sampleStopped true (K := soundContract) rfl
  have hw : sampleStoppedWave true ∈ (sampleStopped true).waves := List.mem_singleton_self _
  have hg : Wave.resumeGuard .singleStep 0 (sampleStoppedWave true) (sampleStopped true).shared =
    none := by decide
  have hT : Wave.terminatingNext (sampleArch true) (sampleStoppedWave true).displacedStepping
    sampleTerminateEnv.instruction = true := by decide
  exact ⟨hp, hw, rfl, hg, hT,
    @resume_terminating_instruction (sampleArch true) soundContract _ hp _ hw rfl none
      sampleTerminateEnv hg hT⟩

end Dbgapi
