import Dbgapi.Process.Step
import Dbgapi.Wave.Invariant

set_option autoImplicit false

/-! # The wave invariant along runs

Every wave of every reachable process satisfies `Wave.Inv`: the parking part always, the other
two parts when the architecture keeps its contract (`ArchContract.Sound`). A step acts on one
wave and keeps the invariant by the preservation lemmas of `Dbgapi.Wave.Invariant`; the other
waves are unchanged, a created wave satisfies it, and a destroyed one is gone.
-/

namespace Dbgapi

/-- The architecture keeps its contract: `wave_get_state` reports are sound after a queue
suspension, and report STOP after a simulated single step. -/
structure ArchContract.Sound (K : ArchContract) : Prop where
  update : ∀ prev r, K.update prev r → ReportSound prev r
  simulate : ∀ r, K.simulate r → r.state = .stop

/-- The contract that admits exactly the sound reports. -/
def soundContract : ArchContract := ⟨ReportSound, fun r => r.state = .stop⟩

theorem soundContract_sound : soundContract.Sound := ⟨fun _ _ h => h, fun _ h => h⟩

variable {A : Arch} {K : ArchContract} {p p' : Process}

theorem forall_mem_set {P : Wave → Prop} {l : List Wave} {i : Nat} {w' : Wave}
    (h : ∀ w ∈ l, P w) (h' : P w') : ∀ w ∈ l.set i w', P w := fun w hw =>
  (List.mem_or_eq_of_mem_set hw).elim (h w) (fun e => e ▸ h')

/-- The report of a queue suspension that a step admits is sound when the contract is. -/
theorem ArchContract.suspendOk_sound {w : Wave} {suspend : Option UpdateEnv}
    (h : K.suspendOk w suspend) :
    ∀ u, suspend = some u → K.Sound → w.state ≠ .stop → ReportSound w.state u.report := by
  rintro u rfl hK hs
  exact hK.update _ _ (h hs)

/-- One step keeps the invariant of every wave. -/
theorem Step.inv (hs : Step A K p p') (h : ∀ w ∈ p.waves, Wave.Inv A K.Sound w) :
    ∀ w ∈ p'.waves, Wave.Inv A K.Sound w := by
  obtain ⟨o, hs⟩ := hs
  cases hs with
  | update u hw hk hu =>
    exact forall_mem_set h <| Wave.update_inv A (h _ (List.getElem?_mem hw))
      (fun hK hs => hK.update _ _ (hk hs)) hu
  | stop suspend env hw _ _ hsus _ hu =>
    exact forall_mem_set h <| Wave.waveStop_inv A env (h _ (List.getElem?_mem hw))
      (ArchContract.suspendOk_sound hsus) hu
  | resume suspend env mode e hw hv _ _ hsim hu =>
    exact forall_mem_set h <| Wave.waveResume_inv A env (h _ (List.getElem?_mem hw)) hv
      (fun hK => hK.simulate _ hsim) hu
  | report _ _ => exact h
  | processed _ _ => exact h
  | displacedSteppingStart denv saved hw hu =>
    exact forall_mem_set h <|
      Wave.displacedSteppingStart_inv A (h _ (List.getElem?_mem hw)) hu
  | displacedSteppingStartThrows denv saved hw hu =>
    obtain ⟨rfl, rfl⟩ := Prod.mk.inj_iff.1 (Wave.displacedSteppingStartM_exception A hu)
    exact forall_mem_set h (h _ (List.getElem?_mem hw))
  | displacedSteppingComplete hw hu =>
    exact forall_mem_set h <| Wave.displacedSteppingComplete_inv A (h _ (List.getElem?_mem hw)) hu
  | writeRegister regnum offset valueSize value hw _ hu =>
    exact forall_mem_set h <| Wave.writeRegister_inv A (h _ (List.getElem?_mem hw)) hu
  | create id queue agent laneCount callbacks _ _
  | createHalted id queue agent laneCount callbacks _ _ =>
    intro w hw
    rcases List.mem_append.1 hw with hw | hw
    · exact h w hw
    · rw [List.mem_singleton.1 hw]
      exact (Wave.inv_init id queue agent laneCount callbacks).congr rfl rfl rfl rfl
  | destroy _ => exact fun w hw => h w (List.mem_of_mem_eraseIdx hw)
  | release halted hw hv hr =>
    obtain ⟨-, -, rfl⟩ := (Wave.setVisibility_release hv).1 hr
    exact forall_mem_set h ((h _ (List.getElem?_mem hw)).congr rfl rfl rfl rfl)

/-- Every wave of a reachable process satisfies the invariant. -/
theorem Reachable.inv (h : Reachable A K p) : ∀ w ∈ p.waves, Wave.Inv A K.Sound w := by
  induction h with
  | init => simp [Process.init]
  | step _ hs ih => exact hs.inv ih

/-- On an architecture that keeps its contract, every wave of a reachable process is parked
exactly when it is stopped on an architecture that parks, is not running while displaced
stepping, and has a stop reason only when stopped. Hence `park` never fails when `update` calls
it on a wave found stopped, and `set_state` (with the `park`, `unpark` and `terminate` it calls)
never fails when `amd_dbgapi_wave_stop` or, past its guards, `amd_dbgapi_wave_resume` calls it
on a visible wave after the queue suspension. -/
theorem reachable_waves_invariant (hK : K.Sound) (hp : Reachable A K p) :
    (∀ w ∈ p.waves, (w.isParked = true ↔ A.parkStoppedWaves = true ∧ w.state = .stop) ∧
      (w.displacedStepping ≠ none → w.state ≠ .run) ∧ (w.stopReason ≠ [] → w.state = .stop)) ∧
    (∀ w ∈ p.waves, ∀ (u : UpdateEnv) (firstUpdate : Bool) (cacheBegin : BitVec 64) (w₁ : Wave),
      w.state ≠ .stop →
      Wave.refreshRunning A u firstUpdate cacheBegin { w with hasCwsrRecord := true } = .ok w₁ →
      w₁.state = .stop → ∃ w₂, Wave.park A w₁ = .ok w₂) ∧
    (∀ w ∈ p.waves, w.visibility = .visible →
      ∀ (suspend : Option UpdateEnv) (env : SetStateEnv) (w₁ : Wave) (sh₁ : Shared),
      K.suspendOk w suspend → K.simulate env.simulatedReport →
      w.suspendQueue A suspend p.shared = .ok (w₁, sh₁) →
      (∃ r, w₁.setState A env .stop 0 sh₁ = .ok r) ∧
      (∀ mode e, Wave.resumeGuard mode e w p.shared = none →
        ∃ r, w₁.setState A env (if mode = .singleStep then .singleStep else .run) e sh₁ =
          .ok r)) := by
  have hinv := hp.inv
  refine ⟨fun w hw => ?_, fun w hw u fu cb w₁ hs h₁ hs₁ => ?_,
    fun w hw hv suspend env w₁ sh₁ hsus hsim h₁ => ⟨?_, fun mode e hg => ?_⟩⟩
  · obtain ⟨hpk, hd, hr⟩ := hinv w hw
    exact ⟨by simp [hpk], hd hK, hr hK⟩
  · obtain ⟨pp, sa, rfl⟩ := Wave.refreshRunning_ok A h₁
    exact ⟨_, (Wave.park_ok A).2 ⟨hs₁, (hinv w hw).isParked_of_ne hs, rfl⟩⟩
  · have hi₁ := Wave.suspendQueue_inv A (hinv w hw) (ArchContract.suspendOk_sound hsus) h₁
    obtain ⟨-, hv₁, -⟩ := Wave.suspendQueue_keeps A h₁
    by_cases hs₁ : w₁.state = .stop
    · exact ⟨_, by rw [← hs₁]; exact Wave.setState_self A env (.inl rfl)⟩
    · exact Wave.setState_stop_isOk A env hi₁ hs₁ (hv₁.trans hv)
  · obtain ⟨he, hc, -, hds⟩ := Wave.resumeGuard_eq_none.1 hg
    have hs := Wave.state_of_clientVisibleState hc
    obtain ⟨rfl, hc', pp, sa, rfl⟩ := Wave.suspendQueue_stopped A hs h₁
    have hi₁ : Wave.Inv A K.Sound { w with hasCwsrRecord := hc', parkedPc := pp, saveArea := sa } :=
      (hinv w hw).congr rfl rfl rfl rfl
    exact Wave.setState_resume_isOk A env hi₁ hs (by split <;> simp) hv
      (fun hd => by cases mode <;> simp_all [Option.isSome_iff_ne_none]) he (hK.simulate _ hsim)

/-! ## A sample run

The sample wave is asked to stop, and the client reports and processes its stop event. -/

/-- What the hardware answers during the sample stop request. -/
def sampleStopEnv : SetStateEnv := ⟨none, false, false, false, 0, ⟨.stop, [.other 0]⟩, []⟩

/-- The sample wave once a stop request has stopped it (and parked it, on an architecture that
parks). -/
def sampleStoppedWave (parks : Bool) : Wave :=
  let w := Wave.init 0 0 0 64 sampleCallbacks
  { w with
    stopRequested := true
    state := .stop
    isParked := parks
    parkedPc := if parks then w.csaPc (sampleArch parks) else w.parkedPc
    saveArea := if parks then
        w.saveArea.write (sampleArch parks).pcAddress
          (byteOf sampleCallbacks.parkInstructionAddress) 0 8
      else w.saveArea
    lastStopEventId := some 0 }

/-- The sample process once its wave is stopped and the stop event processed. -/
def sampleStopped (parks : Bool) : Process :=
  ⟨[sampleStoppedWave parks],
    { sampleProcess.shared with
      events := [⟨.waveStop, 0, .processed⟩]
      driverLog := [.waveSetState 0 .stop 0] }⟩

/-- A stop request on a new sample wave of any id succeeds, whatever the hardware would answer
to a simulation, stops the wave and raises its stop event. -/
theorem waveStop_init (parks : Bool) (env : SetStateEnv) (id : Nat) (sh : Shared) :
    (Wave.init id 0 0 64 sampleCallbacks).waveStop (sampleArch parks) none env sh =
      .ok (.success, { sampleStoppedWave parks with id, lastStopEventId := some sh.events.length },
        { sh with
          events := sh.events ++ [⟨.waveStop, id, .pending⟩]
          driverLog := sh.driverLog ++ [.waveSetState id .stop 0] }) :=
  (Wave.waveStop_ok (sampleArch parks) env).2
    (.inr (.inr ⟨by simp [Wave.init, clientVisibleState], rfl, rfl, _, _, rfl,
      (Wave.setState_stop (sampleArch parks) env (by simp [Wave.init])).2 ⟨fun _ => rfl, rfl, rfl⟩⟩))

/-- The sample stop request. -/
theorem waveStop_sample (parks : Bool) (env : SetStateEnv) :
    (Wave.init 0 0 0 64 sampleCallbacks).waveStop (sampleArch parks) none env
      sampleProcess.shared = .ok (.success, sampleStoppedWave parks,
        { sampleProcess.shared with
          events := [⟨.waveStop, 0, .pending⟩]
          driverLog := [.waveSetState 0 .stop 0] }) :=
  waveStop_init parks env 0 _

theorem reachable_sampleStopped (parks : Bool) {K : ArchContract}
    (hK : K.simulate sampleStopEnv.simulatedReport) :
    Reachable (sampleArch parks) K (sampleStopped parks) := by
  have h₁ := Reachable.step (reachable_sampleProcess parks K)
    ⟨_, .stop (i := 0) none sampleStopEnv rfl rfl rfl trivial hK (waveStop_sample parks _)⟩
  have h₂ := Reachable.step h₁ ⟨_, .report (i := 0) rfl rfl⟩
  have h₃ := Reachable.step h₂ ⟨_, .processed (i := 0) rfl rfl⟩
  exact h₃

/-- The invariant on the sample wave once stopped and parked. -/
theorem reachable_waves_invariant_sample :
    soundContract.Sound ∧ Reachable (sampleArch true) soundContract (sampleStopped true) ∧
    ∀ w ∈ (sampleStopped true).waves,
      (w.isParked = true ↔ (sampleArch true).parkStoppedWaves = true ∧ w.state = .stop) ∧
      (w.displacedStepping ≠ none → w.state ≠ .run) ∧ (w.stopReason ≠ [] → w.state = .stop) :=
  have hr := reachable_sampleStopped true (K := soundContract) rfl
  ⟨soundContract_sound, hr, (reachable_waves_invariant soundContract_sound hr).1⟩

end Dbgapi
