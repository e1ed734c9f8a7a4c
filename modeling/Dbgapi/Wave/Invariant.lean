import Dbgapi.Wave.Transitions

set_option autoImplicit false

/-! # The wave invariant

Three facts about one wave hold after every operation that succeeds:

* the wave is parked exactly when it is stopped on an architecture that parks stopped waves;
* a wave with an outstanding displaced stepping is not running;
* a wave with a stop reason is stopped.

The first is what the assertions of `park` and `unpark` need: `set_state` parks a wave it stops
and unparks a wave it resumes, and `update` parks a wave it finds stopped. It holds whatever
`wave_get_state` reports. The other two hold when the reports are sound (`ReportSound`, and a
simulated step reported stopped); the invariant takes that soundness as a proposition `sound`,
so that one set of preservation lemmas serves both. Each operation keeps the invariant by its
spec lemma in `Dbgapi.Wave.Transitions`.
-/

namespace Dbgapi

/-- What `wave_get_state` may report for a wave that was last left in `prev` (not STOP): a stop
reason only with STOP, and a single-stepping wave as single-stepping or stopped. -/
def ReportSound (prev : WaveState) (r : StateReport) : Prop :=
  (r.stopReason ≠ [] → r.state = .stop) ∧ (prev = .singleStep → r.state ≠ .run)

namespace Wave

variable (A : Arch) (sound : Prop) (env : SetStateEnv) {w w' : Wave} {sh sh' : Shared}

/-- The invariant of a wave; its last two parts hold when the architecture's reports are
`sound`. -/
structure Inv (w : Wave) : Prop where
  /-- `park` and `unpark` follow the state. -/
  parked : w.isParked = (A.parkStoppedWaves && w.state == .stop)
  /-- A displaced-stepping wave is stopped or single-stepping. -/
  displaced : sound → w.displacedStepping ≠ none → w.state ≠ .run
  /-- The stop reason is cleared whenever the wave leaves STOP. -/
  stopReason : sound → w.stopReason ≠ [] → w.state = .stop

variable {A sound}

theorem Inv.isParked_of_stop (h : Inv A sound w) (hs : w.state = .stop) :
    w.isParked = A.parkStoppedWaves := by
  simp [h.parked, hs]

theorem Inv.isParked_of_ne (h : Inv A sound w) (hs : w.state ≠ .stop) : w.isParked = false := by
  simp [h.parked, hs]

/-- The invariant only reads the state, the parking flag, the displaced stepping and the stop
reason. -/
theorem Inv.congr (h : Inv A sound w) (hp : w'.isParked = w.isParked) (hs : w'.state = w.state)
    (hd : w'.displacedStepping = w.displacedStepping) (hr : w'.stopReason = w.stopReason) :
    Inv A sound w' :=
  ⟨by rw [hp, hs, h.parked], by rw [hd, hs]; exact h.displaced,
    by rw [hr, hs]; exact h.stopReason⟩

theorem inv_init (id queue agent laneCount : Nat) (callbacks : Callbacks) :
    Inv A sound (Wave.init id queue agent laneCount callbacks) :=
  ⟨by simp [Wave.init], by simp [Wave.init], by simp [Wave.init]⟩

theorem Inv.raiseEvent {k : EventKind} (h : Inv A sound w) :
    Inv A sound (Dbgapi.raiseEvent k w sh).1 :=
  h.congr rfl rfl rfl rfl

/-! ## Queue suspension -/

variable (A)

/-- `update` keeps the invariant; its last two parts need a sound report. -/
theorem update_inv {u : UpdateEnv} (h : Inv A sound w)
    (hr : sound → w.state ≠ .stop → ReportSound w.state u.report)
    (hu : w.update A u sh = .ok (w', sh')) : Inv A sound w' := by
  obtain ⟨pp, sa, hu⟩ := update_ok A hu
  by_cases hs : w.state = .stop
  · rw [if_pos hs] at hu
    obtain ⟨rfl, rfl⟩ := hu
    exact h.congr rfl rfl rfl rfl
  · rw [if_neg hs] at hu
    have hW : Inv A sound { w with
        hasCwsrRecord := true, isPriv := u.isPriv, parkedPc := pp, saveArea := sa
        state := u.report.state, stopReason := u.report.stopReason
        isParked := w.isParked || A.parkStoppedWaves && u.report.state == .stop } :=
      ⟨by simp [h.isParked_of_ne hs],
        fun hsd hd => by
          have hw := h.displaced hsd hd
          have hss := (hr hsd hs).2
          cases hst : w.state <;> simp_all,
        fun hsd => (hr hsd hs).1⟩
    obtain ⟨-, hu⟩ := hu
    dsimp only at hu
    split_ifs at hu
    · obtain ⟨rfl, rfl⟩ := eq_raiseEvent_iff.1 hu
      exact hW.congr rfl rfl rfl rfl
    · cases hu; exact hW

theorem suspendQueue_inv {suspend : Option UpdateEnv} (h : Inv A sound w)
    (hr : ∀ u, suspend = some u → sound → w.state ≠ .stop → ReportSound w.state u.report)
    (hu : w.suspendQueue A suspend sh = .ok (w', sh')) : Inv A sound w' := by
  cases suspend with
  | none =>
    simp only [suspendQueue, except_pure, Except.ok.injEq, Prod.mk.injEq] at hu
    rw [← hu.1]; exact h
  | some u => exact update_inv A h (hr u rfl) hu

/-! ## The entry points -/

/-- `amd_dbgapi_wave_stop` keeps the invariant. -/
theorem waveStop_inv {suspend : Option UpdateEnv} {st : Status} (h : Inv A sound w)
    (hr : ∀ u, suspend = some u → sound → w.state ≠ .stop → ReportSound w.state u.report)
    (hs : w.waveStop A suspend env sh = .ok (st, w', sh')) : Inv A sound w' := by
  rcases (waveStop_ok A env).1 hs with
    ⟨-, -, rfl, -⟩ | ⟨-, -, -, rfl, -⟩ | ⟨-, -, -, w₁, sh₁, h₁, h₂⟩
  · exact h
  · exact h
  have hi₁ := suspendQueue_inv A h hr h₁
  by_cases hs₁ : w₁.state = .stop
  · rw [← hs₁, setState_self A env (.inl rfl)] at h₂
    cases h₂; exact hi₁
  · obtain ⟨-, -, rfl, rfl⟩ := (setState_stop A env hs₁).1 h₂
    exact ⟨by simp [hi₁.isParked_of_ne hs₁], by simp, by simp⟩

/-- A resume from STOP keeps the invariant; its last two parts need a simulated step to be
reported stopped. -/
theorem setState_resume_inv {s : WaveState} {e : BitVec 64} (h : Inv A sound w)
    (hs : w.state = .stop) (hne : s ≠ .stop) (hv : w.visibility = .visible)
    (hds : w.displacedStepping ≠ none → s = .singleStep)
    (hsim : sound → env.simulatedReport.state = .stop)
    (hu : w.setState A env s e sh = .ok (w', sh')) : Inv A sound w' := by
  have hp := h.isParked_of_stop hs
  by_cases hT : s = .singleStep ∧ e = 0 ∧
    terminatingNext A w.displacedStepping env.instruction = true
  · obtain ⟨rfl, rfl, hT⟩ := hT
    rw [setState_terminate A env hs (by simp [hv]) hp hT] at hu
    cases hu
    exact ⟨by simp, by simp, by simp⟩
  · obtain ⟨-, -, r₁, sh₂, h₁, -, hr⟩ := (setState_resume A env hs hne hT).1 hu
    obtain ⟨rfl, -⟩ := Prod.mk.inj_iff.1 hr
    by_cases hS : s = .singleStep ∧ e = 0 ∧ simulates env w.displacedStepping env.instruction = true
    · rw [if_pos hS] at h₁
      obtain ⟨hpark, pp, sa, rfl⟩ := simulateStep_ok A env h₁
      refine Inv.raiseEvent ⟨?_, fun hsd => by simp [hsim hsd], fun hsd => by simp [hsim hsd]⟩
      cases ha : A.parkStoppedWaves <;> simp_all [resumed]
    · rw [if_neg hS] at h₁
      cases h₁
      exact ⟨by simp [resumed, hp, hne], fun _ hd => by simp [resumed, hds hd], by simp [resumed]⟩

/-- `amd_dbgapi_wave_resume` keeps the invariant; its last two parts need a simulated step to be
reported stopped. -/
theorem waveResume_inv {suspend : Option UpdateEnv} {mode : ResumeMode} {e : BitVec 64}
    {st : Status} (h : Inv A sound w) (hv : w.visibility = .visible)
    (hsim : sound → env.simulatedReport.state = .stop)
    (hu : w.waveResume A suspend env mode e sh = .ok (st, w', sh')) : Inv A sound w' := by
  rcases (waveResume_ok A env).1 hu with ⟨_, -, -, rfl, -⟩ | ⟨hg, -, w₁, sh₁, h₁, h₂⟩
  · exact h
  obtain ⟨-, hc, -, hds⟩ := resumeGuard_eq_none.1 hg
  have hs := state_of_clientVisibleState hc
  obtain ⟨rfl, hc, pp, sa, rfl⟩ := suspendQueue_stopped A hs h₁
  have hi₁ : Inv A sound { w with hasCwsrRecord := hc, parkedPc := pp, saveArea := sa } :=
    h.congr rfl rfl rfl rfl
  refine setState_resume_inv A env hi₁ hs ?_ hv ?_ hsim h₂ <;>
    cases mode <;> simp_all [Option.isSome_iff_ne_none]

/-! ## Operations on a stopped wave -/

/-- Starting a displaced stepping keeps the invariant: the wave is stopped. -/
theorem displacedSteppingStart_inv {denv : DisplacedSteppingEnv} {saved : Instruction}
    (h : Inv A sound w) (hu : w.displacedSteppingStart A denv saved sh = .ok (w', sh')) :
    Inv A sound w' := by
  obtain ⟨-, hs, ds, h₁, -⟩ := displacedSteppingStart_ok A hu
  obtain ⟨-, rfl⟩ := (useBuffer_ok A).1 h₁
  split_ifs <;> exact ⟨by simpa [withPc] using h.parked, by simp [withPc, hs],
    by simpa [withPc] using h.stopReason⟩

/-- Completing a displaced stepping keeps the invariant. -/
theorem displacedSteppingComplete_inv (h : Inv A sound w)
    (hu : w.displacedSteppingComplete A sh = .ok (w', sh')) : Inv A sound w' := by
  obtain ⟨-, ds, -, -, rfl⟩ := displacedSteppingComplete_ok A hu
  split_ifs <;> exact ⟨by simpa [withPc] using h.parked, by simp,
    by simpa [withPc] using h.stopReason⟩

/-- A register write keeps the invariant. -/
theorem writeRegister_inv {regnum : Regnum} {offset valueSize : BitVec 64}
    {value : Nat → BitVec 8} (h : Inv A sound w)
    (hu : w.writeRegister A regnum offset valueSize value = .ok w') : Inv A sound w' := by
  obtain ⟨pp, sa, rfl⟩ := writeRegister_frame A w hu
  exact h.congr rfl rfl rfl rfl

/-! ## No assertion fails

On a wave that satisfies the invariant, the calls the entry points make to `set_state` after
their guards never fail: the invariant gives the parking flag `park` and `unpark` expect, the
guard of `amd_dbgapi_wave_resume` the displaced-stepping mode and the exception bits the
conversion loop accepts. -/

/-- A stop request on a running visible wave succeeds. -/
theorem setState_stop_isOk (h : Inv A sound w) (hs : w.state ≠ .stop)
    (hv : w.visibility = .visible) : ∃ r, w.setState A env .stop 0 sh = .ok r :=
  ⟨_, (setState_stop A env hs).2 ⟨fun _ => h.isParked_of_ne hs, hv, rfl⟩⟩

/-- A resume of a stopped visible wave succeeds when a displaced-stepping wave is single-stepped,
the exceptions are valid and a simulated step is reported stopped. -/
theorem setState_resume_isOk {s : WaveState} {e : BitVec 64} (h : Inv A sound w)
    (hs : w.state = .stop) (hne : s ≠ .stop) (hv : w.visibility = .visible)
    (hds : w.displacedStepping ≠ none → s = .singleStep)
    (he : e &&& ~~~validWaveExceptions = 0) (hsim : env.simulatedReport.state = .stop) :
    ∃ r, w.setState A env s e sh = .ok r := by
  have hp := h.isParked_of_stop hs
  by_cases hT : s = .singleStep ∧ e = 0 ∧
    terminatingNext A w.displacedStepping env.instruction = true
  · obtain ⟨rfl, rfl, hT⟩ := hT
    exact ⟨_, setState_terminate A env hs (by simp [hv]) hp hT⟩
  suffices ∃ r₁ sh₂,
      (if s = .singleStep ∧ e = 0 ∧ simulates env w.displacedStepping env.instruction = true then
        simulateStep A env (resumed A s { w with stopRequested := false })
          { sh with driverLog := sh.driverLog ++ [.waveSetState w.id s e] } = .ok r₁
      else r₁ = (resumed A s { w with stopRequested := false },
          { sh with driverLog := sh.driverLog ++ [.waveSetState w.id s e] })) ∧
      sendExceptions A e r₁.1 r₁.2 = .ok sh₂ by
    obtain ⟨r₁, sh₂, h₁, h₂⟩ := this
    refine ⟨_, (setState_resume A env hs hne hT).2
      ⟨?_, fun ha => hp.trans ha, r₁, sh₂, h₁, h₂, rfl⟩⟩
    by_cases hd : w.displacedStepping = none
    · exact .inl hd
    · exact .inr (by simp [hds hd])
  by_cases hS : s = .singleStep ∧ e = 0 ∧ simulates env w.displacedStepping env.instruction = true
  · simp only [if_pos hS]
    obtain ⟨r₁, h₁⟩ := @simulateStep_isOk A env (resumed A s { w with stopRequested := false })
      { sh with driverLog := sh.driverLog ++ [.waveSetState w.id s e] }
      (fun ha => ⟨hsim, by simp [resumed, ha]⟩)
    obtain ⟨sh₂, h₂⟩ := @sendExceptions_isOk A r₁.1 r₁.2 e he
    exact ⟨r₁, sh₂, h₁, h₂⟩
  · simp only [if_neg hS]
    obtain ⟨sh₂, h₂⟩ := sendExceptions_isOk A he
    exact ⟨_, sh₂, rfl, h₂⟩

end Wave

end Dbgapi
