import Dbgapi.Wave.Transitions

set_option autoImplicit false

/-! # What the operations do to the displaced-stepping buffers

An operation on a wave either leaves its displaced stepping and the buffers alone, or does one
of three things to them (`BufferEffect`): `displaced_stepping_start` shares the live buffer of
the wave's queue and pc and takes one more reference to it, or, when there is none, creates a
buffer for that queue and pc with a fresh id and one reference; `displaced_stepping_complete`
and `terminate` release the wave's reference. `update`, `set_state` short of `terminate` and
the register accessors touch neither.

A start moves the pc to the buffer's scratch copy `to` unless the instruction is simulated, and
completion moves it back by `from - to`, where `from` is the pc the start found
(`displacedStepping_restores_pc`).
-/

namespace Dbgapi

/-- The wave's displaced stepping, the buffers and the next buffer id are unchanged. -/
def KeepsBuffers (w w' : Wave) (sh sh' : Shared) : Prop :=
  w'.displacedStepping = w.displacedStepping ∧ sh'.buffers = sh.buffers ∧
    sh'.nextBufferId = sh.nextBufferId

theorem KeepsBuffers.trans {w₁ w₂ w₃ : Wave} {sh₁ sh₂ sh₃ : Shared}
    (h₁ : KeepsBuffers w₁ w₂ sh₁ sh₂) (h₂ : KeepsBuffers w₂ w₃ sh₂ sh₃) :
    KeepsBuffers w₁ w₃ sh₁ sh₃ :=
  ⟨h₂.1.trans h₁.1, h₂.2.1.trans h₁.2.1, h₂.2.2.trans h₁.2.2⟩

/-- What an operation on `w` may do to its displaced stepping and the buffers. -/
inductive BufferEffect (A : Arch) (w w' : Wave) (sh sh' : Shared) : Prop
  /-- Nothing. -/
  | keep : KeepsBuffers w w' sh sh' → BufferEffect A w w' sh sh'
  /-- A start shares the live buffer `ds` of the wave's queue and pc. -/
  | share (ds : DisplacedStepping) (n : Nat) : w.displacedStepping = none →
      w'.displacedStepping = some ds → ds.queue = w.queue → ds.fromPc = w.pcValue A →
      (ds, n) ∈ sh.buffers → sh'.buffers = retain ds.id sh.buffers →
      sh'.nextBufferId = sh.nextBufferId → BufferEffect A w w' sh sh'
  /-- A start finds no live buffer of the wave's queue and pc and creates `ds`. -/
  | create (ds : DisplacedStepping) : w.displacedStepping = none →
      w'.displacedStepping = some ds → ds.queue = w.queue → ds.fromPc = w.pcValue A →
      (∀ b ∈ sh.buffers, b.1.queue = w.queue → b.1.fromPc ≠ w.pcValue A) →
      ds.id = sh.nextBufferId → sh'.buffers = sh.buffers ++ [(ds, 1)] →
      sh'.nextBufferId = sh.nextBufferId + 1 → BufferEffect A w w' sh sh'
  /-- The wave's reference, if it has one, is released. -/
  | drop : w'.displacedStepping = none →
      sh'.buffers = (releaseBuffer w.displacedStepping sh).buffers →
      sh'.nextBufferId = sh.nextBufferId → BufferEffect A w w' sh sh'

@[simp] theorem keepsBuffers_raiseEvent {k : EventKind} {w w' : Wave} {sh sh' : Shared} :
    KeepsBuffers w (raiseEvent k w' sh').1 sh (raiseEvent k w' sh').2 ↔
      KeepsBuffers w w' sh sh' := by
  simp [KeepsBuffers, raiseEvent]

namespace Wave

variable (A : Arch) (env : SetStateEnv) {w w' : Wave} {sh sh' : Shared}

theorem update_buffers {u : UpdateEnv} (h : w.update A u sh = .ok (w', sh')) :
    KeepsBuffers w w' sh sh' := by
  obtain ⟨pp, sa, h⟩ := update_ok A h
  split_ifs at h with hs hr
  · obtain ⟨rfl, rfl⟩ := h
    exact ⟨rfl, rfl, rfl⟩
  · obtain ⟨rfl, rfl⟩ := eq_raiseEvent_iff.1 h.2
    exact ⟨rfl, rfl, rfl⟩
  · obtain ⟨-, h⟩ := h
    obtain ⟨rfl, rfl⟩ := Prod.mk.inj_iff.1 h
    exact ⟨rfl, rfl, rfl⟩

theorem suspendQueue_buffers {suspend : Option UpdateEnv}
    (h : w.suspendQueue A suspend sh = .ok (w', sh')) : KeepsBuffers w w' sh sh' := by
  cases suspend with
  | none =>
    simp only [suspendQueue, except_pure, Except.ok.injEq, Prod.mk.injEq] at h
    obtain ⟨rfl, rfl⟩ := h
    exact ⟨rfl, rfl, rfl⟩
  | some u => exact update_buffers A h

/-- `amd_dbgapi_wave_stop` touches no buffer. -/
theorem waveStop_buffers {suspend : Option UpdateEnv} {st : Status}
    (h : w.waveStop A suspend env sh = .ok (st, w', sh')) : KeepsBuffers w w' sh sh' := by
  rcases (waveStop_ok A env).1 h with
    ⟨-, -, rfl, rfl⟩ | ⟨-, -, -, rfl, rfl⟩ | ⟨-, -, -, w₁, sh₁, h₁, h₂⟩
  · exact ⟨rfl, rfl, rfl⟩
  · exact ⟨rfl, rfl, rfl⟩
  refine (suspendQueue_buffers A h₁).trans ?_
  by_cases hs₁ : w₁.state = .stop
  · rw [← hs₁, setState_self A env (.inl rfl)] at h₂
    cases h₂
    exact ⟨rfl, rfl, rfl⟩
  · obtain ⟨-, -, h₂⟩ := (setState_stop A env hs₁).1 h₂
    obtain ⟨rfl, rfl⟩ := eq_raiseEvent_iff.1 h₂
    exact ⟨rfl, rfl, rfl⟩

/-- A resume from STOP touches no buffer, unless it terminates the wave, which releases the
wave's reference. -/
theorem setState_resume_buffers {s : WaveState} {e : BitVec 64}
    (h : w.setState A env s e sh = .ok (w', sh')) (hs : w.state = .stop) (hne : s ≠ .stop)
    (hv : w.visibility ≠ .hiddenHaltedAtLaunch) (hp : w.isParked = A.parkStoppedWaves) :
    KeepsBuffers w w' sh sh' ∨ (w'.displacedStepping = none ∧
      sh'.buffers = (releaseBuffer w.displacedStepping sh).buffers ∧
      sh'.nextBufferId = sh.nextBufferId) := by
  by_cases hT : s = .singleStep ∧ e = 0 ∧
    terminatingNext A w.displacedStepping env.instruction = true
  · obtain ⟨rfl, rfl, hT⟩ := hT
    rw [setState_terminate A env hs hv hp hT] at h
    cases h
    exact .inr ⟨rfl, by simp [raiseEvent], by simp [raiseEvent]⟩
  obtain ⟨-, -, r₁, sh₂, h₁, h₂, hr⟩ := (setState_resume A env hs hne hT).1 h
  obtain ⟨log, rfl⟩ := sendExceptions_ok A h₂
  obtain ⟨rfl, rfl⟩ := Prod.mk.inj_iff.1 hr
  refine .inl ?_
  split_ifs at h₁
  · obtain ⟨-, pp, sa, rfl⟩ := simulateStep_ok A env h₁
    simp [KeepsBuffers, raiseEvent, resumed]
  · cases h₁
    simp [KeepsBuffers, resumed]

/-- `amd_dbgapi_wave_resume` touches no buffer, unless it terminates the wave, which releases
the wave's reference. -/
theorem waveResume_buffers {suspend : Option UpdateEnv} {mode : ResumeMode} {e : BitVec 64}
    {st : Status} (hp : w.state = .stop → w.isParked = A.parkStoppedWaves)
    (hv : w.visibility = .visible) (h : w.waveResume A suspend env mode e sh = .ok (st, w', sh')) :
    BufferEffect A w w' sh sh' := by
  rcases (waveResume_ok A env).1 h with ⟨_, -, -, rfl, rfl⟩ | ⟨hg, -, w₁, sh₁, h₁, h₂⟩
  · exact .keep ⟨rfl, rfl, rfl⟩
  obtain ⟨-, hc, -, -⟩ := resumeGuard_eq_none.1 hg
  have hs := state_of_clientVisibleState hc
  obtain ⟨rfl, hc, pp, sa, rfl⟩ := suspendQueue_stopped A hs h₁
  have hne : (if mode = .singleStep then WaveState.singleStep else .run) ≠ .stop := by
    split <;> simp
  rcases setState_resume_buffers A env h₂ hs hne (by simp [hv]) (hp hs) with h | ⟨hd, hb, hn⟩
  · exact .keep h
  · exact .drop hd hb hn

/-- A start shares the live buffer of the wave's queue and pc, or creates one. -/
theorem displacedSteppingStart_buffers {denv : DisplacedSteppingEnv} {saved : Instruction}
    (h : w.displacedSteppingStart A denv saved sh = .ok (w', sh')) :
    BufferEffect A w w' sh sh' := by
  obtain ⟨hd, -, ds, h₁, h₂⟩ := displacedSteppingStart_ok A h
  have hw' : w'.displacedStepping = some ds := by
    obtain ⟨-, rfl⟩ := (useBuffer_ok A).1 h₁; rfl
  rcases h₂ with ⟨n, hf, rfl⟩ | ⟨hf, h₂⟩
  · obtain ⟨hq, hpc⟩ : ds.queue = w.queue ∧ ds.fromPc = w.pcValue A := by
      simpa using List.find?_some hf
    exact .share ds n hd hw' hq hpc (List.mem_of_find?_eq_some hf) rfl rfl
  · obtain ⟨-, -, -, hr⟩ := (createBuffer_ok A).1 h₂
    simp only [Prod.mk.injEq] at hr
    obtain ⟨rfl, rfl⟩ := hr
    refine .create _ hd hw' rfl rfl (fun b hb hq hpc => ?_) rfl rfl rfl
    simpa [hq, hpc] using List.find?_eq_none.1 hf b hb

/-- A start leaves the wave using a buffer of its queue and pc. -/
theorem displacedSteppingStart_uses {denv : DisplacedSteppingEnv} {saved : Instruction}
    (h : w.displacedSteppingStart A denv saved sh = .ok (w', sh')) :
    ∃ ds, w'.displacedStepping = some ds ∧ ds.queue = w.queue ∧ ds.fromPc = w.pcValue A := by
  obtain ⟨-, -, ds, h₁, h₂⟩ := displacedSteppingStart_ok A h
  obtain ⟨-, rfl⟩ := (useBuffer_ok A).1 h₁
  refine ⟨ds, by split_ifs <;> rfl, ?_⟩
  rcases h₂ with ⟨n, hf, -⟩ | ⟨-, h₂⟩
  · simpa using List.find?_some hf
  · obtain ⟨-, -, -, hr⟩ := (createBuffer_ok A).1 h₂
    simp only [Prod.mk.injEq] at hr
    rw [hr.1]
    exact ⟨rfl, rfl⟩

/-- Completion releases the wave's reference. -/
theorem displacedSteppingComplete_buffers (h : w.displacedSteppingComplete A sh = .ok (w', sh')) :
    BufferEffect A w w' sh sh' := by
  obtain ⟨-, ds, hd, rfl, rfl⟩ := displacedSteppingComplete_ok A h
  refine .drop ?_ (by simp [hd, releaseBuffer]) rfl
  split_ifs <;> rfl

/-! ## Where the pc goes -/

@[simp] theorem pcValue_setDisplacedStepping (d : Option DisplacedStepping) :
    ({ w with displacedStepping := d } : Wave).pcValue A = w.pcValue A := rfl

/-- Using a buffer moves the pc to its scratch copy, unless the instruction is simulated. -/
theorem useBuffer_pcValue {ds : DisplacedStepping} (h : useBuffer A ds w = .ok w') :
    w'.pcValue A = (if ds.isSimulated then w.pcValue A else ds.toPc) ∧ w'.state = w.state := by
  obtain ⟨-, rfl⟩ := (useBuffer_ok A).1 h
  split_ifs <;> exact ⟨by simp, rfl⟩

/-- Completion on a stopped wave that is displaced stepping succeeds: it moves the pc back by
`from - to`, unless the instruction was simulated, and releases the buffer. -/
theorem displacedSteppingComplete_eq {ds : DisplacedStepping} (hd : w.displacedStepping = some ds)
    (hs : w.state = .stop) :
    w.displacedSteppingComplete A sh =
      .ok ({ (if ds.isSimulated then w else w.withPc A (w.pcValue A + ds.fromPc - ds.toPc)) with
        displacedStepping := none }, { sh with buffers := release ds.id sh.buffers }) := by
  unfold displacedSteppingComplete
  cases hsim : ds.isSimulated <;> simp [hd, hs, hsim, pc_eq, writeRegister64_pc]

end Wave

/-- Displaced stepping of every stopped wave with pc `p`, parked or not, with any client-supplied
breakpoint bytes, through a new buffer or a shared one. A successful start uses a buffer whose
`from` is `p` and moves the pc to its scratch address `to`, unless the instruction is simulated.
Whenever the wave is later stopped with that buffer and its pc reads `p'`, completion succeeds,
leaves the wave with no displaced stepping, and sets the pc to `p + (p' - to)` modulo `2^64`, or
leaves it untouched for a simulated instruction. Completion right after the start restores
`p`. -/
theorem displacedStepping_restores_pc {A : Arch} {denv : DisplacedSteppingEnv}
    {saved : Instruction} {w w₁ : Wave} {sh sh₁ : Shared}
    (h : w.displacedSteppingStart A denv saved sh = .ok (w₁, sh₁)) :
    ∃ ds, w₁.displacedStepping = some ds ∧ ds.fromPc = w.pcValue A ∧
      w₁.pcValue A = (if ds.isSimulated then w.pcValue A else ds.toPc) ∧
      (∀ (u : Wave) (shu : Shared), u.displacedStepping = some ds → u.state = .stop →
        ∃ u' shu', u.displacedSteppingComplete A shu = .ok (u', shu') ∧
          u'.displacedStepping = none ∧
          u'.pcValue A =
            if ds.isSimulated then u.pcValue A else w.pcValue A + (u.pcValue A - ds.toPc)) ∧
      ∃ w₂ sh₂, w₁.displacedSteppingComplete A sh₁ = .ok (w₂, sh₂) ∧
        w₂.displacedStepping = none ∧ w₂.pcValue A = w.pcValue A := by
  obtain ⟨-, hs, ds, hu, -⟩ := Wave.displacedSteppingStart_ok A h
  obtain ⟨ds', hd₁, -, hfrom⟩ := Wave.displacedSteppingStart_uses A h
  obtain ⟨-, rfl⟩ := (Wave.useBuffer_ok A).1 hu
  obtain rfl : ds = ds' := Option.some.inj hd₁
  obtain ⟨hpc₁, hs₁⟩ := Wave.useBuffer_pcValue A hu
  have complete : ∀ (u : Wave) (shu : Shared), u.displacedStepping = some ds → u.state = .stop →
      ∃ u' shu', u.displacedSteppingComplete A shu = .ok (u', shu') ∧
        u'.displacedStepping = none ∧
        u'.pcValue A =
          if ds.isSimulated then u.pcValue A else w.pcValue A + (u.pcValue A - ds.toPc) := by
    intro u shu hd hsu
    refine ⟨_, _, Wave.displacedSteppingComplete_eq A hd hsu, rfl, ?_⟩
    split_ifs
    · rfl
    · simp only [Wave.pcValue_setDisplacedStepping, Wave.pcValue_withPc, hfrom]
      bv_omega
  obtain ⟨w₂, sh₂, h₂, hd₂, hpc₂⟩ := complete _ sh₁ hd₁ (hs₁.trans hs)
  refine ⟨ds, hd₁, hfrom, hpc₁, complete, w₂, sh₂, h₂, hd₂, ?_⟩
  rw [hpc₂, hpc₁]
  split_ifs <;> simp

/-- What the collaborators answer when the sample wave starts displaced stepping: the
instruction is read, can be displaced, not simulated, and goes to a scratch buffer at
`0x8000`. -/
def sampleDisplacedEnv : DisplacedSteppingEnv := ⟨.success, [0, 0, 0, 0], false, true, 0x8000, true⟩

theorem displacedStepping_restores_pc_sample :
    ∃ w₁ sh₁, sampleResumableWave.displacedSteppingStart (sampleArch false) sampleDisplacedEnv
        [0xbf, 0x81, 0, 0] ⟨[], [], 0, fun _ => 0, []⟩ = .ok (w₁, sh₁) ∧
      ∃ ds, w₁.displacedStepping = some ds ∧
        ds.fromPc = sampleResumableWave.pcValue (sampleArch false) ∧
        w₁.pcValue (sampleArch false) =
          (if ds.isSimulated then sampleResumableWave.pcValue (sampleArch false) else ds.toPc) ∧
        (∀ (u : Wave) (shu : Shared), u.displacedStepping = some ds → u.state = .stop →
          ∃ u' shu', u.displacedSteppingComplete (sampleArch false) shu = .ok (u', shu') ∧
            u'.displacedStepping = none ∧
            u'.pcValue (sampleArch false) = if ds.isSimulated then u.pcValue (sampleArch false)
              else sampleResumableWave.pcValue (sampleArch false) +
                (u.pcValue (sampleArch false) - ds.toPc)) ∧
        ∃ w₂ sh₂, w₁.displacedSteppingComplete (sampleArch false) sh₁ = .ok (w₂, sh₂) ∧
          w₂.displacedStepping = none ∧
          w₂.pcValue (sampleArch false) = sampleResumableWave.pcValue (sampleArch false) :=
  have h : ∃ r, sampleResumableWave.displacedSteppingStart (sampleArch false) sampleDisplacedEnv
      [0xbf, 0x81, 0, 0] ⟨[], [], 0, fun _ => 0, []⟩ = .ok r := ⟨_, rfl⟩
  let ⟨⟨w₁, sh₁⟩, h⟩ := h
  ⟨w₁, sh₁, h, displacedStepping_restores_pc h⟩

end Dbgapi
