import Dbgapi.Wave.Api

set_option autoImplicit false

/-! # What each transition does

One spec lemma per operation of the state machine: its result when it succeeds, with the
guards that success implies. The invariant proofs of `Dbgapi.Process` cite these lemmas and
never unfold the operations.
-/

namespace Dbgapi

namespace Wave

variable (A : Arch) (env : SetStateEnv) {w w' : Wave} {sh sh' : Shared}

/-! ## Parking -/

/-- `park` succeeds exactly on a stopped, unparked wave; it saves the pc and writes the park
instruction's address to the context save area. -/
theorem park_ok :
    park A w = .ok w' ↔ w.state = .stop ∧ w.isParked = false ∧
      w' = { w with
        parkedPc := w.csaPc A
        isParked := true
        saveArea :=
          w.saveArea.write A.pcAddress (byteOf w.callbacks.parkInstructionAddress) 0 8 } := by
  unfold park
  cases hs : w.state <;> cases hp : w.isParked <;>
    simp [hs, hp, pc_eq, pcValue, writeRegister64_pc, withPc, eq_comm, bne, Bool.beq_eq_decide_eq]

/-- `unpark` succeeds exactly on a running, parked wave; it writes the parked pc back to the
context save area. -/
theorem unpark_ok :
    unpark A w = .ok w' ↔ w.state ≠ .stop ∧ w.isParked = true ∧
      w' = { w with
        isParked := false
        saveArea := w.saveArea.write A.pcAddress (byteOf w.parkedPc) 0 8 } := by
  unfold unpark
  cases hs : w.state <;> cases hp : w.isParked <;>
    simp [hs, hp, pc_eq, pcValue, writeRegister64_pc, withPc, eq_comm, bne, Bool.beq_eq_decide_eq]

/-- Hiding a wave that was not halted at launch only records its visibility. -/
theorem setVisibility_eq {v : Visibility} (halted : Bool)
    (h : w.visibility ≠ .hiddenHaltedAtLaunch) :
    w.setVisibility halted v = .ok { w with visibility := v } := by
  unfold setVisibility
  by_cases hv : w.visibility = v
  · subst hv; simp
  · simp [hv, h, Bool.beq_eq_decide_eq]

/-- Releasing a wave halted at launch asserts that it is running and halted, and only records its
visibility. -/
theorem setVisibility_release {halted : Bool} (hv : w.visibility = .hiddenHaltedAtLaunch) :
    w.setVisibility halted .visible = .ok w' ↔
      w.state = .run ∧ halted = true ∧ w' = { w with visibility := .visible } := by
  have hne : (w.visibility == Visibility.visible) = false := by rw [hv]; rfl
  have hh : (w.visibility == .hiddenHaltedAtLaunch) = true := by rw [hv]; rfl
  unfold setVisibility
  simp only [hne, hh, if_true, Bool.false_eq_true, if_false]
  simp [except_bind_eq_ok, Bool.and_eq_true, beq_iff_eq, @eq_comm _ w', and_assoc]

/-! ## The transition proper -/

/-- Leaving STOP saves the pc as the last stopped pc and clears the stop reason. -/
theorem leaveStop_ok {prev : WaveState} :
    leaveStop A prev w = .ok w' ↔
      prev = .stop ∧ w' = { w with lastStoppedPc := w.pcValue A, stopReason := [] } := by
  cases prev <;> simp [leaveStop, pc_eq, eq_comm, Bool.beq_eq_decide_eq]

/-- Entering STOP clears the stop reason and raises the stop event, which acknowledges a stop
that interrupted a single step as a terminated command. -/
theorem enterStop_ok {prev : WaveState} {r : Wave × Shared} :
    enterStop prev w sh = .ok r ↔ w.visibility = .visible ∧
      r = raiseEvent (if prev = .singleStep then .waveCommandTerminated else .waveStop)
        { w with stopReason := [] } sh := by
  cases hv : w.visibility <;> cases prev <;> simp [enterStop, hv, eq_comm, Bool.beq_eq_decide_eq]

/-- The wave the transition proper of a resume into `s` leaves: unparked (on an architecture
that parks), with the pc it stopped at saved and no stop reason. -/
def resumed (s : WaveState) (w : Wave) : Wave :=
  { w with
    state := s
    isParked := w.isParked && !A.parkStoppedWaves
    saveArea := if A.parkStoppedWaves then
      w.saveArea.write A.pcAddress (byteOf w.parkedPc) 0 8 else w.saveArea
    lastStoppedPc := w.pcValue A
    stopReason := [] }

/-- Out of STOP, the transition proper unparks the wave (on an architecture that parks), then
saves the pc it had when stopped and clears the stop reason. -/
theorem changeState_resume {prev s : WaveState} (hs : s ≠ .stop) :
    changeState A prev s w sh = .ok (w', sh') ↔
      prev = .stop ∧ (A.parkStoppedWaves = true → w.isParked = true) ∧ sh' = sh ∧
      w' = resumed A s w := by
  unfold changeState resumed
  cases ha : A.parkStoppedWaves <;> cases hp : w.isParked <;>
    simp [ha, hp, hs, unpark_ok, leaveStop_ok, except_bind_eq_ok, pcValue, csaPc, and_assoc,
      SaveArea.read_write] <;> aesop

/-- Into STOP from a running state, the transition proper parks the wave (on an architecture
that parks), clears the stop reason and raises the stop event. -/
theorem changeState_stop {prev : WaveState} {r : Wave × Shared} (hp : prev ≠ .stop) :
    changeState A prev .stop w sh = .ok r ↔
      (A.parkStoppedWaves = true → w.isParked = false) ∧ w.visibility = .visible ∧
      r = raiseEvent (if prev = .singleStep then .waveCommandTerminated else .waveStop)
        { w with
          state := .stop
          stopReason := []
          isParked := w.isParked || A.parkStoppedWaves
          parkedPc := if A.parkStoppedWaves then w.csaPc A else w.parkedPc
          saveArea := if A.parkStoppedWaves then
            w.saveArea.write A.pcAddress (byteOf w.callbacks.parkInstructionAddress) 0 8
            else w.saveArea } sh := by
  unfold changeState
  cases ha : A.parkStoppedWaves <;> cases hq : w.isParked <;>
    simp [ha, hq, hp, park_ok, enterStop_ok, except_bind_eq_ok, csaPc, and_assoc]

/-! ## The end of `set_state` -/

@[simp] theorem clearDeviceMemoryViolation_events (s : WaveState) (others : List Wave) :
    (clearDeviceMemoryViolation A s others w sh).events = sh.events := by
  unfold clearDeviceMemoryViolation; split_ifs <;> rfl

@[simp] theorem clearDeviceMemoryViolation_buffers (s : WaveState) (others : List Wave) :
    (clearDeviceMemoryViolation A s others w sh).buffers = sh.buffers := by
  unfold clearDeviceMemoryViolation; split_ifs <;> rfl

@[simp] theorem clearDeviceMemoryViolation_nextBufferId (s : WaveState) (others : List Wave) :
    (clearDeviceMemoryViolation A s others w sh).nextBufferId = sh.nextBufferId := by
  unfold clearDeviceMemoryViolation; split_ifs <;> rfl

@[simp] theorem clearDeviceMemoryViolation_driverLog (s : WaveState) (others : List Wave) :
    (clearDeviceMemoryViolation A s others w sh).driverLog = sh.driverLog := by
  unfold clearDeviceMemoryViolation; split_ifs <;> rfl

/-- The check only runs when the wave leaves STOP. -/
@[simp] theorem clearDeviceMemoryViolation_stop (others : List Wave) :
    clearDeviceMemoryViolation A .stop others w sh = sh := by
  simp [clearDeviceMemoryViolation]

@[simp] theorem sendExceptions_zero : sendExceptions A 0#64 w sh = .ok sh := by
  simp [sendExceptions]

/-- Sending exceptions only tells the driver. -/
theorem sendExceptions_ok {e : BitVec 64} (h : sendExceptions A e w sh = .ok sh') :
    ∃ log, sh' = { sh with driverLog := log } := by
  unfold sendExceptions at h
  split_ifs at h
  · cases h; exact ⟨sh.driverLog, rfl⟩
  · simp [except_bind_eq_ok] at h
    obtain ⟨os, -, -, rfl⟩ := h
    exact ⟨_, rfl⟩

/-- A simulated single step moves the pc, takes the state and stop reason `wave_get_state` then
reports, parks the wave (on an architecture that parks) and raises a stop event. -/
theorem simulateStep_ok {r : Wave × Shared} (h : simulateStep A env w sh = .ok r) :
    (A.parkStoppedWaves = true → env.simulatedReport.state = .stop ∧ w.isParked = false) ∧
    ∃ pp sa, r = raiseEvent .waveStop { w with
      state := env.simulatedReport.state
      stopReason := env.simulatedReport.stopReason
      isParked := w.isParked || A.parkStoppedWaves
      parkedPc := pp
      saveArea := sa } sh := by
  unfold simulateStep at h
  rw [writeRegister64_pc, withPc] at h
  cases ha : A.parkStoppedWaves <;> cases hp : w.isParked <;>
    simp [ha, hp, except_bind_eq_ok, park_ok] at h ⊢
  · exact ⟨_, _, h.symm⟩
  · exact ⟨_, _, h.symm⟩
  · obtain ⟨w₁, ⟨hs, rfl⟩, h⟩ := h
    exact ⟨hs, _, _, h.symm⟩

/-- A simulated single step succeeds unless it would park a wave that is not reported stopped
or is already parked. -/
theorem simulateStep_isOk
    (h : A.parkStoppedWaves = true → env.simulatedReport.state = .stop ∧ w.isParked = false) :
    ∃ r, simulateStep A env w sh = .ok r := by
  unfold simulateStep
  rw [writeRegister64_pc, withPc]
  cases ha : A.parkStoppedWaves
  · exact ⟨_, rfl⟩
  · obtain ⟨hs, hp⟩ := h ha
    simp [ha, hp, hs, except_bind_eq_ok, park_ok]

/-! ## `set_state` -/


/-- Setting the state a wave is already in does nothing. -/
theorem setState_self {e : BitVec 64} (h : e = 0 ∨ w.state ≠ .stop) :
    w.setState A env w.state e sh = .ok (w, sh) := by
  rw [setState]
  rcases h with rfl | h <;> simp [*, bne, Bool.beq_eq_decide_eq]

/-- A stop request on a running wave: the driver is told, the wave is parked (on an architecture
that parks) and the stop event raised. -/
theorem setState_stop {r : Wave × Shared} (hs : w.state ≠ .stop) :
    w.setState A env .stop 0 sh = .ok r ↔
      (A.parkStoppedWaves = true → w.isParked = false) ∧ w.visibility = .visible ∧
      r = raiseEvent (if w.state = .singleStep then .waveCommandTerminated else .waveStop)
        { w with
          stopRequested := true
          state := .stop
          stopReason := []
          isParked := w.isParked || A.parkStoppedWaves
          parkedPc := if A.parkStoppedWaves then w.csaPc A else w.parkedPc
          saveArea := if A.parkStoppedWaves then
            w.saveArea.write A.pcAddress (byteOf w.callbacks.parkInstructionAddress) 0 8
            else w.saveArea }
        { sh with driverLog := sh.driverLog ++ [.waveSetState w.id .stop 0] } := by
  rw [setState]
  simp [Ne.symm hs, hs, changeState_stop, except_bind_eq_ok, raiseEvent, csaPc, and_assoc,
    sendExceptions, bne, Bool.beq_eq_decide_eq, @eq_comm _ r]

/-- Resuming a stopped wave without terminating it: the driver is told, the wave unparked (on
an architecture that parks) and its stop reason cleared; then a single step may be simulated,
and the exceptions are sent. -/
theorem setState_resume {s : WaveState} {e : BitVec 64} {r : Wave × Shared}
    (hs : w.state = .stop) (hne : s ≠ .stop)
    (hT : ¬(s = .singleStep ∧ e = 0 ∧
      terminatingNext A w.displacedStepping env.instruction = true)) :
    w.setState A env s e sh = .ok r ↔
      (w.displacedStepping = none ∨ s ≠ .run) ∧ (A.parkStoppedWaves = true → w.isParked = true) ∧
      ∃ r₁ sh₂,
        (if s = .singleStep ∧ e = 0 ∧ simulates env w.displacedStepping env.instruction = true then
          simulateStep A env (resumed A s { w with stopRequested := false })
            { sh with driverLog := sh.driverLog ++ [.waveSetState w.id s e] } = .ok r₁
        else r₁ = (resumed A s { w with stopRequested := false },
            { sh with driverLog := sh.driverLog ++ [.waveSetState w.id s e] })) ∧
        sendExceptions A e r₁.1 r₁.2 = .ok sh₂ ∧
        r = (r₁.1, clearDeviceMemoryViolation A s env.others r₁.1 sh₂) := by
  rw [setState]
  cases s with
  | stop => exact absurd rfl hne
  | run =>
    simp [hs, changeState_resume, resumed, except_bind_eq_ok, and_assoc, bne, Bool.beq_eq_decide_eq,
      pcValue, csaPc, @eq_comm _ r]
  | singleStep =>
    by_cases he : e = 0#64
    · have ht : terminatingNext A w.displacedStepping env.instruction = false := by
        simpa [he] using hT
      cases hsim : simulates env w.displacedStepping env.instruction <;>
        simp [hs, he, ht, hsim, changeState_resume, resumed, except_bind_eq_ok, and_assoc, bne,
          Bool.beq_eq_decide_eq, pcValue, csaPc, @eq_comm _ r]
    · simp [hs, he, changeState_resume, resumed, except_bind_eq_ok, and_assoc, bne,
        Bool.beq_eq_decide_eq,
        pcValue, csaPc, @eq_comm _ r]

/-- `terminate` on a stopped wave that was not halted at launch and is parked as its architecture
parks stopped waves: the buffer is released, the pc points at the terminating instruction in the
context save area (through the parked copy and `unpark` on an architecture that parks), and the
wave runs, hidden, with its stop reason cleared. -/
theorem terminate_eq (hs : w.state = .stop) (hv : w.visibility ≠ .hiddenHaltedAtLaunch)
    (hp : w.isParked = A.parkStoppedWaves) :
    terminate A env w sh =
      let T := w.callbacks.terminatingInstructionAddress
      let W : Wave := { w with
        displacedStepping := none
        visibility := .hiddenAtTerminatingInstruction
        stopRequested := false
        state := .run
        isParked := false
        parkedPc := if A.parkStoppedWaves then T else w.parkedPc
        saveArea := w.saveArea.write A.pcAddress (byteOf T) 0 8
        lastStoppedPc := T
        stopReason := [] }
      .ok (W, clearDeviceMemoryViolation A .run env.others W
        { releaseBuffer w.displacedStepping sh with
          driverLog := sh.driverLog ++ [.waveSetState w.id .run 0] }) := by
  rw [terminate]
  cases ha : A.parkStoppedWaves <;>
    simp [hs, ha, hp, hv, writeRegister64_pc, withPc, setVisibility_eq, setState_resume, resumed,
      except_bind_eq_ok, pcValue, csaPc, SaveArea.read_write]

/-- A single step of a stopped wave onto a terminating instruction terminates the wave and
raises a command-terminated event, without asking the hardware to single-step. -/
theorem setState_terminate (hs : w.state = .stop) (hv : w.visibility ≠ .hiddenHaltedAtLaunch)
    (hp : w.isParked = A.parkStoppedWaves)
    (hT : terminatingNext A w.displacedStepping env.instruction = true) :
    w.setState A env .singleStep 0 sh =
      let T := w.callbacks.terminatingInstructionAddress
      let W : Wave := { w with
        displacedStepping := none
        visibility := .hiddenAtTerminatingInstruction
        stopRequested := false
        state := .run
        isParked := false
        parkedPc := if A.parkStoppedWaves then T else w.parkedPc
        saveArea := w.saveArea.write A.pcAddress (byteOf T) 0 8
        lastStoppedPc := T
        stopReason := [] }
      .ok (raiseEvent .waveCommandTerminated W (clearDeviceMemoryViolation A .run env.others W
        { releaseBuffer w.displacedStepping sh with
          driverLog := sh.driverLog ++ [.waveSetState w.id .run 0] })) := by
  rw [setState]
  simp [hs, hv, hp, hT, terminate_eq, bne, Bool.beq_eq_decide_eq]

/-! ## `update` -/

/-- Register writes change only the registers, however many there are. -/
theorem foldlM_writeRegister_frame {offset size : BitVec 64} {value : Nat → BitVec 8} :
    ∀ (regs : List Regnum) (v : Wave),
      regs.foldlM (fun w r => w.writeRegister A r offset size value) v = .ok w' →
      ∃ pp sa, w' = { v with parkedPc := pp, saveArea := sa }
  | [], v, h => by cases h; exact ⟨_, _, rfl⟩
  | r :: regs, v, h => by
    obtain ⟨v₁, h₁, h⟩ := except_bind_eq_ok.1 h
    obtain ⟨pp₁, sa₁, rfl⟩ := writeRegister_frame A v h₁
    obtain ⟨pp, sa, rfl⟩ := foldlM_writeRegister_frame regs _ h
    exact ⟨pp, sa, rfl⟩

/-- The refresh of a running wave records the new privilege bit and the reported state and stop
reason; the rest of the wave is unchanged but for its registers. -/
theorem refreshRunning_ok {u : UpdateEnv} {firstUpdate : Bool} {cacheBegin : BitVec 64}
    (h : refreshRunning A u firstUpdate cacheBegin w = .ok w') :
    ∃ pp sa, w' = { w with
      isPriv := u.isPriv
      parkedPc := pp
      saveArea := sa
      state := u.report.state
      stopReason := u.report.stopReason } := by
  unfold refreshRunning at h
  cases hl : A.registerAddress A.regs.lastTtmp
  · simp [hl] at h
  by_cases hz : (!u.ttmpsSetupEnabled && firstUpdate) = true
  · simp only [hl, hz, if_true, except_bind_eq_ok, check_eq_ok] at h
    obtain ⟨-, -, w₁, h₁, h⟩ := h
    obtain ⟨pp, sa, rfl⟩ := foldlM_writeRegister_frame A _ _ h₁
    cases h; exact ⟨pp, sa, rfl⟩
  · simp [hl, hz, except_bind_eq_ok] at h
    obtain ⟨-, rfl⟩ := h
    exact ⟨_, _, rfl⟩

/-- Observing a stop parks the wave (on an architecture that parks) and raises a stop event
for a visible wave with a stop reason. -/
theorem observeStop_ok {r : Wave × Shared} (h : observeStop A w sh = .ok r) :
    (A.parkStoppedWaves = true → w.state = .stop ∧ w.isParked = false) ∧
    ∃ pp sa, let W : Wave := { w with
        isParked := w.isParked || A.parkStoppedWaves
        parkedPc := pp
        saveArea := sa }
      r = if w.visibility = .visible ∧ w.stopReason ≠ [] then raiseEvent .waveStop W sh
        else (W, sh) := by
  unfold observeStop at h
  cases ha : A.parkStoppedWaves <;> simp only [ha, Bool.false_eq_true, if_false, if_true,
    except_ok_bind, except_pure, except_bind_eq_ok, park_ok] at h
  · refine ⟨by simp, w.parkedPc, w.saveArea, ?_⟩
    simp only [Bool.or_false]
    split_ifs at h ⊢ <;> cases h <;> rfl
  · obtain ⟨w₁, ⟨hs, hp, rfl⟩, h⟩ := h
    refine ⟨fun _ => ⟨hs, hp⟩, w.csaPc A,
      w.saveArea.write A.pcAddress (byteOf w.callbacks.parkInstructionAddress) 0 8, ?_⟩
    dsimp only at h
    simp only [Bool.or_true]
    split_ifs at h ⊢ <;> cases h <;> rfl

/-- The state part of `update`. A stopped wave keeps its state; only its register cache moves.
A running wave takes the reported state and stop reason; if it has stopped, it is parked (on an
architecture that parks) and, visible with a stop reason, raises a stop event. -/
theorem updateState_ok {u : UpdateEnv} {firstUpdate : Bool} {cacheBegin : BitVec 64}
    (h : updateState A u firstUpdate cacheBegin w sh = .ok (w', sh')) :
    ∃ pp sa, if w.state = .stop then w' = { w with saveArea := sa } ∧ sh' = sh
      else (u.report.state = .stop → A.parkStoppedWaves = true → w.isParked = false) ∧
        let W : Wave := { w with
          isPriv := u.isPriv
          parkedPc := pp
          saveArea := sa
          state := u.report.state
          stopReason := u.report.stopReason
          isParked := w.isParked || A.parkStoppedWaves && u.report.state == .stop }
        (w', sh') =
          if u.report.state = .stop ∧ w.visibility = .visible ∧ u.report.stopReason ≠ [] then
            raiseEvent .waveStop W sh else (W, sh) := by
  unfold updateState at h
  by_cases hs : w.state = .stop
  · simp only [hs, ne_eq, not_true_eq_false, if_false, false_and, except_pure, except_ok_bind,
      Except.ok.injEq, Prod.mk.injEq] at h
    obtain ⟨rfl, rfl⟩ := h
    exact ⟨w.parkedPc, { w.saveArea with cache := w.saveArea.cache.relocate cacheBegin },
      by simp [hs]⟩
  · simp only [hs, ne_eq, not_false_eq_true, if_true, true_and, except_bind_eq_ok] at h
    obtain ⟨w₁, h₁, h⟩ := h
    obtain ⟨pp, sa, rfl⟩ := refreshRunning_ok A h₁
    by_cases hr : u.report.state = .stop
    · simp only [hr, if_true] at h
      obtain ⟨hp, pp', sa', h⟩ := observeStop_ok A h
      refine ⟨pp', sa', ?_⟩
      rw [if_neg hs]
      refine ⟨fun _ ha => (hp ha).2, ?_⟩
      rw [h]
      simp [hr]
    · simp only [hr, if_false, except_pure, Except.ok.injEq] at h
      refine ⟨pp, sa, ?_⟩
      rw [if_neg hs, ← h]
      simp [hr]

/-- `update` as a whole: the state part, with the wave marked as having a context save record
and, on the first update, its id stored in a register. -/
theorem update_ok {u : UpdateEnv} (h : w.update A u sh = .ok (w', sh')) :
    ∃ pp sa, if w.state = .stop then
        w' = { w with hasCwsrRecord := true, parkedPc := pp, saveArea := sa } ∧ sh' = sh
      else (u.report.state = .stop → A.parkStoppedWaves = true → w.isParked = false) ∧
        let W : Wave := { w with
          hasCwsrRecord := true
          isPriv := u.isPriv
          parkedPc := pp
          saveArea := sa
          state := u.report.state
          stopReason := u.report.stopReason
          isParked := w.isParked || A.parkStoppedWaves && u.report.state == .stop }
        (w', sh') =
          if u.report.state = .stop ∧ w.visibility = .visible ∧ u.report.stopReason ≠ [] then
            raiseEvent .waveStop W sh else (W, sh) := by
  unfold update at h
  cases hc : A.registerAddress A.regs.firstHwreg
  · simp [hc] at h
  simp only [hc, except_bind_eq_ok] at h
  obtain ⟨⟨w₁, sh₁⟩, h₁, h⟩ := h
  have hf : ∃ pp sa, w' = { w₁ with parkedPc := pp, saveArea := sa } ∧ sh' = sh₁ := by
    cases hb : w.hasCwsrRecord <;> simp [hb, except_bind_eq_ok] at h
    · obtain ⟨y, hy, rfl, rfl⟩ := h
      obtain ⟨pp, sa, rfl⟩ := writeRegister64_frame A _ hy
      exact ⟨pp, sa, rfl, rfl⟩
    · obtain ⟨rfl, rfl⟩ := h
      exact ⟨_, _, rfl, rfl⟩
  obtain ⟨pp, sa, rfl, rfl⟩ := hf
  obtain ⟨pp₁, sa₁, h₁⟩ := updateState_ok A h₁
  refine ⟨pp, sa, ?_⟩
  by_cases hs : w.state = .stop
  · simp only [hs, if_true] at h₁ ⊢
    obtain ⟨rfl, rfl⟩ := h₁
    exact ⟨rfl, rfl⟩
  · simp only [hs, if_false] at h₁ ⊢
    obtain ⟨hp, h₁⟩ := h₁
    refine ⟨hp, ?_⟩
    split_ifs at h₁ ⊢ <;> simp only [raiseEvent, Prod.mk.injEq] at h₁ ⊢ <;>
      obtain ⟨rfl, rfl⟩ := h₁ <;> exact ⟨rfl, rfl⟩

/-! ## The entry points -/

/-- The update of a queue suspension leaves a stopped wave stopped, with the same control state;
only its registers and its record flag change. -/
theorem suspendQueue_stopped {suspend : Option UpdateEnv} (hs : w.state = .stop)
    (h : w.suspendQueue A suspend sh = .ok (w', sh')) :
    sh' = sh ∧ ∃ hc pp sa, w' = { w with hasCwsrRecord := hc, parkedPc := pp, saveArea := sa } := by
  cases suspend with
  | none =>
    simp only [suspendQueue, except_pure, Except.ok.injEq, Prod.mk.injEq] at h
    obtain ⟨rfl, rfl⟩ := h
    exact ⟨rfl, _, _, _, rfl⟩
  | some u =>
    obtain ⟨pp, sa, h⟩ := update_ok A h
    rw [if_pos hs] at h
    obtain ⟨rfl, rfl⟩ := h
    exact ⟨rfl, _, _, _, rfl⟩

/-- The update of a queue suspension keeps the wave's id, visibility and displaced stepping. -/
theorem suspendQueue_keeps {suspend : Option UpdateEnv}
    (h : w.suspendQueue A suspend sh = .ok (w', sh')) :
    w'.id = w.id ∧ w'.visibility = w.visibility ∧ w'.displacedStepping = w.displacedStepping := by
  cases suspend with
  | none =>
    simp only [suspendQueue, except_pure, Except.ok.injEq, Prod.mk.injEq] at h
    rw [← h.1]; exact ⟨rfl, rfl, rfl⟩
  | some u =>
    obtain ⟨pp, sa, h⟩ := update_ok A h
    split_ifs at h with hs hr
    · rw [h.1]; exact ⟨rfl, rfl, rfl⟩
    · obtain ⟨rfl, -⟩ := eq_raiseEvent_iff.1 h.2; exact ⟨rfl, rfl, rfl⟩
    · obtain ⟨rfl, -⟩ := Prod.mk.inj_iff.1 h.2; exact ⟨rfl, rfl, rfl⟩

/-- The client sees STOP only for a stopped wave. -/
theorem state_of_clientVisibleState (h : clientVisibleState w sh = .stop) : w.state = .stop := by
  by_contra hs
  simp [clientVisibleState, hs] at h



/-- `amd_dbgapi_wave_stop`: a wave the client already sees stopped, or with a stop outstanding,
is refused and left alone; otherwise its queue is suspended and it is asked to stop. -/
theorem waveStop_ok {suspend : Option UpdateEnv} {st : Status} :
    w.waveStop A suspend env sh = .ok (st, w', sh') ↔
      (clientVisibleState w sh = .stop ∧ st = .errorWaveStopped ∧ w' = w ∧ sh' = sh) ∨
      (clientVisibleState w sh ≠ .stop ∧ w.stopRequested = true ∧
        st = .errorWaveOutstandingStop ∧ w' = w ∧ sh' = sh) ∨
      (clientVisibleState w sh ≠ .stop ∧ w.stopRequested = false ∧ st = .success ∧
        ∃ w₁ sh₁, w.suspendQueue A suspend sh = .ok (w₁, sh₁) ∧
          w₁.setState A env .stop 0 sh₁ = .ok (w', sh')) := by
  unfold waveStop
  by_cases hc : clientVisibleState w sh = .stop
  · simp [hc, @eq_comm _ st, @eq_comm _ w', @eq_comm _ sh']
  · cases hr : w.stopRequested <;>
      simp [hc, hr, except_bind_eq_ok, @eq_comm _ st, @eq_comm _ w', @eq_comm _ sh']
    exact ⟨fun ⟨a, b, h₁, h₂, h₃⟩ => ⟨h₃, a, b, h₁, h₂⟩,
      fun ⟨h₃, a, b, h₁, h₂⟩ => ⟨a, b, h₁, h₂, h₃⟩⟩

/-- The guards of `amd_dbgapi_wave_resume` all pass exactly when the exceptions are valid, the
client sees the wave stopped, its last stop event is processed, and a displaced-stepping wave
is resumed in single-step mode. -/
theorem resumeGuard_eq_none {mode : ResumeMode} {e : BitVec 64} :
    resumeGuard mode e w sh = none ↔
      e &&& ~~~validWaveExceptions = 0 ∧ clientVisibleState w sh = .stop ∧
      (∀ ev, lastStopEvent w sh = some ev → ev.state = .processed) ∧
      (w.displacedStepping.isSome → mode = .singleStep) := by
  unfold resumeGuard
  cases hl : lastStopEvent w sh <;> split_ifs <;> simp_all

/-- `amd_dbgapi_wave_resume`: a failed guard leaves the wave alone; otherwise its queue is
suspended and it is resumed in the requested mode. -/
theorem waveResume_ok {suspend : Option UpdateEnv} {mode : ResumeMode} {e : BitVec 64}
    {st : Status} :
    w.waveResume A suspend env mode e sh = .ok (st, w', sh') ↔
      (∃ s, resumeGuard mode e w sh = some s ∧ st = s ∧ w' = w ∧ sh' = sh) ∨
      (resumeGuard mode e w sh = none ∧ st = .success ∧
        ∃ w₁ sh₁, w.suspendQueue A suspend sh = .ok (w₁, sh₁) ∧
          w₁.setState A env (if mode = .singleStep then .singleStep else .run) e sh₁ =
            .ok (w', sh')) := by
  unfold waveResume
  cases hg : resumeGuard mode e w sh <;>
    simp [hg, except_bind_eq_ok, @eq_comm _ st, @eq_comm _ w', @eq_comm _ sh']
  exact ⟨fun ⟨a, b, h₁, h₂, h₃⟩ => ⟨h₃, a, b, h₁, h₂⟩, fun ⟨h₃, a, b, h₁, h₂⟩ => ⟨a, b, h₁, h₂, h₃⟩⟩

/-! ## Displaced stepping -/

/-- Using a buffer moves the pc to its scratch copy, unless the instruction is simulated, and
records the buffer as the wave's displaced stepping. -/
theorem useBuffer_ok {ds : DisplacedStepping} :
    useBuffer A ds w = .ok w' ↔ (ds.isSimulated = false → ds.toPc ≠ 0) ∧
      w' = { (if ds.isSimulated then w else w.withPc A ds.toPc) with
        displacedStepping := some ds } := by
  unfold useBuffer
  cases hs : ds.isSimulated <;>
    simp [hs, writeRegister64_pc, except_bind_eq_ok, bne, Bool.beq_eq_decide_eq, @eq_comm _ w']

/-- A new buffer is created, with one reference, only after the original instruction was read and
found to be displaceable or simulated; it is keyed by the wave's queue and pc. -/
theorem createBuffer_ok {denv : DisplacedSteppingEnv} {saved : Instruction} {pc : BitVec 64}
    {r : DisplacedStepping × Shared} :
    createBuffer A denv saved w sh pc = .ok r ↔
      denv.readStatus = .success ∧ (denv.canExecuteDisplaced = true ∨ denv.canSimulate = true) ∧
      (denv.canSimulate = false → denv.writeOk = true) ∧
      let ds : DisplacedStepping := ⟨sh.nextBufferId, w.queue, pc,
        if denv.canSimulate then 0 else denv.instructionBuffer,
        originalInstruction A saved denv.readBytes, denv.canSimulate⟩
      r = (ds,
        { sh with buffers := sh.buffers ++ [(ds, 1)], nextBufferId := sh.nextBufferId + 1 }) := by
  unfold createBuffer
  by_cases hr : denv.readStatus = .success
  · cases hc : denv.canSimulate <;> cases he : denv.canExecuteDisplaced <;>
      cases hw : denv.writeOk <;> simp [hr, hc, he, hw, bne, @eq_comm _ r]
  · simp [hr, bne]

/-- `useBuffer` fails only on its assertion that the scratch copy has an address. -/
theorem useBuffer_error {ds : DisplacedStepping} {f : Fault} (h : useBuffer A ds w = .error f) :
    f = .assertion "displaced_pc != 0" := by
  unfold useBuffer at h
  cases hsim : ds.isSimulated <;> cases h0 : ds.toPc != 0#64 <;>
    simp [hsim, h0, writeRegister64_pc, pure, Except.pure] at h
  exact h.symm

/-- The stateful start, as a call that returns the new wave and process state: the state a
failure leaves behind is dropped. -/
theorem displacedSteppingStart_eq (denv : DisplacedSteppingEnv) (saved : Instruction) :
    w.displacedSteppingStart A denv saved sh = (do
      check w.displacedStepping.isNone "already displaced stepping"
      check (w.state == .stop) "not stopped"
      match w.findBuffer sh (w.pcValue A) with
      | some (ds, _) =>
        (useBuffer A ds w).map fun w => (w, { sh with buffers := retain ds.id sh.buffers })
      | none => do
        let (ds, sh) ← createBuffer A denv saved w sh (w.pcValue A)
        (useBuffer A ds w).map fun w => (w, sh)) := by
  unfold displacedSteppingStart displacedSteppingStartM
  delta EStateM.run
  cases hd : w.displacedStepping.isNone <;> cases hs : w.state == .stop <;>
    cases hf : w.findBuffer sh (w.pcValue A) <;>
    simp only [bind, EStateM.bind, get, getThe, MonadStateOf.get, EStateM.get,
      set, EStateM.set, pure, EStateM.pure, pc_eq, hd, hs, hf, check_true, check_false,
      liftExcept_ok, liftExcept_error, Except.bind]
  · cases createBuffer A denv saved w sh (w.pcValue A) with
    | error e => rfl
    | ok r => simp only [liftExcept_ok]; cases useBuffer A r.1 w <;> rfl
  · cases useBuffer A _ w <;> rfl

/-- A start that throws an exception (the original instruction could not be read, or can be
neither displaced nor simulated) throws it before it changes the wave or the buffers: the
reference is taken only past every check that throws. -/
theorem displacedSteppingStartM_exception {denv : DisplacedSteppingEnv} {saved : Instruction}
    {st : Status} {s : Wave × Shared}
    (h : (displacedSteppingStartM A denv saved).run (w, sh) = .error (.exception st) s) :
    s = (w, sh) := by
  unfold displacedSteppingStartM at h
  delta EStateM.run at h
  cases hd : w.displacedStepping.isNone <;> cases hs : w.state == .stop <;>
    cases hf : w.findBuffer sh (w.pcValue A) <;>
    simp only [bind, EStateM.bind, get, getThe, MonadStateOf.get, EStateM.get,
      set, EStateM.set, pure, EStateM.pure, pc_eq, hd, hs, hf, check_true, check_false,
      liftExcept_ok, liftExcept_error, EStateM.Result.error.injEq, reduceCtorEq, false_and] at h
  · cases hc : createBuffer A denv saved w sh (w.pcValue A) with
    | error e => simp only [hc, liftExcept_error, EStateM.Result.error.injEq] at h; exact h.2.symm
    | ok r =>
      cases hu : useBuffer A r.1 w <;>
        simp only [hc, hu, liftExcept_ok, liftExcept_error, EStateM.Result.error.injEq,
          reduceCtorEq] at h
      cases (useBuffer_error A hu).symm.trans h.1
  · rename_i b
    cases hu : useBuffer A b.1 w <;>
      simp only [hu, liftExcept_ok, liftExcept_error, EStateM.Result.error.injEq, reduceCtorEq] at h
    cases (useBuffer_error A hu).symm.trans h.1

/-- `displaced_stepping_start` on a stopped wave without one: the buffer of the wave's queue and
pc is shared if there is one, and created otherwise. -/
theorem displacedSteppingStart_ok {denv : DisplacedSteppingEnv} {saved : Instruction}
    (h : w.displacedSteppingStart A denv saved sh = .ok (w', sh')) :
    w.displacedStepping = none ∧ w.state = .stop ∧ ∃ ds, useBuffer A ds w = .ok w' ∧
      ((∃ n, w.findBuffer sh (w.pcValue A) = some (ds, n) ∧
          sh' = { sh with buffers := retain ds.id sh.buffers }) ∨
        (w.findBuffer sh (w.pcValue A) = none ∧
          createBuffer A denv saved w sh (w.pcValue A) = .ok (ds, sh'))) := by
  rw [displacedSteppingStart_eq] at h
  simp only [except_bind_eq_ok, check_eq_ok, Option.isNone_iff_eq_none, beq_iff_eq] at h
  obtain ⟨-, hd, -, hs, h⟩ := h
  refine ⟨hd, hs, ?_⟩
  split at h
  · rename_i ds n hf
    obtain ⟨w₁, h₁, h⟩ := except_map_eq_ok.1 h
    cases h
    exact ⟨ds, h₁, .inl ⟨n, hf, rfl⟩⟩
  · rename_i hf
    obtain ⟨⟨ds, sh₁⟩, h₁, h⟩ := except_bind_eq_ok.1 h
    obtain ⟨w₁, h₂, h⟩ := except_map_eq_ok.1 h
    cases h
    exact ⟨ds, h₂, .inr ⟨hf, h₁⟩⟩

/-- `displaced_stepping_complete` on a stopped, displaced-stepping wave: the pc moves back by
`from - to` (unless the instruction was simulated) and the buffer reference is released. -/
theorem displacedSteppingComplete_ok (h : w.displacedSteppingComplete A sh = .ok (w', sh')) :
    w.state = .stop ∧ ∃ ds, w.displacedStepping = some ds ∧
      sh' = { sh with buffers := release ds.id sh.buffers } ∧
      w' = { (if ds.isSimulated then w else w.withPc A (w.pcValue A + ds.fromPc - ds.toPc)) with
        displacedStepping := none } := by
  unfold displacedSteppingComplete at h
  cases hd : w.displacedStepping with
  | none => simp [hd] at h
  | some ds =>
    cases hs : ds.isSimulated <;>
      simp [hd, hs, except_bind_eq_ok, pc_eq, writeRegister64_pc] at h <;>
      obtain ⟨hst, rfl, rfl⟩ := h <;> exact ⟨hst, ds, rfl, rfl, by simp [hs]⟩

/-! ## Exceptions

The resume guard lets through only exception bits among the six wave exceptions, so the loop of
`set_state` only ever meets one of them as the lowest set bit, and each maps to an OS mask
with a queue-exception bit: the assertion after the loop holds. -/

theorem or_and_ne_zero_left {a b q : BitVec 64} (h : a &&& q ≠ 0) : (a ||| b) &&& q ≠ 0 := by
  intro h'
  apply h
  ext i
  have := congrArg (fun x => x.getLsbD i) h'
  simp only [BitVec.getLsbD_and, BitVec.getLsbD_or, BitVec.getLsbD_zero] at this ⊢
  revert this; cases a.getLsbD i <;> simp

theorem or_and_ne_zero_right {a b q : BitVec 64} (h : b &&& q ≠ 0) : (a ||| b) &&& q ≠ 0 := by
  rw [BitVec.or_comm]; exact or_and_ne_zero_left h

/-- Clearing bits keeps an exception set valid. -/
theorem and_valid {x y : BitVec 64} (h : x &&& ~~~validWaveExceptions = 0) :
    x &&& y &&& ~~~validWaveExceptions = 0 := by
  ext i
  have := congrArg (fun x => x.getLsbD i) h
  simp only [BitVec.getLsbD_and, BitVec.getLsbD_not, BitVec.getLsbD_zero] at this ⊢
  revert this; cases x.getLsbD i <;> cases validWaveExceptions.getLsbD i <;> simp

/-- The lowest set bit of a non-empty valid exception set is one of the six wave exceptions. -/
theorem lowestBit_mem {x : BitVec 64} (h0 : x ≠ 0) (h : x &&& ~~~validWaveExceptions = 0) :
    x ^^^ (x &&& (x - 1)) ∈ [exceptionWaveAbort, exceptionWaveTrap, exceptionWaveMathError,
      exceptionWaveIllegalInstruction, exceptionWaveMemoryViolation,
      exceptionWaveApertureViolation] := by
  have hx : x = x &&& validWaveExceptions := by
    ext i
    have := congrArg (fun x => x.getLsbD i) h
    simp only [BitVec.getLsbD_and, BitVec.getLsbD_not, BitVec.getLsbD_zero] at this ⊢
    revert this; cases x.getLsbD i <;> simp
  have hlt : x.toNat < 64 := by
    have hv : validWaveExceptions.toNat = 63 := by decide
    rw [hx, BitVec.toNat_and, hv]
    exact Nat.lt_of_le_of_lt Nat.and_le_right (by decide)
  have hne : x.toNat ≠ 0 := fun h' => h0 (BitVec.eq_of_toNat_eq (by simpa using h'))
  have table : ∀ n < 64, n ≠ 0 →
      BitVec.ofNat 64 n ^^^ (BitVec.ofNat 64 n &&& (BitVec.ofNat 64 n - 1)) ∈
        [exceptionWaveAbort, exceptionWaveTrap, exceptionWaveMathError,
          exceptionWaveIllegalInstruction, exceptionWaveMemoryViolation,
          exceptionWaveApertureViolation] := by decide
  simpa using table x.toNat hlt hne

/-- Each wave exception maps to an OS mask with a queue-exception bit. -/
theorem convertOneException_ok (M : OsExceptionMasks) (agentExceptions : BitVec 64)
    {one : BitVec 64} (h : one ∈ [exceptionWaveAbort, exceptionWaveTrap, exceptionWaveMathError,
      exceptionWaveIllegalInstruction, exceptionWaveMemoryViolation,
      exceptionWaveApertureViolation]) :
    ∃ m, convertOneException M agentExceptions one = .ok m ∧ m &&& M.queueMask ≠ 0 := by
  simp only [List.mem_cons, List.mem_singleton, List.not_mem_nil, or_false] at h
  unfold convertOneException
  rcases h with rfl | rfl | rfl | rfl | rfl | rfl <;>
    simp [exceptionWaveAbort, exceptionWaveTrap, exceptionWaveMathError,
      exceptionWaveIllegalInstruction, exceptionWaveMemoryViolation,
      exceptionWaveApertureViolation] <;>
    first
      | exact M.abort_queue | exact M.trap_queue | exact M.mathError_queue
      | exact M.illegalInstruction_queue | exact or_and_ne_zero_left M.memoryViolation_queue
      | exact M.apertureViolation_queue

/-- The conversion loop succeeds on a valid exception set, and the mask it returns has a
queue-exception bit once it has met one exception or started from one. -/
theorem convertExceptions_ok (M : OsExceptionMasks) (agentExceptions : BitVec 64)
    (x os : BitVec 64) (h : x &&& ~~~validWaveExceptions = 0) :
    ∃ os', convertExceptions (convertOneException M agentExceptions) x os = .ok os' ∧
      (os &&& M.queueMask ≠ 0 ∨ x ≠ 0 → os' &&& M.queueMask ≠ 0) := by
  induction x, os using convertExceptions.induct (convertOneException M agentExceptions) with
  | case1 os => exact ⟨os, by rw [convertExceptions]; simp, by simp⟩
  | case2 x os h0 _ e he =>
    obtain ⟨m, hm, -⟩ := convertOneException_ok M agentExceptions (lowestBit_mem h0 h)
    simp [hm] at he
  | case3 x os h0 _ m hm ih =>
    obtain ⟨os', h₁, h₂⟩ := ih (by rw [xor_lowestBit]; exact and_valid h)
    refine ⟨os', ?_, fun _ => h₂ (.inl ?_)⟩
    · rw [convertExceptions, dif_neg h0]
      simp only [hm]
      exact h₁
    · obtain ⟨m', hm', hq⟩ := convertOneException_ok M agentExceptions (lowestBit_mem h0 h)
      rw [hm] at hm'
      cases hm'
      exact or_and_ne_zero_right hq

/-- Sending a valid exception set never fails an assertion. -/
theorem sendExceptions_isOk {e : BitVec 64} (h : e &&& ~~~validWaveExceptions = 0) :
    ∃ sh', sendExceptions A e w sh = .ok sh' := by
  unfold sendExceptions
  by_cases h0 : e = 0#64
  · exact ⟨sh, by simp [h0]⟩
  · obtain ⟨os, hos, hq⟩ := convertExceptions_ok A.masks (sh.agentExceptions w.agent) e 0#64 h
    have hq' : ¬os &&& A.masks.queueMask = 0#64 := hq (.inr h0)
    exact ⟨{ sh with driverLog := sh.driverLog ++ [.sendExceptions os w.queue] },
      by simp [h0, hos, hq', bne, Bool.beq_eq_decide_eq]⟩

end Wave

end Dbgapi
