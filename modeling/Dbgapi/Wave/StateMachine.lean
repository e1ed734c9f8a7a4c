import Dbgapi.Wave.DisplacedStepping

set_option autoImplicit false

/-! # The wave state machine

`wave_t::raise_event`, `park`, `unpark`, `set_visibility`, `terminate`, `set_state`, `update`
and `client_visible_state`. Each operation takes the wave and the shared process state and
returns them updated, or the `Fault` the C++ code ends with.

What the hardware and the architecture answer during a call is an input: `SetStateEnv` for
`set_state` (the instruction at pc, whether it is simulated and what `wave_get_state` reports
afterwards, the other waves of the process) and `UpdateEnv` for `update` (the new context save
record and what `wave_get_state` reports). `architecture.wave_set_state` and
`process.send_exceptions` act on the hardware; the model records them in `Shared.driverLog`.

`terminate` and `set_state` call each other, as in the source: `set_state (SINGLE_STEP)` may
terminate the wave, and `terminate` resumes it with `set_state (RUN)`, which cannot terminate
again. The recursion is well founded on that.
-/

namespace Dbgapi

/-- What the collaborators of `set_state` answer: the instruction `instruction_at_pc` reads,
`wave_get_halt`, `can_simulate` for that instruction, what `simulate` returns, the pc the
simulated instruction leaves, what `wave_get_state` reports after a simulation, and the other
waves of the process, which the device memory violation check looks at. -/
structure SetStateEnv where
  instruction : Option Instruction
  halted : Bool
  canSimulate : Bool
  simulate : Bool
  simulatedPc : BitVec 64
  simulatedReport : StateReport
  others : List Wave

/-- What `update` receives and what the hardware answers: the contents and privilege bit of the
new context save record, what `wave_get_state` reports, and whether the process flag
`ttmps_setup_enabled` is set. The record of a wave that was stopped holds what the previous one
held. -/
structure UpdateEnv where
  memory : Nat → BitVec 8
  isPriv : Bool
  report : StateReport
  ttmpsSetupEnabled : Bool

/-! ## Exceptions -/

/-- `convert_one_exception`: the OS exception mask of one client exception bit. -/
def convertOneException (M : OsExceptionMasks) (agentExceptions one : BitVec 64) :
    Except Fault (BitVec 64) :=
  if one = exceptionWaveAbort then pure M.queueWaveAbort
  else if one = exceptionWaveTrap then pure M.queueWaveTrap
  else if one = exceptionWaveMathError then pure M.queueWaveMathError
  else if one = exceptionWaveIllegalInstruction then pure M.queueWaveIllegalInstruction
  else if one = exceptionWaveMemoryViolation then
    pure (M.queueWaveMemoryViolation ||| (agentExceptions &&& M.deviceMemoryViolation))
  else if one = exceptionWaveApertureViolation then pure M.queueWaveApertureViolation
  else throw (.assertion "not a valid exception")

theorem xor_lowestBit (x : BitVec 64) : x ^^^ (x ^^^ (x &&& (x - 1))) = x &&& (x - 1) := by
  rw [← BitVec.xor_assoc, BitVec.xor_self, BitVec.zero_xor]

theorem and_sub_one_lt {x : BitVec 64} (h : x ≠ 0) : (x &&& (x - 1)).toNat < x.toNat := by
  have hx : 0 < x.toNat := by
    rcases Nat.eq_zero_or_pos x.toNat with h0 | h0
    · exact absurd (BitVec.eq_of_toNat_eq (by simpa using h0)) h
    · exact h0
  have hs : (x - 1).toNat = x.toNat - 1 := by
    rw [BitVec.toNat_sub_of_le (by simp [BitVec.le_def]; omega)]
    simp
  rw [BitVec.toNat_and, hs]
  exact Nat.lt_of_le_of_lt Nat.and_le_right (by omega)

/-- The loop of `set_state` that converts an exception bitset into an OS mask: take the lowest
set bit `one = x ^ (x & (x - 1))`, or its mask into `os`, clear it, until none is left. -/
def convertExceptions (convert : BitVec 64 → Except Fault (BitVec 64)) (x os : BitVec 64) :
    Except Fault (BitVec 64) :=
  if h : x = 0 then pure os
  else
    let one := x ^^^ (x &&& (x - 1))
    match convert one with
    | .error e => .error e
    | .ok m => convertExceptions convert (x ^^^ one) (os ||| m)
termination_by x.toNat
decreasing_by simp only [one, xor_lowestBit]; exact and_sub_one_lt h

/-! ## Events, parking, visibility -/

/-- `raise_event (kind)`: a pending event of the wave is enqueued and recorded as its last stop
event. -/
def raiseEvent (kind : EventKind) (w : Wave) (sh : Shared) : Wave × Shared :=
  ({ w with lastStopEventId := some sh.events.length },
    { sh with events := sh.events ++ [⟨kind, w.id, .pending⟩] })

@[simp] theorem eq_raiseEvent_iff {kind : EventKind} {w w' : Wave} {sh sh' : Shared} :
    (w', sh') = raiseEvent kind w sh ↔ w' = { w with lastStopEventId := some sh.events.length } ∧
      sh' = { sh with events := sh.events ++ [⟨kind, w.id, .pending⟩] } :=
  ⟨fun h => by cases h; exact ⟨rfl, rfl⟩, fun ⟨h₁, h₂⟩ => by rw [h₁, h₂]; rfl⟩

/-- `wave_t::last_stop_event ()`: the event `m_last_stop_event_id` names. Its assertion that the
wave is stopped holds at both callers, which test the state first. -/
def lastStopEvent (w : Wave) (sh : Shared) : Option Event :=
  w.lastStopEventId.bind fun i => sh.events[i]?

/-- `wave_t::client_visible_state ()`: a stopped wave whose stop event the client has not seen
yet is reported in the state it was last resumed in, read off the `SINGLE_STEP` stop reason. -/
def clientVisibleState (w : Wave) (sh : Shared) : WaveState :=
  if w.state ≠ .stop then w.state
  else
    match lastStopEvent w sh with
    | none => .stop
    | some e =>
      if e.state ≥ .reported then .stop
      else if StopReasonBit.singleStep ∈ w.stopReason then .singleStep else .run

namespace Wave

variable (A : Arch)

/-- `wave_t::park ()`: save the pc and point the context save area at the park instruction;
from then on the pc is read and written in `m_parked_pc`. -/
def park (w : Wave) : Except Fault Wave := do
  check (w.state == .stop) "Cannot park a running wave"
  check (!w.isParked) "already parked"
  let parkedPc ← w.pc A
  let w ← { w with parkedPc }.writeRegister64 A A.regs.pc w.callbacks.parkInstructionAddress
  pure { w with isParked := true }

/-- `wave_t::unpark ()`: write the parked pc back to the context save area. -/
def unpark (w : Wave) : Except Fault Wave := do
  check (w.state != .stop) "Cannot unpark a stopped wave"
  check w.isParked "not parked"
  let savedPc ← w.pc A
  { w with isParked := false }.writeRegister64 A A.regs.pc savedPc

/-- `wave_t::set_visibility (visibility)`. A wave halted at launch must be running and halted;
it is unhalted. -/
def setVisibility (halted : Bool) (visibility : Visibility) (w : Wave) : Except Fault Wave := do
  if w.visibility == visibility then return w
  if w.visibility == .hiddenHaltedAtLaunch then
    check (w.state == .run && halted) "state () == AMD_DBGAPI_WAVE_STATE_RUN"
  pure { w with visibility }

/-- Whether the instruction a single step would execute terminates the wave: the displaced
original instruction of the wave's displaced stepping `ds`, or else the instruction at pc. -/
def terminatingNext (ds : Option DisplacedStepping) (instruction : Option Instruction) : Bool :=
  match ds with
  | some ds => A.isTerminatingInstruction ds.originalInstruction
  | none => instruction.any A.isTerminatingInstruction

/-- Whether `set_state (SINGLE_STEP)` simulates the instruction: the displaced instruction if it
is marked simulated, or else the instruction at pc if it can be simulated, and `simulate`
returns true. -/
def simulates (env : SetStateEnv) (ds : Option DisplacedStepping)
    (instruction : Option Instruction) :
    Bool :=
  match ds with
  | some ds => ds.isSimulated && env.simulate
  | none => instruction.isSome && env.canSimulate && env.simulate

/-- The rank that makes the `terminate`/`set_state` recursion well founded. -/
def setStateRank : WaveState → Nat
  | .singleStep => 2
  | _ => 0

/-- The device memory violation check at the end of `set_state`: when the agent's bit is set
and the wave leaves STOP, clear it unless some wave of the agent is stopped with a memory
violation. -/
def clearDeviceMemoryViolation (state : WaveState) (others : List Wave) (w : Wave)
    (sh : Shared) : Shared :=
  if sh.agentExceptions w.agent &&& A.masks.deviceMemoryViolation ≠ 0 ∧ state ≠ .stop then
    if (w :: others).any fun v =>
        v.agent == w.agent && v.state == .stop && v.stopReason.contains .memoryViolation then sh
    else
      { sh with
        agentExceptions := Function.update sh.agentExceptions w.agent
          (sh.agentExceptions w.agent &&& ~~~A.masks.deviceMemoryViolation) }
  else sh

/-- The exception part of `set_state`: convert the bits and send them to the driver. -/
def sendExceptions (exceptions : BitVec 64) (w : Wave) (sh : Shared) : Except Fault Shared := do
  if exceptions = 0 then return sh
  let os ← convertExceptions (convertOneException A.masks (sh.agentExceptions w.agent)) exceptions 0
  check (os &&& A.masks.queueMask != 0) "(os_exceptions & os_queue_exception_mask) != 0"
  pure { sh with driverLog := sh.driverLog ++ [.sendExceptions os w.queue] }

/-- What `set_state` does after `m_state` is set when the wave leaves STOP: save the pc as
`m_last_stopped_pc` and clear the stop reason. -/
def leaveStop (prevState : WaveState) (w : Wave) : Except Fault Wave := do
  check (prevState == .stop) "cannot resume an already running wave"
  let lastStoppedPc ← w.pc A
  pure { w with lastStoppedPc, stopReason := [] }

/-- What `set_state` does after `m_state` is set when a running wave is asked to stop: clear
the stop reason and acknowledge the stop with an event. -/
def enterStop (prevState : WaveState) (w : Wave) (sh : Shared) : Except Fault (Wave × Shared) := do
  let w := { w with stopReason := [] }
  check (w.visibility == .visible) "cannot request a hidden wave to stop"
  pure (raiseEvent (if prevState == .singleStep then .waveCommandTerminated else .waveStop) w sh)

/-- The simulation at the end of `set_state (SINGLE_STEP)`: the instruction's effect on the pc,
the state `wave_get_state` then reports, parking, and a stop event. -/
def simulateStep (env : SetStateEnv) (w : Wave) (sh : Shared) : Except Fault (Wave × Shared) := do
  let w ← w.writeRegister64 A A.regs.pc env.simulatedPc
  let w :=
    { w with state := env.simulatedReport.state, stopReason := env.simulatedReport.stopReason }
  let w ← if A.parkStoppedWaves then park A w else pure w
  pure (raiseEvent .waveStop w sh)

/-- The transition proper of `set_state`, once the hardware has been told: record the new state,
park or unpark the wave, then leave STOP or enter it. -/
def changeState (prevState state : WaveState) (w : Wave) (sh : Shared) :
    Except Fault (Wave × Shared) := do
  let w := { w with state }
  let w ← if A.parkStoppedWaves then (if state = .stop then park A w else unpark A w) else pure w
  if state ≠ .stop then pure (← leaveStop A prevState w, sh)
  else if prevState ≠ .stop then enterStop prevState w sh
  else pure (w, sh)

mutual

/-- `wave_t::terminate ()`: release the displaced stepping, point the pc at the terminating
instruction, hide the wave and resume it. -/
def terminate (env : SetStateEnv) (w : Wave) (sh : Shared) : Except Fault (Wave × Shared) := do
  let sh := releaseBuffer w.displacedStepping sh
  let w ← { w with displacedStepping := none }.writeRegister64 A A.regs.pc
    w.callbacks.terminatingInstructionAddress
  let w ← setVisibility env.halted .hiddenAtTerminatingInstruction w
  setState env .run 0 w sh
termination_by 1
decreasing_by simp [setStateRank]

/-- `wave_t::set_state (state, exceptions)`. -/
def setState (env : SetStateEnv) (state : WaveState) (exceptions : BitVec 64) (w : Wave)
    (sh : Shared) : Except Fault (Wave × Shared) := do
  check (exceptions == 0 || state != .stop) "raising an exception requires the wave to be resumed"
  let prevState := w.state
  if state = prevState then return (w, sh)
  check (w.displacedStepping.isNone || state != .run)
    "displaced-stepping waves can only be stopped or single-stepped"
  let w := { w with stopRequested := state == .stop }
  let instruction := if state = .singleStep then env.instruction else none
  if h : state = .singleStep ∧ exceptions = 0 ∧
      terminatingNext A w.displacedStepping instruction = true then
    let (w, sh) ← terminate env w sh
    return raiseEvent .waveCommandTerminated w sh
  let sh := { sh with driverLog := sh.driverLog ++ [.waveSetState w.id state exceptions] }
  let (w, sh) ← changeState A prevState state w sh
  let (w, sh) ← if state = .singleStep ∧ exceptions = 0 ∧
      simulates env w.displacedStepping instruction = true then
      simulateStep A env w sh
    else pure (w, sh)
  let sh ← sendExceptions A exceptions w sh
  pure (w, clearDeviceMemoryViolation A state env.others w sh)
termination_by setStateRank state
decreasing_by simp [h.1, setStateRank]

end

/-! ## `update` -/

/-- Zero every trap temporary, four bytes each, through `write_register`. -/
def zeroTtmps (w : Wave) : Except Fault Wave :=
  (List.range' A.regs.firstTtmp (A.regs.lastTtmp + 1 - A.regs.firstTtmp)).foldlM
    (fun w r => w.writeRegister A r 0 4 fun _ => 0) w

/-- The refresh of a wave that was running: reset the cache over the new record, zero the trap
temporaries of a new wave whose hardware does not set them up, and read the new state. -/
def refreshRunning (env : UpdateEnv) (firstUpdate : Bool) (cacheBegin : BitVec 64) (w : Wave) :
    Except Fault Wave := do
  let some last := A.registerAddress A.regs.lastTtmp
    | throw (.assertion "last_cached_register_address")
  let cacheEnd := last + A.registerSize A.regs.lastTtmp
  check (decide (cacheBegin < cacheEnd)) "register_cache_end > *register_cache_begin"
  let w := { w with
    saveArea := ⟨RegisterCache.reset env.memory cacheBegin (cacheEnd - cacheBegin), env.memory⟩
    isPriv := env.isPriv }
  let w ← if !env.ttmpsSetupEnabled && firstUpdate then zeroTtmps A w else pure w
  pure { w with state := env.report.state, stopReason := env.report.stopReason }

/-- What `update` does when it finds that a running wave has stopped: park it (on an
architecture that parks) and, if it is visible and has a stop reason, raise a stop event. -/
def observeStop (w : Wave) (sh : Shared) : Except Fault (Wave × Shared) := do
  let w ← if A.parkStoppedWaves then park A w else pure w
  if w.visibility = .visible ∧ w.stopReason ≠ [] then pure (raiseEvent .waveStop w sh)
  else pure (w, sh)

/-- The state part of `update`: refresh a wave that was running, or relocate the register cache
of a stopped one, then observe a stop. -/
def updateState (env : UpdateEnv) (firstUpdate : Bool) (cacheBegin : BitVec 64) (w : Wave)
    (sh : Shared) : Except Fault (Wave × Shared) := do
  let prevState := w.state
  let w ← if prevState ≠ .stop then refreshRunning A env firstUpdate cacheBegin w
    else
      pure { w with saveArea := { w.saveArea with cache := w.saveArea.cache.relocate cacheBegin } }
  if prevState ≠ .stop ∧ w.state = .stop then observeStop A w sh else pure (w, sh)

/-- `wave_t::update (group_leader, cwsr_record)`, run for every wave of a queue when the queue
is suspended. On its first update a wave stores its id in the `wave_id` register. -/
def update (env : UpdateEnv) (w : Wave) (sh : Shared) : Except Fault (Wave × Shared) := do
  let firstUpdate := !w.hasCwsrRecord
  let some cacheBegin := A.registerAddress A.regs.firstHwreg
    | throw (.assertion "register_cache_begin")
  let (w, sh) ← updateState A env firstUpdate cacheBegin { w with hasCwsrRecord := true } sh
  let w ← if firstUpdate then w.writeRegister64 A A.regs.waveId (BitVec.ofNat 64 w.id) else pure w
  pure (w, sh)

end Wave

end Dbgapi
