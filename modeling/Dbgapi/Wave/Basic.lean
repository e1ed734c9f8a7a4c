import Dbgapi.Basic.Bytes

set_option autoImplicit false

/-! # The wave, its register cache and the process state it shares

A `wave_t` holds its state-machine fields, its parked pc and a write-back cache over a window
of its context save area. Everything a wave operation touches outside the wave lives in
`Shared`: the process event queue, the live displaced-stepping buffers with their reference
counts, the agents' exception masks, and the requests made to the driver.

The architecture is a capability table (`Arch`): the register layout of `amdgpu_regnum_t`, the
predicates on instructions, parking. Its fields carry the layout facts the code relies on for
the `pc` register. Register addresses are offsets in the context save area: when the record of
a stopped wave moves, `relocate` moves the cache window with it and contents are kept.
-/

namespace Dbgapi

/-- An `amdgpu_regnum_t`. -/
abbrev Regnum := Nat

/-- The register cache `memory_cache_t`, a write-back cache over the window
`[base, base + size)`. Modelled from the spec: the cache class is declared outside the
source; its contract is `contains`, `read`, `write` (which sets `dirty`), `reset` and
`relocate`. The cached bytes are kept by address. -/
structure RegisterCache where
  base : BitVec 64
  size : BitVec 64
  data : Nat → BitVec 8
  dirty : Bool

namespace RegisterCache

/-- `contains (addr, len)`: the window encloses `[addr, addr + len)`. -/
def contains (c : RegisterCache) (addr len : BitVec 64) : Bool :=
  decide (c.base.toNat ≤ addr.toNat) &&
    decide (addr.toNat + len.toNat ≤ c.base.toNat + c.size.toNat)

/-- `read (addr, dst + offset, len)`: the `len` bytes of `dst` from `offset` on receive the
cached bytes from `addr` on. -/
def read (c : RegisterCache) (addr : BitVec 64) (dst : Nat → BitVec 8) (offset len : Nat) :
    Nat → BitVec 8 :=
  memcpyAt dst (shiftBytes c.data addr.toNat offset) offset len

/-- `write (addr, src + offset, len)`: the cached bytes from `addr` on receive the `len` bytes
of `src` from `offset` on, and the cache becomes dirty. -/
def write (c : RegisterCache) (addr : BitVec 64) (src : Nat → BitVec 8) (offset len : Nat) :
    RegisterCache :=
  { c with
    data := memcpyAt c.data (shiftBytes src offset addr.toNat) addr.toNat len
    dirty := true }

/-- `reset (base, size)`: adopt a new window and drop the contents; they are fetched again
from `memory`. -/
def reset (memory : Nat → BitVec 8) (base size : BitVec 64) : RegisterCache :=
  { base, size, data := memory, dirty := false }

/-- `relocate (base)`: move the window without dropping the contents. -/
def relocate (c : RegisterCache) (base : BitVec 64) : RegisterCache := { c with base }

end RegisterCache

/-- The context save area as a wave reads and writes it: the register cache and the global
memory that holds the record. -/
structure SaveArea where
  cache : RegisterCache
  memory : Nat → BitVec 8

/-- The callbacks a wave is constructed with (`wave_t::callbacks_t`) that return fixed
addresses: the immutable trap instruction a parked wave points at, the terminating
instruction of `terminate`, and the scratch region `(base, size)` of the wave. -/
structure Callbacks where
  parkInstructionAddress : BitVec 64
  terminatingInstructionAddress : BitVec 64
  scratchMemoryRegion : BitVec 64 × BitVec 64

/-- A `wave_t`. `hasCwsrRecord` is whether `m_cwsr_record` is set and `isPriv` the privilege
bit of the current record. -/
structure Wave where
  id : Nat
  queue : Nat
  agent : Nat
  laneCount : Nat
  callbacks : Callbacks
  state : WaveState
  stopReason : StopReason
  stopRequested : Bool
  visibility : Visibility
  isParked : Bool
  parkedPc : BitVec 64
  displacedStepping : Option DisplacedStepping
  lastStopEventId : Option Nat
  lastStoppedPc : BitVec 64
  hasCwsrRecord : Bool
  isPriv : Bool
  saveArea : SaveArea

/-- A wave as its constructor leaves it: running, visible, with no record yet, so that its
first `update` refreshes it as it refreshes a wave that was running. Modelled from the spec:
the member initialisers are in `wave.h`, which is not part of the source. -/
def Wave.init (id queue agent laneCount : Nat) (callbacks : Callbacks) : Wave where
  id := id
  queue := queue
  agent := agent
  laneCount := laneCount
  callbacks := callbacks
  state := .run
  stopReason := []
  stopRequested := false
  visibility := .visible
  isParked := false
  parkedPc := 0
  displacedStepping := none
  lastStopEventId := none
  lastStoppedPc := 0
  hasCwsrRecord := false
  isPriv := false
  saveArea := ⟨RegisterCache.reset (fun _ => 0) 0 0, fun _ => 0⟩

/-- A request the wave code makes to the driver: the architecture's `wave_set_state`, or
`process_t::send_exceptions`. -/
inductive DriverCall where
  | waveSetState (wave : Nat) (state : WaveState) (exceptions : BitVec 64)
  | sendExceptions (mask : BitVec 64) (queue : Nat)
  deriving DecidableEq, Repr

/-- The process state a wave operation reads and writes besides the wave: the event queue (an
event's id is its position), the live displaced-stepping buffers with their reference counts,
the next buffer id, each agent's exception mask, and the driver requests made so far. -/
structure Shared where
  events : List Event
  buffers : List (DisplacedStepping × Nat)
  nextBufferId : Nat
  agentExceptions : Nat → BitVec 64
  driverLog : List DriverCall

/-- The numbering of `amdgpu_regnum_t` that the wave code uses: the ranges of scalar, vector
and trap-temporary registers, and the registers it names. -/
structure RegnumLayout where
  firstSgpr : Regnum
  lastSgpr : Regnum
  firstVgpr : Regnum
  lastVgpr : Regnum
  firstTtmp : Regnum
  lastTtmp : Regnum
  firstHwreg : Regnum
  s0 : Regnum
  v0_32 : Regnum
  v0_64 : Regnum
  pc : Regnum
  waveId : Regnum

/-- The architecture's capability table: `architecture_t` and the register addresses of the
context save record. `readPseudoRegister` and `writePseudoRegister` are the architecture's own
register code, which works on the context save area. The last fields are the facts about `pc`
the wave code relies on: it is an eight-byte register with an address in the record, neither
pseudo nor a trap temporary. -/
structure Arch where
  parkStoppedWaves : Bool
  isTerminatingInstruction : Instruction → Bool
  largestInstructionSize : Nat
  breakpointInstructionSize : Nat
  regs : RegnumLayout
  registerSize : Regnum → BitVec 64
  registerAddress : Regnum → Option (BitVec 64)
  isPseudoRegister : Regnum → Bool
  readPseudoRegister :
    Wave → Regnum → BitVec 64 → BitVec 64 → (Nat → BitVec 8) → Except Fault (Nat → BitVec 8)
  writePseudoRegister :
    Wave → Regnum → BitVec 64 → BitVec 64 → (Nat → BitVec 8) → Except Fault SaveArea
  masks : OsExceptionMasks
  pc_size : registerSize regs.pc = 8
  pc_address : (registerAddress regs.pc).isSome
  pc_not_pseudo : isPseudoRegister regs.pc = false
  pc_not_ttmp : ¬(regs.firstTtmp ≤ regs.pc ∧ regs.pc ≤ regs.lastTtmp)

/-! ## A sample configuration

A small architecture, with or without parking, whose every register is eight bytes at its own
address, and the callbacks of a wave: the park instruction at `0x1000`, the terminating
instruction at `0x2000`, and a scratch region of 4096 bytes at `0x10000`. -/

/-- Six queue-exception bits and a device bit. -/
def sampleMasks : OsExceptionMasks where
  queueWaveAbort := 1
  queueWaveTrap := 2
  queueWaveMathError := 4
  queueWaveIllegalInstruction := 8
  queueWaveMemoryViolation := 16
  queueWaveApertureViolation := 32
  deviceMemoryViolation := 64
  queueMask := 63
  abort_queue := by decide
  trap_queue := by decide
  mathError_queue := by decide
  illegalInstruction_queue := by decide
  memoryViolation_queue := by decide
  apertureViolation_queue := by decide

/-- The sample architecture; `parks` is `park_stopped_waves ()`. -/
def sampleArch (parks : Bool) : Arch where
  parkStoppedWaves := parks
  isTerminatingInstruction := fun i => i.head? = some 0x81
  largestInstructionSize := 8
  breakpointInstructionSize := 4
  regs := ⟨0, 15, 16, 31, 32, 47, 48, 0, 16, 16, 64, 65⟩
  registerSize := fun _ => 8
  registerAddress := fun r => some (BitVec.ofNat 64 (8 * r))
  isPseudoRegister := fun _ => false
  readPseudoRegister := fun _ _ _ _ value => .ok value
  writePseudoRegister := fun w _ _ _ _ => .ok w.saveArea
  masks := sampleMasks
  pc_size := rfl
  pc_address := rfl
  pc_not_pseudo := rfl
  pc_not_ttmp := by decide

/-- The callbacks of the sample wave. -/
def sampleCallbacks : Callbacks := ⟨0x1000, 0x2000, (0x10000, 0x1000)⟩

/-- The sample wave, stopped with no stop event, so that `amd_dbgapi_wave_resume` accepts it. -/
def sampleResumableWave : Wave := { Wave.init 0 0 0 64 sampleCallbacks with state := .stop }

end Dbgapi
