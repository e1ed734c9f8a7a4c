import Dbgapi.Wave.Registers

set_option autoImplicit false

/-! # Displaced stepping

`wave_t::displaced_stepping_start` and `wave_t::displaced_stepping_complete`, and the reference
counting of `displaced_stepping_t` they use. A buffer is shared by every wave of one queue that
starts displaced stepping at the same pc: a start looks for a live buffer with the wave's queue
and pc and retains it, and only otherwise reconstructs the original instruction and creates a
buffer with one reference. Completion moves the pc back by `from - to` (unless the instruction is
simulated) and releases the wave's reference.
-/

namespace Dbgapi

/-! ## Reference counts -/

/-- `displaced_stepping_t::retain`: one more reference to buffer `id`. Modelled from the spec:
`displaced_stepping.cpp` is not part of the source; buffers are shared "via explicit
retain/release". -/
def retain (id : Nat) (bufs : List (DisplacedStepping × Nat)) : List (DisplacedStepping × Nat) :=
  bufs.map fun b => if b.1.id = id then (b.1, b.2 + 1) else b

/-- `displaced_stepping_t::release`: one reference fewer to buffer `id`, which is destroyed
with its last reference. Modelled from the spec: "Lifetime: created on first use; released when
refcount hits zero." -/
def release (id : Nat) (bufs : List (DisplacedStepping × Nat)) : List (DisplacedStepping × Nat) :=
  bufs.filterMap fun b =>
    if b.1.id = id then (if b.2 ≤ 1 then none else some (b.1, b.2 - 1)) else some b

/-- Release the buffer reference `ds` of a wave, if any: `terminate` and the destructor of
`wave_t` both do this before forgetting `m_displaced_stepping`. -/
def releaseBuffer (ds : Option DisplacedStepping) (sh : Shared) : Shared :=
  match ds with
  | some ds => { sh with buffers := release ds.id sh.buffers }
  | none => sh

@[simp] theorem releaseBuffer_events (ds : Option DisplacedStepping) (sh : Shared) :
    (releaseBuffer ds sh).events = sh.events := by
  unfold releaseBuffer; split <;> rfl

@[simp] theorem releaseBuffer_driverLog (ds : Option DisplacedStepping) (sh : Shared) :
    (releaseBuffer ds sh).driverLog = sh.driverLog := by
  unfold releaseBuffer; split <;> rfl

@[simp] theorem releaseBuffer_nextBufferId (ds : Option DisplacedStepping) (sh : Shared) :
    (releaseBuffer ds sh).nextBufferId = sh.nextBufferId := by
  unfold releaseBuffer; split <;> rfl

@[simp] theorem releaseBuffer_agentExceptions (ds : Option DisplacedStepping) (sh : Shared) :
    (releaseBuffer ds sh).agentExceptions = sh.agentExceptions := by
  unfold releaseBuffer; split <;> rfl

/-- What the collaborators of `displaced_stepping_start` answer when no buffer can be shared:
the status and bytes of the memory read that completes the original instruction, the
architecture's `can_simulate` and `can_execute_displaced`, the instruction buffer the
`allocate_instruction_buffer` callback returns, and whether the instruction could be written
into it. -/
structure DisplacedSteppingEnv where
  readStatus : Status
  readBytes : Instruction
  canSimulate : Bool
  canExecuteDisplaced : Bool
  instructionBuffer : BitVec 64
  writeOk : Bool

/-- The original instruction: the first `breakpoint_instruction ().size ()` bytes supplied by the
client, then the bytes read after them, up to `largest_instruction_size ()` in all. -/
def originalInstruction (A : Arch) (saved read : Instruction) : Instruction :=
  saved.take A.breakpointInstructionSize ++
    read.take (A.largestInstructionSize - A.breakpointInstructionSize)

namespace Wave

variable (A : Arch)

/-- The shareable buffer `find_if` returns: a live buffer of the wave's queue for pc `pc`. -/
def findBuffer (w : Wave) (sh : Shared) (pc : BitVec 64) : Option (DisplacedStepping × Nat) :=
  sh.buffers.find? fun b => b.1.queue == w.queue && b.1.fromPc == pc

/-- The end of `displaced_stepping_start`: move the pc to the scratch copy unless the
instruction is simulated, and make `ds` the wave's displaced stepping. -/
def useBuffer (ds : DisplacedStepping) (w : Wave) : Except Fault Wave := do
  let w ← if !ds.isSimulated then do
      check (ds.toPc != 0) "displaced_pc != 0"
      w.writeRegister64 A A.regs.pc ds.toPc
    else pure w
  pure { w with displacedStepping := some ds }

/-- A new buffer for `pc`: reconstruct the original instruction, fail if it can be neither
simulated nor displaced, otherwise copy it into a scratch buffer (unless it is simulated). -/
def createBuffer (env : DisplacedSteppingEnv) (saved : Instruction) (w : Wave) (sh : Shared)
    (pc : BitVec 64) : Except Fault (DisplacedStepping × Shared) := do
  if env.readStatus != .success then throw (.exception env.readStatus)
  let simulate := env.canSimulate
  if !env.canExecuteDisplaced && !simulate then throw (.exception .errorIllegalInstruction)
  if !simulate && !env.writeOk then throw (.fatal "Could not write the displaced instruction")
  let ds : DisplacedStepping :=
    ⟨sh.nextBufferId, w.queue, pc, if simulate then 0 else env.instructionBuffer,
      originalInstruction A saved env.readBytes, simulate⟩
  pure (ds, { sh with buffers := sh.buffers ++ [(ds, 1)], nextBufferId := sh.nextBufferId + 1 })

/-- `wave_t::displaced_stepping_start (saved_instruction_bytes)`, on the wave and the process
state: the buffer is retained or created before the pc is moved, so a failure after that point
leaves the new reference behind. -/
def displacedSteppingStartM (env : DisplacedSteppingEnv) (saved : Instruction) :
    EStateM Fault (Wave × Shared) Unit := do
  let (w, sh) ← get
  liftExcept (check w.displacedStepping.isNone "already displaced stepping")
  liftExcept (check (w.state == .stop) "not stopped")
  let pc ← liftExcept (w.pc A)
  let ds ← match w.findBuffer sh pc with
    | some (ds, _) => do
      set (w, { sh with buffers := retain ds.id sh.buffers })
      pure ds
    | none => do
      let (ds, sh) ← liftExcept (createBuffer A env saved w sh pc)
      set (w, sh)
      pure ds
  let (w, sh) ← get
  let w ← liftExcept (useBuffer A ds w)
  set (w, sh)

/-- `displaced_stepping_start` as a call that returns the new wave and process state, or fails. -/
def displacedSteppingStart (env : DisplacedSteppingEnv) (saved : Instruction) (w : Wave)
    (sh : Shared) : Except Fault (Wave × Shared) :=
  match (displacedSteppingStartM A env saved).run (w, sh) with
  | .ok _ s => .ok s
  | .error e _ => .error e

/-- `wave_t::displaced_stepping_complete ()`. -/
def displacedSteppingComplete (w : Wave) (sh : Shared) : Except Fault (Wave × Shared) := do
  let some ds := w.displacedStepping | throw (.assertion "not displaced stepping")
  check (w.state == .stop) "not stopped"
  let w ← if !ds.isSimulated then do
      let displacedPc ← w.pc A
      w.writeRegister64 A A.regs.pc (displacedPc + ds.fromPc - ds.toPc)
    else pure w
  pure ({ w with displacedStepping := none }, { sh with buffers := release ds.id sh.buffers })

end Wave

end Dbgapi
