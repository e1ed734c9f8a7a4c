import Mathlib.Data.BitVec

set_option autoImplicit false

/-! # Types of the wave control core

The enumerations, bitsets and records that `wave.cpp` reads and writes. The fixed-width C++
integers of the source (`uint64_t`, `size_t`, `amd_dbgapi_global_address_t`,
`amd_dbgapi_segment_address_t`) are `BitVec 64`, so that their wrap-around is the one the
code has; bytes are `BitVec 8`.

The public enumerations are declared in `amd-dbgapi.h` and the driver's exception masks in
`os_driver.h`, neither of which is part of the source. The stop reason is kept as the set of
its named bits, the client exception bits take the values of the public header, and the
driver masks are a parameter (`OsExceptionMasks`) that carries the facts `set_state` relies on.
-/

namespace Dbgapi

/-- `amd_dbgapi_wave_state_t`. -/
inductive WaveState where
  | run
  | singleStep
  | stop
  deriving DecidableEq, Repr

/-- `wave_t::visibility_t`. -/
inductive Visibility where
  | visible
  | hiddenHaltedAtLaunch
  | hiddenAtTerminatingInstruction
  deriving DecidableEq, Repr

/-- The two kinds of `amd_dbgapi_event_kind_t` that a wave raises. -/
inductive EventKind where
  | waveStop
  | waveCommandTerminated
  deriving DecidableEq, Repr

/-- `event_t::state_t`: the client moves an event from `pending` to `reported` (it was
returned by the event queue) and then to `processed`. -/
inductive EventState where
  | pending
  | reported
  | processed
  deriving DecidableEq, Repr

/-- The position of an event state in the order `pending < reported < processed`. -/
def EventState.rank : EventState → Nat
  | .pending => 0
  | .reported => 1
  | .processed => 2

instance : LE EventState := ⟨fun a b => a.rank ≤ b.rank⟩

instance : LT EventState := ⟨fun a b => a.rank < b.rank⟩

instance (a b : EventState) : Decidable (a ≤ b) := inferInstanceAs (Decidable (a.rank ≤ b.rank))

instance (a b : EventState) : Decidable (a < b) := inferInstanceAs (Decidable (a.rank < b.rank))

@[simp] theorem EventState.lt_processed {s : EventState} : s < .processed ↔ s ≠ .processed := by
  cases s <;> decide

@[simp] theorem EventState.reported_le {s : EventState} : .reported ≤ s ↔ s ≠ .pending := by
  cases s <;> decide

@[simp] theorem EventState.not_processed_lt {s : EventState} : ¬.processed < s := by
  cases s <;> decide

/-- An `event_t` of the process event queue: its kind, the wave it is about, its state. -/
structure Event where
  kind : EventKind
  wave : Nat
  state : EventState
  deriving DecidableEq, Repr

/-- The bits of `amd_dbgapi_wave_stop_reason_t` that the wave code tests by name; every other
reason the architecture can report is `other`. -/
inductive StopReasonBit where
  | singleStep
  | memoryViolation
  | other (n : Nat)
  deriving DecidableEq, Repr

/-- A stop reason bitset, as the set of its bits. `AMD_DBGAPI_WAVE_STOP_REASON_NONE` is `[]`. -/
abbrev StopReason := List StopReasonBit

/-- `amd_dbgapi_status_t`, the statuses the wave code returns or throws. -/
inductive Status where
  | success
  | error
  | errorInvalidArgument
  | errorInvalidArgumentCompatibility
  | errorInvalidWaveId
  | errorInvalidLaneId
  | errorWaveStopped
  | errorWaveNotStopped
  | errorWaveOutstandingStop
  | errorWaveNotResumable
  | errorResumeDisplacedStepping
  | errorIllegalInstruction
  | errorMemoryAccess
  | errorNotAvailable
  | errorClientCallback
  | errorNotInitialized
  | errorInvalidProcessId
  deriving DecidableEq, Repr

/-- How a call ends when it does not return normally: an `exception_t` carrying a status, a
failed `dbgapi_assert`, or a fatal `error (...)`. -/
inductive Fault where
  | exception (status : Status)
  | assertion (what : String)
  | fatal (what : String)
  deriving DecidableEq, Repr

/-! ## Results of fallible code -/

@[simp] theorem except_pure {α : Type} (a : α) : (pure a : Except Fault α) = .ok a := rfl

@[simp] theorem except_throw {α : Type} (e : Fault) : (throw e : Except Fault α) = .error e := rfl

@[simp] theorem except_ok_bind {α β : Type} (a : α) (f : α → Except Fault β) :
    (Except.ok a >>= f) = f a := rfl

@[simp] theorem except_error_bind {α β : Type} (e : Fault) (f : α → Except Fault β) :
    (Except.error e >>= f) = .error e := rfl

@[simp] theorem except_map_ok {α β : Type} (f : α → β) (a : α) :
    (Except.ok a : Except Fault α).map f = .ok (f a) := rfl

@[simp] theorem except_map_error {α β : Type} (f : α → β) (e : Fault) :
    (Except.error e : Except Fault α).map f = .error e := rfl

theorem except_map_eq_ok {α β : Type} {f : α → β} {x : Except Fault α} {b : β} :
    x.map f = .ok b ↔ ∃ a, x = .ok a ∧ f a = b := by
  cases x <;> simp [Except.map]

theorem except_bind_eq_ok {α β : Type} {x : Except Fault α} {f : α → Except Fault β} {b : β} :
    x >>= f = .ok b ↔ ∃ a, x = .ok a ∧ f a = .ok b := by
  cases x <;> simp

/-- `dbgapi_assert`: fail with `what` unless `cond` holds. -/
def check (cond : Bool) (what : String) : Except Fault Unit :=
  if cond then pure () else throw (.assertion what)

@[simp] theorem check_true (what : String) : check true what = .ok () := rfl

@[simp] theorem check_false (what : String) : check false what = .error (.assertion what) := rfl

@[simp] theorem check_eq_ok {cond : Bool} {what : String} {u : Unit} :
    check cond what = .ok u ↔ cond = true := by
  cases cond <;> simp

/-! ## Fallible code with state

A member function that changes the wave or the process before it throws leaves those changes
behind. Where that matters the model runs it in `EStateM Fault σ`, whose failures carry the
state at the throw. -/

/-- A fallible computation without effects, inside a function with state. -/
def liftExcept {σ α : Type} : Except Fault α → EStateM Fault σ α
  | .ok a => pure a
  | .error e => throw e

@[simp] theorem liftExcept_ok {σ α : Type} (a : α) (s : σ) :
    (liftExcept (.ok a) : EStateM Fault σ α) s = .ok a s := rfl

@[simp] theorem liftExcept_error {σ α : Type} (e : Fault) (s : σ) :
    (liftExcept (.error e) : EStateM Fault σ α) s = .error e s := rfl

/-- The instruction bytes of an `instruction_t`. -/
abbrev Instruction := List (BitVec 8)

/-- What `architecture_t::wave_get_state` reports: the wave's state and stop reason. -/
structure StateReport where
  state : WaveState
  stopReason : StopReason
  deriving DecidableEq, Repr

/-! ## Exceptions -/

/-- `AMD_DBGAPI_EXCEPTION_WAVE_ABORT`. Modelled from the spec: the values of
`amd_dbgapi_exceptions_t` are those of the public header, bits `0` to `5`. -/
def exceptionWaveAbort : BitVec 64 := 1 <<< 0

/-- `AMD_DBGAPI_EXCEPTION_WAVE_TRAP`. Modelled from the spec, as `exceptionWaveAbort`. -/
def exceptionWaveTrap : BitVec 64 := 1 <<< 1

/-- `AMD_DBGAPI_EXCEPTION_WAVE_MATH_ERROR`. Modelled from the spec, as `exceptionWaveAbort`. -/
def exceptionWaveMathError : BitVec 64 := 1 <<< 2

/-- `AMD_DBGAPI_EXCEPTION_WAVE_ILLEGAL_INSTRUCTION`. Modelled from the spec, as
`exceptionWaveAbort`. -/
def exceptionWaveIllegalInstruction : BitVec 64 := 1 <<< 3

/-- `AMD_DBGAPI_EXCEPTION_WAVE_MEMORY_VIOLATION`. Modelled from the spec, as
`exceptionWaveAbort`. -/
def exceptionWaveMemoryViolation : BitVec 64 := 1 <<< 4

/-- `AMD_DBGAPI_EXCEPTION_WAVE_APERTURE_VIOLATION`. Modelled from the spec, as
`exceptionWaveAbort`. -/
def exceptionWaveApertureViolation : BitVec 64 := 1 <<< 5

/-- The exception bits `amd_dbgapi_wave_resume` accepts. -/
def validWaveExceptions : BitVec 64 :=
  exceptionWaveAbort ||| exceptionWaveTrap ||| exceptionWaveMathError |||
    exceptionWaveIllegalInstruction ||| exceptionWaveMemoryViolation |||
    exceptionWaveApertureViolation

/-- The `os_exception_mask_t` values `set_state` uses, and `os_queue_exception_mask`. The
header that declares them is not part of the source; what the code relies on is that each
per-queue wave exception lies in the queue exception mask. -/
structure OsExceptionMasks where
  queueWaveAbort : BitVec 64
  queueWaveTrap : BitVec 64
  queueWaveMathError : BitVec 64
  queueWaveIllegalInstruction : BitVec 64
  queueWaveMemoryViolation : BitVec 64
  queueWaveApertureViolation : BitVec 64
  deviceMemoryViolation : BitVec 64
  queueMask : BitVec 64
  abort_queue : queueWaveAbort &&& queueMask ≠ 0
  trap_queue : queueWaveTrap &&& queueMask ≠ 0
  mathError_queue : queueWaveMathError &&& queueMask ≠ 0
  illegalInstruction_queue : queueWaveIllegalInstruction &&& queueMask ≠ 0
  memoryViolation_queue : queueWaveMemoryViolation &&& queueMask ≠ 0
  apertureViolation_queue : queueWaveApertureViolation &&& queueMask ≠ 0

/-! ## Displaced stepping -/

/-- The immutable part of a `displaced_stepping_t`, which a wave reads through its
`m_displaced_stepping` pointer: the queue and the pc it is shared for (`from`, here `fromPc`), the
scratch pc (`to`, here `toPc`), the original instruction and whether it is simulated. The
reference count lives with the process (`Shared.buffers`). -/
structure DisplacedStepping where
  id : Nat
  queue : Nat
  fromPc : BitVec 64
  toPc : BitVec 64
  originalInstruction : Instruction
  isSimulated : Bool
  deriving DecidableEq, Repr

end Dbgapi
