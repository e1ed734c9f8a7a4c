import Dbgapi.Wave.StateMachine

set_option autoImplicit false

/-! # The stop and resume entry points

`amd_dbgapi_wave_stop` and `amd_dbgapi_wave_resume`, on a wave that `find` returned. Each checks
its guards against the client-visible state, then suspends the wave's queue with a
`scoped_queue_suspend_t` and calls `set_state`. Suspending a queue that was running runs
`update` on its waves, so the wave's state may change between the guards and `set_state`: the
argument `suspend` is that update (`none` when the queue was already suspended). A wave that
exits during the suspension is destroyed, which the process model (`Dbgapi.Process`) has as a
step of its own.
-/

namespace Dbgapi

/-- `amd_dbgapi_resume_mode_t`. -/
inductive ResumeMode where
  | normal
  | singleStep
  deriving DecidableEq, Repr

namespace Wave

variable (A : Arch)

/-- The update that suspending the wave's queue runs on this wave, if the queue was running. The
suspension refreshes the queue's other waves too; a process run has those updates as separate
update steps, so a bound on what one call does counts the call's own step. -/
def suspendQueue (suspend : Option UpdateEnv) (w : Wave) (sh : Shared) :
    Except Fault (Wave × Shared) :=
  match suspend with
  | some u => w.update A u sh
  | none => pure (w, sh)

/-- `amd_dbgapi_wave_stop (wave_id)`. -/
def waveStop (suspend : Option UpdateEnv) (env : SetStateEnv) (w : Wave) (sh : Shared) :
    Except Fault (Status × Wave × Shared) := do
  if clientVisibleState w sh = .stop then return (.errorWaveStopped, w, sh)
  if w.stopRequested then return (.errorWaveOutstandingStop, w, sh)
  let (w, sh) ← w.suspendQueue A suspend sh
  let (w, sh) ← w.setState A env .stop 0 sh
  pure (.success, w, sh)

/-- The guards of `amd_dbgapi_wave_resume`, in order; `none` when they all pass. -/
def resumeGuard (mode : ResumeMode) (exceptions : BitVec 64) (w : Wave) (sh : Shared) :
    Option Status :=
  if exceptions &&& ~~~validWaveExceptions ≠ 0 then some .errorInvalidArgument
  else if clientVisibleState w sh ≠ .stop then some .errorWaveNotStopped
  else if (lastStopEvent w sh).any (fun e => decide (e.state < .processed)) then
    some .errorWaveNotResumable
  else if w.displacedStepping.isSome ∧ mode ≠ .singleStep then some .errorResumeDisplacedStepping
  else none

/-- `amd_dbgapi_wave_resume (wave_id, resume_mode, exceptions)`. -/
def waveResume (suspend : Option UpdateEnv) (env : SetStateEnv) (mode : ResumeMode)
    (exceptions : BitVec 64) (w : Wave) (sh : Shared) : Except Fault (Status × Wave × Shared) := do
  if let some s := resumeGuard mode exceptions w sh then return (s, w, sh)
  let (w, sh) ← w.suspendQueue A suspend sh
  let (w, sh) ← w.setState A env (if mode = .singleStep then .singleStep else .run) exceptions sh
  pure (.success, w, sh)

end Wave

end Dbgapi
