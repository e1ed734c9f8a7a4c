import Dbgapi.Wave.Api

set_option autoImplicit false

/-! # Runs of a process

A process is a list of waves and the state they share. A step is one operation on one wave, made
with any answers from the hardware and the architecture, or one move of the client:

* `update`: the queue-refresh path runs `wave_t::update` on a wave of a suspended queue; the
  suspension inside `stop` and `resume` updates the wave they act on, and its refresh of the
  queue's other waves is these separate steps;
* `stop`, `resume`: the two entry points, on a visible wave (`find` returns only visible waves);
* `report`, `processed`: the client moves an event from `pending` to `reported` to `processed`;
* `displacedSteppingStart`, `displacedSteppingComplete`, `writeRegister`: operations on a
  stopped wave that the client triggers through the other entry points of the library;
* `displacedSteppingStartThrows`: a start that throws an exception, which its entry point
  turns into a status; the process goes on from the state the throw left;
* `create`, `destroy`: a wave appears in a queue with a fresh id, or disappears; its destructor
  releases a displaced stepping still outstanding (only on process exit);
* `createHalted`, `release`: a wave launched while the process halts new waves appears hidden,
  halted at launch, and the process later makes it visible with `set_visibility`, which unhalts
  it. Modelled from the spec: the process code that makes these calls is outside the source.

A transition also says what the client sees of it through the API (`Observation`): a successful
`amd_dbgapi_wave_resume` of a wave in a mode, an event of a wave reported, a wave that appears
(created, or released from its halt at launch), or nothing. A step is a transition with the
observation forgotten.

`ArchContract` says which reports of `wave_get_state` a run admits, after an `update` of a wave
that was not stopped and after a simulation. Each result states the contract it needs; the
weakest contract admits every report.
-/

namespace Dbgapi

/-- A process: its waves and the state they share. -/
structure Process where
  waves : List Wave
  shared : Shared

/-- The reports of `wave_get_state` a run admits: `update` for a wave last left in the given
state (other than STOP), and `simulate` after a simulated single step. -/
structure ArchContract where
  update : WaveState → StateReport → Prop
  simulate : StateReport → Prop

/-- The process before any wave: no event, no displaced-stepping buffer. -/
def Process.init (agentExceptions : Nat → BitVec 64) : Process :=
  ⟨[], ⟨[], [], 0, agentExceptions, []⟩⟩

/-- The update a queue suspension runs on a wave respects the contract. -/
def ArchContract.suspendOk (K : ArchContract) (w : Wave) : Option UpdateEnv → Prop
  | some u => w.state ≠ .stop → K.update w.state u.report
  | none => True

/-- The client moves event `i` to `state`. -/
def Shared.setEventState (sh : Shared) (i : Nat) (e : Event) (state : EventState) : Shared :=
  { sh with events := sh.events.set i { e with state } }

/-- What the client sees of a transition through the API: `amd_dbgapi_wave_resume` returned
SUCCESS for the wave `id` and `mode`, an event of the wave `id` was reported to it, a wave `id`
appeared (a new wave, which the wave list shows once it is visible, or a wave halted at launch
made visible), or nothing that concerns the state of a wave. -/
inductive Observation where
  | resumed (id : Nat) (mode : ResumeMode)
  | reported (id : Nat)
  | created (id : Nat)
  | silent
  deriving DecidableEq, Repr

/-- One transition of a process, with what the client sees of it. -/
inductive Transition (A : Arch) (K : ArchContract) : Process → Observation → Process → Prop
  | update {p : Process} {i : Nat} {w w' : Wave} {sh' : Shared} (u : UpdateEnv) :
      p.waves[i]? = some w → (w.state ≠ .stop → K.update w.state u.report) →
      w.update A u p.shared = .ok (w', sh') → Transition A K p .silent ⟨p.waves.set i w', sh'⟩
  | stop {p : Process} {i : Nat} {w w' : Wave} {sh' : Shared} {st : Status}
      (suspend : Option UpdateEnv) (env : SetStateEnv) :
      p.waves[i]? = some w → w.visibility = .visible → env.others = p.waves.eraseIdx i →
      K.suspendOk w suspend → K.simulate env.simulatedReport →
      w.waveStop A suspend env p.shared = .ok (st, w', sh') →
      Transition A K p .silent ⟨p.waves.set i w', sh'⟩
  | resume {p : Process} {i : Nat} {w w' : Wave} {sh' : Shared} {st : Status}
      (suspend : Option UpdateEnv) (env : SetStateEnv) (mode : ResumeMode)
      (exceptions : BitVec 64) :
      p.waves[i]? = some w → w.visibility = .visible → env.others = p.waves.eraseIdx i →
      K.suspendOk w suspend → K.simulate env.simulatedReport →
      w.waveResume A suspend env mode exceptions p.shared = .ok (st, w', sh') →
      Transition A K p (if st = .success then .resumed w.id mode else .silent)
        ⟨p.waves.set i w', sh'⟩
  | report {p : Process} {i : Nat} {e : Event} :
      p.shared.events[i]? = some e → e.state = .pending →
      Transition A K p (.reported e.wave) ⟨p.waves, p.shared.setEventState i e .reported⟩
  | processed {p : Process} {i : Nat} {e : Event} :
      p.shared.events[i]? = some e → e.state = .reported →
      Transition A K p .silent ⟨p.waves, p.shared.setEventState i e .processed⟩
  | displacedSteppingStart {p : Process} {i : Nat} {w w' : Wave} {sh' : Shared}
      (env : DisplacedSteppingEnv) (saved : Instruction) :
      p.waves[i]? = some w → w.displacedSteppingStart A env saved p.shared = .ok (w', sh') →
      Transition A K p .silent ⟨p.waves.set i w', sh'⟩
  | displacedSteppingStartThrows {p : Process} {i : Nat} {w w' : Wave} {sh' : Shared}
      {st : Status} (env : DisplacedSteppingEnv) (saved : Instruction) :
      p.waves[i]? = some w →
      (Wave.displacedSteppingStartM A env saved).run (w, p.shared) =
        .error (.exception st) (w', sh') →
      Transition A K p .silent ⟨p.waves.set i w', sh'⟩
  | displacedSteppingComplete {p : Process} {i : Nat} {w w' : Wave} {sh' : Shared} :
      p.waves[i]? = some w → w.displacedSteppingComplete A p.shared = .ok (w', sh') →
      Transition A K p .silent ⟨p.waves.set i w', sh'⟩
  | writeRegister {p : Process} {i : Nat} {w w' : Wave} (regnum : Regnum)
      (offset valueSize : BitVec 64) (value : Nat → BitVec 8) :
      p.waves[i]? = some w → w.state = .stop →
      w.writeRegister A regnum offset valueSize value = .ok w' →
      Transition A K p .silent ⟨p.waves.set i w', p.shared⟩
  | create {p : Process} (id queue agent laneCount : Nat) (callbacks : Callbacks) :
      (∀ w ∈ p.waves, w.id ≠ id) → (∀ e ∈ p.shared.events, e.wave ≠ id) →
      Transition A K p (.created id)
        ⟨p.waves ++ [Wave.init id queue agent laneCount callbacks], p.shared⟩
  | destroy {p : Process} {i : Nat} {w : Wave} :
      p.waves[i]? = some w →
      Transition A K p .silent ⟨p.waves.eraseIdx i, releaseBuffer w.displacedStepping p.shared⟩
  | createHalted {p : Process} (id queue agent laneCount : Nat) (callbacks : Callbacks) :
      (∀ w ∈ p.waves, w.id ≠ id) → (∀ e ∈ p.shared.events, e.wave ≠ id) →
      Transition A K p (.created id)
        ⟨p.waves ++ [{ Wave.init id queue agent laneCount callbacks with
          visibility := .hiddenHaltedAtLaunch }], p.shared⟩
  | release {p : Process} {i : Nat} {w w' : Wave} (halted : Bool) :
      p.waves[i]? = some w → w.visibility = .hiddenHaltedAtLaunch →
      w.setVisibility halted .visible = .ok w' →
      Transition A K p (.created w.id) ⟨p.waves.set i w', p.shared⟩

/-- One step of a process: a transition, whatever the client sees of it. -/
def Step (A : Arch) (K : ArchContract) (p p' : Process) : Prop :=
  ∃ o, Transition A K p o p'

/-- The states a process reaches from `Process.init` by steps. -/
inductive Reachable (A : Arch) (K : ArchContract) : Process → Prop
  | init (agentExceptions : Nat → BitVec 64) : Reachable A K (Process.init agentExceptions)
  | step {p p' : Process} : Reachable A K p → Step A K p p' → Reachable A K p'

/-! ## A sample process -/

/-- A process with one new wave of 64 lanes, id 0. -/
def sampleProcess : Process :=
  ⟨[Wave.init 0 0 0 64 sampleCallbacks], (Process.init fun _ => 0).shared⟩

theorem reachable_sampleProcess (parks : Bool) (K : ArchContract) :
    Reachable (sampleArch parks) K sampleProcess :=
  .step (.init _) ⟨_, .create 0 0 0 64 sampleCallbacks (by simp [Process.init])
    (by simp [Process.init])⟩

end Dbgapi
