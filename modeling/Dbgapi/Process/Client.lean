import Dbgapi.Process.Events
import Dbgapi.Wave.Client

set_option autoImplicit false

/-! # `client_visible_state` against what the client infers

The client follows each wave through what the API shows it (`Observation`): a wave appears
running, a successful `amd_dbgapi_wave_resume` puts it in the resume mode, and an event of the
wave reported to the client means it has stopped (`Observation.infer`). `Observed` pairs every
run with the view the client builds along it.

Where `wave_get_state` answers as the client can follow (`ArchContract.ReportsMode`), every
visible wave agrees with the client's view of it (`ClientInv`): each transition keeps the
agreement, by the lemmas of `Dbgapi.Wave.Client` for the wave it acts on and because the other
waves keep their last stop events. So `client_visible_state` returns the client's view, except
while a stop that interrupted a single step waits for its command-terminated event to be
reported: then it returns RUN, where the client last resumed the wave in SINGLE_STEP.
-/

namespace Dbgapi

/-- The answers of `wave_get_state` that the client can follow, after an `update` and after a
simulated single step, which stops the wave with the `SINGLE_STEP` bit. -/
structure ArchContract.ReportsMode (K : ArchContract) : Prop where
  update : ∀ prev r, K.update prev r → ModeReport prev r
  simulate : ∀ r, K.simulate r → r.state = .stop ∧ .singleStep ∈ r.stopReason

/-- The contract that admits exactly the answers the client can follow. -/
def modeContract : ArchContract :=
  ⟨ModeReport, fun r => r.state = .stop ∧ .singleStep ∈ r.stopReason⟩

theorem modeContract_reportsMode : modeContract.ReportsMode := ⟨fun _ _ h => h, fun _ h => h⟩

theorem ArchContract.ReportsMode.suspendOk {K : ArchContract} (hK : K.ReportsMode) {w : Wave}
    {suspend : Option UpdateEnv} (h : K.suspendOk w suspend) :
    ∀ u, suspend = some u → w.state ≠ .stop → ModeReport w.state u.report := by
  rintro u rfl hs
  exact hK.update _ _ (h hs)

/-- What the client infers from an observation about the state of each wave. -/
def Observation.infer : Observation → (Nat → WaveState) → Nat → WaveState
  | .resumed id mode, v => Function.update v id mode.state
  | .reported id, v => Function.update v id .stop
  | .created id, v => Function.update v id .run
  | .silent, v => v

theorem infer_resume_self {st : Status} {id : Nat} {mode : ResumeMode} {v : Nat → WaveState} :
    (if st = .success then Observation.resumed id mode else .silent).infer v id =
      if st = .success then mode.state else v id := by
  split <;> simp [Observation.infer]

theorem infer_resume_ne {st : Status} {id id' : Nat} {mode : ResumeMode} {v : Nat → WaveState}
    (h : id' ≠ id) : (if st = .success then Observation.resumed id mode else .silent).infer v id' =
      v id' := by
  split <;> simp [Observation.infer, h]

/-- The runs of a process, each with the state of every wave as the client infers it from the
API alone. -/
inductive Observed (A : Arch) (K : ArchContract) : Process → (Nat → WaveState) → Prop
  | init (agentExceptions : Nat → BitVec 64) :
      Observed A K (Process.init agentExceptions) fun _ => .run
  | step {p p' : Process} {o : Observation} {v : Nat → WaveState} :
      Observed A K p v → Transition A K p o p' → Observed A K p' (o.infer v)

variable {A : Arch} {K : ArchContract} {p p' : Process} {v : Nat → WaveState}

theorem Observed.reachable (h : Observed A K p v) : Reachable A K p := by
  induction h with
  | init x => exact .init x
  | step _ ht ih => exact ih.step ⟨_, ht⟩

/-- Every run has the client's view along it. -/
theorem Reachable.observed (h : Reachable A K p) : ∃ v, Observed A K p v := by
  induction h with
  | init x => exact ⟨_, .init x⟩
  | step _ hs ih =>
    obtain ⟨o, ht⟩ := hs
    obtain ⟨v, hv⟩ := ih
    exact ⟨_, hv.step ht⟩

/-- Every visible wave agrees with the client's view of it. -/
def ClientInv (p : Process) (v : Nat → WaveState) : Prop :=
  ∀ w ∈ p.waves, w.visibility = .visible → ClientAgrees (v w.id) w p.shared

/-! ## The last stop events along a transition -/

theorem EventInv.lastStop_lt (h : EventInv p) {w : Wave} (hw : w ∈ p.waves) :
    ∀ j, w.lastStopEventId = some j → j < p.shared.events.length := fun j hj =>
  let ⟨_, he, _⟩ := h.lastStop w hw j hj
  (List.getElem?_eq_some_iff.1 he).1

theorem lastStopEvent_append {w : Wave} {sh sh' : Shared} {l : List Event}
    (hl : ∀ j, w.lastStopEventId = some j → j < sh.events.length)
    (he : sh'.events = sh.events ++ l) : lastStopEvent w sh' = lastStopEvent w sh := by
  cases hj : w.lastStopEventId with
  | none => simp [lastStopEvent, hj]
  | some j => simp [lastStopEvent, hj, he, List.getElem?_append_left (hl j hj)]

theorem lastStopEvent_setEventState {w : Wave} {sh : Shared} {j : Nat} {e : Event}
    {st : EventState} (he : sh.events[j]? = some e) :
    lastStopEvent w (sh.setEventState j e st) =
      if w.lastStopEventId = some j then some { e with state := st } else lastStopEvent w sh := by
  have hj := (List.getElem?_eq_some_iff.1 he).1
  cases hl : w.lastStopEventId with
  | none => simp [lastStopEvent, hl]
  | some k =>
    by_cases hk : j = k
    · subst hk
      simp [lastStopEvent, hl, Shared.setEventState, hj]
    · simp [lastStopEvent, hl, Shared.setEventState, List.getElem?_set, hk, Ne.symm hk]

theorem EventEffect.events_append {w w' : Wave} {sh sh' : Shared} (h : EventEffect w w' sh sh') :
    ∃ l, sh'.events = sh.events ++ l := by
  rcases h with ⟨he, -⟩ | ⟨k, he, -⟩
  exacts [⟨[], by simp [he]⟩, ⟨_, he⟩]

/-! ## The invariant along runs -/

/-- An operation on one wave that only appends events keeps the invariant, as long as the acted
on wave agrees with the client's new view of it and the view of every other wave stays. -/
theorem ClientInv.act (h : ClientInv p v) (hE : EventInv p) {i : Nat} {w w' : Wave}
    {sh' : Shared} {v' : Nat → WaveState} (hw : p.waves[i]? = some w) (hid : w'.id = w.id)
    (hev : ∃ l, sh'.events = p.shared.events ++ l) (hv : ∀ id, id ≠ w.id → v' id = v id)
    (ha : w'.visibility = .visible → ClientAgrees (v' w.id) w' sh') :
    ClientInv ⟨p.waves.set i w', sh'⟩ v' := by
  have hnd : ((p.waves.set i w').map Wave.id).Nodup := by
    rw [map_id_set hw hid]
    exact hE.nodup
  obtain ⟨l, hev⟩ := hev
  intro w₂ hw₂ hvis
  rcases mem_set_cases hnd (List.getElem?_eq_some_iff.1 hw).1 hw₂ with rfl | ⟨hw₂, hne⟩
  · rw [hid]
    exact ha hvis
  · rw [hv _ (hid ▸ hne)]
    exact (h w₂ hw₂ hvis).of_keep rfl rfl (lastStopEvent_append (hE.lastStop_lt hw₂) hev)

/-- Reporting an event stops the client's view of its wave. That wave is stopped: a running
visible wave has all its events processed. -/
theorem ClientInv.report (h : ClientInv p v) (hE : EventInv p) {j : Nat} {e : Event}
    (he : p.shared.events[j]? = some e) (hst : e.state = .pending) :
    ClientInv ⟨p.waves, p.shared.setEventState j e .reported⟩
      ((Observation.reported e.wave).infer v) := by
  intro w hw hvis
  simp only [Observation.infer]
  by_cases hj : w.lastStopEventId = some j
  · obtain ⟨e', he', hwe⟩ := hE.lastStop w hw j hj
    rw [he] at he'
    cases he'
    have hs : w.state = .stop := by
      by_contra hs
      have hp := hE.running w hw hs (by rw [hvis]; decide) e (List.getElem?_mem he) hwe
      rw [hst] at hp
      cases hp
    rw [hwe, Function.update_same]
    exact ⟨fun h' => absurd hs h', fun _ => ⟨{ e with state := .reported },
      by rw [lastStopEvent_setEventState he, if_pos hj], fun h' => (nomatch h'), fun _ => rfl⟩⟩
  · have hne : w.id ≠ e.wave := fun h' =>
      hj (hE.unprocessed w hw j e he h'.symm (by rw [hst]; decide))
    rw [Function.update_noteq hne]
    exact (h w hw hvis).of_keep rfl rfl (by rw [lastStopEvent_setEventState he, if_neg hj])

/-- Processing a reported event changes nothing the client sees. -/
theorem ClientInv.processed (h : ClientInv p v) {j : Nat} {e : Event}
    (he : p.shared.events[j]? = some e) (hst : e.state = .reported) :
    ClientInv ⟨p.waves, p.shared.setEventState j e .processed⟩ v := by
  intro w hw hvis
  have ha := h w hw hvis
  by_cases hj : w.lastStopEventId = some j
  · refine ⟨ha.running, fun hs => ⟨{ e with state := .processed },
      by rw [lastStopEvent_setEventState he, if_pos hj], fun h' => (nomatch h'), fun _ => ?_⟩⟩
    obtain ⟨e₀, he₀, -, hr⟩ := ha.stopped hs
    rw [show lastStopEvent w p.shared = some e by simp [lastStopEvent, hj, he]] at he₀
    cases he₀
    exact hr (by rw [hst]; decide)
  · exact ha.of_keep rfl rfl (by rw [lastStopEvent_setEventState he, if_neg hj])

/-- A running wave the client has not seen agrees with the view of a new wave. -/
theorem clientAgrees_run {w : Wave} {sh : Shared} (hs : w.state = .run) : ClientAgrees .run w sh :=
  ⟨fun _ => hs.symm, fun h' => absurd (hs.symm.trans h') (by decide)⟩

/-- A new running wave with a fresh id keeps the invariant. -/
theorem ClientInv.create (h : ClientInv p v) {W : Wave} (hid : ∀ w ∈ p.waves, w.id ≠ W.id)
    (hs : W.state = .run) :
    ClientInv ⟨p.waves ++ [W], p.shared⟩ ((Observation.created W.id).infer v) := by
  intro w hw hvis
  simp only [Observation.infer]
  rcases List.mem_append.1 hw with hw | hw
  · rw [Function.update_noteq (hid w hw)]
    exact h w hw hvis
  · obtain rfl := List.mem_singleton.1 hw
    rw [Function.update_same]
    exact clientAgrees_run hs

theorem ClientInv.destroy (h : ClientInv p v) {i : Nat} {ds : Option DisplacedStepping} :
    ClientInv ⟨p.waves.eraseIdx i, releaseBuffer ds p.shared⟩ v := fun w hw hvis =>
  (h w ((List.eraseIdx_sublist _ _).subset hw) hvis).of_keep rfl rfl
    (lastStopEvent_congr rfl (by simp))

/-- One transition keeps every visible wave in agreement with the client's view, updated by
what the transition shows the client. -/
theorem Transition.clientInv (hK : K.ReportsMode) (hr : Reachable A K p) (h : ClientInv p v)
    {o : Observation} (ht : Transition A K p o p') : ClientInv p' (o.infer v) := by
  have hE := hr.eventInv fun r hr => (hK.simulate r hr).1
  have hmem {i : Nat} {w : Wave} (hw : p.waves[i]? = some w) := List.getElem?_mem hw
  cases ht with
  | update u hw hk hu =>
    obtain ⟨hid, he⟩ := Wave.update_events A (hE.running _ (hmem hw)) hu
    exact h.act hE hw hid he.events_append (fun _ _ => rfl) fun hv =>
      Wave.update_agrees A (fun hs => hK.update _ _ (hk hs))
        (h _ (hmem hw) (Wave.update_visibility A hu ▸ hv)) hv hu
  | stop suspend env hw hv _ hsus _ hu =>
    obtain ⟨hid, he⟩ := Wave.waveStop_events A env (hE.running _ (hmem hw)) hu
    exact h.act hE hw hid he.events_append (fun _ _ => rfl) fun _ =>
      Wave.waveStop_agrees A env (hK.suspendOk hsus) (h _ (hmem hw) hv) hv hu
  | resume suspend env mode e hw hv _ _ hsim hu =>
    have hpk := (hr.inv _ (hmem hw)).isParked_of_stop
    obtain ⟨hid, he⟩ := Wave.waveResume_events A env hpk hv (hE.running _ (hmem hw))
      (hE.allProcessed_of_last (hmem hw)) (hK.simulate _ hsim).1 hu
    refine h.act hE hw hid he.events_append (fun _ hne => infer_resume_ne hne) fun hv' => ?_
    rw [infer_resume_self]
    exact Wave.waveResume_agrees A env (hK.simulate _ hsim) hpk (h _ (hmem hw) hv) hv hv' hu
  | report he hst => exact h.report hE he hst
  | processed he hst => exact h.processed he hst
  | displacedSteppingStart denv saved hw hu =>
    obtain ⟨-, hid, hvis, -, -, -, hev⟩ := Wave.displacedSteppingStart_control A hu
    exact h.act hE hw hid ⟨[], by simp [hev]⟩ (fun _ _ => rfl) fun hv =>
      Wave.displacedSteppingStart_agrees A (h _ (hmem hw) (hvis ▸ hv)) hu
  | displacedSteppingStartThrows denv saved hw hu =>
    obtain ⟨rfl, rfl⟩ := Prod.mk.inj_iff.1 (Wave.displacedSteppingStartM_exception A hu)
    exact h.act hE hw rfl ⟨[], by simp⟩ (fun _ _ => rfl) (h _ (hmem hw))
  | displacedSteppingComplete hw hu =>
    obtain ⟨-, ds, -, rfl, rfl⟩ := Wave.displacedSteppingComplete_ok A hu
    exact h.act hE hw (by split_ifs <;> rfl) ⟨[], by simp⟩ (fun _ _ => rfl) fun hv =>
      Wave.displacedSteppingComplete_agrees A (h _ (hmem hw) (by split_ifs at hv <;> exact hv)) hu
  | writeRegister regnum offset valueSize value hw _ hu =>
    obtain ⟨pp, sa, rfl⟩ := Wave.writeRegister_frame A _ hu
    exact h.act hE hw rfl ⟨[], by simp⟩ (fun _ _ => rfl) fun hv =>
      (h _ (hmem hw) hv).of_keep rfl rfl rfl
  | create id queue agent laneCount callbacks hid _
  | createHalted id queue agent laneCount callbacks hid _ => exact h.create hid rfl
  | destroy _ => exact h.destroy
  | release halted hw hv hr =>
    obtain ⟨hs, -, rfl⟩ := (Wave.setVisibility_release hv).1 hr
    exact h.act hE hw rfl ⟨[], by simp⟩ (fun _ hne => Function.update_noteq hne _ _) fun _ => by
      rw [Observation.infer, Function.update_same]
      exact clientAgrees_run hs

/-- Along every run, every visible wave agrees with the client's view of it. -/
theorem Observed.clientInv (hK : K.ReportsMode) (h : Observed A K p v) : ClientInv p v := by
  induction h with
  | init => intro w hw; simp [Process.init] at hw
  | step ho ht ih => exact ht.clientInv hK ho.reachable ih

/-- The sample wave just created, with the client's view of it. -/
theorem observed_sampleProcess (A : Arch) (K : ArchContract) :
    Observed A K sampleProcess ((Observation.created 0).infer fun _ => .run) :=
  .step (.init _) (.create 0 0 0 64 sampleCallbacks (by simp [Process.init])
    (by simp [Process.init]))

/-- `client_visible_state` of a visible wave is the state the client infers from the API, when
`wave_get_state` answers as the client can follow; except while a stop request that interrupted
a single step waits for its command-terminated event to be reported, when it is RUN and the
client's view SINGLE_STEP. -/
theorem observed_clientVisibleState (hK : K.ReportsMode) (hp : Observed A K p v) :
    ∀ w ∈ p.waves, w.visibility = .visible →
      clientVisibleState w p.shared = (if terminatedPending w p.shared then .run else v w.id) ∧
      (terminatedPending w p.shared = true → v w.id = .singleStep) :=
  fun w hw hv => (hp.clientInv hK w hw hv).clientVisibleState_eq

/-- What the hardware answers in the sample single step: the instruction is not simulated, and
a simulated step would be reported stopped with the `SINGLE_STEP` bit, as `modeContract` asks. -/
def sampleStepEnv : SetStateEnv := ⟨some [0], false, false, false, 0, ⟨.stop, [.singleStep]⟩, []⟩

/-- A stop that interrupts a single step is reported RUN: the sample wave, stopped and its stop
event processed, is resumed in single-step mode and asked to stop before the step completes.
`set_state` clears its stop reason and raises a command-terminated event; until the client has
seen it, `client_visible_state` returns RUN, while the client last resumed the wave in
SINGLE_STEP and has seen no stop since. -/
theorem observed_stop_interrupts_single_step :
    ∃ p v, Observed (sampleArch false) modeContract p v ∧
      ∃ w ∈ p.waves, w.visibility = .visible ∧ v w.id = .singleStep ∧
        clientVisibleState w p.shared = .run := by
  have hsim : modeContract.simulate sampleStepEnv.simulatedReport := ⟨rfl, by simp [sampleStepEnv]⟩
  have h₁ := (observed_sampleProcess (sampleArch false) modeContract).step
    (.stop (i := 0) none sampleStepEnv rfl rfl rfl trivial hsim (waveStop_sample false _))
  have h₂ := h₁.step (.report (i := 0) rfl rfl)
  obtain ⟨v₃, h₃⟩ : ∃ v, Observed (sampleArch false) modeContract (sampleStopped false) v :=
    have h₃ := h₂.step (.processed (i := 0) rfl rfl)
    ⟨_, h₃⟩
  have hT : ¬(WaveState.singleStep = .singleStep ∧ (0 : BitVec 64) = 0 ∧
      Wave.terminatingNext (sampleArch false) (sampleStoppedWave false).displacedStepping
        sampleStepEnv.instruction = true) := by
    simp [Wave.terminatingNext, sampleStepEnv, sampleStoppedWave, sampleArch, Wave.init]
  have hset := (@Wave.setState_resume (sampleArch false) sampleStepEnv (sampleStoppedWave false)
    (sampleStopped false).shared _ _ _ rfl (by decide) hT).2
    ⟨.inl rfl, (fun h => nomatch h), _, _, by
      rw [if_neg (by simp [Wave.simulates, sampleStepEnv, sampleStoppedWave, Wave.init])],
      Wave.sendExceptions_zero _, rfl⟩
  have hres := (@Wave.waveResume_ok (sampleArch false) sampleStepEnv (sampleStoppedWave false) _
    (sampleStopped false).shared _ none .singleStep 0 .success).2
    (.inr ⟨by decide, rfl, _, _, rfl, hset⟩)
  have h₄ :=
    h₃.step (.resume (i := 0) none sampleStepEnv .singleStep 0 rfl rfl rfl trivial hsim hres)
  refine ⟨_, _, h₄.step (.stop (i := 0) none sampleStepEnv rfl rfl rfl trivial hsim
    ((Wave.waveStop_ok _ _).2 (.inr (.inr ⟨?_, rfl, rfl, _, _, rfl,
      (Wave.setState_stop _ _ ?_).2 ⟨(fun h => nomatch h), rfl, rfl⟩⟩)))),
    _, List.mem_singleton_self _, rfl, ?_, ?_⟩
  · simp [clientVisibleState, Wave.resumed]
  · simp [Wave.resumed]
  · simp [Observation.infer, ResumeMode.state, raiseEvent, sampleStopped, sampleStoppedWave,
      Wave.init, Wave.resumed]
  · simp [clientVisibleState, lastStopEvent, raiseEvent, Wave.resumed, sampleStopped]

end Dbgapi
