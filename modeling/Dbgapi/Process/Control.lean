import Dbgapi.Process.Events
import Dbgapi.Wave.Exceptions

set_option autoImplicit false

/-! # Who restarts, hides and reports a wave

Besides the client's `amd_dbgapi_wave_stop` and `amd_dbgapi_wave_resume`, a wave is written by
`update`, which runs whenever its queue is suspended, by the displaced-stepping entry points and
by the register accessors. None of them takes a wave out of STOP or changes its visibility, and
an event is only ever enqueued for a wave that was visible:

* only a successful `amd_dbgapi_wave_resume` of a wave takes it out of STOP
  (`run_stopped_stays`);
* visibility has three writers (`transition_visibility`): a new wave is visible or hidden halted
  at launch; the process releases a wave halted at launch with `set_visibility`, which makes it
  visible; and a resume in single-step mode hides a wave when `set_state` finds the instruction
  terminating and calls `terminate`. So a hidden wave stays hidden until the client is shown it,
  and no event of it is enqueued meanwhile (`run_hidden_stays`).

What an operation does to its wave is `Wave.Holds` (the id, the visibility and a stopped state
kept) and `OwnEvents` (the queue grows by pending events of the wave only).
`Transition.wave_cases` and `Transition.events_cases` say it for every transition; the run lemmas
follow by induction over the labelled runs `Run`.
-/

namespace Dbgapi

/-! ## The event queue -/

/-- An operation on the wave `id` leaves the queued events as they are and enqueues pending events
of the wave only. -/
def OwnEvents (id : Nat) (sh sh' : Shared) : Prop :=
  ∃ l : List Event, sh'.events = sh.events ++ l ∧ ∀ e ∈ l, e.wave = id ∧ e.state = .pending

theorem ownEvents_of_eq {id : Nat} {sh sh' : Shared} (h : sh'.events = sh.events) :
    OwnEvents id sh sh' :=
  ⟨[], by rw [h, List.append_nil], fun _ he => absurd he (List.not_mem_nil _)⟩

theorem OwnEvents.trans {id : Nat} {sh₁ sh₂ sh₃ : Shared} (h₁ : OwnEvents id sh₁ sh₂)
    (h₂ : OwnEvents id sh₂ sh₃) : OwnEvents id sh₁ sh₃ := by
  obtain ⟨l₁, h₁, hl₁⟩ := h₁
  obtain ⟨l₂, h₂, hl₂⟩ := h₂
  exact ⟨l₁ ++ l₂, by rw [h₂, h₁, List.append_assoc],
    fun e he => (List.mem_append.1 he).elim (hl₁ e) (hl₂ e)⟩

theorem ownEvents_raiseEvent (kind : EventKind) (w : Wave) (sh : Shared) :
    OwnEvents w.id sh (raiseEvent kind w sh).2 :=
  ⟨[⟨kind, w.id, .pending⟩], rfl, by simp⟩

/-- Moving an event to another state keeps the wave of every event. -/
theorem map_wave_setState {l : List Event} {j : Nat} {e : Event} (he : l[j]? = some e)
    (s : EventState) : (l.set j { e with state := s }).map Event.wave = l.map Event.wave := by
  apply List.ext_getElem?
  intro k
  by_cases hk : j = k
  · subst hk
    rw [List.getElem?_map, List.getElem?_map, List.getElem?_set_self
      (List.getElem?_eq_some_iff.1 he).1, he]
    rfl
  · rw [List.getElem?_map, List.getElem?_map, List.getElem?_set_ne hk]

/-! ## What one operation does to its wave -/

/-- `w'` is `w` as far as restarting and hiding go: the same wave, with the same visibility, and
still stopped if `w` was. -/
structure Wave.Holds (w w' : Wave) : Prop where
  id : w'.id = w.id
  visibility : w'.visibility = w.visibility
  stop : w.state = .stop → w'.state = .stop

theorem Wave.Holds.refl (w : Wave) : w.Holds w := ⟨rfl, rfl, fun h => h⟩

namespace Wave

variable (A : Arch) (env : SetStateEnv) {w w' : Wave} {sh sh' : Shared}

/-- `update` keeps the wave's id and visibility and leaves a stopped wave stopped; it enqueues at
most a stop event of the wave, and none for a hidden wave. -/
theorem update_control {u : UpdateEnv} (h : w.update A u sh = .ok (w', sh')) :
    w.Holds w' ∧ OwnEvents w.id sh sh' ∧ (w.visibility ≠ .visible → sh'.events = sh.events) := by
  obtain ⟨pp, sa, h⟩ := update_ok A h
  split_ifs at h with hs hr
  · obtain ⟨rfl, rfl⟩ := h
    exact ⟨⟨rfl, rfl, fun _ => hs⟩, ownEvents_of_eq rfl, fun _ => rfl⟩
  · obtain ⟨rfl, rfl⟩ := eq_raiseEvent_iff.1 h.2
    exact ⟨⟨rfl, rfl, fun h' => absurd h' hs⟩, ownEvents_raiseEvent _ _ _,
      fun hv => absurd hr.2.1 hv⟩
  · obtain ⟨rfl, rfl⟩ := Prod.mk.inj_iff.1 h.2
    exact ⟨⟨rfl, rfl, fun h' => absurd h' hs⟩, ownEvents_of_eq rfl, fun _ => rfl⟩

theorem suspendQueue_control {suspend : Option UpdateEnv}
    (h : w.suspendQueue A suspend sh = .ok (w', sh')) :
    w.Holds w' ∧ OwnEvents w.id sh sh' := by
  cases suspend with
  | none =>
    simp only [suspendQueue, except_pure, Except.ok.injEq, Prod.mk.injEq] at h
    obtain ⟨rfl, rfl⟩ := h
    exact ⟨Holds.refl w, ownEvents_of_eq rfl⟩
  | some u => exact (update_control A h).imp_right And.left

/-- The transition proper keeps the wave's id and visibility, and enqueues at most its stop
event. -/
theorem changeState_control {prev s : WaveState} {w₁ : Wave} {sh₁ : Shared} (hne : s ≠ prev)
    (h : changeState A prev s w sh = .ok (w₁, sh₁)) :
    w₁.id = w.id ∧ w₁.visibility = w.visibility ∧ OwnEvents w.id sh sh₁ := by
  by_cases hs : s = .stop
  · subst hs
    obtain ⟨-, -, hr⟩ := (changeState_stop A (Ne.symm hne)).1 h
    obtain ⟨rfl, rfl⟩ := eq_raiseEvent_iff.1 hr
    exact ⟨rfl, rfl, ownEvents_raiseEvent _ _ _⟩
  · obtain ⟨-, -, rfl, rfl⟩ := (changeState_resume A hs).1 h
    exact ⟨rfl, rfl, ownEvents_of_eq rfl⟩

/-- The end of a `set_state` that changes the state: the transition proper, a simulation, the
exceptions and the device memory violation check keep the wave's id and visibility and enqueue
events of the wave only. -/
theorem setState_tail_control {s : WaveState} {e : BitVec 64} {w₁ w₂ : Wave}
    {sh₁ sh₂ sh₃ : Shared} (hse : s ≠ w.state)
    (hc : changeState A w.state s { w with stopRequested := s == .stop }
      { sh with driverLog := sh.driverLog ++ [.waveSetState w.id s e] } = .ok (w₁, sh₁))
    (hsim : simulateStep A env w₁ sh₁ = .ok (w₂, sh₂) ∨ (w₂, sh₂) = (w₁, sh₁))
    (he : sendExceptions A e w₂ sh₂ = .ok sh₃) :
    w₂.id = w.id ∧ w₂.visibility = w.visibility ∧
      OwnEvents w.id sh (clearDeviceMemoryViolation A s env.others w₂ sh₃) := by
  obtain ⟨hid₁, hv₁, hev₁⟩ := changeState_control A hse hc
  have ⟨hid₂, hv₂, hev₂⟩ : w₂.id = w₁.id ∧ w₂.visibility = w₁.visibility ∧
      OwnEvents w₁.id sh₁ sh₂ := by
    rcases hsim with hsim | hsim
    · obtain ⟨-, pp, sa, hr⟩ := simulateStep_ok A env hsim
      obtain ⟨rfl, rfl⟩ := eq_raiseEvent_iff.1 hr
      exact ⟨rfl, rfl, ownEvents_raiseEvent _ _ _⟩
    · obtain ⟨rfl, rfl⟩ := Prod.mk.inj_iff.1 hsim
      exact ⟨rfl, rfl, ownEvents_of_eq rfl⟩
  obtain ⟨log, rfl⟩ := sendExceptions_ok A he
  refine ⟨hid₂.trans hid₁, hv₂.trans hv₁, ?_⟩
  rw [hid₁] at hev₂
  exact (ownEvents_of_eq rfl).trans (hev₁.trans (hev₂.trans
    (ownEvents_of_eq (clearDeviceMemoryViolation_events A s env.others))))

/-- A `set_state` into a state other than SINGLE_STEP never terminates the wave: it keeps the
wave's id and visibility and enqueues events of the wave only. -/
theorem setState_control_of_ne {s : WaveState} {e : BitVec 64} (hs : s ≠ .singleStep)
    (h : w.setState A env s e sh = .ok (w', sh')) :
    w'.id = w.id ∧ w'.visibility = w.visibility ∧ OwnEvents w.id sh sh' := by
  rcases setState_ok A env h with ⟨-, rfl, rfl⟩ | ⟨h', -⟩ |
    ⟨hse, w₁, sh₁, w₂, sh₂, sh₃, hc, hsim, he, rfl, rfl⟩
  · exact ⟨rfl, rfl, ownEvents_of_eq rfl⟩
  · exact absurd h' hs
  · exact setState_tail_control A env hse hc hsim he

/-- `terminate` hides the wave at its terminating instruction; its `set_state (RUN)` enqueues
events of the wave only. -/
theorem terminate_control {w₁ : Wave} {sh₁ : Shared} (h : terminate A env w sh = .ok (w₁, sh₁)) :
    w₁.id = w.id ∧ w₁.visibility = .hiddenAtTerminatingInstruction ∧ OwnEvents w.id sh sh₁ := by
  rw [terminate] at h
  simp only [except_bind_eq_ok] at h
  obtain ⟨w₃, h₃, w₄, h₄, h⟩ := h
  obtain ⟨pp, sa, rfl⟩ := writeRegister64_frame A _ h₃
  obtain rfl := setVisibility_ok h₄
  obtain ⟨hid, hv, hev⟩ := setState_control_of_ne A env (by decide) h
  exact ⟨hid, hv, (ownEvents_of_eq (releaseBuffer_events _ _)).trans hev⟩

/-- Every `set_state` keeps the wave's id and enqueues events of the wave only; it keeps the
visibility, unless a single step onto a terminating instruction hides the wave. -/
theorem setState_control {s : WaveState} {e : BitVec 64}
    (h : w.setState A env s e sh = .ok (w', sh')) :
    w'.id = w.id ∧ OwnEvents w.id sh sh' ∧
      (w'.visibility = w.visibility ∨
        s = .singleStep ∧ w'.visibility = .hiddenAtTerminatingInstruction) := by
  rcases setState_ok A env h with ⟨-, rfl, rfl⟩ | ⟨rfl, -, w₁, sh₁, ht, hr⟩ |
    ⟨hse, w₁, sh₁, w₂, sh₂, sh₃, hc, hsim, he, rfl, rfl⟩
  · exact ⟨rfl, ownEvents_of_eq rfl, .inl rfl⟩
  · obtain ⟨rfl, rfl⟩ := eq_raiseEvent_iff.1 hr
    obtain ⟨hid, hv, hev⟩ := terminate_control A env ht
    exact ⟨hid, hev.trans (hid ▸ ownEvents_raiseEvent _ _ _), .inr ⟨rfl, hv⟩⟩
  · obtain ⟨hid, hv, hev⟩ := setState_tail_control A env hse hc hsim he
    exact ⟨hid, hev, .inl hv⟩

/-- `amd_dbgapi_wave_stop` keeps the wave's id and visibility, leaves a stopped wave stopped, and
enqueues events of the wave only. -/
theorem waveStop_control {suspend : Option UpdateEnv} {st : Status}
    (h : w.waveStop A suspend env sh = .ok (st, w', sh')) :
    w.Holds w' ∧ OwnEvents w.id sh sh' := by
  rcases (waveStop_ok A env).1 h with
    ⟨-, -, rfl, rfl⟩ | ⟨-, -, -, rfl, rfl⟩ | ⟨-, -, -, w₁, sh₁, h₁, h₂⟩
  · exact ⟨Holds.refl _, ownEvents_of_eq rfl⟩
  · exact ⟨Holds.refl _, ownEvents_of_eq rfl⟩
  obtain ⟨hh, hev₁⟩ := suspendQueue_control A h₁
  obtain ⟨hid, hv, hev₂⟩ := setState_control_of_ne A env (by decide) h₂
  refine ⟨⟨hid.trans hh.id, hv.trans hh.visibility, fun hs => ?_⟩, hev₁.trans (hh.id ▸ hev₂)⟩
  have hs₁ := hh.stop hs
  rw [← hs₁, setState_self A env (.inl rfl)] at h₂
  cases h₂
  exact hs₁

/-- `amd_dbgapi_wave_resume` keeps the wave's id and enqueues events of the wave only. A call
that does not return SUCCESS leaves the wave alone; one that does keeps its visibility, unless
it single-steps the wave onto a terminating instruction, which hides it. -/
theorem waveResume_control {suspend : Option UpdateEnv} {mode : ResumeMode} {e : BitVec 64}
    {st : Status} (h : w.waveResume A suspend env mode e sh = .ok (st, w', sh')) :
    w'.id = w.id ∧ OwnEvents w.id sh sh' ∧ (st ≠ .success → w' = w ∧ sh' = sh) ∧
      (w'.visibility = w.visibility ∨
        mode = .singleStep ∧ w'.visibility = .hiddenAtTerminatingInstruction) := by
  rcases (waveResume_ok A env).1 h with ⟨s, -, rfl, rfl, rfl⟩ | ⟨-, rfl, w₁, sh₁, h₁, h₂⟩
  · exact ⟨rfl, ownEvents_of_eq rfl, fun _ => ⟨rfl, rfl⟩, .inl rfl⟩
  obtain ⟨hh, hev₁⟩ := suspendQueue_control A h₁
  obtain ⟨hid, hev₂, hv⟩ := setState_control A env h₂
  refine ⟨hid.trans hh.id, hev₁.trans (hh.id ▸ hev₂), fun h' => absurd rfl h', ?_⟩
  rcases hv with hv | ⟨hm, hv⟩
  · exact .inl (hv.trans hh.visibility)
  · refine .inr ⟨?_, hv⟩
    cases mode
    · simp at hm
    · rfl

end Wave

/-! ## What one transition does -/

variable {A : Arch} {K : ArchContract} {p p' : Process} {o : Observation}

/-- A wave of `l.set i w₁`, where `w₁` holds to the `i`-th wave of `l`, holds to a wave of `l`. -/
theorem exists_holds_of_mem_set {l : List Wave} {i : Nat} {w w₁ w' : Wave} (hw : l[i]? = some w)
    (hw' : w' ∈ l.set i w₁) (h : w.Holds w₁) : ∃ w₀ ∈ l, w₀.Holds w' := by
  rcases List.mem_or_eq_of_mem_set hw' with h' | rfl
  · exact ⟨w', h', Wave.Holds.refl w'⟩
  · exact ⟨w, List.getElem?_mem hw, h⟩

/-- Every wave after a transition holds to a wave before it, except the wave of a successful
`amd_dbgapi_wave_resume`, which was visible and is still visible or was single-stepped onto a
terminating instruction, a wave the transition creates, visible or halted at launch, and a wave
halted at launch that it releases. -/
theorem Transition.wave_cases (ht : Transition A K p o p') {w' : Wave} (hw' : w' ∈ p'.waves) :
    (∃ w ∈ p.waves, w.Holds w') ∨
    (∃ w ∈ p.waves, w'.id = w.id ∧ w.visibility = .visible ∧ ∃ mode, o = .resumed w.id mode ∧
      (w'.visibility = .visible ∨
        mode = .singleStep ∧ w'.visibility = .hiddenAtTerminatingInstruction)) ∨
    (o = .created w'.id ∧
      ((∀ w ∈ p.waves, w.id ≠ w'.id) ∧
          (w'.visibility = .visible ∨ w'.visibility = .hiddenHaltedAtLaunch) ∨
        ∃ w ∈ p.waves, w'.id = w.id ∧ w.visibility = .hiddenHaltedAtLaunch ∧
          w'.visibility = .visible)) := by
  cases ht with
  | update u hw _ hu => exact .inl (exists_holds_of_mem_set hw hw' (Wave.update_control A hu).1)
  | stop suspend env hw _ _ _ _ hu =>
    exact .inl (exists_holds_of_mem_set hw hw' (Wave.waveStop_control A env hu).1)
  | @resume i w w₁ _ st suspend env mode e hw hv _ _ _ hu =>
    obtain ⟨hid, -, hst, hvis⟩ := Wave.waveResume_control A env hu
    by_cases hs : st = .success
    · rcases List.mem_or_eq_of_mem_set hw' with h' | rfl
      · exact .inl ⟨w', h', Wave.Holds.refl w'⟩
      · refine .inr (.inl ⟨w, List.getElem?_mem hw, hid, hv, mode, by simp [hs], ?_⟩)
        rwa [← hv]
    · obtain ⟨rfl, -⟩ := hst hs
      exact .inl (exists_holds_of_mem_set hw hw' (Wave.Holds.refl _))
  | report _ _ | processed _ _ => exact .inl ⟨w', hw', Wave.Holds.refl w'⟩
  | displacedSteppingStart denv saved hw hu =>
    obtain ⟨hs, hid, hv, hs', -⟩ := Wave.displacedSteppingStart_control A hu
    exact .inl (exists_holds_of_mem_set hw hw' ⟨hid, hv, fun _ => hs' ▸ hs⟩)
  | displacedSteppingStartThrows denv saved hw hu =>
    obtain ⟨rfl, rfl⟩ := Prod.mk.inj_iff.1 (Wave.displacedSteppingStartM_exception A hu)
    exact .inl (exists_holds_of_mem_set hw hw' (Wave.Holds.refl _))
  | displacedSteppingComplete hw hu =>
    obtain ⟨-, ds, -, -, rfl⟩ := Wave.displacedSteppingComplete_ok A hu
    refine .inl (exists_holds_of_mem_set hw hw' ⟨?_, ?_, fun hs => ?_⟩) <;> split_ifs <;>
      first | rfl | exact hs
  | writeRegister regnum offset valueSize value hw _ hu =>
    obtain ⟨pp, sa, rfl⟩ := Wave.writeRegister_frame A _ hu
    exact .inl (exists_holds_of_mem_set hw hw' ⟨rfl, rfl, fun h => h⟩)
  | create id queue agent laneCount callbacks hid _
  | createHalted id queue agent laneCount callbacks hid _ =>
    rcases List.mem_append.1 hw' with h' | h'
    · exact .inl ⟨w', h', Wave.Holds.refl w'⟩
    · rw [List.mem_singleton.1 h']
      exact .inr (.inr ⟨rfl, .inl ⟨hid, by simp [Wave.init]⟩⟩)
  | destroy _ => exact .inl ⟨w', List.mem_of_mem_eraseIdx hw', Wave.Holds.refl w'⟩
  | @release i w w₁ halted hw hv hr =>
    obtain ⟨-, -, rfl⟩ := (Wave.setVisibility_release hv).1 hr
    rcases List.mem_or_eq_of_mem_set hw' with h' | rfl
    · exact .inl ⟨w', h', Wave.Holds.refl w'⟩
    · exact .inr (.inr ⟨rfl, .inr ⟨w, List.getElem?_mem hw, rfl, hv, rfl⟩⟩)

/-- What a transition does to the event queue: it enqueues pending events of waves that were
visible, or the client moves one event forward, and is told of it when it was pending. -/
theorem Transition.events_cases (ht : Transition A K p o p') :
    (∃ l, p'.shared.events = p.shared.events ++ l ∧
      ∀ e ∈ l, e.state = .pending ∧ ∃ w ∈ p.waves, w.id = e.wave ∧ w.visibility = .visible) ∨
    (∃ j e s, p.shared.events[j]? = some e ∧ e.state < s ∧
      (e.state = .pending → o = .reported e.wave) ∧
      p'.shared.events = p.shared.events.set j { e with state := s }) := by
  have own {w : Wave} (hw : w ∈ p.waves) (hv : w.visibility = .visible)
      (h : OwnEvents w.id p.shared p'.shared) :
      ∃ l, p'.shared.events = p.shared.events ++ l ∧
        ∀ e ∈ l, e.state = .pending ∧ ∃ w ∈ p.waves, w.id = e.wave ∧ w.visibility = .visible := by
    obtain ⟨l, h, hl⟩ := h
    exact ⟨l, h, fun e he => ⟨(hl e he).2, w, hw, (hl e he).1.symm, hv⟩⟩
  have none (h : p'.shared.events = p.shared.events) :
      ∃ l, p'.shared.events = p.shared.events ++ l ∧
        ∀ e ∈ l, e.state = .pending ∧ ∃ w ∈ p.waves, w.id = e.wave ∧ w.visibility = .visible :=
    ⟨[], by rw [h, List.append_nil], fun _ he => absurd he (List.not_mem_nil _)⟩
  cases ht with
  | @update i w w₁ _ u hw _ hu =>
    obtain ⟨-, hev, hhid⟩ := Wave.update_control A hu
    by_cases hv : w.visibility = .visible
    · exact .inl (own (List.getElem?_mem hw) hv hev)
    · exact .inl (none (hhid hv))
  | stop suspend env hw hv _ _ _ hu =>
    exact .inl (own (List.getElem?_mem hw) hv (Wave.waveStop_control A env hu).2)
  | resume suspend env mode e hw hv _ _ _ hu =>
    exact .inl (own (List.getElem?_mem hw) hv (Wave.waveResume_control A env hu).2.1)
  | report he hst => exact .inr ⟨_, _, _, he, by rw [hst]; decide, fun _ => rfl, rfl⟩
  | processed he hst =>
    exact .inr ⟨_, _, _, he, by rw [hst]; decide, fun h => absurd (hst.symm.trans h) (by decide),
      rfl⟩
  | displacedSteppingStart denv saved hw hu =>
    exact .inl (none (Wave.displacedSteppingStart_control A hu).2.2.2.2.2.2)
  | displacedSteppingStartThrows denv saved hw hu =>
    obtain ⟨-, rfl⟩ := Prod.mk.inj_iff.1 (Wave.displacedSteppingStartM_exception A hu)
    exact .inl (none rfl)
  | displacedSteppingComplete hw hu =>
    obtain ⟨-, ds, -, rfl, -⟩ := Wave.displacedSteppingComplete_ok A hu
    exact .inl (none rfl)
  | writeRegister _ _ _ _ _ _ _ | create _ _ _ _ _ _ _ | createHalted _ _ _ _ _ _ _
  | release _ _ _ _ => exact .inl (none rfl)
  | destroy _ => exact .inl (none (releaseBuffer_events _ _))

/-- No transition enqueues an event of a wave whose waves are all hidden. -/
theorem Transition.count_hidden (ht : Transition A K p o p') {x : Nat}
    (hx : ∀ w ∈ p.waves, w.id = x → w.visibility ≠ .visible) :
    (p'.shared.events.map Event.wave).count x = (p.shared.events.map Event.wave).count x := by
  rcases ht.events_cases with ⟨l, hl, hnew⟩ | ⟨i, e, s, he, -, -, hset⟩
  · have hnot : x ∉ l.map Event.wave := fun hm => by
      obtain ⟨e, he, rfl⟩ := List.mem_map.1 hm
      obtain ⟨-, w, hw, hid, hv⟩ := hnew e he
      exact hx w hw hid hv
    rw [hl, List.map_append, List.count_append, List.count_eq_zero_of_not_mem hnot, Nat.add_zero]
  · rw [hset, map_wave_setState he s]

/-- Visibility has three writers. Across a transition a wave keeps the visibility it had, or is
new, with a fresh id, and visible or hidden halted at launch, or was halted at launch and is
released visible, which the client sees as a new wave, or was visible and a successful
`amd_dbgapi_wave_resume` single-steps it onto a terminating instruction, which hides it there. -/
theorem transition_visibility (ht : Transition A K p o p') {w' : Wave} (hw' : w' ∈ p'.waves) :
    (∃ w ∈ p.waves, w.id = w'.id ∧ w.visibility = w'.visibility) ∨
    (o = .created w'.id ∧ (∀ w ∈ p.waves, w.id ≠ w'.id) ∧
      (w'.visibility = .visible ∨ w'.visibility = .hiddenHaltedAtLaunch)) ∨
    (∃ w ∈ p.waves, w.id = w'.id ∧ w.visibility = .hiddenHaltedAtLaunch ∧
      w'.visibility = .visible ∧ o = .created w'.id) ∨
    (∃ w ∈ p.waves, w.id = w'.id ∧ w.visibility = .visible ∧
      w'.visibility = .hiddenAtTerminatingInstruction ∧ o = .resumed w'.id .singleStep) := by
  rcases ht.wave_cases hw' with ⟨w, hw, hh⟩ | ⟨w, hw, hid, hv, mode, rfl, hvis⟩ |
    ⟨ho, hnew | ⟨w, hw, hid, hv, hvis⟩⟩
  · exact .inl ⟨w, hw, hh.id.symm, hh.visibility.symm⟩
  · rcases hvis with hvis | ⟨rfl, hvis⟩
    · exact .inl ⟨w, hw, hid.symm, hv.trans hvis.symm⟩
    · exact .inr (.inr (.inr ⟨w, hw, hid.symm, hv, hvis, by rw [hid]⟩))
  · exact .inr (.inl ⟨ho, hnew⟩)
  · exact .inr (.inr (.inl ⟨w, hw, hid.symm, hv, hvis, ho⟩))

/-- The stopped sample wave refuses a resume with an exception bit the library does not
define, and the process is left as it was. -/
theorem refusedResume_sample :
    Transition (sampleArch true) anyContract (sampleStopped true) .silent (sampleStopped true) :=
  .resume (p := sampleStopped true) (i := 0) none sampleStopEnv .normal (1 <<< 63) rfl rfl rfl
    trivial trivial rfl

/-- Two sample waves halted at launch, waves `0` and `1`. -/
def sampleLaunchHalted : Process :=
  ⟨[{ Wave.init 0 0 0 64 sampleCallbacks with visibility := .hiddenHaltedAtLaunch },
    { Wave.init 1 0 0 64 sampleCallbacks with visibility := .hiddenHaltedAtLaunch }],
    (Process.init fun _ => 0).shared⟩

/-- The process releases wave `1`, which the client sees appear. -/
theorem release_sample :
    Transition (sampleArch true) anyContract sampleLaunchHalted (.created 1)
      ⟨[{ Wave.init 0 0 0 64 sampleCallbacks with visibility := .hiddenHaltedAtLaunch },
        Wave.init 1 0 0 64 sampleCallbacks], (Process.init fun _ => 0).shared⟩ :=
  .release (p := sampleLaunchHalted) (i := 1) true rfl rfl
    ((Wave.setVisibility_release rfl).2 ⟨rfl, rfl, rfl⟩)

theorem transition_visibility_sample :
    (∃ w ∈ sampleLaunchHalted.waves, w.id = 1 ∧ w.visibility = .visible) ∨
    (Observation.created 1 = .created 1 ∧ (∀ w ∈ sampleLaunchHalted.waves, w.id ≠ 1) ∧
      (Visibility.visible = .visible ∨ Visibility.visible = .hiddenHaltedAtLaunch)) ∨
    (∃ w ∈ sampleLaunchHalted.waves, w.id = 1 ∧ w.visibility = .hiddenHaltedAtLaunch ∧
      Visibility.visible = .visible ∧ Observation.created 1 = .created 1) ∨
    (∃ w ∈ sampleLaunchHalted.waves, w.id = 1 ∧ w.visibility = .visible ∧
      Visibility.visible = .hiddenAtTerminatingInstruction ∧
      Observation.created 1 = .resumed 1 .singleStep) :=
  transition_visibility release_sample (List.mem_cons_of_mem _ (List.mem_singleton_self _))

/-! ## Runs -/

/-- A run of a process: its transitions one after another, with what the client sees of each. -/
inductive Run (A : Arch) (K : ArchContract) : Process → List Observation → Process → Prop
  | refl (p : Process) : Run A K p [] p
  | step {p p' q : Process} {o : Observation} {os : List Observation} :
      Transition A K p o p' → Run A K p' os q → Run A K p (o :: os) q

/-- Only a successful `amd_dbgapi_wave_resume` of a wave takes it out of STOP: over a run in
which the client never resumes the wave `x` and no wave `x` is created, a stopped wave `x` stays
stopped, whatever `update`, the other waves' stops and resumes, displaced stepping and register
writes do. -/
theorem run_stopped_stays {q : Process} {os : List Observation} {x : Nat} (hr : Run A K p os q)
    (hp : ∀ w ∈ p.waves, w.id = x → w.state = .stop)
    (hres : ∀ mode, Observation.resumed x mode ∉ os) (hcr : Observation.created x ∉ os) :
    ∀ w ∈ q.waves, w.id = x → w.state = .stop := by
  induction hr with
  | refl => exact hp
  | @step p p' q o os ht _ ih =>
    refine ih (fun w' hw' hid => ?_) (fun mode h => hres mode (.tail _ h))
      (fun h => hcr (.tail _ h))
    rcases ht.wave_cases hw' with ⟨w, hw, hh⟩ | ⟨w, hw, hid', -, mode, rfl, -⟩ | ⟨rfl, -⟩
    · exact hh.stop (hp w hw (hh.id ▸ hid))
    · rw [← hid, hid'] at hres
      exact (hres mode (List.mem_cons_self _ _)).elim
    · subst hid
      exact (hcr (List.mem_cons_self _ _)).elim

theorem run_stopped_stays_sample :
    ∃ q, Run (sampleArch true) anyContract (sampleStopped true) [.silent] q ∧
      ∀ w ∈ q.waves, w.id = 0 → w.state = .stop :=
  have hr := Run.step refusedResume_sample (.refl _)
  ⟨_, hr, run_stopped_stays hr (by decide) (by simp) (by simp)⟩

/-- A hidden wave stays hidden until the client is shown it: over a run in which no wave `x`
appears (none is created and none halted at launch is released, both of which the client sees as
`created x`), waves `x` that all have one visibility other than visible keep it, and no event
of a wave `x` is enqueued. -/
theorem run_hidden_stays {q : Process} {os : List Observation} {x : Nat} {v : Visibility}
    (hr : Run A K p os q) (hv : v ≠ .visible) (hp : ∀ w ∈ p.waves, w.id = x → w.visibility = v)
    (hcr : Observation.created x ∉ os) :
    (∀ w ∈ q.waves, w.id = x → w.visibility = v) ∧
      (q.shared.events.map Event.wave).count x = (p.shared.events.map Event.wave).count x := by
  induction hr with
  | refl => exact ⟨hp, rfl⟩
  | @step p p' q o os ht _ ih =>
    have hp' : ∀ w ∈ p'.waves, w.id = x → w.visibility = v := by
      intro w' hw' hid
      rcases ht.wave_cases hw' with ⟨w, hw, hh⟩ | ⟨w, hw, hid', hvw, -⟩ | ⟨rfl, -⟩
      · exact hh.visibility ▸ hp w hw (hh.id ▸ hid)
      · exact absurd (hvw ▸ hp w hw (hid'.symm.trans hid)) (Ne.symm hv)
      · subst hid
        exact (hcr (List.mem_cons_self _ _)).elim
    obtain ⟨hq, hcount⟩ := ih hp' (fun h => hcr (.tail _ h))
    exact ⟨hq, hcount.trans (ht.count_hidden fun w hw hid => (hp w hw hid).trans_ne hv)⟩

/-- Wave `0` stays halted at launch, and gets no event, while the process releases wave `1`. -/
theorem run_hidden_stays_sample :
    ∃ q, Run (sampleArch true) anyContract sampleLaunchHalted [.created 1] q ∧
      (∀ w ∈ q.waves, w.id = 0 → w.visibility = .hiddenHaltedAtLaunch) ∧
      (q.shared.events.map Event.wave).count 0 =
        (sampleLaunchHalted.shared.events.map Event.wave).count 0 :=
  have hr := Run.step release_sample (.refl _)
  ⟨_, hr, run_hidden_stays hr (by decide) (by decide) (by simp)⟩

end Dbgapi
