import Dbgapi.Process.Invariant
import Dbgapi.Wave.Events

set_option autoImplicit false

/-! # No stop is lost

The event invariant (`EventInv`) of a process: wave ids are unique, a wave's last stop event is
an event of the wave, every event of a wave that the client has not processed is the wave's last
stop event, and a running wave that is not hidden at a terminating instruction has all its
events processed. The last part holds because a stop event is raised only for a visible wave
that then stays stopped, or hidden at its terminating instruction, until a resume, and
`amd_dbgapi_wave_resume` resumes a wave only once its last stop event is processed; it needs the
architecture to report STOP after a simulated single step, as `set_state` then leaves the wave in
the reported state with a pending stop event. A wave halted at launch gets no event while hidden,
so it has none to process when it is released.

Each step either acts on one wave with an `EventEffect`, or moves one event forward, or creates a
wave with a fresh id, or removes waves (`Step.event_cases`); the invariant follows by induction
over runs. So a wave never has two unprocessed events, and when a step names a new last stop
event for a wave, the one it named before has been processed.
-/

namespace Dbgapi

/-- The event invariant of a process. -/
structure EventInv (p : Process) : Prop where
  /-- Wave ids are unique. -/
  nodup : (p.waves.map Wave.id).Nodup
  /-- A wave's last stop event is an event of the wave. -/
  lastStop : ∀ w ∈ p.waves, ∀ j, w.lastStopEventId = some j →
    ∃ e, p.shared.events[j]? = some e ∧ e.wave = w.id
  /-- Every unprocessed event of a wave is its last stop event. -/
  unprocessed : ∀ w ∈ p.waves, ∀ j e, p.shared.events[j]? = some e → e.wave = w.id →
    e.state ≠ .processed → w.lastStopEventId = some j
  /-- A running wave that is not hidden at a terminating instruction has all its events
  processed. -/
  running : ∀ w ∈ p.waves, w.state ≠ .stop → w.visibility ≠ .hiddenAtTerminatingInstruction →
    AllProcessed p.shared.events w.id

variable {A : Arch} {K : ArchContract} {p p' : Process}

/-! ## Lists of waves with unique ids -/

theorem map_id_set {l : List Wave} {i : Nat} {w w' : Wave} (hw : l[i]? = some w)
    (hid : w'.id = w.id) : (l.set i w').map Wave.id = l.map Wave.id := by
  apply List.ext_getElem?
  intro k
  by_cases hk : i = k
  · subst hk
    obtain ⟨hi, rfl⟩ := List.getElem?_eq_some_iff.1 hw
    simp [hid, hi]
  · simp [List.getElem?_set, hk]

/-- A wave of `l.set i w'` is `w'` or a wave of `l` with another id. -/
theorem mem_set_cases {l : List Wave} {i : Nat} {w' w₂ : Wave}
    (hl : ((l.set i w').map Wave.id).Nodup) (hi : i < l.length) (h : w₂ ∈ l.set i w') :
    w₂ = w' ∨ (w₂ ∈ l ∧ w₂.id ≠ w'.id) := by
  by_cases hid : w₂.id = w'.id
  · exact .inl (List.inj_on_of_nodup_map hl h (List.mem_iff_getElem?.2 ⟨i, by simp [hi]⟩) hid)
  · exact .inr ⟨(List.mem_or_eq_of_mem_set h).resolve_right (fun e => hid (e ▸ rfl)), hid⟩

theorem getElem?_concat_eq_some {α : Type} {l : List α} {x e : α} {j : Nat}
    (h : (l ++ [x])[j]? = some e) : l[j]? = some e ∨ (j = l.length ∧ e = x) := by
  rcases Nat.lt_or_ge j l.length with hj | hj
  · exact .inl (by rwa [List.getElem?_append_left hj] at h)
  · rw [List.getElem?_append_right hj] at h
    cases hk : j - l.length with
    | zero =>
      simp only [hk, List.getElem?_cons_zero, Option.some.injEq] at h
      exact .inr ⟨by omega, h.symm⟩
    | succ n => simp [hk] at h

/-! ## What a step does to the events -/

theorem EventInv.allProcessed_of_last (h : EventInv p) {w : Wave} (hw : w ∈ p.waves)
    (hl : ∀ ev, lastStopEvent w p.shared = some ev → ev.state = .processed) :
    AllProcessed p.shared.events w.id := by
  intro e he hew
  by_contra hne
  obtain ⟨j, hj⟩ := List.mem_iff_getElem?.1 he
  exact hne (hl e (by simp [lastStopEvent, h.unprocessed w hw j e hj hew hne, hj]))

/-- One step acts on one wave with an `EventEffect`, moves one unprocessed event forward, creates
a wave with a fresh id and no stop event, or removes waves. -/
theorem Step.event_cases (hK : ∀ r, K.simulate r → r.state = .stop) (h : EventInv p)
    (hp : ∀ w ∈ p.waves, w.state = .stop → w.isParked = A.parkStoppedWaves)
    (hs : Step A K p p') :
    (∃ i w w', p.waves[i]? = some w ∧ p'.waves = p.waves.set i w' ∧ w'.id = w.id ∧
      EventEffect w w' p.shared p'.shared) ∨
    (p'.waves = p.waves ∧ ∃ j e s, p.shared.events[j]? = some e ∧ e.state < s ∧
      p'.shared.events = p.shared.events.set j { e with state := s }) ∨
    (p'.shared.events = p.shared.events ∧ ∃ W : Wave, (∀ w ∈ p.waves, w.id ≠ W.id) ∧
      (∀ e ∈ p.shared.events, e.wave ≠ W.id) ∧ W.lastStopEventId = none ∧
      p'.waves = p.waves ++ [W]) ∨
    (p'.shared.events = p.shared.events ∧ p'.waves.Sublist p.waves) := by
  have hrun {w : Wave} (hw : w ∈ p.waves) := h.running w hw
  obtain ⟨o, hs⟩ := hs
  cases hs with
  | update u hw _ hu =>
    obtain ⟨hid, he⟩ := Wave.update_events A (hrun (List.getElem?_mem hw)) hu
    exact .inl ⟨_, _, _, hw, rfl, hid, he⟩
  | stop suspend env hw _ _ _ _ hu =>
    obtain ⟨hid, he⟩ := Wave.waveStop_events A env (hrun (List.getElem?_mem hw)) hu
    exact .inl ⟨_, _, _, hw, rfl, hid, he⟩
  | resume suspend env mode e hw hv _ _ hsim hu =>
    have hw' := List.getElem?_mem hw
    obtain ⟨hid, he⟩ := Wave.waveResume_events A env (hp _ hw') hv (hrun hw')
      (h.allProcessed_of_last hw') (hK _ hsim) hu
    exact .inl ⟨_, _, _, hw, rfl, hid, he⟩
  | report he hst => exact .inr (.inl ⟨rfl, _, _, _, he, by rw [hst]; decide, rfl⟩)
  | processed he hst => exact .inr (.inl ⟨rfl, _, _, _, he, by rw [hst]; decide, rfl⟩)
  | displacedSteppingStart denv saved hw hu =>
    obtain ⟨hid, he⟩ := Wave.displacedSteppingStart_events A hu
    exact .inl ⟨_, _, _, hw, rfl, hid, he⟩
  | displacedSteppingStartThrows denv saved hw hu =>
    obtain ⟨rfl, rfl⟩ := Prod.mk.inj_iff.1 (Wave.displacedSteppingStartM_exception A hu)
    exact .inl ⟨_, _, _, hw, rfl, rfl, .inl ⟨rfl, rfl, hrun (List.getElem?_mem hw)⟩⟩
  | displacedSteppingComplete hw hu =>
    obtain ⟨hid, he⟩ := Wave.displacedSteppingComplete_events A hu
    exact .inl ⟨_, _, _, hw, rfl, hid, he⟩
  | writeRegister regnum offset valueSize value hw hst hu =>
    obtain ⟨pp, sa, rfl⟩ := Wave.writeRegister_frame A _ hu
    exact .inl ⟨_, _, _, hw, rfl, rfl, .inl ⟨rfl, rfl, fun h' => absurd hst h'⟩⟩
  | create id queue agent laneCount callbacks hid hev
  | createHalted id queue agent laneCount callbacks hid hev =>
    exact .inr (.inr (.inl ⟨rfl, _, hid, hev, rfl, rfl⟩))
  | destroy _ => exact .inr (.inr (.inr ⟨by simp, List.eraseIdx_sublist _ _⟩))
  | release halted hw hv hr =>
    obtain ⟨hs, -, rfl⟩ := (Wave.setVisibility_release hv).1 hr
    exact .inl ⟨_, _, _, hw, rfl, rfl, .inl ⟨rfl, rfl, fun _ _ =>
      hrun (List.getElem?_mem hw) (by rw [hs]; decide) (by rw [hv]; decide)⟩⟩

/-! ## The invariant along runs -/

theorem EventInv.init (agentExceptions : Nat → BitVec 64) :
    EventInv (Process.init agentExceptions) :=
  ⟨by simp [Process.init], by simp [Process.init], by simp [Process.init], by simp [Process.init]⟩

/-- A step on one wave with an `EventEffect` keeps the invariant. -/
theorem EventInv.act (h : EventInv p) {i : Nat} {w w' : Wave} (hw : p.waves[i]? = some w)
    (hwaves : p'.waves = p.waves.set i w') (hid : w'.id = w.id)
    (he : EventEffect w w' p.shared p'.shared) : EventInv p' := by
  have hi : i < p.waves.length := (List.getElem?_eq_some_iff.1 hw).1
  have hwm : w ∈ p.waves := List.getElem?_mem hw
  have hnd : ((p.waves.set i w').map Wave.id).Nodup := by rw [map_id_set hw hid]; exact h.nodup
  rw [← hwaves] at hnd
  have hcases {w₂ : Wave} (hw₂ : w₂ ∈ p'.waves) := mem_set_cases (hwaves ▸ hnd) hi (hwaves ▸ hw₂)
  rcases he with ⟨hev, hl, hr⟩ | ⟨k, hev, hl, hall, hr⟩
  · refine ⟨hnd, fun w₂ hw₂ j hj => ?_, fun w₂ hw₂ j e hj hew hne => ?_, fun w₂ hw₂ hs hv => ?_⟩ <;>
      simp only [hev] at * <;> rcases hcases hw₂ with rfl | ⟨hw₂, -⟩
    · obtain ⟨e, hj, hew⟩ := h.lastStop w hwm j (hl ▸ hj)
      exact ⟨e, hj, hew.trans hid.symm⟩
    · exact h.lastStop w₂ hw₂ j hj
    · exact hl ▸ h.unprocessed w hwm j e hj (hew.trans hid) hne
    · exact h.unprocessed w₂ hw₂ j e hj hew hne
    · exact hid ▸ hr hs hv
    · exact h.running w₂ hw₂ hs hv
  · refine ⟨hnd, fun w₂ hw₂ j hj => ?_, fun w₂ hw₂ j e hj hew hne => ?_, fun w₂ hw₂ hs hv => ?_⟩ <;>
      rcases hcases hw₂ with rfl | ⟨hw₂, hne₂⟩
    · rw [hl, Option.some.injEq] at hj
      subst hj
      exact ⟨⟨k, w.id, .pending⟩, by simp [hev], hid.symm⟩
    · obtain ⟨e, hj, hew⟩ := h.lastStop w₂ hw₂ j hj
      exact ⟨e, by rw [hev, List.getElem?_append_left (List.getElem?_eq_some_iff.1 hj).1, hj], hew⟩
    · rw [hev] at hj
      rcases getElem?_concat_eq_some hj with hj | ⟨rfl, -⟩
      · exact absurd (hall e (List.getElem?_mem hj) (hew.trans hid)) hne
      · exact hl
    · rw [hev] at hj
      rcases getElem?_concat_eq_some hj with hj | ⟨-, rfl⟩
      · exact h.unprocessed w₂ hw₂ j e hj hew hne
      · exact absurd (hew.symm.trans hid.symm) hne₂
    · exact absurd (hr hs) hv
    · intro e he hew
      rw [hev, List.mem_append, List.mem_singleton] at he
      rcases he with he | rfl
      · exact h.running w₂ hw₂ hs hv e he hew
      · exact absurd (hew.symm.trans hid.symm) hne₂

/-- The client moving an unprocessed event forward keeps the invariant. -/
theorem EventInv.advance (h : EventInv p) {j : Nat} {e : Event} {s : EventState}
    (hwaves : p'.waves = p.waves) (he : p.shared.events[j]? = some e) (hlt : e.state < s)
    (hev : p'.shared.events = p.shared.events.set j { e with state := s }) : EventInv p' := by
  have hne : e.state ≠ .processed := fun h' => EventState.not_processed_lt (h' ▸ hlt)
  have hget {k : Nat} {e' : Event} (hk : p'.shared.events[k]? = some e') :
      (k = j ∧ e' = { e with state := s }) ∨ (k ≠ j ∧ p.shared.events[k]? = some e') := by
    rw [hev, List.getElem?_set] at hk
    by_cases hkj : j = k
    · subst hkj
      simp only [↓reduceIte, (List.getElem?_eq_some_iff.1 he).1, Option.some.injEq] at hk
      exact .inl ⟨rfl, hk.symm⟩
    · rw [if_neg hkj] at hk
      exact .inr ⟨Ne.symm hkj, hk⟩
  refine ⟨hwaves ▸ h.nodup, fun w hw k hk => ?_, fun w hw k e' hk hew hne' => ?_,
    fun w hw hs hv e' he' hew => ?_⟩ <;> rw [hwaves] at hw
  · obtain ⟨e', hk, hew⟩ := h.lastStop w hw k hk
    by_cases hkj : k = j
    · subst hkj
      simp only [hev, List.getElem?_set_self (List.getElem?_eq_some_iff.1 hk).1]
      exact ⟨_, rfl, (Option.some.inj (he.symm.trans hk)) ▸ hew⟩
    · exact ⟨e', by rw [hev, List.getElem?_set_ne (Ne.symm hkj), hk], hew⟩
  · rcases hget hk with ⟨rfl, rfl⟩ | ⟨-, hk⟩
    · exact h.unprocessed w hw k e he hew hne
    · exact h.unprocessed w hw k e' hk hew hne'
  · rw [hev] at he'
    rcases List.mem_or_eq_of_mem_set he' with he' | rfl
    · exact h.running w hw hs hv e' he' hew
    · exact absurd (h.running w hw hs hv e (List.getElem?_mem he) hew) hne

/-- A new wave with a fresh id and no stop event keeps the invariant. -/
theorem EventInv.create (h : EventInv p) {W : Wave} (hev : p'.shared.events = p.shared.events)
    (hid : ∀ w ∈ p.waves, w.id ≠ W.id) (hfresh : ∀ e ∈ p.shared.events, e.wave ≠ W.id)
    (hl : W.lastStopEventId = none) (hwaves : p'.waves = p.waves ++ [W]) : EventInv p' := by
  refine ⟨?_, fun w hw k hk => ?_, fun w hw k e hk hew hne => ?_, fun w hw hs hv e he hew => ?_⟩ <;>
    simp only [hwaves, hev, List.mem_append, List.mem_singleton] at *
  · rw [List.map_append, List.nodup_append]
    exact ⟨h.nodup, by simp, by simpa [List.disjoint_singleton] using fun w hw => hid w hw⟩
  · rcases hw with hw | rfl
    · exact h.lastStop w hw k hk
    · simp [hl] at hk
  · rcases hw with hw | rfl
    · exact h.unprocessed w hw k e hk hew hne
    · exact absurd hew (hfresh e (List.getElem?_mem hk))
  · rcases hw with hw | rfl
    · exact h.running w hw hs hv e he hew
    · exact absurd hew (hfresh e he)

/-- Removing waves keeps the invariant. -/
theorem EventInv.sublist (h : EventInv p) (hev : p'.shared.events = p.shared.events)
    (hwaves : p'.waves.Sublist p.waves) : EventInv p' := by
  refine ⟨(hwaves.map Wave.id).nodup h.nodup, fun w hw => ?_, fun w hw => ?_, fun w hw => ?_⟩ <;>
    rw [hev] <;> have hw := hwaves.subset hw
  exacts [h.lastStop w hw, h.unprocessed w hw, h.running w hw]

/-- One step keeps the invariant, when a simulated step is reported stopped. -/
theorem EventInv.step (hK : ∀ r, K.simulate r → r.state = .stop) (h : EventInv p)
    (hp : ∀ w ∈ p.waves, w.state = .stop → w.isParked = A.parkStoppedWaves)
    (hs : Step A K p p') : EventInv p' := by
  rcases hs.event_cases hK h hp with ⟨i, w, w', hw, hwaves, hid, he⟩ |
    ⟨hwaves, j, e, s, he, hlt, hev⟩ | ⟨hev, W, hid, hfresh, hl, hwaves⟩ | ⟨hev, hwaves⟩
  · exact h.act hw hwaves hid he
  · exact h.advance hwaves he hlt hev
  · exact h.create hev hid hfresh hl hwaves
  · exact h.sublist hev hwaves

/-- Every reachable process satisfies the event invariant, when a simulated step is reported
stopped. -/
theorem Reachable.eventInv (hK : ∀ r, K.simulate r → r.state = .stop) (h : Reachable A K p) :
    EventInv p := by
  induction h with
  | init ae => exact EventInv.init ae
  | step hr hs ih => exact ih.step hK (fun w hw => (hr.inv w hw).isParked_of_stop) hs

/-! ## No stop is lost -/

theorem EventInv.eq_of_id (h : EventInv p) {w w' : Wave} (hw : w ∈ p.waves) (hw' : w' ∈ p.waves)
    (hid : w'.id = w.id) : w' = w :=
  List.inj_on_of_nodup_map h.nodup hw' hw hid

/-- When a simulated single step is reported stopped, no stop is lost: in every reachable
process every unprocessed event of a wave is its last stop event, so a wave never has two; a
step enqueues at most one event; and a step that names a new last stop event for a wave does so
only once the one it named before has been processed. -/
theorem reachable_no_lost_stop (hK : ∀ r, K.simulate r → r.state = .stop) (hp : Reachable A K p) :
    (∀ w ∈ p.waves, ∀ j e, p.shared.events[j]? = some e → e.wave = w.id → e.state ≠ .processed →
      w.lastStopEventId = some j) ∧
    ∀ p', Step A K p p' →
      p'.shared.events.length ≤ p.shared.events.length + 1 ∧
      ∀ w ∈ p.waves, ∀ w' ∈ p'.waves, w'.id = w.id → w'.lastStopEventId ≠ w.lastStopEventId →
        ∀ j, w.lastStopEventId = some j →
          ∃ e, p.shared.events[j]? = some e ∧ e.state = .processed := by
  have h := hp.eventInv hK
  have hpk : ∀ w ∈ p.waves, w.state = .stop → w.isParked = A.parkStoppedWaves :=
    fun w hw => (hp.inv w hw).isParked_of_stop
  refine ⟨h.unprocessed, fun p' hs => ?_⟩
  have h' := h.step hK hpk hs
  have hsame {w w' : Wave} (hw : w ∈ p.waves) (hw' : w' ∈ p.waves) (hid : w'.id = w.id)
      (hne : w'.lastStopEventId ≠ w.lastStopEventId) : False :=
    hne (congrArg Wave.lastStopEventId (h.eq_of_id hw hw' hid))
  rcases hs.event_cases hK h hpk with ⟨i, w₀, w₀', hw₀, hwaves, hid, he⟩ |
    ⟨hwaves, j, e, s, -, -, hev⟩ | ⟨hev, W, hfresh, -, -, hwaves⟩ | ⟨hev, hwaves⟩
  · refine ⟨by rcases he with ⟨hev, -⟩ | ⟨k, hev, -⟩ <;> simp [hev],
      fun w hw w' hw' hid' hne j hj => ?_⟩
    rcases mem_set_cases (hwaves ▸ h'.nodup) (List.getElem?_eq_some_iff.1 hw₀).1 (hwaves ▸ hw')
      with rfl | ⟨hw', -⟩
    · obtain rfl := h.eq_of_id hw (List.getElem?_mem hw₀) (hid'.symm.trans hid).symm
      rcases he with ⟨-, hl, -⟩ | ⟨k, -, -, hall, -⟩
      · exact absurd hl hne
      · obtain ⟨e, hj, hew⟩ := h.lastStop _ hw j hj
        exact ⟨e, hj, hall e (List.getElem?_mem hj) hew⟩
    · exact (hsame hw hw' hid' hne).elim
  · exact ⟨by simp [hev], fun w hw w' hw' hid' hne => (hsame hw (hwaves ▸ hw') hid' hne).elim⟩
  · refine ⟨by simp [hev], fun w hw w' hw' hid' hne => ?_⟩
    rcases List.mem_append.1 (hwaves ▸ hw') with hw' | hw'
    · exact (hsame hw hw' hid' hne).elim
    · exact (hfresh w hw (hid'.symm.trans (congrArg Wave.id (List.mem_singleton.1 hw')))).elim
  · exact ⟨by simp [hev], fun w hw w' hw' hid' hne =>
      (hsame hw (hwaves.subset hw') hid' hne).elim⟩

theorem reachable_no_lost_stop_sample :
    (∀ r, soundContract.simulate r → r.state = .stop) ∧
    Reachable (sampleArch true) soundContract (sampleStopped true) ∧
    (∀ w ∈ (sampleStopped true).waves, ∀ j e, (sampleStopped true).shared.events[j]? = some e →
      e.wave = w.id → e.state ≠ .processed → w.lastStopEventId = some j) ∧
    ∀ p', Step (sampleArch true) soundContract (sampleStopped true) p' →
      p'.shared.events.length ≤ (sampleStopped true).shared.events.length + 1 ∧
      ∀ w ∈ (sampleStopped true).waves, ∀ w' ∈ p'.waves, w'.id = w.id →
        w'.lastStopEventId ≠ w.lastStopEventId → ∀ j, w.lastStopEventId = some j →
          ∃ e, (sampleStopped true).shared.events[j]? = some e ∧ e.state = .processed :=
  have hK : ∀ r, soundContract.simulate r → r.state = .stop := fun _ h => h
  have hp := reachable_sampleStopped true (K := soundContract) rfl
  ⟨hK, hp, reachable_no_lost_stop hK hp⟩

/-- The contract that admits every report. -/
def anyContract : ArchContract := ⟨fun _ _ => True, fun _ => True⟩

/-- What the hardware answers when the sample wave single-steps an instruction that is
simulated, after which `wave_get_state` reports the wave running. -/
def sampleSimulateEnv : SetStateEnv := ⟨some [0], false, true, true, 0x1004, ⟨.run, []⟩, []⟩

/-- Without the contract on simulated steps a stop can be lost, on an architecture that does not
park: the stopped sample wave is single-stepped through a simulated instruction and reported
running, with a pending stop event; a stop request then raises a second one. -/
theorem reachable_two_unprocessed_stops :
    ∃ p, Reachable (sampleArch false) anyContract p ∧ ∃ w ∈ p.waves, ∃ e₁ e₂ : Event,
      p.shared.events[1]? = some e₁ ∧ p.shared.events[2]? = some e₂ ∧ e₁.wave = w.id ∧
      e₂.wave = w.id ∧ e₁.state ≠ .processed ∧ e₂.state ≠ .processed := by
  have h₃ := reachable_sampleStopped false (K := anyContract) trivial
  have hT : ¬(WaveState.singleStep = .singleStep ∧ (0 : BitVec 64) = 0 ∧
      Wave.terminatingNext (sampleArch false) (sampleStoppedWave false).displacedStepping
        sampleSimulateEnv.instruction = true) := by
    simp [Wave.terminatingNext, sampleSimulateEnv, sampleStoppedWave, sampleArch, Wave.init]
  obtain ⟨r₁, h₁⟩ := @Wave.simulateStep_isOk (sampleArch false) sampleSimulateEnv
    (Wave.resumed (sampleArch false) .singleStep
      { sampleStoppedWave false with stopRequested := false })
    { (sampleStopped false).shared with
      driverLog := (sampleStopped false).shared.driverLog ++ [.waveSetState 0 .singleStep 0] }
    (fun h => nomatch h)
  obtain ⟨-, pp, sa, rfl⟩ := Wave.simulateStep_ok _ _ h₁
  have hset := (@Wave.setState_resume (sampleArch false) sampleSimulateEnv (sampleStoppedWave false)
    (sampleStopped false).shared _ _ _ rfl (by decide) hT).2
    ⟨.inl rfl, (fun h => nomatch h), _, _, by rw [if_pos ⟨rfl, rfl, rfl⟩]; exact h₁,
      Wave.sendExceptions_zero _, rfl⟩
  have hres := (@Wave.waveResume_ok (sampleArch false) sampleSimulateEnv (sampleStoppedWave false) _
    (sampleStopped false).shared _ none .singleStep 0 .success).2
    (.inr ⟨by decide, rfl, _, _, rfl, hset⟩)
  have h₄ := Reachable.step h₃
    ⟨_, .resume (i := 0) none sampleSimulateEnv .singleStep 0 rfl rfl rfl trivial trivial hres⟩
  refine ⟨_, Reachable.step h₄ ⟨_, .stop (i := 0) none sampleStopEnv rfl rfl rfl trivial trivial
    ((Wave.waveStop_ok _ _).2 (.inr (.inr ⟨?_, rfl, rfl, _, _, rfl,
      (Wave.setState_stop _ _ ?_).2 ⟨(fun h => nomatch h), rfl, rfl⟩⟩)))⟩, ?_⟩
  · simp [clientVisibleState, raiseEvent, Wave.resumed, sampleSimulateEnv]
  · simp [raiseEvent, Wave.resumed, sampleSimulateEnv]
  · simp [raiseEvent, sampleStopped, sampleStoppedWave, Wave.init, Wave.resumed]

end Dbgapi
