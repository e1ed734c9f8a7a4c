import Dbgapi.Process.Control
import Dbgapi.Wave.Client

set_option autoImplicit false

/-! # The client hears of a stop between two resumes

`amd_dbgapi_wave_resume` succeeds only on a wave the client sees stopped and whose last stop
event it has processed. A wave it resumes is left running, or hidden at its terminating
instruction with a command-terminated event, or stopped again by a simulated single step with a
new pending stop event (`Wave.waveResume_awaits`). From then on the wave awaits a report
(`Wave.AwaitsReport`): every operation keeps it so, and `update` and a stop request that stop it
raise a pending stop event, until the client is told of an event of the wave
(`Transition.awaitsReport`). So between two successful resumes of a wave the client is told of an
event of it (`run_resume_after_report`).

This needs the architecture to report STOP only with a stop reason: `update` raises no event for
a wave it finds stopped without one, and the client, which then sees the wave stopped again,
could resume it without being told.
-/

namespace Dbgapi

/-- The wave cannot be resumed until the client is told of an event of it: it is hidden, it is
not stopped, or its last stop event is a pending event of the wave. -/
def Wave.AwaitsReport (w : Wave) (sh : Shared) : Prop :=
  w.visibility ≠ .visible ∨ w.state ≠ .stop ∨
    ∃ e, lastStopEvent w sh = some e ∧ e.state = .pending ∧ e.wave = w.id

namespace Wave

variable (A : Arch) (env : SetStateEnv) {w w' : Wave} {sh sh' : Shared}

omit A env in
theorem AwaitsReport.of_keep (h : w.AwaitsReport sh) (hid : w'.id = w.id)
    (hv : w'.visibility = w.visibility) (hs : w'.state = w.state)
    (hl : lastStopEvent w' sh' = lastStopEvent w sh) : w'.AwaitsReport sh' := by
  rcases h with h | h | ⟨e, he, hp, hw⟩
  · exact .inl (hv ▸ h)
  · exact .inr (.inl (hs ▸ h))
  · exact .inr (.inr ⟨e, hl ▸ he, hp, hw.trans hid.symm⟩)

omit A env in
/-- A wave whose stop event was just raised awaits its report. -/
theorem awaitsReport_of_raiseEvent {kind : EventKind} {w₀ : Wave}
    (h : (w', sh') = raiseEvent kind w₀ sh) : w'.AwaitsReport sh' := by
  obtain ⟨rfl, rfl⟩ := eq_raiseEvent_iff.1 h
  exact .inr (.inr ⟨⟨kind, w₀.id, .pending⟩, by simp [lastStopEvent], rfl, rfl⟩)

/-- `update` leaves a wave awaiting a report: one it finds stopped is left as it was, and one it
finds running is left running, hidden, or stopped with a new stop event, when the architecture
reports STOP only with a stop reason. -/
theorem update_awaits {u : UpdateEnv}
    (hreport : w.state ≠ .stop → u.report.state = .stop → u.report.stopReason ≠ [])
    (h : w.AwaitsReport sh) (hu : w.update A u sh = .ok (w', sh')) : w'.AwaitsReport sh' := by
  obtain ⟨pp, sa, hu⟩ := update_ok A hu
  split_ifs at hu with hs hr
  · obtain ⟨rfl, rfl⟩ := hu
    exact h.of_keep rfl rfl rfl rfl
  · exact awaitsReport_of_raiseEvent hu.2
  · obtain ⟨rfl, rfl⟩ := Prod.mk.inj_iff.1 hu.2
    by_cases hst : u.report.state = .stop
    · exact .inl fun hv => hr ⟨hst, hv, hreport hs hst⟩
    · exact .inr (.inl hst)

/-- A `set_state` out of STOP leaves the wave awaiting a report: running, or stopped by a
simulated single step or terminated with the event it raises. -/
theorem setState_awaits {s : WaveState} {e : BitVec 64} (hs : s ≠ .stop)
    (h : w.setState A env s e sh = .ok (w', sh')) : w'.AwaitsReport sh' := by
  rcases setState_ok A env h with ⟨hsw, rfl, rfl⟩ | ⟨-, -, w₁, sh₁, -, hr⟩ |
    ⟨hse, w₁, sh₁, w₂, sh₂, sh₃, hc, hsim, he, rfl, rfl⟩
  · exact .inr (.inl fun h' => hs (hsw.trans h'))
  · exact awaitsReport_of_raiseEvent hr
  · obtain ⟨-, -, rfl, rfl⟩ := (changeState_resume A hs).1 hc
    obtain ⟨log, rfl⟩ := sendExceptions_ok A he
    have hw₂ : w'.AwaitsReport sh₂ := by
      rcases hsim with hsim | hsim
      · obtain ⟨-, pp, sa, hr⟩ := simulateStep_ok A env hsim
        exact awaitsReport_of_raiseEvent hr
      · obtain ⟨rfl, rfl⟩ := Prod.mk.inj_iff.1 hsim
        exact .inr (.inl hs)
    exact hw₂.of_keep rfl rfl rfl (by simp only [lastStopEvent, clearDeviceMemoryViolation_events])

/-- `amd_dbgapi_wave_stop` leaves a wave awaiting a report, when the architecture reports STOP
only with a stop reason: it is refused, or it stops the wave with a new stop event, or finds it
stopped by its own queue suspension. -/
theorem waveStop_awaits {suspend : Option UpdateEnv} {st : Status}
    (hreport : ∀ u, suspend = some u → w.state ≠ .stop → u.report.state = .stop →
      u.report.stopReason ≠ [])
    (h : w.AwaitsReport sh) (hu : w.waveStop A suspend env sh = .ok (st, w', sh')) :
    w'.AwaitsReport sh' := by
  rcases (waveStop_ok A env).1 hu with
    ⟨-, -, rfl, rfl⟩ | ⟨-, -, -, rfl, rfl⟩ | ⟨-, -, -, w₁, sh₁, h₁, h₂⟩
  · exact h
  · exact h
  have h₁' : w₁.AwaitsReport sh₁ := by
    cases suspend with
    | none =>
      simp only [suspendQueue, except_pure, Except.ok.injEq, Prod.mk.injEq] at h₁
      obtain ⟨rfl, rfl⟩ := h₁
      exact h
    | some u => exact update_awaits A (hreport u rfl) h h₁
  by_cases hs : w₁.state = .stop
  · rw [← hs, setState_self A env (.inl rfl)] at h₂
    cases h₂
    exact h₁'
  · obtain ⟨-, -, hr⟩ := (setState_stop A env hs).1 h₂
    exact awaitsReport_of_raiseEvent hr

/-- `amd_dbgapi_wave_resume` refuses a visible wave that awaits a report, and leaves it alone. -/
theorem waveResume_refused {suspend : Option UpdateEnv} {mode : ResumeMode} {e : BitVec 64}
    {st : Status} (h : w.AwaitsReport sh) (hv : w.visibility = .visible)
    (hu : w.waveResume A suspend env mode e sh = .ok (st, w', sh')) :
    st ≠ .success ∧ w' = w ∧ sh' = sh := by
  rcases (waveResume_ok A env).1 hu with ⟨s, hg, rfl, rfl, rfl⟩ | ⟨hg, -, -⟩
  · exact ⟨resumeGuard_ne_success hg, rfl, rfl⟩
  obtain ⟨-, hc, hp, -⟩ := resumeGuard_eq_none.1 hg
  rcases h with h | h | ⟨ev, he, hpend, -⟩
  · exact absurd hv h
  · exact absurd (state_of_clientVisibleState hc) h
  · exact absurd (hpend.symm.trans (hp ev he)) (by decide)

/-- A wave that `amd_dbgapi_wave_resume` resumes awaits a report. -/
theorem waveResume_awaits {suspend : Option UpdateEnv} {mode : ResumeMode} {e : BitVec 64}
    (hu : w.waveResume A suspend env mode e sh = .ok (.success, w', sh')) :
    w'.AwaitsReport sh' := by
  rcases (waveResume_ok A env).1 hu with ⟨s, hg, hs, -⟩ | ⟨-, -, w₁, sh₁, -, h₂⟩
  · exact absurd hs.symm (resumeGuard_ne_success hg)
  · exact setState_awaits A env (by split <;> decide) h₂

end Wave

/-! ## Transitions and runs -/

variable {A : Arch} {K : ArchContract} {p p' : Process} {o : Observation}

/-- Wave ids stay unique: a transition keeps the id of the wave it acts on, and a created wave
has a fresh one. -/
theorem Transition.nodup (ht : Transition A K p o p') (h : (p.waves.map Wave.id).Nodup) :
    (p'.waves.map Wave.id).Nodup := by
  have set {i : Nat} {w w' : Wave} (hw : p.waves[i]? = some w) (hid : w'.id = w.id) :
      ((p.waves.set i w').map Wave.id).Nodup := by
    rw [map_id_set hw hid]
    exact h
  cases ht with
  | update u hw _ hu => exact set hw (Wave.update_control A hu).1.id
  | stop suspend env hw _ _ _ _ hu => exact set hw (Wave.waveStop_control A env hu).1.id
  | resume suspend env mode e hw _ _ _ _ hu => exact set hw (Wave.waveResume_control A env hu).1
  | report _ _ | processed _ _ => exact h
  | displacedSteppingStart denv saved hw hu =>
    exact set hw (Wave.displacedSteppingStart_control A hu).2.1
  | displacedSteppingStartThrows denv saved hw hu =>
    obtain ⟨rfl, rfl⟩ := Prod.mk.inj_iff.1 (Wave.displacedSteppingStartM_exception A hu)
    exact set hw rfl
  | displacedSteppingComplete hw hu =>
    obtain ⟨-, ds, -, -, rfl⟩ := Wave.displacedSteppingComplete_ok A hu
    exact set hw (by split_ifs <;> rfl)
  | writeRegister _ _ _ _ hw _ hu =>
    obtain ⟨pp, sa, rfl⟩ := Wave.writeRegister_frame A _ hu
    exact set hw rfl
  | create id queue agent laneCount callbacks hid _
  | createHalted id queue agent laneCount callbacks hid _ =>
    rw [List.map_append, List.nodup_append]
    refine ⟨h, List.nodup_singleton _, fun y hy hy' => ?_⟩
    obtain ⟨w, hw, rfl⟩ := List.mem_map.1 hy
    exact hid w hw (List.mem_singleton.1 hy')
  | destroy _ => exact h.sublist ((List.eraseIdx_sublist _ _).map _)
  | release halted hw hv hr =>
    obtain ⟨-, -, rfl⟩ := (Wave.setVisibility_release hv).1 hr
    exact set hw rfl

/-- A pending event stays in place across a transition that does not report it. -/
theorem Transition.pending_stays (ht : Transition A K p o p') {j : Nat} {e : Event}
    (he : p.shared.events[j]? = some e) (hp : e.state = .pending) (ho : o ≠ .reported e.wave) :
    p'.shared.events[j]? = some e := by
  have hj := (List.getElem?_eq_some_iff.1 he).1
  rcases ht.events_cases with ⟨l, hl, -⟩ | ⟨i, e₀, s, he₀, -, hrep, hset⟩
  · rw [hl, List.getElem?_append_left hj, he]
  · rw [hset]
    by_cases hij : i = j
    · subst hij
      obtain rfl := Option.some.inj (he₀.symm.trans he)
      exact absurd (hrep hp) ho
    · rw [List.getElem?_set_ne hij, he]

/-- A wave that awaits a report still does after a transition that does not act on it and does
not report it. -/
theorem Transition.awaitsReport_frame (ht : Transition A K p o p') {w : Wave}
    (h : w.AwaitsReport p.shared) (ho : o ≠ .reported w.id) : w.AwaitsReport p'.shared := by
  rcases h with h | h | ⟨e, he, hp, hw⟩
  · exact .inl h
  · exact .inr (.inl h)
  · obtain ⟨j, hj, hje⟩ := Option.bind_eq_some.1 he
    exact .inr (.inr ⟨e, Option.bind_eq_some.2 ⟨j, hj, ht.pending_stays hje hp (hw ▸ ho)⟩, hp, hw⟩)

/-- While every wave `x` awaits a report, a transition that does not report one neither resumes
one nor lets one stop awaiting, when the architecture reports STOP only with a stop reason. -/
theorem Transition.awaitsReport
    (hK : ∀ prev r, K.update prev r → r.state = .stop → r.stopReason ≠ [])
    (ht : Transition A K p o p') {x : Nat} (ho : o ≠ .reported x)
    (hp : ∀ w ∈ p.waves, w.id = x → w.AwaitsReport p.shared) :
    (∀ mode, o ≠ .resumed x mode) ∧ ∀ w ∈ p'.waves, w.id = x → w.AwaitsReport p'.shared := by
  have keep : ∀ w ∈ p.waves, w.id = x → w.AwaitsReport p'.shared := fun w hw hid =>
    ht.awaitsReport_frame (hp w hw hid) (hid ▸ ho)
  cases ht with
  | update u hw hk hu =>
    obtain ⟨hh, -⟩ := Wave.update_control A hu
    refine ⟨fun _ h => Observation.noConfusion h, forall_mem_set keep fun hid => ?_⟩
    exact Wave.update_awaits A (fun hs hst => hK _ _ (hk hs) hst)
      (hp _ (List.getElem?_mem hw) (hh.id ▸ hid)) hu
  | stop suspend env hw _ _ hsus _ hu =>
    obtain ⟨hh, -⟩ := Wave.waveStop_control A env hu
    refine ⟨fun _ h => Observation.noConfusion h, forall_mem_set keep fun hid => ?_⟩
    refine Wave.waveStop_awaits A env (fun u hsu hs hst => ?_)
      (hp _ (List.getElem?_mem hw) (hh.id ▸ hid)) hu
    subst hsu
    exact hK _ _ (hsus hs) hst
  | @resume i w w₁ _ st suspend env mode e hw hv _ _ _ hu =>
    by_cases hid : w.id = x
    · have hwx := hp w (List.getElem?_mem hw) hid
      obtain ⟨hst, rfl, rfl⟩ := Wave.waveResume_refused A env hwx hv hu
      refine ⟨fun _ h => ?_, forall_mem_set keep fun _ => hwx⟩
      rw [if_neg hst] at h
      exact Observation.noConfusion h
    · refine ⟨fun mode' h => ?_, forall_mem_set keep fun h' =>
        absurd ((Wave.waveResume_control A env hu).1.symm.trans h') hid⟩
      split_ifs at h
      exact hid (Observation.resumed.inj h).1
  | report _ _ | processed _ _ => exact ⟨fun _ h => Observation.noConfusion h, keep⟩
  | displacedSteppingStart denv saved hw hu =>
    obtain ⟨-, hid, hv, hs, -, hl, hev⟩ := Wave.displacedSteppingStart_control A hu
    refine ⟨fun _ h => Observation.noConfusion h, forall_mem_set keep fun h' => ?_⟩
    exact (hp _ (List.getElem?_mem hw) (hid ▸ h')).of_keep hid hv hs
      (by simp only [lastStopEvent, hl, hev])
  | displacedSteppingStartThrows denv saved hw hu =>
    obtain ⟨rfl, rfl⟩ := Prod.mk.inj_iff.1 (Wave.displacedSteppingStartM_exception A hu)
    exact ⟨fun _ h => Observation.noConfusion h,
      forall_mem_set keep (keep _ (List.getElem?_mem hw))⟩
  | displacedSteppingComplete hw hu =>
    obtain ⟨-, ds, -, rfl, rfl⟩ := Wave.displacedSteppingComplete_ok A hu
    refine ⟨fun _ h => Observation.noConfusion h, forall_mem_set keep fun h' => ?_⟩
    have hw' := hp _ (List.getElem?_mem hw)
    split_ifs at h' ⊢ <;> exact (hw' h').of_keep rfl rfl rfl rfl
  | writeRegister _ _ _ _ hw _ hu =>
    obtain ⟨pp, sa, rfl⟩ := Wave.writeRegister_frame A _ hu
    exact ⟨fun _ h => Observation.noConfusion h, forall_mem_set keep fun h' =>
      (hp _ (List.getElem?_mem hw) h').of_keep rfl rfl rfl rfl⟩
  | create id queue agent laneCount callbacks _ _
  | createHalted id queue agent laneCount callbacks _ _ =>
    refine ⟨fun _ h => Observation.noConfusion h, fun w hw hid => ?_⟩
    rcases List.mem_append.1 hw with hw | hw
    · exact keep w hw hid
    · rw [List.mem_singleton.1 hw]
      exact .inr (.inl (by simp [Wave.init]))
  | destroy _ =>
    exact ⟨fun _ h => Observation.noConfusion h,
      fun w hw => keep w (List.mem_of_mem_eraseIdx hw)⟩
  | release halted hw hv hr =>
    obtain ⟨hs, -, rfl⟩ := (Wave.setVisibility_release hv).1 hr
    exact ⟨fun _ h => Observation.noConfusion h,
      forall_mem_set keep fun _ => .inr (.inl (by rw [hs]; decide))⟩

/-- The wave a transition resumes awaits a report, when wave ids are unique. -/
theorem Transition.awaits_of_resumed {x : Nat} {mode : ResumeMode}
    (ht : Transition A K p (.resumed x mode) p') (hnd : (p.waves.map Wave.id).Nodup) :
    ∀ w ∈ p'.waves, w.id = x → w.AwaitsReport p'.shared := by
  have hnd' := ht.nodup hnd
  generalize ho : Observation.resumed x mode = o at ht
  cases ht
  case resume i w w₁ sh' st suspend env mode e hw hv _ _ _ hu =>
    split_ifs at ho with hs
    · obtain ⟨rfl, rfl⟩ := Observation.resumed.inj ho
      subst hs
      intro w' hw' hid
      rcases mem_set_cases hnd' (List.getElem?_eq_some_iff.1 hw).1 hw' with rfl | ⟨-, hne⟩
      · exact Wave.waveResume_awaits A env hu
      · exact absurd (hid.trans (Wave.waveResume_control A env hu).1.symm) hne
  all_goals exact Observation.noConfusion ho

theorem Run.append {q r : Process} {a b : List Observation} (h₁ : Run A K p a r)
    (h₂ : Run A K r b q) : Run A K p (a ++ b) q := by
  induction h₁ with
  | refl => exact h₂
  | step ht _ ih => exact .step ht (ih h₂)

/-- A run splits at any point of its observations. -/
theorem Run.append_split {q : Process} {a b : List Observation} (hr : Run A K p (a ++ b) q) :
    ∃ r, Run A K p a r ∧ Run A K r b q := by
  induction a generalizing p with
  | nil => exact ⟨p, .refl p, hr⟩
  | cons o a ih =>
    cases hr with
    | step ht hr' =>
      obtain ⟨r, h₁, h₂⟩ := ih hr'
      exact ⟨r, .step ht h₁, h₂⟩

theorem Run.nodup {q : Process} {os : List Observation} (hr : Run A K p os q)
    (h : (p.waves.map Wave.id).Nodup) : (q.waves.map Wave.id).Nodup := by
  induction hr with
  | refl => exact h
  | step ht _ ih => exact ih (ht.nodup h)

/-- While every wave `x` awaits a report, the client is told of an event of a wave `x` before any
resume of one succeeds. -/
theorem Run.reported_before_resumed
    (hK : ∀ prev r, K.update prev r → r.state = .stop → r.stopReason ≠ [])
    {q : Process} {os : List Observation} (hr : Run A K p os q) {x : Nat}
    (hp : ∀ w ∈ p.waves, w.id = x → w.AwaitsReport p.shared)
    {mid post : List Observation} {mode : ResumeMode} (hos : os = mid ++ .resumed x mode :: post) :
    Observation.reported x ∈ mid := by
  induction hr generalizing mid with
  | refl => simp at hos
  | @step p p' q o os ht _ ih =>
    cases mid with
    | nil =>
      obtain ⟨rfl, -⟩ := List.cons.inj hos
      exact absurd rfl ((ht.awaitsReport hK (fun h => Observation.noConfusion h) hp).1 mode)
    | cons o' mid =>
      obtain ⟨rfl, hos'⟩ := List.cons.inj hos
      by_cases hrep : o = .reported x
      · exact hrep ▸ List.mem_cons_self _ _
      · exact .tail _ (ih (ht.awaitsReport hK hrep hp).2 hos')

/-- Between two successful `amd_dbgapi_wave_resume` calls on a wave, the client is told of an
event of the wave, whatever else runs in between: the other waves' operations, queue
suspensions, displaced stepping and register writes. This needs the wave ids to be unique, as
they are in every reachable state, and the architecture to report STOP only with a stop
reason. -/
theorem run_resume_after_report
    (hK : ∀ prev r, K.update prev r → r.state = .stop → r.stopReason ≠ [])
    (hnd : (p.waves.map Wave.id).Nodup) {q : Process} {pre mid post : List Observation}
    {x : Nat} {mode mode' : ResumeMode}
    (hr : Run A K p (pre ++ .resumed x mode :: (mid ++ .resumed x mode' :: post)) q) :
    Observation.reported x ∈ mid := by
  obtain ⟨r, hpre, hrest⟩ := hr.append_split
  cases hrest with
  | step ht hr' => exact hr'.reported_before_resumed hK (ht.awaits_of_resumed (hpre.nodup hnd)) rfl

/-! ## A sample handshake -/

/-- A contract under which the architecture reports STOP only with a stop reason. -/
def stopReasonContract : ArchContract :=
  ⟨fun _ r => r.state = .stop → r.stopReason ≠ [], fun _ => True⟩

/-- On the sample architecture that does not park, a resume in RUN mode without exceptions of a
stopped wave the guards accept, on an agent with no exception pending. -/
theorem waveResume_run_sample {w : Wave} {sh : Shared}
    (hg : Wave.resumeGuard .normal 0 w sh = none) (hs : w.state = .stop)
    (hx : sh.agentExceptions w.agent = 0) :
    w.waveResume (sampleArch false) none sampleStopEnv .normal 0 sh =
      .ok (.success, Wave.resumed (sampleArch false) .run { w with stopRequested := false },
        { sh with driverLog := sh.driverLog ++ [.waveSetState w.id .run 0] }) := by
  have hd := ((Wave.resumeGuard_eq_none).1 hg).2.2.2
  refine (Wave.waveResume_ok (sampleArch false) sampleStopEnv).2 (.inr ⟨hg, rfl, _, _, rfl, ?_⟩)
  show w.setState (sampleArch false) sampleStopEnv .run 0 sh = _
  refine (Wave.setState_resume (sampleArch false) sampleStopEnv hs (by decide)
    (by rintro ⟨h, -⟩; cases h)).2
    ⟨.inl ?_, fun h => absurd h (by decide), _, _, by rw [if_neg (by rintro ⟨h, -⟩; cases h)],
      rfl, ?_⟩
  · cases h : w.displacedStepping
    · rfl
    · simp [h] at hd
  · simp [Wave.clearDeviceMemoryViolation, Wave.resumed, hx]

/-- On the sample architecture that does not park, a stop request without a queue suspension on a
visible running wave with no stop outstanding. -/
theorem waveStop_run_sample {w : Wave} {sh : Shared} (hs : w.state = .run)
    (hv : w.visibility = .visible) (hr : w.stopRequested = false) :
    w.waveStop (sampleArch false) none sampleStopEnv sh = .ok (.success,
      raiseEvent .waveStop
        { w with
          stopRequested := true
          state := .stop
          stopReason := []
          isParked := w.isParked || false }
        { sh with driverLog := sh.driverLog ++ [.waveSetState w.id .stop 0] }) := by
  refine (Wave.waveStop_ok (sampleArch false) sampleStopEnv).2 (.inr (.inr
    ⟨by simp [clientVisibleState, hs], hr, rfl, w, sh, rfl, ?_⟩))
  refine (Wave.setState_stop (sampleArch false) sampleStopEnv (by rw [hs]; decide)).2
    ⟨fun h => absurd h (by decide), hv, ?_⟩
  rw [if_neg (by rw [hs]; decide)]
  rfl

/-- The sample wave is resumed, stopped again, its stop event reported and processed, and
resumed again. -/
theorem run_resume_after_report_sample :
    ∃ q, Run (sampleArch false) stopReasonContract (sampleStopped false)
      ([] ++ .resumed 0 .normal :: ([.silent, .reported 0, .silent] ++ .resumed 0 .normal :: []))
        q ∧
      Observation.reported 0 ∈ [Observation.silent, .reported 0, .silent] := by
  have hr := Run.append
    (.step (.resume (p := sampleStopped false) (i := 0) none sampleStopEnv .normal 0 rfl rfl rfl
      trivial trivial (waveResume_run_sample (by decide) rfl rfl))
    (.step (.stop (i := 0) none sampleStopEnv rfl rfl rfl trivial trivial
      (waveStop_run_sample rfl rfl rfl))
    (.step (.report (i := 1) (e := ⟨.waveStop, 0, .pending⟩) rfl rfl)
    (.step (.processed (i := 1) (e := ⟨.waveStop, 0, .reported⟩) rfl rfl) (.refl _)))))
    (.step (.resume (i := 0) none sampleStopEnv .normal 0 rfl rfl rfl trivial trivial
      (waveResume_run_sample (by decide) rfl rfl)) (.refl (K := stopReasonContract) _))
  have hr' : Run (sampleArch false) stopReasonContract (sampleStopped false)
      ([] ++ .resumed 0 .normal :: ([.silent, .reported 0, .silent] ++ .resumed 0 .normal :: []))
        _ := hr
  exact ⟨_, hr', run_resume_after_report (fun _ _ h => h) (by decide) hr'⟩

end Dbgapi
