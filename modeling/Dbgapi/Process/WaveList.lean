import Dbgapi.Basic.Types

set_option autoImplicit false

/-! # Listing the waves of the processes

`amd_dbgapi_process_wave_list` refreshes the queues of the process it is asked about, or of every
process, and suspends every queue that is not suspended yet, so that the waves it lists stand
still. It remembers the queues it suspended in each process that needs forward progress, asks
`utils::get_handle_list` for the list, and resumes those queues before it returns the status.

The state the call changes is which queues are suspended (`QueueSuspension`). What the
collaborators answer is an input (`ListedProcess`, and the result of `get_handle_list`), and each
of them may fail or throw. A throw ends the call with the state it leaves, as an
`EStateM.Result.error`; `CATCH` turns it into a status afterwards.

On every return, normal or with an error status, the queues of a process that needs forward
progress are as the call found them (`processWaveList_ok_restores`), and a queue suspended on
entry is never resumed. No scope guard covers the suspension, though: an exception after the
first suspension ends the call with no queue resumed (`processWaveList_error_resumes_nothing`,
`processWaveList_throw_leaves_suspended`).
-/

namespace Dbgapi

/-- Which queues, by id, are suspended. -/
abbrev QueueSuspension := Nat → Bool

/-- `process_t::suspend_queues (queues)`: the queues are suspended. Modelled from the spec:
`process.cpp` is not part of the source; the call suspends all the queues it is given, or throws
before it suspends any. -/
def suspendQueues (queues : List Nat) (s : QueueSuspension) : QueueSuspension :=
  fun q => s q || queues.contains q

/-- `process_t::resume_queues (queues)`. Modelled from the spec, as `suspendQueues`; it does not
fail. -/
def resumeQueues (queues : List Nat) (s : QueueSuspension) : QueueSuspension :=
  fun q => s q && !queues.contains q

/-- A process as `amd_dbgapi_process_wave_list` sees it: its id, the ids of its queues, and what
`update_queues`, `suspend_queues` and `forward_progress_needed` answer. -/
structure ListedProcess where
  id : Nat
  queues : List Nat
  updateQueues : Except Fault Status
  suspendQueues : Except Fault Unit
  forwardProgressNeeded : Except Fault Bool

/-- The processes the call lists: the one `process_id` names, or every process for
`AMD_DBGAPI_PROCESS_NONE`; `none` when no process has the id. -/
def selectProcesses (processId : Option Nat) (all : List ListedProcess) :
    Option (List ListedProcess) :=
  match processId with
  | some id => (all.find? fun p => p.id == id).map fun p => [p]
  | none => some all

/-- `process->update_queues ()`, whose failure is fatal. -/
def updateQueuesChecked (p : ListedProcess) : Except Fault Unit :=
  match p.updateQueues with
  | .ok .success => pure ()
  | .ok _ => throw (.fatal "process_t::update_queues failed")
  | .error e => throw e

/-- The loop over the processes: suspend the queues of each that are not suspended yet, and keep
them for resumption when the process needs forward progress. -/
def suspendProcesses : List ListedProcess → EStateM Fault QueueSuspension (List (List Nat))
  | [] => pure []
  | p :: ps => do
    let s ← get
    let queues := p.queues.filter fun q => !s q
    liftExcept p.suspendQueues
    set (suspendQueues queues s)
    let needed ← liftExcept p.forwardProgressNeeded
    let rest ← suspendProcesses ps
    pure (if needed then queues :: rest else rest)

/-- Resume every list of queues kept for resumption. -/
def resumeAll (queuesNeedingResume : List (List Nat)) (s : QueueSuspension) : QueueSuspension :=
  queuesNeedingResume.foldl (fun s queues => resumeQueues queues s) s

/-- `amd_dbgapi_process_wave_list (process_id, ...)`, with `handleList` what
`utils::get_handle_list` returns or throws: the status it returns, and the suspension of the
queues it leaves. -/
def processWaveList (initialized : Bool) (processId : Option Nat) (all : List ListedProcess)
    (handleList : Except Fault Status) : EStateM Fault QueueSuspension Status := do
  if !initialized then return .errorNotInitialized
  let some processes := selectProcesses processId all | return .errorInvalidProcessId
  processes.forM fun p => liftExcept (updateQueuesChecked p)
  let queuesNeedingResume ← suspendProcesses processes
  let status ← liftExcept handleList
  modify (resumeAll queuesNeedingResume)
  pure status

/-! ## The suspension loop -/

theorem suspendQueues_apply (queues : List Nat) (s : QueueSuspension) (q : Nat) :
    suspendQueues queues s q = true ↔ s q = true ∨ q ∈ queues := by
  simp [suspendQueues]

/-- A loop that throws has only suspended: a queue suspended before stays suspended. -/
theorem suspendProcesses_error {ps : List ListedProcess} {s s₁ : QueueSuspension} {e : Fault}
    (h : suspendProcesses ps s = .error e s₁) {q : Nat} (hq : s q = true) : s₁ q = true := by
  induction ps generalizing s with
  | nil => cases h
  | cons p ps ih =>
    have hq' : suspendQueues (p.queues.filter fun q => !s q) s q = true :=
      (suspendQueues_apply _ _ _).2 (.inl hq)
    cases hs : p.suspendQueues <;> cases hf : p.forwardProgressNeeded <;>
      simp only [suspendProcesses, bind, EStateM.bind, get, getThe, MonadStateOf.get, EStateM.get,
        set, EStateM.set, pure, EStateM.pure, hs, hf, liftExcept_ok, liftExcept_error,
        EStateM.Result.error.injEq] at h
    · exact h.2 ▸ hq
    · exact h.2 ▸ hq
    · exact h.2 ▸ hq'
    · cases hr : suspendProcesses ps (suspendQueues (p.queues.filter fun q => !s q) s) with
      | ok rest s' => simp [hr] at h
      | error e' s' =>
        simp only [hr, EStateM.Result.error.injEq] at h
        obtain ⟨rfl, rfl⟩ := h
        exact ih hr hq'

/-- A loop that ends normally has suspended the queues of every process. The queues it keeps for
resumption were all running when it started, and, when no queue belongs to two processes, it
keeps every queue that was running in a process that needs forward progress. -/
theorem suspendProcesses_ok {ps : List ListedProcess} {s s₁ : QueueSuspension}
    {rs : List (List Nat)} (h : suspendProcesses ps s = .ok rs s₁) :
    (∀ q, s₁ q = true ↔ s q = true ∨ ∃ p ∈ ps, q ∈ p.queues) ∧
    (∀ l ∈ rs, ∀ q ∈ l, s q = false) ∧
    ((ps.Pairwise fun p p' => p.queues.Disjoint p'.queues) →
      ∀ p ∈ ps, p.forwardProgressNeeded = .ok true → ∀ q ∈ p.queues, s q = false →
        ∃ l ∈ rs, q ∈ l) := by
  induction ps generalizing s rs with
  | nil =>
    simp only [suspendProcesses, pure, EStateM.pure, EStateM.Result.ok.injEq] at h
    obtain ⟨rfl, rfl⟩ := h
    simp
  | cons p ps ih =>
    cases hs : p.suspendQueues <;> cases hf : p.forwardProgressNeeded <;>
      simp only [suspendProcesses, bind, EStateM.bind, get, getThe, MonadStateOf.get, EStateM.get,
        set, EStateM.set, pure, EStateM.pure, hs, hf, liftExcept_ok, liftExcept_error,
        reduceCtorEq] at h
    rename_i needed
    cases hr : suspendProcesses ps (suspendQueues (p.queues.filter fun q => !s q) s) with
    | error e s' => simp [hr] at h
    | ok rest s' =>
      simp only [hr, EStateM.Result.ok.injEq] at h
      obtain ⟨rfl, rfl⟩ := h
      obtain ⟨ih₁, ih₂, ih₃⟩ := ih hr
      have hq : ∀ q, suspendQueues (p.queues.filter fun q => !s q) s q = false ↔
          s q = false ∧ (q ∈ p.queues → s q = true) := by
        intro q; cases h : s q <;> simp [suspendQueues, h]
      refine ⟨fun q => ?_, fun l hl q hql => ?_, fun hd p' hp' hfp q hq' hsq => ?_⟩
      · rw [ih₁, suspendQueues_apply]
        cases h : s q <;> simp [h]
      · have hl' : l = p.queues.filter (fun q => !s q) ∨ l ∈ rest := by
          split_ifs at hl
          · exact List.mem_cons.1 hl
          · exact .inr hl
        rcases hl' with rfl | hl'
        · simpa using (List.mem_filter.1 hql).2
        · exact ((hq q).1 (ih₂ l hl' q hql)).1
      · obtain ⟨hp, hd⟩ := List.pairwise_cons.1 hd
        rcases List.mem_cons.1 hp' with rfl | hp'
        · rw [hf] at hfp
          cases hfp
          exact ⟨_, List.mem_cons_self _ _, List.mem_filter.2 ⟨hq', by simp [hsq]⟩⟩
        · have hnot : q ∉ p.queues := fun hq'' => hp p' hp' hq'' hq'
          obtain ⟨l, hl, hql⟩ := ih₃ hd p' hp' hfp q hq' ((hq q).2 ⟨hsq, fun h => absurd h hnot⟩)
          exact ⟨l, by split_ifs <;> simp [hl], hql⟩

/-- Resuming the kept queues leaves suspended exactly the queues no kept list holds. -/
theorem resumeAll_apply (rs : List (List Nat)) (s : QueueSuspension) (q : Nat) :
    resumeAll rs s q = true ↔ s q = true ∧ ∀ l ∈ rs, q ∉ l := by
  induction rs generalizing s with
  | nil => simp [resumeAll]
  | cons l rs ih =>
    simp only [resumeAll, List.foldl_cons] at ih ⊢
    rw [ih]
    simp [resumeQueues, and_assoc]

/-- The refresh of the queues changes no suspension, and either passes or throws. -/
theorem forM_updateQueues (ps : List ListedProcess) (s : QueueSuspension) :
    (ps.forM fun p => (liftExcept (updateQueuesChecked p) : EStateM Fault QueueSuspension Unit)) s =
      .ok () s ∨
    ∃ e, (ps.forM fun p =>
      (liftExcept (updateQueuesChecked p) : EStateM Fault QueueSuspension Unit)) s = .error e s := by
  induction ps with
  | nil => exact .inl rfl
  | cons p ps ih =>
    cases hu : updateQueuesChecked p <;>
      simp only [List.forM, bind, EStateM.bind, hu, liftExcept_ok, liftExcept_error]
    · exact .inr ⟨_, rfl⟩
    · exact ih

theorem selectProcesses_pairwise {R : ListedProcess → ListedProcess → Prop}
    {processId : Option Nat} {all ps : List ListedProcess} (h : all.Pairwise R)
    (hs : selectProcesses processId all = some ps) : ps.Pairwise R := by
  cases processId with
  | none => cases hs; exact h
  | some id =>
    obtain ⟨p, -, rfl⟩ := Option.map_eq_some'.1 hs
    exact List.pairwise_singleton _ _

/-! ## The call -/

/-- How the call ends: at once (not initialized, no such process) or when a refresh throws, with
the suspension unchanged; when the suspension loop throws; when `get_handle_list` throws after
the loop; or normally, once the kept queues are resumed. -/
theorem processWaveList_cases (initialized : Bool) (processId : Option Nat)
    (all : List ListedProcess) (handleList : Except Fault Status) (s : QueueSuspension) :
    (∃ st, processWaveList initialized processId all handleList s = .ok st s) ∨
    (∃ e, processWaveList initialized processId all handleList s = .error e s) ∨
    ∃ ps, selectProcesses processId all = some ps ∧
      ((∃ e s₁, suspendProcesses ps s = .error e s₁ ∧
          processWaveList initialized processId all handleList s = .error e s₁) ∨
        ∃ rs s₁, suspendProcesses ps s = .ok rs s₁ ∧
          ((∃ e, handleList = .error e ∧
              processWaveList initialized processId all handleList s = .error e s₁) ∨
            ∃ st, handleList = .ok st ∧
              processWaveList initialized processId all handleList s = .ok st (resumeAll rs s₁))) := by
  cases initialized
  · exact .inl ⟨_, rfl⟩
  cases hsel : selectProcesses processId all with
  | none =>
    exact .inl ⟨.errorInvalidProcessId,
      by simp [processWaveList, hsel, bind, EStateM.bind, pure, EStateM.pure]⟩
  | some ps =>
    simp only [processWaveList, hsel, Bool.not_true, Bool.false_eq_true, if_false, bind,
      EStateM.bind, pure, EStateM.pure, modify, modifyGet, MonadStateOf.modifyGet,
      EStateM.modifyGet]
    rcases forM_updateQueues ps s with hu | ⟨e, hu⟩ <;> rw [hu] <;> dsimp only
    · refine .inr (.inr ⟨ps, rfl, ?_⟩)
      cases hsp : suspendProcesses ps s with
      | error e s₁ => exact .inl ⟨e, s₁, rfl, rfl⟩
      | ok rs s₁ =>
        refine .inr ⟨rs, s₁, rfl, ?_⟩
        cases handleList with
        | error e => exact .inl ⟨e, rfl, rfl⟩
        | ok st => exact .inr ⟨st, rfl, rfl⟩
    · exact .inr (.inl ⟨e, rfl⟩)

/-- Every return of `amd_dbgapi_process_wave_list`, normal or with an error status, when no
queue belongs to two processes. No queue suspended on entry is resumed, and every queue of a
process that needs forward progress is left as the call found it: the call resumes exactly the
queues of those processes that it suspended. -/
theorem processWaveList_ok_restores {initialized : Bool} {processId : Option Nat}
    {all : List ListedProcess} {handleList : Except Fault Status} {s s' : QueueSuspension}
    {st : Status} (hd : all.Pairwise fun p p' => p.queues.Disjoint p'.queues)
    (h : processWaveList initialized processId all handleList s = .ok st s') :
    (∀ q, s q = true → s' q = true) ∧
    ∀ ps, selectProcesses processId all = some ps → ∀ p ∈ ps,
      p.forwardProgressNeeded = .ok true → ∀ q ∈ p.queues, s' q = s q := by
  rcases processWaveList_cases initialized processId all handleList s with
    ⟨st', h'⟩ | ⟨e, h'⟩ | ⟨ps, hsel, ⟨e, s₁, -, h'⟩ | ⟨rs, s₁, hsp, ⟨e, -, h'⟩ | ⟨st', -, h'⟩⟩⟩
  · rw [h'] at h
    cases h
    exact ⟨fun _ hq => hq, fun _ _ _ _ _ _ _ => rfl⟩
  all_goals rw [h'] at h; try cases h
  obtain ⟨hs₁, hrs, hfp⟩ := suspendProcesses_ok hsp
  replace hfp := hfp (selectProcesses_pairwise hd hsel)
  have hkept : ∀ q, s q = true → ∀ l ∈ rs, q ∉ l := fun q hq l hl hql => by
    rw [hrs l hl q hql] at hq
    cases hq
  refine ⟨fun q hq => (resumeAll_apply rs s₁ q).2 ⟨(hs₁ q).2 (.inl hq), hkept q hq⟩,
    fun ps' hsel' p hp hf q hq => ?_⟩
  obtain rfl : ps = ps' := Option.some.inj (hsel.symm.trans hsel')
  cases hsq : s q
  · obtain ⟨l, hl, hql⟩ := hfp p hp hf q hq hsq
    cases hr : resumeAll rs s₁ q
    · rfl
    · exact absurd hql (((resumeAll_apply rs s₁ q).1 hr).2 l hl)
  · exact (resumeAll_apply rs s₁ q).2 ⟨(hs₁ q).2 (.inl hsq), hkept q hsq⟩

/-- An exception ends the call with no queue resumed: every queue suspended before the throw,
by the call or on entry, is still suspended. -/
theorem processWaveList_error_resumes_nothing {initialized : Bool} {processId : Option Nat}
    {all : List ListedProcess} {handleList : Except Fault Status} {s s' : QueueSuspension}
    {e : Fault} (h : processWaveList initialized processId all handleList s = .error e s') :
    ∀ q, s q = true → s' q = true := by
  rcases processWaveList_cases initialized processId all handleList s with
    ⟨st, h'⟩ | ⟨e', h'⟩ | ⟨ps, -, ⟨e', s₁, hsp, h'⟩ | ⟨rs, s₁, hsp, ⟨e', -, h'⟩ | ⟨st, -, h'⟩⟩⟩ <;>
    rw [h'] at h <;> simp only [reduceCtorEq, EStateM.Result.error.injEq] at h <;>
    obtain ⟨rfl, rfl⟩ := h
  · exact fun _ hq => hq
  · exact fun _ hq => suspendProcesses_error hsp hq
  · exact fun q hq => ((suspendProcesses_ok hsp).1 q).2 (.inl hq)

/-- A process that needs forward progress, with one running queue, 7; its collaborators succeed. -/
def sampleListedProcess : ListedProcess := ⟨0, [7], .ok .success, .ok (), .ok true⟩

/-- The sample process with its queue running when the call starts: the call suspends the queue
to list its waves, resumes it, and leaves it running. -/
theorem processWaveList_ok_restores_sample :
    ∃ s', processWaveList true none [sampleListedProcess] (.ok .success) (fun _ => false) =
        .ok .success s' ∧
      (∀ q, false = true → s' q = true) ∧
      ∀ ps, selectProcesses none [sampleListedProcess] = some ps → ∀ p ∈ ps,
        p.forwardProgressNeeded = .ok true → ∀ q ∈ p.queues, s' q = false := by
  obtain ⟨s', h⟩ : ∃ s', processWaveList true none [sampleListedProcess] (.ok .success)
      (fun _ => false) = .ok .success s' := ⟨_, rfl⟩
  exact ⟨s', h, processWaveList_ok_restores (List.pairwise_singleton _ _) h⟩

/-- `amd_dbgapi_process_wave_list` over every process, with one process that needs forward
progress and whose one queue, 7, is running. When `get_handle_list` returns, the call resumes the
queue; when it throws, the call ends with the queue still suspended. -/
theorem processWaveList_throw_leaves_suspended :
    sampleListedProcess.forwardProgressNeeded = .ok true ∧ 7 ∈ sampleListedProcess.queues ∧
    (∃ s', processWaveList true none [sampleListedProcess] (.ok .success) (fun _ => false) =
      .ok .success s' ∧ s' 7 = false) ∧
    ∃ s', processWaveList true none [sampleListedProcess] (.error (.exception .errorClientCallback))
      (fun _ => false) = .error (.exception .errorClientCallback) s' ∧ s' 7 = true :=
  ⟨rfl, List.mem_singleton_self 7, ⟨_, rfl, rfl⟩, ⟨_, rfl, rfl⟩⟩

end Dbgapi
