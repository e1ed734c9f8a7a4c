import Dbgapi.Process.Invariant
import Dbgapi.Wave.Buffers

set_option autoImplicit false

/-! # Displaced-stepping buffers along runs

Over any run, the live buffers of a process agree with its waves (`BufferInv`):

* every buffer id was handed out, and live buffers differ in id and in key, the queue and pc a
  buffer serves: a start shares the live buffer of its key, and creates one only when there is
  none;
* every wave's `m_displaced_stepping` is a live buffer, and every live buffer's reference count
  is the number of waves that use it (`users`), at least one: a buffer is released when, and
  only when, the last wave using it completes, terminates or is destroyed.

A step acts on one wave with a `BufferEffect` (`BufferInv.keep`, `share`, `create`, `drop`), on
the event queue only, or adds a wave that uses no buffer. A destroyed wave is accounted as a
wave whose reference is dropped and which then leaves the list (`Replaces.eraseIdx`).
-/

namespace Dbgapi

/-! ## Users and live buffers -/

/-- The number of waves whose `m_displaced_stepping` is `ds`. -/
def users (ds : DisplacedStepping) (waves : List Wave) : Nat :=
  waves.countP fun w => w.displacedStepping = some ds

theorem users_pos_iff {ds : DisplacedStepping} {waves : List Wave} :
    0 < users ds waves ↔ ∃ w ∈ waves, w.displacedStepping = some ds := by
  simp [users]

/-- Two live buffers differ in id and in the queue and pc they serve. -/
def Apart (a b : DisplacedStepping × Nat) : Prop :=
  a.1.id ≠ b.1.id ∧ (a.1.queue, a.1.fromPc) ≠ (b.1.queue, b.1.fromPc)

theorem apart_symmetric : Symmetric Apart := fun _ _ h => ⟨h.1.symm, h.2.symm⟩

section Buffers

variable {bufs : List (DisplacedStepping × Nat)} {id : Nat}

/-- Among buffers apart from each other, an id or a key names one buffer. -/
theorem eq_of_apart (h : bufs.Pairwise Apart) {a b : DisplacedStepping × Nat} (ha : a ∈ bufs)
    (hb : b ∈ bufs) (hab : a.1.id = b.1.id ∨ (a.1.queue, a.1.fromPc) = (b.1.queue, b.1.fromPc)) :
    a = b := by
  by_contra hne
  have := h.forall apart_symmetric ha hb hne
  rcases hab with hab | hab
  exacts [this.1 hab, this.2 hab]

theorem mem_retain {b : DisplacedStepping × Nat} :
    b ∈ retain id bufs ↔ ∃ a ∈ bufs, (if a.1.id = id then (a.1, a.2 + 1) else a) = b :=
  List.mem_map

theorem exists_mem_retain {ds : DisplacedStepping} {n : Nat} (h : (ds, n) ∈ bufs) :
    ∃ m, (ds, m) ∈ retain id bufs :=
  ⟨if ds.id = id then n + 1 else n, mem_retain.2 ⟨_, h, by split_ifs <;> rfl⟩⟩

theorem Apart.retain (h : bufs.Pairwise Apart) : (retain id bufs).Pairwise Apart :=
  h.map _ fun a b hab => by split_ifs <;> exact hab

theorem mem_release {b : DisplacedStepping × Nat} :
    b ∈ release id bufs ↔ ∃ a ∈ bufs,
      (a.1.id ≠ id ∧ a = b) ∨ (a.1.id = id ∧ 1 < a.2 ∧ (a.1, a.2 - 1) = b) := by
  simp only [release, List.mem_filterMap]
  refine exists_congr fun a => and_congr_right fun _ => ?_
  by_cases h₁ : a.1.id = id <;> by_cases h₂ : a.2 ≤ 1 <;> simp [h₁, h₂]
  omega

theorem Apart.release (h : bufs.Pairwise Apart) : (release id bufs).Pairwise Apart :=
  h.filterMap _ fun a a' haa' b hb b' hb' => by
    simp only [Option.mem_def] at hb hb'
    split_ifs at hb hb' <;> cases hb <;> cases hb' <;> exact haa'

end Buffers

/-! ## One wave replaced -/

/-- `l'` is the list of waves `l` in which the wave `w` became `w'`, or left: a destroyed wave
is accounted as one whose reference was dropped. -/
structure Replaces (l l' : List Wave) (w w' : Wave) : Prop where
  mem : w ∈ l
  mem' : ∀ v ∈ l', v ∈ l ∨ v = w'
  counts : ∀ ds, users ds l' + (if w.displacedStepping = some ds then 1 else 0) =
    users ds l + (if w'.displacedStepping = some ds then 1 else 0)

theorem Replaces.set {l : List Wave} {i : Nat} {w w' : Wave} (hw : l[i]? = some w) :
    Replaces l (l.set i w') w w' := by
  obtain ⟨hi, rfl⟩ := List.getElem?_eq_some_iff.1 hw
  refine ⟨List.getElem_mem hi, fun v hv => List.mem_or_eq_of_mem_set hv, fun ds => ?_⟩
  have := List.boole_getElem_le_countP (fun w => decide (w.displacedStepping = some ds)) l i hi
  simp only [users, List.countP_set _ _ _ _ hi, decide_eq_true_eq] at this ⊢
  omega

theorem Replaces.eraseIdx {l : List Wave} {i : Nat} {w W : Wave} (hw : l[i]? = some w)
    (hW : W.displacedStepping = none) : Replaces l (l.eraseIdx i) w W := by
  obtain ⟨hi, rfl⟩ := List.getElem?_eq_some_iff.1 hw
  refine ⟨List.getElem_mem hi, fun v hv => .inl (List.mem_of_mem_eraseIdx hv), fun ds => ?_⟩
  have hl : l = l.take i ++ l[i] :: l.drop (i + 1) := by
    rw [← List.drop_eq_getElem_cons hi, List.take_append_drop]
  rw [List.eraseIdx_eq_take_drop_succ]
  conv_rhs => rw [hl]
  simp only [users, List.countP_append, List.countP_cons, hW, reduceCtorEq, decide_eq_true_eq,
    if_false]
  omega

/-! ## The invariant -/

/-- The live buffers of a process agree with its waves. -/
structure BufferInv (p : Process) : Prop where
  /-- Every buffer id was handed out. -/
  lt_next : ∀ b ∈ p.shared.buffers, b.1.id < p.shared.nextBufferId
  /-- Live buffers differ in id and in the queue and pc they serve. -/
  apart : p.shared.buffers.Pairwise Apart
  /-- Every wave's displaced stepping is a live buffer. -/
  live : ∀ w ∈ p.waves, ∀ ds, w.displacedStepping = some ds → ∃ n, (ds, n) ∈ p.shared.buffers
  /-- Every live buffer counts the waves that use it, at least one. -/
  count : ∀ b ∈ p.shared.buffers, b.2 = users b.1 p.waves ∧ 0 < b.2

variable {A : Arch} {K : ArchContract} {p p' : Process}

theorem BufferInv.init (agentExceptions : Nat → BitVec 64) :
    BufferInv (Process.init agentExceptions) :=
  ⟨by simp [Process.init], by simp [Process.init], by simp [Process.init], by simp [Process.init]⟩

section Act

variable {waves : List Wave} {sh : Shared} {w w' : Wave}

/-- An operation that touches no buffer keeps the invariant. -/
theorem BufferInv.keep (h : BufferInv p) (hr : Replaces p.waves waves w w')
    (hk : KeepsBuffers w w' p.shared sh) : BufferInv ⟨waves, sh⟩ := by
  obtain ⟨hd, hb, hn⟩ := hk
  have hu (ds : DisplacedStepping) : users ds waves = users ds p.waves := by
    have := hr.counts ds
    rw [hd] at this
    omega
  refine ⟨?_, ?_, fun v hv ds hds => ?_, fun b hb' => ?_⟩
  · rw [hb, hn]; exact h.lt_next
  · rw [hb]; exact h.apart
  · rw [hb]
    rcases hr.mem' v hv with hv | rfl
    · exact h.live v hv ds hds
    · exact h.live w hr.mem ds (hd ▸ hds)
  · rw [hb] at hb'
    rw [hu]
    exact h.count b hb'

/-- A start that shares the live buffer of its key keeps the invariant: the buffer's count and
its users both grow by one. -/
theorem BufferInv.share (h : BufferInv p) (hr : Replaces p.waves waves w w')
    {ds : DisplacedStepping} {n : Nat} (hd : w.displacedStepping = none)
    (hd' : w'.displacedStepping = some ds) (hmem : (ds, n) ∈ p.shared.buffers)
    (hb : sh.buffers = retain ds.id p.shared.buffers)
    (hn : sh.nextBufferId = p.shared.nextBufferId) :
    BufferInv ⟨waves, sh⟩ := by
  have hu (e : DisplacedStepping) :
      users e waves = users e p.waves + if ds = e then 1 else 0 := by
    have := hr.counts e
    simp only [hd, hd', reduceCtorEq, if_false, Option.some.injEq] at this
    omega
  refine ⟨fun b hb' => ?_, ?_, fun v hv e he => ?_, fun b hb' => ?_⟩
  · rw [hb] at hb'
    obtain ⟨a, ha, rfl⟩ := mem_retain.1 hb'
    rw [hn]
    split_ifs <;> exact h.lt_next a ha
  · rw [hb]; exact Apart.retain h.apart
  · rw [hb]
    rcases hr.mem' v hv with hv | rfl
    · obtain ⟨m, hm⟩ := h.live v hv e he
      exact exists_mem_retain hm
    · obtain rfl := Option.some.inj (he.symm.trans hd')
      exact exists_mem_retain hmem
  · rw [hb] at hb'
    obtain ⟨a, ha, rfl⟩ := mem_retain.1 hb'
    obtain ⟨hc, hpos⟩ := h.count a ha
    split_ifs with hid
    · obtain rfl := eq_of_apart h.apart ha hmem (.inl hid)
      dsimp only at hc ⊢
      rw [hu, if_pos rfl]
      omega
    · have hne : ds ≠ a.1 := fun he => hid (he ▸ rfl)
      rw [hu, if_neg hne]
      exact ⟨hc, hpos⟩

/-- A start that creates a buffer for its key keeps the invariant: the new buffer has a fresh id,
a key no live buffer has, and one user. -/
theorem BufferInv.create (h : BufferInv p) (hr : Replaces p.waves waves w w')
    {ds : DisplacedStepping} (hd : w.displacedStepping = none)
    (hd' : w'.displacedStepping = some ds)
    (hkey : ∀ b ∈ p.shared.buffers, (b.1.queue, b.1.fromPc) ≠ (ds.queue, ds.fromPc))
    (hid : ds.id = p.shared.nextBufferId) (hb : sh.buffers = p.shared.buffers ++ [(ds, 1)])
    (hn : sh.nextBufferId = p.shared.nextBufferId + 1) : BufferInv ⟨waves, sh⟩ := by
  have hu (e : DisplacedStepping) :
      users e waves = users e p.waves + if ds = e then 1 else 0 := by
    have := hr.counts e
    simp only [hd, hd', reduceCtorEq, if_false, Option.some.injEq] at this
    omega
  have hlt : ∀ b ∈ p.shared.buffers, b.1.id < ds.id := hid ▸ h.lt_next
  have hfresh : ∀ b ∈ p.shared.buffers, ds ≠ b.1 := fun b hb he => (hlt b hb).ne (by rw [he])
  have hnone : users ds p.waves = 0 := List.countP_eq_zero.2 fun v hv he => by
    obtain ⟨m, hm⟩ := h.live v hv ds (of_decide_eq_true he)
    exact hfresh _ hm rfl
  refine ⟨fun b hb' => ?_, ?_, fun v hv e he => ?_, fun b hb' => ?_⟩
  · rw [hb, List.mem_append, List.mem_singleton] at hb'
    rw [hn]
    rcases hb' with hb' | rfl
    · exact Nat.lt_succ_of_lt (h.lt_next b hb')
    · exact hid ▸ Nat.lt_succ_self _
  · rw [hb]
    refine List.pairwise_append.2 ⟨h.apart, List.pairwise_singleton _ _, fun a ha b hb' => ?_⟩
    rw [List.mem_singleton.1 hb']
    exact ⟨(hlt a ha).ne, hkey a ha⟩
  · rw [hb]
    rcases hr.mem' v hv with hv | rfl
    · obtain ⟨m, hm⟩ := h.live v hv e he
      exact ⟨m, List.mem_append_left _ hm⟩
    · obtain rfl := Option.some.inj (he.symm.trans hd')
      exact ⟨1, List.mem_append_right _ (List.mem_singleton_self _)⟩
  · rw [hb, List.mem_append, List.mem_singleton] at hb'
    rcases hb' with hb' | rfl
    · rw [hu, if_neg (hfresh b hb')]
      exact h.count b hb'
    · simp [hu, hnone]

/-- Dropping the wave's reference keeps the invariant: the buffer's count and its users both
fall by one, and the buffer goes with its last user. -/
theorem BufferInv.drop (h : BufferInv p) (hr : Replaces p.waves waves w w')
    (hd' : w'.displacedStepping = none)
    (hb : sh.buffers = (releaseBuffer w.displacedStepping p.shared).buffers)
    (hn : sh.nextBufferId = p.shared.nextBufferId) : BufferInv ⟨waves, sh⟩ := by
  cases hd : w.displacedStepping with
  | none =>
    rw [hd] at hb
    exact h.keep hr ⟨hd'.trans hd.symm, hb, hn⟩
  | some d =>
    rw [hd] at hb
    replace hb : sh.buffers = release d.id p.shared.buffers := hb
    obtain ⟨n, hmem⟩ := h.live w hr.mem d hd
    have hu (e : DisplacedStepping) :
        users e waves + (if d = e then 1 else 0) = users e p.waves := by
      have := hr.counts e
      simp only [hd, hd', reduceCtorEq, if_false, Option.some.injEq] at this
      omega
    have hnd : n = users d p.waves := (h.count _ hmem).1
    refine ⟨fun b hb' => ?_, ?_, fun v hv e he => ?_, fun b hb' => ?_⟩
    · rw [hb] at hb'
      obtain ⟨a, ha, ⟨-, rfl⟩ | ⟨-, -, rfl⟩⟩ := mem_release.1 hb' <;> rw [hn] <;>
        exact h.lt_next a ha
    · rw [hb]; exact Apart.release h.apart
    · rw [hb]
      have hv' : v ∈ p.waves := (hr.mem' v hv).resolve_right fun hvw => by
        rw [hvw, hd'] at he; cases he
      obtain ⟨m, hm⟩ := h.live v hv' e he
      by_cases hid : e.id = d.id
      · obtain ⟨rfl, rfl⟩ := Prod.mk.inj_iff.1 (eq_of_apart h.apart hm hmem (.inl hid))
        have hpos : 0 < users e waves := users_pos_iff.2 ⟨v, hv, he⟩
        have := hu e
        rw [if_pos rfl] at this
        exact ⟨m - 1, mem_release.2 ⟨_, hm, .inr ⟨rfl, by omega, rfl⟩⟩⟩
      · exact ⟨m, mem_release.2 ⟨_, hm, .inl ⟨hid, rfl⟩⟩⟩
    · rw [hb] at hb'
      obtain ⟨a, ha, ⟨hid, rfl⟩ | ⟨hid, h1, rfl⟩⟩ := mem_release.1 hb'
      · have hne : d ≠ a.1 := fun he => hid (he ▸ rfl)
        have := hu a.1
        rw [if_neg hne, Nat.add_zero] at this
        show a.2 = users a.1 waves ∧ 0 < a.2
        rw [this]
        exact h.count a ha
      · obtain rfl := eq_of_apart h.apart ha hmem (.inl hid)
        have := hu d
        rw [if_pos rfl] at this
        show n - 1 = users d waves ∧ 0 < n - 1
        omega

/-- An operation on one wave keeps the invariant. -/
theorem BufferInv.act (h : BufferInv p) (hr : Replaces p.waves waves w w')
    (he : BufferEffect A w w' p.shared sh) : BufferInv ⟨waves, sh⟩ := by
  cases he with
  | keep hk => exact h.keep hr hk
  | share ds n hd hd' _ _ hmem hb hn => exact h.share hr hd hd' hmem hb hn
  | create ds hd hd' hq hpc hkey hid hb hn =>
    refine h.create hr hd hd' (fun b hb' he => ?_) hid hb hn
    rw [hq, hpc, Prod.mk.injEq] at he
    exact hkey b hb' he.1 he.2
  | drop hd' hb hn => exact h.drop hr hd' hb hn

end Act

/-- One step keeps the invariant. -/
theorem BufferInv.step (h : BufferInv p)
    (hp : ∀ w ∈ p.waves, w.state = .stop → w.isParked = A.parkStoppedWaves) (hs : Step A K p p') :
    BufferInv p' := by
  obtain ⟨o, hs⟩ := hs
  cases hs with
  | update u hw _ hu => exact h.keep (.set hw) (Wave.update_buffers A hu)
  | stop suspend env hw _ _ _ _ hu => exact h.keep (.set hw) (Wave.waveStop_buffers A env hu)
  | resume suspend env mode e hw hv _ _ _ hu =>
    exact h.act (.set hw) (Wave.waveResume_buffers A env (hp _ (List.getElem?_mem hw)) hv hu)
  | report _ _ => exact ⟨h.lt_next, h.apart, h.live, h.count⟩
  | processed _ _ => exact ⟨h.lt_next, h.apart, h.live, h.count⟩
  | displacedSteppingStart denv saved hw hu =>
    exact h.act (.set hw) (Wave.displacedSteppingStart_buffers A hu)
  | displacedSteppingStartThrows denv saved hw hu =>
    obtain ⟨rfl, rfl⟩ := Prod.mk.inj_iff.1 (Wave.displacedSteppingStartM_exception A hu)
    exact h.keep (.set hw) ⟨rfl, rfl, rfl⟩
  | displacedSteppingComplete hw hu =>
    exact h.act (.set hw) (Wave.displacedSteppingComplete_buffers A hu)
  | writeRegister regnum offset valueSize value hw _ hu =>
    obtain ⟨pp, sa, rfl⟩ := Wave.writeRegister_frame A _ hu
    exact h.keep (.set hw) ⟨rfl, rfl, rfl⟩
  | create id queue agent laneCount callbacks _ _
  | createHalted id queue agent laneCount callbacks _ _ =>
    refine ⟨h.lt_next, h.apart, fun v hv ds hds => ?_, fun b hb => ?_⟩
    · rcases List.mem_append.1 hv with hv | hv
      · exact h.live v hv ds hds
      · rw [List.mem_singleton.1 hv] at hds; cases hds
    · simpa [users, Wave.init] using h.count b hb
  | @destroy i w hw =>
    exact h.drop (.eraseIdx hw (W := { w with displacedStepping := none }) rfl) rfl rfl (by simp)
  | release halted hw hv hr =>
    obtain ⟨-, -, rfl⟩ := (Wave.setVisibility_release hv).1 hr
    exact h.keep (.set hw) ⟨rfl, rfl, rfl⟩

/-- Every reachable process satisfies the invariant. -/
theorem Reachable.bufferInv (h : Reachable A K p) : BufferInv p := by
  induction h with
  | init => exact BufferInv.init _
  | step hr hs ih => exact ih.step (fun w hw => (hr.inv w hw).isParked_of_stop) hs

end Dbgapi
