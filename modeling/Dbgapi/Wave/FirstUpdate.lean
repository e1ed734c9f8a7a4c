import Dbgapi.Wave.RegisterFile
import Dbgapi.Wave.Transitions

set_option autoImplicit false

/-! # What the first `update` leaves in the registers

The first time a queue is suspended after a wave appeared, `wave_t::update` builds the wave's
view of its context save record: it resets the register cache over the window
`[first_hwreg .. last_ttmp]`, zeroes the trap temporaries when the hardware does not set them
up (`ttmps_setup_enabled`), reads the wave's state, parks the wave if it is found stopped on an
architecture that parks, and stores the wave's id in the `wave_id` register.

Read through the client's view of the registers (`Wave.registerByte`, as in
`Wave/RegisterFile.lean`), the outcome is the record as the hardware wrote it with exactly those
two kinds of writes on top (`update_first_registers`): parking does not show, and no other
register changes. The proof follows the writes: one lemma for any `write_register` of a
non-pseudo register (`writeRegister_holds`), the zeroing loop by induction over the trap
temporaries, one lemma for `park`, and the assembly along `update`.
-/

namespace Dbgapi

namespace Wave

variable {A : Arch} {w w' : Wave} {r : Regnum} {offset valueSize : BitVec 64}
  {value : Nat → BitVec 8}

/-! ## The file and the record -/

/-- The plain registers of `w` hold the bytes `f`. -/
def HoldsFile (A : Arch) (w : Wave) (f : Regnum → Nat → BitVec 8) : Prop :=
  ∀ r, w.plainRegister A r = true → ∀ j < (A.registerSize r).toNat, w.registerByte A r j = f r j

/-- Byte `j` of register `r` in the context save record `m` as the hardware wrote it. -/
def recordByte (A : Arch) (m : Nat → BitVec 8) (r : Regnum) (j : Nat) : BitVec 8 :=
  match A.registerAddress r with
  | some a => m (a.toNat + j)
  | none => 0

/-! ## One write -/

/-- A write that returns passed the range check. -/
theorem writeRegister_badRange (hp : A.isPseudoRegister r = false)
    (h : w.writeRegister A r offset valueSize value = .ok w') :
    A.badRange r offset valueSize = false := by
  unfold writeRegister at h
  rw [if_neg (by simp [hp])] at h
  split at h
  · cases h
  · rename_i hb; simpa using hb

/-- A write to a non-pseudo register that is not plain changes nothing: it is dropped. -/
theorem writeRegister_not_plain (hp : A.isPseudoRegister r = false)
    (hr : w.plainRegister A r = false)
    (h : w.writeRegister A r offset valueSize value = .ok w') : w' = w := by
  unfold writeRegister at h
  rw [if_neg (by simp [hp])] at h
  split at h
  · cases h
  split at h
  · split at h
    · cases h; rfl
    · cases h
  · rename_i a ha
    have ht : (A.isTtmp r && !w.isPriv) = true := by simpa [plainRegister, hp, ha] using hr
    simp only [ht, if_true] at h
    cases h; rfl

/-- A write to a non-pseudo register keeps the cache window. -/
theorem writeRegister_window (hp : A.isPseudoRegister r = false)
    (h : w.writeRegister A r offset valueSize value = .ok w') :
    w'.saveArea.cache.base = w.saveArea.cache.base ∧
      w'.saveArea.cache.size = w.saveArea.cache.size := by
  unfold writeRegister at h
  rw [if_neg (by simp [hp])] at h
  split at h
  · cases h
  split at h
  · split at h <;> cases h; exact ⟨rfl, rfl⟩
  · split at h
    · cases h; exact ⟨rfl, rfl⟩
    split at h <;> cases h
    · exact ⟨rfl, rfl⟩
    · exact ⟨SaveArea.write_cache_base .., SaveArea.write_cache_size ..⟩

/-- One write to a non-pseudo register, within range over the integers, plain or not: it
overwrites bytes `[offset, offset + size)` of the register in the file. -/
theorem writeRegister_holds {f : Regnum → Nat → BitVec 8} (hp : A.isPseudoRegister r = false)
    (hw : offset.toNat + valueSize.toNat < 2 ^ 64)
    (hL : RegisterLayout A w.saveArea.cache.base w.saveArea.cache.size) (hf : HoldsFile A w f)
    (h : w.writeRegister A r offset valueSize value = .ok w') :
    HoldsFile A w' fun r' j =>
      if r' = r ∧ offset.toNat ≤ j ∧ j < offset.toNat + valueSize.toNat then value j
      else f r' j := by
  have hb := writeRegister_badRange hp h
  rw [A.badRange_eq_false, Nat.mod_eq_of_lt hw] at hb
  obtain ⟨pp, sa, rfl⟩ := writeRegister_frame A w h
  intro r' hr' j hj
  dsimp only
  cases hr : w.plainRegister A r
  · have hne : r' ≠ r := fun he => by simp_all [plainRegister]
    rw [writeRegister_not_plain hp hr h, if_neg (not_and_of_not_left _ hne)]
    exact hf r' hr' j hj
  · obtain ⟨w₁, h₁, -, -, -, hbyte⟩ := writeRegister_plain hL value hr (Nat.pos_of_ne_zero hb.1) hb.2
    cases h₁.symm.trans h
    rw [hbyte r' hr' j hj, hf r' hr' j hj]

/-- A loop of writes of the same bytes to a list of non-pseudo registers, each within range over
the integers: the file has those bytes in every register of the list, and the window stays. -/
theorem foldlM_writeRegister_holds (hw : offset.toNat + valueSize.toNat < 2 ^ 64) :
    ∀ (regs : List Regnum) (v : Wave) (f : Regnum → Nat → BitVec 8),
      (∀ r ∈ regs, A.isPseudoRegister r = false) →
      RegisterLayout A v.saveArea.cache.base v.saveArea.cache.size → HoldsFile A v f →
      regs.foldlM (fun w r => w.writeRegister A r offset valueSize value) v = .ok w' →
      w'.saveArea.cache.base = v.saveArea.cache.base ∧
        w'.saveArea.cache.size = v.saveArea.cache.size ∧
        HoldsFile A w' fun r j =>
          if r ∈ regs ∧ offset.toNat ≤ j ∧ j < offset.toNat + valueSize.toNat then value j
          else f r j
  | [], v, f, _, _, hf, h => by
    cases h
    exact ⟨rfl, rfl, by simpa using hf⟩
  | r :: regs, v, f, hp, hL, hf, h => by
    obtain ⟨v₁, h₁, h⟩ := except_bind_eq_ok.1 h
    have hp₀ := hp r (List.mem_cons_self _ _)
    obtain ⟨hbase₁, hsize₁⟩ := writeRegister_window hp₀ h₁
    obtain ⟨hbase, hsize, hf'⟩ := foldlM_writeRegister_holds hw regs v₁ _
      (fun r' hr' => hp r' (List.mem_cons_of_mem _ hr')) (hbase₁ ▸ hsize₁ ▸ hL)
      (writeRegister_holds hp₀ hw hL hf h₁) h
    refine ⟨hbase.trans hbase₁, hsize.trans hsize₁, fun r' hr' j hj => ?_⟩
    rw [hf' r' hr' j hj]
    by_cases hj' : offset.toNat ≤ j ∧ j < offset.toNat + valueSize.toNat
    · by_cases hr : r' = r <;> simp [hj', hr]
    · simp [hj']

/-! ## Parking -/

theorem plainRegister_pc : w.plainRegister A A.regs.pc = true :=
  plainRegister_iff.2 ⟨A.pc_not_pseudo, ⟨_, A.registerAddress_pc⟩, by simp [A.isTtmp_pc]⟩

/-- Parking does not show in the file: the parked pc holds the bytes the context save area
held, and no other register changes. -/
theorem park_holds {f : Regnum → Nat → BitVec 8}
    (hL : RegisterLayout A w.saveArea.cache.base w.saveArea.cache.size) (hf : HoldsFile A w f)
    (h : park A w = .ok w') :
    w'.saveArea.cache.base = w.saveArea.cache.base ∧
      w'.saveArea.cache.size = w.saveArea.cache.size ∧ HoldsFile A w' f := by
  obtain ⟨-, hp, rfl⟩ := (park_ok A).1 h
  refine ⟨SaveArea.write_cache_base .., SaveArea.write_cache_size .., fun r hr j hj => ?_⟩
  by_cases hpc : r = A.regs.pc
  · subst hpc
    have hj8 : j < 8 := by simpa [A.pc_size] using hj
    have hcsa : w.csaPc A = ofBytes (memcpyAt (fun _ => 0) (w.registerByte A A.regs.pc) 0 8) := by
      have h₀ := pc_eq A w
      rw [pc, readRegister64, readRegister_plain hL plainRegister_pc (by simp)
        (by simp [A.pc_size])] at h₀
      simpa [pcValue, hp] using h₀.symm
    simp [registerByte, hcsa, hj8, memcpyAt_of_le (show 0 + 8 ≤ 2 ^ 64 by decide),
      ← hf _ plainRegister_pc j hj, hp]
  · obtain ⟨hp', ⟨a, ha⟩, -⟩ := plainRegister_iff.1 hr
    have hw := hL.registerByte_write (byteOf w.callbacks.parkInstructionAddress) A.pc_not_pseudo hp'
      A.registerAddress_pc ha (show 0 < (8 : BitVec 64).toNat by decide)
      (show (0 : BitVec 64).toNat + (8 : BitVec 64).toNat ≤ (A.registerSize A.regs.pc).toNat by
        simp [A.pc_size]) hj
    rw [← hf r hr j hj]
    simpa [registerByte, hpc, ha, hp] using hw

/-- Observing a stop does not show in the file: parking does not, and a stop event is no
register. -/
theorem observeStop_holds {f : Regnum → Nat → BitVec 8} {sh sh' : Shared}
    (hL : RegisterLayout A w.saveArea.cache.base w.saveArea.cache.size) (hf : HoldsFile A w f)
    (h : observeStop A w sh = .ok (w', sh')) :
    w'.saveArea.cache.base = w.saveArea.cache.base ∧
      w'.saveArea.cache.size = w.saveArea.cache.size ∧ HoldsFile A w' f := by
  unfold observeStop at h
  dsimp only at h
  obtain ⟨w₁, hw₁, h⟩ : ∃ w₁ : Wave, (w₁.saveArea.cache.base = w.saveArea.cache.base ∧
      w₁.saveArea.cache.size = w.saveArea.cache.size ∧ HoldsFile A w₁ f) ∧
      (if w₁.visibility = .visible ∧ w₁.stopReason ≠ [] then pure (raiseEvent .waveStop w₁ sh)
        else pure (w₁, sh) : Except Fault (Wave × Shared)) = .ok (w', sh') := by
    split at h
    · obtain ⟨w₁, h₁, h⟩ := except_bind_eq_ok.1 h
      exact ⟨w₁, park_holds hL hf h₁, h⟩
    · exact ⟨w, ⟨rfl, rfl, hf⟩, h⟩
  split at h <;> simp only [except_pure, Except.ok.injEq, raiseEvent, Prod.mk.injEq] at h <;>
    obtain ⟨rfl, rfl⟩ := h <;> exact hw₁

/-! ## The refresh -/

/-- The record just after the cache is reset over it: the file of an unparked wave is the
record. -/
theorem reset_holds (hpark : w.isParked = false) (p : Bool) (m : Nat → BitVec 8)
    (base size : BitVec 64) :
    HoldsFile A { w with isPriv := p, saveArea := ⟨RegisterCache.reset m base size, m⟩ }
      (recordByte A m) := by
  intro r hr j _
  obtain ⟨-, ⟨a, ha⟩, -⟩ := plainRegister_iff.1 hr
  simp [registerByte, hpark, ha, recordByte, SaveArea.registerByte, RegisterCache.reset]

/-- The registers the zeroing loop runs over are the trap temporaries. -/
theorem mem_ttmps_iff {r : Regnum} :
    r ∈ List.range' A.regs.firstTtmp (A.regs.lastTtmp + 1 - A.regs.firstTtmp) ↔
      A.isTtmp r = true := by
  have key : ∀ f l x : Nat, f ≤ x → (x < f + (l + 1 - f) ↔ x ≤ l) := by omega
  rw [List.mem_range'_1]
  simp only [Arch.isTtmp, Bool.and_eq_true, decide_eq_true_eq]
  exact and_congr_right (key _ _ _)

/-- The refresh of a new, unparked wave: the file is the record, with the trap temporaries
zeroed when the hardware does not set them up. -/
theorem refreshRunning_holds {u : UpdateEnv} {cb e : BitVec 64}
    (hT : ∀ r, A.isTtmp r = true → A.isPseudoRegister r = false)
    (he : A.registerAddress A.regs.lastTtmp = some e)
    (hL : RegisterLayout A cb (e + A.registerSize A.regs.lastTtmp - cb))
    (hpark : w.isParked = false) (h : refreshRunning A u true cb w = .ok w') :
    w'.saveArea.cache.base = cb ∧
      w'.saveArea.cache.size = e + A.registerSize A.regs.lastTtmp - cb ∧
      HoldsFile A w' fun r j =>
        if u.ttmpsSetupEnabled = false ∧ A.isTtmp r = true ∧ j < 4 then 0
        else recordByte A u.memory r j := by
  unfold refreshRunning at h
  simp only [he, except_bind_eq_ok, check_eq_ok, Bool.and_true] at h
  obtain ⟨-, -, h⟩ := h
  cases hs : u.ttmpsSetupEnabled <;> simp only [hs, Bool.not_false, Bool.not_true, if_true,
    if_false, Bool.false_eq_true, except_bind_eq_ok, except_pure, except_ok_bind] at h
  · obtain ⟨w₁, h₁, h⟩ := h
    cases h
    obtain ⟨hbase, hsize, hf⟩ := foldlM_writeRegister_holds (by decide) _ _ _
      (fun r hr => hT r (mem_ttmps_iff.1 hr)) hL (reset_holds hpark _ _ _ _) h₁
    refine ⟨hbase, hsize, fun r hr j hj => (hf r hr j hj).trans ?_⟩
    simp only [mem_ttmps_iff]
    simp
  · cases h
    exact ⟨rfl, rfl, fun r hr j hj => by simpa using reset_holds hpark _ _ _ _ r hr j hj⟩

/-! ## `update` -/

/-- The state part of `update` keeps the wave's id. -/
theorem updateState_id {u : UpdateEnv} {firstUpdate : Bool} {cb : BitVec 64} {sh sh' : Shared}
    (h : updateState A u firstUpdate cb w sh = .ok (w', sh')) : w'.id = w.id := by
  obtain ⟨pp, sa, h⟩ := updateState_ok A h
  split_ifs at h
  · rw [h.1]
  · simp only [raiseEvent, Prod.mk.injEq] at h
    rw [h.2.1]
  · simp only [Prod.mk.injEq] at h
    rw [h.2.1]

/-- The first `update` of a running, unparked wave gives it the register file of its record as
the hardware wrote it, with the wave's id in the eight bytes of `wave_id` and, when the hardware
does not set them up, zeros in the low four bytes of every trap temporary; whether the wave is
found stopped and parked does not show. It rests on the layout of the record over the cache
window `[first_hwreg .. last_ttmp]`, and on the trap temporaries and `wave_id` being registers of
the record rather than pseudo registers. -/
theorem update_first_registers {u : UpdateEnv} {sh sh' : Shared} {cb e : BitVec 64}
    (hT : ∀ r, A.isTtmp r = true → A.isPseudoRegister r = false)
    (hW : A.isPseudoRegister A.regs.waveId = false)
    (hcb : A.registerAddress A.regs.firstHwreg = some cb)
    (he : A.registerAddress A.regs.lastTtmp = some e)
    (hL : RegisterLayout A cb (e + A.registerSize A.regs.lastTtmp - cb))
    (hfirst : w.hasCwsrRecord = false) (hrun : w.state ≠ .stop) (hpark : w.isParked = false)
    (h : w.update A u sh = .ok (w', sh')) :
    ∀ r, w'.plainRegister A r = true → ∀ j < (A.registerSize r).toNat,
      w'.registerByte A r j =
        if r = A.regs.waveId ∧ j < 8 then byteOf (BitVec.ofNat 64 w.id) j
        else if u.ttmpsSetupEnabled = false ∧ A.isTtmp r = true ∧ j < 4 then 0
        else recordByte A u.memory r j := by
  unfold update at h
  simp only [hfirst, hcb, Bool.not_false, if_true, except_bind_eq_ok] at h
  obtain ⟨⟨w₂, sh₂⟩, h₂, w₃, h₃, h⟩ := h
  simp only [except_pure, Except.ok.injEq, Prod.mk.injEq] at h
  obtain ⟨rfl, rfl⟩ := h
  have hid := updateState_id h₂
  unfold updateState at h₂
  simp only [hrun, ne_eq, not_false_eq_true, if_true, true_and, except_bind_eq_ok] at h₂
  obtain ⟨w₁, h₁, h₂⟩ := h₂
  obtain ⟨hbase₁, hsize₁, hf₁⟩ := refreshRunning_holds hT he hL (by exact hpark) h₁
  obtain ⟨hbase₂, hsize₂, hf₂⟩ : w₂.saveArea.cache.base = cb ∧
      w₂.saveArea.cache.size = e + A.registerSize A.regs.lastTtmp - cb ∧ HoldsFile A w₂ _ := by
    split at h₂
    · obtain ⟨hb, hs, hf⟩ := observeStop_holds (hbase₁ ▸ hsize₁ ▸ hL) hf₁ h₂
      exact ⟨hb.trans hbase₁, hs.trans hsize₁, hf⟩
    · simp only [except_pure, Except.ok.injEq, Prod.mk.injEq] at h₂
      obtain ⟨rfl, rfl⟩ := h₂
      exact ⟨hbase₁, hsize₁, hf₁⟩
  intro r hr j hj
  rw [writeRegister_holds hW (by decide) (hbase₂ ▸ hsize₂ ▸ hL) hf₂ h₃ r hr j hj]
  simp [hid]

end Wave

/-! ## A sample first update -/

/-- The sample record with the cache window of the hardware: hardware registers `32` to `39`,
trap temporaries `40` to `47` right after them, then `pc` (`48`) and `wave_id` (`49`). -/
def sampleFirstUpdateArch : Arch :=
  { sampleRecordArch with
    regs := ⟨0, 15, 16, 31, 40, 47, 32, 0, 16, 16, 48, 49⟩
    pc_address := by decide
    pc_not_ttmp := by decide }

@[simp] theorem sampleFirstUpdateArch_registerSize (r : Regnum) :
    (sampleFirstUpdateArch.registerSize r).toNat = 8 := rfl

theorem sampleFirstUpdateArch_layout : RegisterLayout sampleFirstUpdateArch 256 128 where
  fits r a _ h := by
    have := sampleRecordArch_registerAddress h
    simp only [sampleFirstUpdateArch_registerSize]
    omega
  disjoint r r' a a' hne _ _ h h' i hi j hj := by
    have hne' : @Ne Nat r r' := hne
    have := sampleRecordArch_registerAddress h
    have := sampleRecordArch_registerAddress h'
    simp only [sampleFirstUpdateArch_registerSize] at hi hj
    omega
  window r a _ h := by
    have := sampleRecordArch_registerAddress h
    have hbase : (256 : BitVec 64).toNat = 256 := rfl
    have hsize : (128 : BitVec 64).toNat = 128 := rfl
    simp only [sampleFirstUpdateArch_registerSize, hbase, hsize]
    omega

/-- The refresh the first suspension brings: a privileged wave, found running, on hardware that
does not set the trap temporaries up; every byte of the record holds the low bits of its
address. -/
def sampleFirstUpdateEnv : UpdateEnv := ⟨fun a => BitVec.ofNat 8 a, true, ⟨.run, []⟩, false⟩

theorem update_first_registers_sample :
    ∃ w' sh', (Wave.init 0 0 0 64 sampleCallbacks).update sampleFirstUpdateArch
        sampleFirstUpdateEnv ⟨[], [], 0, fun _ => 0, []⟩ = .ok (w', sh') ∧
      ∀ r, w'.plainRegister sampleFirstUpdateArch r = true →
        ∀ j < (sampleFirstUpdateArch.registerSize r).toNat,
          w'.registerByte sampleFirstUpdateArch r j =
            if r = sampleFirstUpdateArch.regs.waveId ∧ j < 8 then byteOf (BitVec.ofNat 64 0) j
            else if sampleFirstUpdateEnv.ttmpsSetupEnabled = false ∧
                sampleFirstUpdateArch.isTtmp r = true ∧ j < 4 then 0
            else Wave.recordByte sampleFirstUpdateArch sampleFirstUpdateEnv.memory r j := by
  obtain ⟨w', sh', h⟩ : ∃ w' sh', (Wave.init 0 0 0 64 sampleCallbacks).update
      sampleFirstUpdateArch sampleFirstUpdateEnv ⟨[], [], 0, fun _ => 0, []⟩ =
        .ok (w', sh') := ⟨_, _, rfl⟩
  have hcb : sampleFirstUpdateArch.registerAddress 32 = some 256 := rfl
  have he : sampleFirstUpdateArch.registerAddress 47 = some 376 := rfl
  have hfile := Wave.update_first_registers (fun _ _ => rfl) rfl hcb he
    sampleFirstUpdateArch_layout rfl (by decide) rfl h
  exact ⟨w', sh', h, hfile⟩

end Dbgapi
