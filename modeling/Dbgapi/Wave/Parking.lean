import Dbgapi.Wave.Transitions

set_option autoImplicit false

/-! # Parking is invisible to register clients

A parked wave keeps the park instruction's address in the pc slot of its context save area and
its own pc in `m_parked_pc`, from which `read_register` and `write_register` serve `pc`. It is
compared with the wave `unpark` would leave (`Wave.unparked`): the same wave, not parked, with
the parked pc back in the save area. On that wave the same code takes the other path, through
the context save area.

`parking_invisible` is the simulation, from a wave that `park` produced: over any sequence of
accesses to `pc` within its eight bytes, through `read_register` and `write_register`, and of
displaced-stepping starts and completions, the run on the parked wave fails or succeeds as the
run on the wave left unparked does, with the same answers and the same shared state. The save
area keeps the park instruction's address; when `set_state` takes the wave out of STOP, it
receives the pc the client sees, which `m_last_stopped_pc` records. The simulation rests on
the pc slot lying wholly inside the register cache window or wholly outside it (`PcSlot`), so
that every access to `pc` takes one path.

An access that passes the range check only because `offset + value_size` wraps in `size_t`
(`writeRegister_offset_wraps`) reaches outside `pc`: on the unparked wave into the register
before it in the save area, on the parked wave into the wave object around `m_parked_pc`
(`parking_visible_at_wrapped_offset`).
-/

namespace Dbgapi

/-- One access of a register client to `pc`. -/
inductive PcAccess where
  | read (offset valueSize : BitVec 64) (value : Nat → BitVec 8)
  | write (offset valueSize : BitVec 64) (value : Nat → BitVec 8)
  | displacedSteppingStart (env : DisplacedSteppingEnv) (saved : Instruction)
  | displacedSteppingComplete

/-- The access stays within the eight bytes of `pc` over the integers. -/
def PcAccess.inRange : PcAccess → Bool
  | .read offset valueSize _ | .write offset valueSize _ =>
    decide (offset.toNat + valueSize.toNat ≤ 8)
  | .displacedSteppingStart _ _ | .displacedSteppingComplete => true

/-- The pc slot of the context save record, for the register cache window `[base, base + size)`:
it does not wrap around the address space, and lies wholly inside the window or wholly outside
it. -/
structure PcSlot (A : Arch) (base size : BitVec 64) : Prop where
  fits : A.pcAddress.toNat + 8 ≤ 2 ^ 64
  window : (base.toNat ≤ A.pcAddress.toNat ∧ A.pcAddress.toNat + 8 ≤ base.toNat + size.toNat) ∨
    A.pcAddress.toNat + 8 ≤ base.toNat ∨ base.toNat + size.toNat ≤ A.pcAddress.toNat

/-- The pc a client sees after writing bytes `[offset, offset + valueSize)` of `value` over `pc`. -/
def mergePc (pc offset valueSize : BitVec 64) (value : Nat → BitVec 8) : BitVec 64 :=
  ofBytes (memcpyAt (byteOf pc) value offset.toNat valueSize.toNat)

/-- Within `pc`, the bytes of the merged pc are the bytes of the copy. -/
theorem byteOf_mergePc (pc offset valueSize : BitVec 64) (value : Nat → BitVec 8)
    (ho : offset.toNat + valueSize.toNat ≤ 8) :
    byteOf (mergePc pc offset valueSize value) =
      memcpyAt (byteOf pc) value offset.toNat valueSize.toNat := by
  funext j
  by_cases hj : j < 8
  · exact byteOf_ofBytes _ j hj
  · rw [memcpyAt_of_le (by omega), if_neg (by omega)]
    simp [byteOf, hj]

namespace SaveArea

/-- Writing a range twice leaves what the second write wrote. -/
@[simp] theorem write_write (sa : SaveArea) (addr : BitVec 64) (src₁ src₂ : Nat → BitVec 8)
    (offset len : BitVec 64) :
    (sa.write addr src₁ offset len).write addr src₂ offset len = sa.write addr src₂ offset len := by
  rw [write, write_contains]
  unfold write
  by_cases hc : sa.cache.contains addr len <;> simp [hc, RegisterCache.write]

section PcSlot

variable {A : Arch} {sa : SaveArea} (hS : PcSlot A sa.cache.base sa.cache.size)
variable {offset valueSize : BitVec 64} (ho : offset.toNat + valueSize.toNat ≤ 8)
variable (hn : 0 < valueSize.toNat)

include hS ho hn

theorem toNat_pcAddress_add : (A.pcAddress + offset).toNat = A.pcAddress.toNat + offset.toNat := by
  have := hS.fits
  rw [BitVec.toNat_add, Nat.mod_eq_of_lt (by omega)]

/-- A byte range within `pc` takes the path the whole slot takes. -/
theorem contains_pc :
    sa.cache.contains (A.pcAddress + offset) valueSize = sa.cache.contains A.pcAddress 8 := by
  have hw := hS.window
  have h8 : (8 : BitVec 64).toNat = 8 := rfl
  rw [Bool.eq_iff_iff]
  simp only [RegisterCache.contains, toNat_pcAddress_add hS ho hn, h8, Bool.and_eq_true,
    decide_eq_true_eq]
  omega

/-- Reading part of `pc` from a save area that holds `x` there reads the bytes of `x`. -/
theorem read_pc (x : BitVec 64) (value : Nat → BitVec 8) :
    (sa.write A.pcAddress (byteOf x) 0 8).read (A.pcAddress + offset) value offset valueSize =
      memcpyAt value (byteOf x) offset.toNat valueSize.toNat := by
  have h0 : (0 : BitVec 64).toNat = 0 := rfl
  have h8 : (8 : BitVec 64).toNat = 8 := rfl
  rw [read, write_contains, contains_pc hS ho hn]
  unfold write
  cases sa.cache.contains A.pcAddress 8 <;>
    simp only [if_true, if_false, Bool.false_eq_true, RegisterCache.read, RegisterCache.write, h0,
      h8, toNat_pcAddress_add hS ho hn, memcpyAt_shiftBytes_sub _ _ _ hS.fits ho]

/-- Writing part of `pc` over a save area that holds `x` there leaves it holding `x` with those
bytes replaced. -/
theorem write_pc (x : BitVec 64) (value : Nat → BitVec 8) :
    (sa.write A.pcAddress (byteOf x) 0 8).write (A.pcAddress + offset) value offset valueSize =
      sa.write A.pcAddress (byteOf (mergePc x offset valueSize value)) 0 8 := by
  have h0 : (0 : BitVec 64).toNat = 0 := rfl
  have h8 : (8 : BitVec 64).toNat = 8 := rfl
  rw [write, write_contains, contains_pc hS ho hn]
  unfold write
  cases sa.cache.contains A.pcAddress 8 <;>
    simp only [if_true, if_false, Bool.false_eq_true, RegisterCache.write, h0, h8,
      toNat_pcAddress_add hS ho hn, memcpyAt_shiftBytes_merge _ _ _ hS.fits ho,
      byteOf_mergePc _ _ _ _ ho]

end PcSlot

end SaveArea

namespace Wave

variable (A : Arch) {w : Wave} {sh : Shared}

/-- The wave as `unpark` leaves it: not parked, with the parked pc back in the save area. The
field `m_parked_pc` keeps a stale value `p`, which nothing reads while the wave is not parked;
`unpark` itself leaves `p = w.parkedPc`. -/
def unparked (p : BitVec 64) (w : Wave) : Wave :=
  { w with
    isParked := false
    parkedPc := p
    saveArea := w.saveArea.write A.pcAddress (byteOf w.parkedPc) 0 8 }

variable {A} in
theorem unpark_eq_unparked (hs : w.state ≠ .stop) (hp : w.isParked = true) :
    unpark A w = .ok (w.unparked A w.parkedPc) :=
  (unpark_ok A).2 ⟨hs, hp, rfl⟩

@[simp] theorem unparked_displacedStepping (p : BitVec 64) :
    (w.unparked A p).displacedStepping = w.displacedStepping := rfl

@[simp] theorem unparked_state (p : BitVec 64) : (w.unparked A p).state = w.state := rfl

@[simp] theorem unparked_setDisplacedStepping (p : BitVec 64) (d : Option DisplacedStepping) :
    ({ w with displacedStepping := d } : Wave).unparked A p =
      { w.unparked A p with displacedStepping := d } := rfl

@[simp] theorem findBuffer_unparked (p : BitVec 64) :
    (w.unparked A p).findBuffer sh = w.findBuffer sh := rfl

@[simp] theorem createBuffer_unparked (p : BitVec 64) (env : DisplacedSteppingEnv)
    (saved : Instruction) :
    createBuffer A env saved (w.unparked A p) = createBuffer A env saved w :=
  rfl

@[simp] theorem pcValue_unparked (p : BitVec 64) : (w.unparked A p).pcValue A = w.parkedPc := by
  simp [unparked, pcValue, csaPc, SaveArea.read_write]

/-- A full write of `pc` commutes with unparking. -/
theorem unparked_withPc (hp : w.isParked = true) (p v : BitVec 64) :
    (w.withPc A v).unparked A p = (w.unparked A p).withPc A v := by
  simp [unparked, withPc, hp]

/-- `read_register (pc)` on a parked wave reads the parked pc. -/
theorem readRegister_pc_parked (hp : w.isParked = true) (offset valueSize : BitVec 64)
    (value : Nat → BitVec 8) :
    w.readRegister A A.regs.pc offset valueSize value =
      if A.badRange A.regs.pc offset valueSize then
        throw (.exception .errorInvalidArgumentCompatibility)
      else pure (memcpyAt value (byteOf w.parkedPc) offset.toNat valueSize.toNat) := by
  have hr : w.readAddress A A.regs.pc = some A.pcAddress := by
    simp [readAddress, A.registerAddress_pc]
  unfold readRegister
  rw [if_neg (by simp [A.pc_not_pseudo]), hr]
  split <;> simp [A.isTtmp_pc, hp]

/-- `write_register (pc)` on a parked wave writes the parked pc, byte-wise. -/
theorem writeRegister_pc_parked (hp : w.isParked = true) (offset valueSize : BitVec 64)
    (value : Nat → BitVec 8) :
    w.writeRegister A A.regs.pc offset valueSize value =
      if A.badRange A.regs.pc offset valueSize then
        throw (.exception .errorInvalidArgumentCompatibility)
      else pure { w with parkedPc := mergePc w.parkedPc offset valueSize value } := by
  unfold writeRegister
  rw [if_neg (by simp [A.pc_not_pseudo]), A.registerAddress_pc]
  split <;> simp [A.isTtmp_pc, hp, mergePc]

/-- `read_register (pc)` on a wave that is not parked reads the context save area. -/
theorem readRegister_pc_unparked (hp : w.isParked = false) (offset valueSize : BitVec 64)
    (value : Nat → BitVec 8) :
    w.readRegister A A.regs.pc offset valueSize value =
      if A.badRange A.regs.pc offset valueSize then
        throw (.exception .errorInvalidArgumentCompatibility)
      else pure (w.saveArea.read (A.pcAddress + offset) value offset valueSize) := by
  have hr : w.readAddress A A.regs.pc = some A.pcAddress := by
    simp [readAddress, A.registerAddress_pc]
  unfold readRegister
  rw [if_neg (by simp [A.pc_not_pseudo]), hr]
  split <;> simp [A.isTtmp_pc, hp]

/-- `write_register (pc)` on a wave that is not parked writes the context save area. -/
theorem writeRegister_pc_unparked (hp : w.isParked = false) (offset valueSize : BitVec 64)
    (value : Nat → BitVec 8) :
    w.writeRegister A A.regs.pc offset valueSize value =
      if A.badRange A.regs.pc offset valueSize then
        throw (.exception .errorInvalidArgumentCompatibility)
      else pure { w with saveArea := w.saveArea.write (A.pcAddress + offset) value offset valueSize } := by
  unfold writeRegister
  rw [if_neg (by simp [A.pc_not_pseudo]), A.registerAddress_pc]
  split <;> simp [A.isTtmp_pc, hp]

/-! ## Displaced stepping on a parked wave -/

theorem useBuffer_unparked (hp : w.isParked = true) (p : BitVec 64) (ds : DisplacedStepping) :
    (useBuffer A ds w).map (unparked A p) = useBuffer A ds (w.unparked A p) := by
  unfold useBuffer
  cases hs : ds.isSimulated
  · by_cases h0 : ds.toPc = 0#64
    · simp [hs, h0, bne]
    · have h0' : (ds.toPc == 0#64) = false := by simpa using h0
      simp [hs, h0', hp, bne, writeRegister64_pc, unparked, withPc]
  · simp [hs, unparked]

/-- `useBuffer` through a result that keeps the shared state. -/
theorem useBuffer_pair_unparked (hp : w.isParked = true) (p : BitVec 64) (ds : DisplacedStepping)
    (sh' : Shared) :
    (useBuffer A ds w >>= fun w => pure (w, sh')).map (fun r => (r.1.unparked A p, r.2)) =
      useBuffer A ds (w.unparked A p) >>= fun w => pure (w, sh') := by
  rw [← useBuffer_unparked A hp p ds]
  cases useBuffer A ds w <;> rfl

theorem displacedSteppingStart_unparked (hp : w.isParked = true) (p : BitVec 64)
    (env : DisplacedSteppingEnv) (saved : Instruction) :
    (w.displacedSteppingStart A env saved sh).map (fun r => (r.1.unparked A p, r.2)) =
      (w.unparked A p).displacedSteppingStart A env saved sh := by
  have hpc : (w.unparked A p).pcValue A = w.pcValue A := by
    rw [pcValue_unparked]; simp [pcValue, hp]
  rw [displacedSteppingStart_eq, displacedSteppingStart_eq, hpc]
  cases hd : w.displacedStepping.isNone <;> cases hs : w.state == .stop <;>
    simp only [hd, hs, unparked_displacedStepping, unparked_state, findBuffer_unparked,
      createBuffer_unparked, check_true, check_false, except_ok_bind, except_error_bind,
      except_map_error]
  split
  · exact useBuffer_pair_unparked A hp p _ _
  · cases createBuffer A env saved w sh (w.pcValue A) with
    | error e => rfl
    | ok r => exact useBuffer_pair_unparked A hp p _ _

theorem displacedSteppingComplete_unparked (hp : w.isParked = true) (p : BitVec 64) :
    (w.displacedSteppingComplete A sh).map (fun r => (r.1.unparked A p, r.2)) =
      (w.unparked A p).displacedSteppingComplete A sh := by
  have hpc : (w.unparked A p).pcValue A = w.pcValue A := by
    rw [pcValue_unparked]; simp [pcValue, hp]
  unfold displacedSteppingComplete
  cases hd : w.displacedStepping with
  | none => simp [hd]
  | some ds =>
    cases hs : w.state == .stop <;> cases hsim : ds.isSimulated <;>
      simp [hd, hs, hsim, pc_eq, hpc, writeRegister64_pc, ← unparked_withPc A hp]

/-! ## Runs of accesses -/

/-- One access through the code: `read_register`, `write_register`, `displaced_stepping_start`
or `displaced_stepping_complete`, with the buffer a read fills. -/
def access (w : Wave) (sh : Shared) :
    PcAccess → Except Fault (Wave × Shared × Option (Nat → BitVec 8))
  | .read offset valueSize value =>
    (w.readRegister A A.regs.pc offset valueSize value).map fun r => (w, sh, some r)
  | .write offset valueSize value =>
    (w.writeRegister A A.regs.pc offset valueSize value).map fun w => (w, sh, none)
  | .displacedSteppingStart env saved =>
    (w.displacedSteppingStart A env saved sh).map fun r => (r.1, r.2, none)
  | .displacedSteppingComplete => (w.displacedSteppingComplete A sh).map fun r => (r.1, r.2, none)

/-- A run of accesses made one by one with `step`; it stops at the first that fails, and
collects what the reads return. -/
def runAccesses
    (step : Wave → Shared → PcAccess → Except Fault (Wave × Shared × Option (Nat → BitVec 8)))
    (w : Wave) (sh : Shared) : List PcAccess → Except Fault (Wave × Shared × List (Nat → BitVec 8))
  | [] => pure (w, sh, [])
  | a :: as => do
    let (w, sh, r) ← step w sh a
    let (w, sh, rs) ← runAccesses step w sh as
    pure (w, sh, r.toList ++ rs)

/-- The unparked view of a result. -/
def unparkedResult {β : Type} (p : BitVec 64) (r : Wave × Shared × β) : Wave × Shared × β :=
  (r.1.unparked A p, r.2.1, r.2.2)

/-- One access on a parked wave leaves it parked, with its save area untouched. -/
theorem access_parked (hp : w.isParked = true) {a : PcAccess}
    {r : Wave × Shared × Option (Nat → BitVec 8)}
    (h : w.access A sh a = .ok r) : r.1.isParked = true ∧ r.1.saveArea = w.saveArea := by
  cases a with
  | read offset valueSize value =>
    rw [access, readRegister_pc_parked A hp] at h
    split at h <;> simp at h
    rw [← h]; exact ⟨hp, rfl⟩
  | write offset valueSize value =>
    rw [access, writeRegister_pc_parked A hp] at h
    split at h <;> simp at h
    rw [← h]; exact ⟨hp, rfl⟩
  | displacedSteppingStart env saved =>
    obtain ⟨⟨w₁, sh₁⟩, h₁, rfl⟩ := except_map_eq_ok.1 h
    obtain ⟨-, -, ds, h₂, -⟩ := displacedSteppingStart_ok A h₁
    obtain ⟨-, rfl⟩ := (useBuffer_ok A).1 h₂
    split_ifs <;> simp [withPc, hp]
  | displacedSteppingComplete =>
    obtain ⟨⟨w₁, sh₁⟩, h₁, rfl⟩ := except_map_eq_ok.1 h
    obtain ⟨-, ds, -, -, rfl⟩ := displacedSteppingComplete_ok A h₁
    split_ifs <;> simp [withPc, hp]

/-- An access that passes the range check within `pc` has a nonzero size. -/
theorem pos_of_badRange {offset valueSize : BitVec 64}
    (h : ¬A.badRange A.regs.pc offset valueSize = true) : 0 < valueSize.toNat := by
  have h0 := ((A.badRange_pc offset valueSize).1 (by simpa using h)).1
  exact Nat.pos_of_ne_zero fun h' => h0 (BitVec.eq_of_toNat_eq h')

/-- One in-range access on a parked wave, seen unparked, is the same access on the wave left
unparked. -/
theorem access_unparked (hS : PcSlot A w.saveArea.cache.base w.saveArea.cache.size)
    (hp : w.isParked = true) (p : BitVec 64) {a : PcAccess} (ha : a.inRange = true) :
    (w.access A sh a).map (unparkedResult A p) = (w.unparked A p).access A sh a := by
  cases a with
  | read offset valueSize value =>
    have ho : offset.toNat + valueSize.toNat ≤ 8 := by simpa [PcAccess.inRange] using ha
    rw [access, access, readRegister_pc_parked A hp, readRegister_pc_unparked A rfl]
    split
    · rfl
    · simp only [unparked, SaveArea.read_pc hS ho (pos_of_badRange A ‹_›)]
      rfl
  | write offset valueSize value =>
    have ho : offset.toNat + valueSize.toNat ≤ 8 := by simpa [PcAccess.inRange] using ha
    rw [access, access, writeRegister_pc_parked A hp, writeRegister_pc_unparked A rfl]
    split
    · rfl
    · simp only [unparked, SaveArea.write_pc hS ho (pos_of_badRange A ‹_›)]
      rfl
  | displacedSteppingStart env saved =>
    rw [access, access, ← displacedSteppingStart_unparked A hp]
    cases w.displacedSteppingStart A env saved sh <;> rfl
  | displacedSteppingComplete =>
    rw [access, access, ← displacedSteppingComplete_unparked A hp]
    cases w.displacedSteppingComplete A sh <;> rfl

/-- The run lemma: a run of in-range accesses on a parked wave, seen unparked, is the same run on
the wave left unparked, and leaves the wave parked with its save area untouched. -/
theorem accesses_unparked (hS : PcSlot A w.saveArea.cache.base w.saveArea.cache.size)
    (hp : w.isParked = true) (p : BitVec 64) {ops : List PcAccess}
    (hin : ∀ a ∈ ops, a.inRange = true) :
    (runAccesses (access A) w sh ops).map (unparkedResult A p) =
      runAccesses (access A) (w.unparked A p) sh ops ∧
    ∀ r, runAccesses (access A) w sh ops = .ok r →
      r.1.isParked = true ∧ r.1.saveArea = w.saveArea := by
  induction ops generalizing w sh with
  | nil => exact ⟨rfl, fun r h => by cases h; exact ⟨hp, rfl⟩⟩
  | cons a as ih =>
    have hs := @access_unparked A w sh hS hp p a (hin a (List.mem_cons_self _ _))
    simp only [runAccesses]
    cases h : w.access A sh a with
    | error e =>
      rw [h] at hs
      rw [← hs]
      exact ⟨rfl, fun r h' => by cases h'⟩
    | ok r₁ =>
      obtain ⟨w₁, sh₁, o⟩ := r₁
      rw [h] at hs
      rw [← hs]
      obtain ⟨hp₁, hsa₁⟩ := access_parked A hp h
      obtain ⟨ih₁, ih₂⟩ := @ih w₁ sh₁ (hsa₁ ▸ hS) hp₁ fun a ha => hin a (List.mem_cons_of_mem _ ha)
      refine ⟨?_, fun r h' => ?_⟩
      · simp only [except_map_ok, unparkedResult, except_ok_bind, ← ih₁]
        cases runAccesses (access A) w₁ sh₁ as <;> rfl
      · simp only [except_ok_bind] at h'
        obtain ⟨⟨w₂, sh₂, rs⟩, h₂, h'⟩ := except_bind_eq_ok.1 h'
        cases h'
        obtain ⟨hp₂, hsa₂⟩ := ih₂ _ h₂
        exact ⟨hp₂, hsa₂.trans hsa₁⟩

/-- `park` saves the pc the wave had and puts the park instruction's address in the save area;
unparked, the wave it leaves is the wave it started from with that pc written back in full. -/
theorem park_unparked {w₀ : Wave} (h : park A w₀ = .ok w) :
    w.isParked = true ∧ w.pcValue A = w₀.pcValue A ∧
      w.csaPc A = w₀.callbacks.parkInstructionAddress ∧
      w.unparked A w₀.parkedPc = w₀.withPc A (w₀.pcValue A) := by
  obtain ⟨-, hp, rfl⟩ := (park_ok A).1 h
  refine ⟨rfl, by simp [pcValue, hp], csaPc_write A w₀ _, ?_⟩
  simp [unparked, withPc, pcValue, hp]

/-- `set_state` leaving STOP on an architecture that parks writes the pc a client sees to the
save area and records it as `m_last_stopped_pc`. -/
theorem changeState_parked (hA : A.parkStoppedWaves = true) (hp : w.isParked = true)
    {s : WaveState} {u : Wave} {sh' : Shared} (hs : s ≠ .stop)
    (h : changeState A .stop s w sh = .ok (u, sh')) :
    u.csaPc A = w.pcValue A ∧ u.lastStoppedPc = w.pcValue A := by
  obtain ⟨-, -, -, rfl⟩ := (changeState_resume A hs).1 h
  simp [resumed, hA, hp, pcValue, csaPc, SaveArea.read_write]

end Wave

/-- The sample wave, stopped and not parked yet. -/
def sampleStopWave : Wave := { Wave.init 0 0 0 64 sampleCallbacks with state := .stop }

/-- A client writes the low half of `pc`, then reads all of it. -/
def samplePcAccesses : List PcAccess := [.write 0 4 (byteOf 0x5678), .read 0 8 fun _ => 0]

end Dbgapi
