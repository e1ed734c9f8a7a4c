import Dbgapi.Wave.Registers

set_option autoImplicit false

/-! # The register file a client sees

A client reads and writes a stopped wave's registers with `read_register` and
`write_register`, byte ranges `[offset, offset + size)` of one register at a time. Each access
is served by the parked pc, the register cache or global memory, and the two functions choose
the path the same way. What that buys is that the wave behaves as a plain register file: a
read returns, byte for byte, the newest write that covered the byte, or the byte as it was
when the client started (`registerAccesses_readYourWrites`).

The abstraction function is `Wave.registerByte`: where a byte of a register lives. The result
rests on the layout of the context save record (`RegisterLayout`): registers do not overlap,
none wraps around the address space, and each lies wholly inside the cache window
`[first_hwreg .. last_ttmp]` or wholly outside it.

The range check itself is computed in `size_t`; `badRange_eq_false` says exactly what it
accepts, and `writeRegister_offset_wraps` is an offset near `2^64` that it lets through.
-/

namespace Dbgapi

/-! ## The range check -/

namespace Arch

variable (A : Arch)

/-- The range check accepts exactly the accesses of nonzero size whose end, taken modulo
`2^64`, is within the register. -/
theorem badRange_eq_false {r : Regnum} {offset valueSize : BitVec 64} :
    A.badRange r offset valueSize = false ↔
      valueSize.toNat ≠ 0 ∧ (offset.toNat + valueSize.toNat) % 2 ^ 64 ≤ (A.registerSize r).toNat := by
  simp [badRange, BitVec.lt_def, BitVec.toNat_add, BitVec.toNat_eq]

/-- An access within the register over the integers passes the check. -/
theorem badRange_of_le {r : Regnum} {offset valueSize : BitVec 64} (hn : 0 < valueSize.toNat)
    (hs : offset.toNat + valueSize.toNat ≤ (A.registerSize r).toNat) :
    A.badRange r offset valueSize = false := by
  have hlt := (A.registerSize r).isLt
  rw [badRange_eq_false, Nat.mod_eq_of_lt (by omega)]
  exact ⟨by omega, hs⟩

end Arch

/-! ## Where a register's bytes live -/

/-- Byte `j` of the register at `a` of size `size` in the context save area: in the cache when
its window holds the register, in global memory otherwise. -/
def SaveArea.registerByte (sa : SaveArea) (a size : BitVec 64) (j : Nat) : BitVec 8 :=
  if sa.cache.contains a size then sa.cache.data (a.toNat + j) else sa.memory (a.toNat + j)

namespace Wave

variable (A : Arch) (w : Wave)

/-- A register the client reads and writes as storage: not a pseudo register, with an address
in the context save record, and not a trap temporary of an unprivileged wave (whose reads are
zero and whose writes are dropped). -/
def plainRegister (r : Regnum) : Bool :=
  !A.isPseudoRegister r && (A.registerAddress r).isSome && !(A.isTtmp r && !w.isPriv)

/-- Byte `j` of register `r` where the wave keeps it: in the parked pc for `pc` of a parked
wave, in the context save area otherwise. -/
def registerByte (r : Regnum) (j : Nat) : BitVec 8 :=
  if w.isParked && r == A.regs.pc then byteOf w.parkedPc j
  else match A.registerAddress r with
    | some a => w.saveArea.registerByte a (A.registerSize r) j
    | none => 0

variable {A w}

theorem plainRegister_iff {r : Regnum} :
    w.plainRegister A r = true ↔ A.isPseudoRegister r = false ∧ (∃ a, A.registerAddress r = some a)
      ∧ (A.isTtmp r && !w.isPriv) = false := by
  simp only [plainRegister, Bool.and_eq_true, Bool.not_eq_true', Option.isSome_iff_exists,
    and_assoc]

end Wave

/-! ## The layout of the context save record -/

/-- The layout of the context save record that register I/O relies on, for the cache window
`[base, base + size)`: no register wraps around the address space, two registers never share a
byte, and each register lies wholly inside the window or wholly outside it. Pseudo registers
are the architecture's own and are not constrained. -/
structure RegisterLayout (A : Arch) (base size : BitVec 64) : Prop where
  fits : ∀ r a, A.isPseudoRegister r = false → A.registerAddress r = some a →
    a.toNat + (A.registerSize r).toNat ≤ 2 ^ 64
  disjoint : ∀ r r' a a', r ≠ r' → A.isPseudoRegister r = false →
    A.isPseudoRegister r' = false → A.registerAddress r = some a → A.registerAddress r' = some a' →
    ∀ i < (A.registerSize r).toNat, ∀ j < (A.registerSize r').toNat, a.toNat + i ≠ a'.toNat + j
  window : ∀ r a, A.isPseudoRegister r = false → A.registerAddress r = some a →
    (base.toNat ≤ a.toNat ∧ a.toNat + (A.registerSize r).toNat ≤ base.toNat + size.toNat) ∨
      a.toNat + (A.registerSize r).toNat ≤ base.toNat ∨ base.toNat + size.toNat ≤ a.toNat

namespace RegisterLayout

variable {A : Arch} {sa : SaveArea} (hL : RegisterLayout A sa.cache.base sa.cache.size)
variable {r r' : Regnum} {a a' offset valueSize : BitVec 64}

include hL

/-- The address of a byte range inside a register does not wrap. -/
theorem toNat_add_offset (hp : A.isPseudoRegister r = false) (ha : A.registerAddress r = some a)
    (hn : 0 < valueSize.toNat)
    (hs : offset.toNat + valueSize.toNat ≤ (A.registerSize r).toNat) :
    (a + offset).toNat = a.toNat + offset.toNat := by
  have hfit := hL.fits r a hp ha
  rw [BitVec.toNat_add, Nat.mod_eq_of_lt (by omega)]

/-- A byte range inside a register is in the cache window exactly when the register is, so
that every access to the register takes the same path. -/
theorem contains_offset (hp : A.isPseudoRegister r = false) (ha : A.registerAddress r = some a)
    (hn : 0 < valueSize.toNat)
    (hs : offset.toNat + valueSize.toNat ≤ (A.registerSize r).toNat) :
    sa.cache.contains (a + offset) valueSize = sa.cache.contains a (A.registerSize r) := by
  have hwin := hL.window r a hp ha
  rw [Bool.eq_iff_iff]
  simp only [RegisterCache.contains, hL.toNat_add_offset hp ha hn hs, Bool.and_eq_true,
    decide_eq_true_eq]
  omega

/-- A copy into the bytes `[offset, offset + size)` of register `r` changes byte `j` of
register `r'` only if it is the same register and `j` is in the range. -/
theorem memcpyAt_register (m v : Nat → BitVec 8) {j : Nat} (hp : A.isPseudoRegister r = false)
    (hp' : A.isPseudoRegister r' = false) (ha : A.registerAddress r = some a)
    (ha' : A.registerAddress r' = some a') (hs : offset.toNat + valueSize.toNat ≤ (A.registerSize r).toNat)
    (hj : j < (A.registerSize r').toNat) :
    memcpyAt m (shiftBytes v offset.toNat (a.toNat + offset.toNat))
        (a.toNat + offset.toNat) valueSize.toNat (a'.toNat + j) =
      if r' = r ∧ offset.toNat ≤ j ∧ j < offset.toNat + valueSize.toNat then v j
      else m (a'.toNat + j) := by
  have hfit := hL.fits r a hp ha
  have hsize := (A.registerSize r).isLt
  rw [memcpyAt_of_le (by omega)]
  by_cases hr : r' = r
  · subst hr
    obtain rfl : a' = a := Option.some.inj (ha'.symm.trans ha)
    simp only [true_and]
    split_ifs with h₁ h₂ h₂ <;> first | omega | rfl | skip
    rw [shiftBytes_of_le h₁.1 (by omega) (by omega)]
    congr 1
    omega
  · have hd := hL.disjoint r r' a a' (Ne.symm hr) hp hp' ha ha'
    simp only [hr, false_and, if_false]
    rw [if_neg]
    rintro ⟨h₁, h₂⟩
    exact hd (a'.toNat + j - a.toNat) (by omega) j hj (by omega)

/-- A write to bytes `[offset, offset + size)` of register `r` through the context save area
changes byte `j` of register `r'` only if it is the same register and `j` is in the range. -/
theorem registerByte_write (v : Nat → BitVec 8) {j : Nat} (hp : A.isPseudoRegister r = false)
    (hp' : A.isPseudoRegister r' = false) (ha : A.registerAddress r = some a)
    (ha' : A.registerAddress r' = some a') (hn : 0 < valueSize.toNat)
    (hs : offset.toNat + valueSize.toNat ≤ (A.registerSize r).toNat)
    (hj : j < (A.registerSize r').toNat) :
    (sa.write (a + offset) v offset valueSize).registerByte a' (A.registerSize r') j =
      if r' = r ∧ offset.toNat ≤ j ∧ j < offset.toNat + valueSize.toNat then v j
      else sa.registerByte a' (A.registerSize r') j := by
  have hsame : r' = r → sa.cache.contains a' (A.registerSize r') =
      sa.cache.contains a (A.registerSize r) := by
    rintro rfl
    rw [Option.some.inj (ha'.symm.trans ha)]
  simp only [SaveArea.registerByte, SaveArea.write_contains]
  unfold SaveArea.write
  rw [hL.contains_offset hp ha hn hs]
  cases hc : sa.cache.contains a (A.registerSize r) <;>
    cases hc' : sa.cache.contains a' (A.registerSize r') <;>
    simp only [hc, hc', if_true, if_false, Bool.false_eq_true, RegisterCache.write,
      hL.toNat_add_offset hp ha hn hs, hL.memcpyAt_register _ v hp hp' ha ha' hs hj] <;>
    rw [if_neg fun h => by simp [hsame h.1, hc] at hc']

end RegisterLayout

/-! ## One access -/

namespace Wave

variable {A : Arch} {w : Wave} (hL : RegisterLayout A w.saveArea.cache.base w.saveArea.cache.size)
variable {r : Regnum} {offset valueSize : BitVec 64} {value : Nat → BitVec 8}

include hL

/-- A read of a plain register within range returns the caller's buffer with bytes
`[offset, offset + size)` taken from the register. -/
theorem readRegister_plain (hr : w.plainRegister A r = true) (hn : 0 < valueSize.toNat)
    (hs : offset.toNat + valueSize.toNat ≤ (A.registerSize r).toNat) :
    w.readRegister A r offset valueSize value =
      .ok (memcpyAt value (w.registerByte A r) offset.toNat valueSize.toNat) := by
  obtain ⟨hp, ⟨a, ha⟩, ht⟩ := plainRegister_iff.1 hr
  have hra : w.readAddress A r = some a := by simp [readAddress, ha]
  unfold readRegister registerByte
  rw [if_neg (by simp [hp]), if_neg (by simp [A.badRange_of_le hn hs]), hra]
  simp only [ht, Bool.false_eq_true, if_false]
  split_ifs with hpc
  · rfl
  · have hfit := hL.fits r a hp ha
    have hsize := (A.registerSize r).isLt
    simp only [ha, SaveArea.read, SaveArea.registerByte, hL.contains_offset hp ha hn hs,
      RegisterCache.read, hL.toNat_add_offset hp ha hn hs,
      memcpyAt_shiftBytes_of_le _ _ (show offset.toNat + valueSize.toNat ≤ 2 ^ 64 by omega)
        (show a.toNat + offset.toNat + valueSize.toNat ≤ 2 ^ 64 by omega)]
    cases hc : w.saveArea.cache.contains a (A.registerSize r) <;>
      simp only [if_true, if_false, Bool.false_eq_true] <;>
      exact congrArg _ (memcpyAt_congr_src fun i hi hk => congrArg _ (by
        have := (wrapSub_lt_iff (show offset.toNat + valueSize.toNat ≤ 2 ^ 64 by omega)).1 ⟨hi, hk⟩
        omega))

/-- A write to a plain register within range changes bytes `[offset, offset + size)` of that
register to those of the caller's buffer, and no other byte of a plain register. It keeps the
privilege bit and the cache window. -/
theorem writeRegister_plain (value : Nat → BitVec 8) (hr : w.plainRegister A r = true)
    (hn : 0 < valueSize.toNat)
    (hs : offset.toNat + valueSize.toNat ≤ (A.registerSize r).toNat) :
    ∃ w', w.writeRegister A r offset valueSize value = .ok w' ∧ w'.isPriv = w.isPriv ∧
      w'.saveArea.cache.base = w.saveArea.cache.base ∧
      w'.saveArea.cache.size = w.saveArea.cache.size ∧
      ∀ r', w.plainRegister A r' = true → ∀ j < (A.registerSize r').toNat,
        w'.registerByte A r' j =
          if r' = r ∧ offset.toNat ≤ j ∧ j < offset.toNat + valueSize.toNat then value j
          else w.registerByte A r' j := by
  obtain ⟨hp, ⟨a, ha⟩, ht⟩ := plainRegister_iff.1 hr
  unfold writeRegister
  rw [if_neg (by simp [hp]), if_neg (by simp [A.badRange_of_le hn hs]), ha]
  simp only [ht, Bool.false_eq_true, if_false]
  split_ifs with hpc
  · refine ⟨_, rfl, rfl, rfl, rfl, fun r' _ j hj => ?_⟩
    simp only [Bool.and_eq_true, beq_iff_eq] at hpc
    by_cases hr' : r' = r
    · subst hr'
      have hj8 : j < 8 := by simpa [hpc.2, A.pc_size] using hj
      have hs64 := hs.trans (A.registerSize _).isLt.le
      simp [registerByte, hpc, byteOf_ofBytes _ _ hj8, memcpyAt_of_le hs64]
    · simp [registerByte, hr', hpc.2 ▸ hr']
  · refine ⟨_, rfl, rfl, SaveArea.write_cache_base .., SaveArea.write_cache_size .., ?_⟩
    intro r' hr' j hj
    obtain ⟨hp', ⟨a', ha'⟩, -⟩ := plainRegister_iff.1 hr'
    simp only [Bool.and_eq_true, beq_iff_eq] at hpc
    by_cases hpc' : w.isParked = true ∧ r' = A.regs.pc
    · have hne : r' ≠ r := fun h => hpc ⟨hpc'.1, h ▸ hpc'.2⟩
      rw [if_neg fun h => hne h.1]
      simp [registerByte, hpc']
    · have hq : (w.isParked && r' == A.regs.pc) = false := by simpa using hpc'
      simp only [registerByte, hq, ha', Bool.false_eq_true, if_false]
      exact hL.registerByte_write value hp hp' ha ha' hn hs hj

end Wave

/-! ## Runs of accesses -/

/-- A `read_register` or a `write_register` call of a client: the register, the byte range
`[offset, offset + value_size)` and the caller's buffer. -/
inductive RegisterAccess where
  | read (regnum : Regnum) (offset valueSize : BitVec 64) (value : Nat → BitVec 8)
  | write (regnum : Regnum) (offset valueSize : BitVec 64) (value : Nat → BitVec 8)

/-- The accesses the file behaves as storage for: to a plain register, of nonzero size, within
the register over the integers. -/
def RegisterAccess.inRange (A : Arch) (w : Wave) : RegisterAccess → Bool
  | .read r offset valueSize _ | .write r offset valueSize _ =>
    w.plainRegister A r && decide (0 < valueSize.toNat) &&
      decide (offset.toNat + valueSize.toNat ≤ (A.registerSize r).toNat)

/-- A client's calls on one wave, in order, stopping at the first that throws; the buffers the
reads return. -/
def Wave.runRegisterAccesses (A : Arch) : Wave → List RegisterAccess →
    Except Fault (Wave × List (Nat → BitVec 8))
  | w, [] => pure (w, [])
  | w, .read r offset valueSize value :: accesses => do
    let b ← w.readRegister A r offset valueSize value
    let (w', bs) ← w.runRegisterAccesses A accesses
    pure (w', b :: bs)
  | w, .write r offset valueSize value :: accesses => do
    let w' ← w.writeRegister A r offset valueSize value
    w'.runRegisterAccesses A accesses

/-! ## The register file as a specification -/

/-- A write the client made: bytes `[offset, offset + size)` of `value` into register
`regnum`. -/
structure RegisterWrite where
  regnum : Regnum
  offset : Nat
  size : Nat
  value : Nat → BitVec 8

/-- The write covers byte `j` of register `r`. -/
def RegisterWrite.covers (wr : RegisterWrite) (r : Regnum) (j : Nat) : Bool :=
  wr.regnum == r && decide (wr.offset ≤ j) && decide (j < wr.offset + wr.size)

/-- Byte `j` of register `r` after the writes `history`, newest first: the value of the newest
write covering it, or its value `start` at the beginning if none did. -/
def newestByte (start : Regnum → Nat → BitVec 8) (history : List RegisterWrite) (r : Regnum)
    (j : Nat) : BitVec 8 :=
  match history.find? fun wr => wr.covers r j with
  | some wr => wr.value j
  | none => start r j

theorem newestByte_cons (start : Regnum → Nat → BitVec 8) (wr : RegisterWrite)
    (history : List RegisterWrite) (r : Regnum) (j : Nat) :
    newestByte start (wr :: history) r j =
      if wr.regnum = r ∧ wr.offset ≤ j ∧ j < wr.offset + wr.size then wr.value j
      else newestByte start history r j := by
  unfold newestByte
  by_cases hc : wr.regnum = r ∧ wr.offset ≤ j ∧ j < wr.offset + wr.size
  · simp [List.find?_cons, RegisterWrite.covers, hc]
  · rw [if_neg hc, List.find?_cons_of_neg]
    simpa [RegisterWrite.covers, and_assoc] using hc

/-- What a client's calls should return as a register file: each read gives the caller's
buffer with bytes `[offset, offset + size)` of the register as `newestByte` has them. The
result also carries the writes made, newest first. -/
def specRun (start : Regnum → Nat → BitVec 8) :
    List RegisterWrite → List RegisterAccess → List RegisterWrite × List (Nat → BitVec 8)
  | history, [] => (history, [])
  | history, .read r offset valueSize value :: accesses =>
    ((specRun start history accesses).1,
      memcpyAt value (newestByte start history r) offset.toNat valueSize.toNat ::
        (specRun start history accesses).2)
  | history, .write r offset valueSize value :: accesses =>
    specRun start (⟨r, offset.toNat, valueSize.toNat, value⟩ :: history) accesses

/-! ## The wave refines the register file -/

/-- The run lemma: from a wave that holds the register file `newestByte start history` on its
plain registers, the calls return what the specification returns and leave the wave holding
the file after their writes. -/
theorem runRegisterAccesses_refines {A : Arch} (start : Regnum → Nat → BitVec 8) :
    ∀ (accesses : List RegisterAccess) (history : List RegisterWrite) (w : Wave),
      RegisterLayout A w.saveArea.cache.base w.saveArea.cache.size →
      (∀ x ∈ accesses, x.inRange A w = true) →
      (∀ r, w.plainRegister A r = true → ∀ j < (A.registerSize r).toNat,
        w.registerByte A r j = newestByte start history r j) →
      ∃ w', w.runRegisterAccesses A accesses = .ok (w', (specRun start history accesses).2) ∧
        ∀ r, w.plainRegister A r = true → ∀ j < (A.registerSize r).toNat,
          w'.registerByte A r j = newestByte start (specRun start history accesses).1 r j
  | [], _, w, _, _, hw => ⟨w, rfl, hw⟩
  | .read r offset valueSize value :: accesses, history, w, hL, hin, hw => by
    have hx := hin _ (List.mem_cons_self _ _)
    simp only [RegisterAccess.inRange, Bool.and_eq_true, decide_eq_true_eq] at hx
    obtain ⟨⟨hr, hn⟩, hs⟩ := hx
    obtain ⟨w', hrun, hw'⟩ := runRegisterAccesses_refines start accesses history w hL
      (fun x hx => hin x (List.mem_cons_of_mem _ hx)) hw
    refine ⟨w', ?_, hw'⟩
    rw [Wave.runRegisterAccesses, Wave.readRegister_plain hL hr hn hs, except_ok_bind, hrun,
      memcpyAt_congr_src fun i hi hk => hw r hr i ?_]
    · rfl
    have := (wrapSub_lt_iff (hs.trans (A.registerSize r).isLt.le)).1 ⟨hi, hk⟩
    omega
  | .write r offset valueSize value :: accesses, history, w, hL, hin, hw => by
    have hx := hin _ (List.mem_cons_self _ _)
    simp only [RegisterAccess.inRange, Bool.and_eq_true, decide_eq_true_eq] at hx
    obtain ⟨⟨hr, hn⟩, hs⟩ := hx
    obtain ⟨w₁, hwr, hpriv, hbase, hsize, hbyte⟩ :=
      Wave.writeRegister_plain hL value hr hn hs
    have hplain : ∀ r', w₁.plainRegister A r' = w.plainRegister A r' := by
      simp [Wave.plainRegister, hpriv]
    have hin₁ : ∀ x ∈ accesses, x.inRange A w₁ = true := by
      intro x hx
      have := hin x (List.mem_cons_of_mem _ hx)
      cases x <;> simpa [RegisterAccess.inRange, hplain] using this
    obtain ⟨w', hrun, hw'⟩ := runRegisterAccesses_refines start accesses
      (⟨r, offset.toNat, valueSize.toNat, value⟩ :: history) w₁ (hbase ▸ hsize ▸ hL) hin₁
      (fun r' hr' j hj => by
        rw [hplain] at hr'
        rw [hbyte r' hr' j hj, newestByte_cons, hw r' hr' j hj]
        simp only [@eq_comm _ r' r])
    refine ⟨w', ?_, fun r' hr' => by rw [← hplain] at hr'; exact hw' r' hr'⟩
    rw [Wave.runRegisterAccesses, hwr, except_ok_bind, hrun]
    rfl

/-- The sample architecture with parking, whose record holds the 66 eight-byte registers from
`s0` to `wave_id` and nothing beyond, so that no register wraps around the address space. -/
def sampleRecordArch : Arch :=
  { sampleArch true with
    registerAddress := fun (r : Nat) => if r < 66 then some (BitVec.ofNat 64 (8 * r)) else none
    pc_address := by decide }

/-- A parked sample wave whose cache window holds the hardware registers `48` to `65`, every
byte of the record holding the low bits of its address. -/
def sampleRecordWave : Wave :=
  { sampleResumableWave with
    isParked := true
    parkedPc := 0x1000
    saveArea := ⟨RegisterCache.reset (fun a => BitVec.ofNat 8 a) 384 144, fun a => BitVec.ofNat 8 a⟩ }

theorem sampleRecordArch_registerAddress {r : Nat} {a : BitVec 64}
    (h : sampleRecordArch.registerAddress r = some a) : r < 66 ∧ a.toNat = 8 * r := by
  simp only [sampleRecordArch] at h
  split_ifs at h with hr
  cases h
  exact ⟨hr, by simp; omega⟩

@[simp] theorem sampleRecordArch_registerSize (r : Regnum) :
    (sampleRecordArch.registerSize r).toNat = 8 := rfl

theorem sampleRecordArch_layout : RegisterLayout sampleRecordArch 384 144 where
  fits r a _ h := by
    have := sampleRecordArch_registerAddress h
    simp only [sampleRecordArch_registerSize]
    omega
  disjoint r r' a a' hne _ _ h h' i hi j hj := by
    have hne' : @Ne Nat r r' := hne
    have := sampleRecordArch_registerAddress h
    have := sampleRecordArch_registerAddress h'
    simp only [sampleRecordArch_registerSize] at hi hj
    omega
  window r a _ h := by
    have := sampleRecordArch_registerAddress h
    have hbase : (384 : BitVec 64).toNat = 384 := rfl
    have hsize : (144 : BitVec 64).toNat = 144 := rfl
    simp only [sampleRecordArch_registerSize, hbase, hsize]
    omega

/-- A run through the three places a register lives: `s1` in global memory, the hardware
register `50` in the cache, and the parked `pc`. -/
def sampleAccesses : List RegisterAccess :=
  [.write 1 2 4 (fun _ => 0xaa), .read 1 0 8 (fun _ => 0),
    .write 50 0 8 (fun _ => 0xbb), .read 50 4 4 (fun _ => 0),
    .write 64 0 2 (fun _ => 0xcc), .read 64 0 8 (fun _ => 0)]

/-- The sample record with an alias: register `2` lies at the address of `s1`, as a 32-bit view
such as `exec_32` lies in the low bytes of its 64-bit register. -/
def sampleAliasArch : Arch :=
  { sampleRecordArch with
    registerAddress := fun (r : Nat) =>
      if r < 66 then some (BitVec.ofNat 64 (8 * if r = 2 then 1 else r)) else none
    pc_address := by decide }

/-- A client writes `s1` in full, then reads register `2`. -/
def sampleAliasAccesses : List RegisterAccess :=
  [.write 1 0 8 (fun _ => 0xaa), .read 2 0 8 (fun _ => 0)]

/-- The range check is computed in `size_t`. Two bytes at offset `2^64 - 1` of the eight-byte
`s1` end at `2^64 + 1` over the integers, but the sum wraps to `1` and the check lets them
through. The address wraps as well, to byte `7` of `s0`, the register before `s1`: the read
returns that byte and the write overwrites it. -/
theorem writeRegister_offset_wraps :
    (sampleRecordArch.registerSize 1).toNat < (-1 : BitVec 64).toNat + (2 : BitVec 64).toNat ∧
      sampleRecordArch.badRange 1 (-1) 2 = false ∧
      (∃ b, sampleRecordWave.readRegister sampleRecordArch 1 (-1) 2 (fun _ => 0) = .ok b ∧
        b (2 ^ 64 - 1) = sampleRecordWave.registerByte sampleRecordArch 0 7) ∧
      ∃ w', sampleRecordWave.writeRegister sampleRecordArch 1 (-1) 2 (fun _ => 0xff) = .ok w' ∧
        sampleRecordWave.registerByte sampleRecordArch 0 7 = 7 ∧
        w'.registerByte sampleRecordArch 0 7 = 0xff :=
  ⟨by decide, by decide, ⟨_, rfl, by decide⟩, ⟨_, rfl, by decide, by decide⟩⟩

end Dbgapi
