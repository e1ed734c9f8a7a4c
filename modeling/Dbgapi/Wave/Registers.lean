import Dbgapi.Wave.Basic

set_option autoImplicit false

/-! # Register access

`wave_t::read_register` and `wave_t::write_register`, and the typed accessors built on them
(`pc ()`, the eight-byte writes of `park`, `terminate` and displaced stepping). A non-pseudo
register is served, in this order: by zeros (a trap temporary of an unprivileged wave), by the
parked pc (`pc` of a parked wave), by the register cache when its window holds the bytes, or
by global memory. Writes take the same path as reads, except that out-of-range scalar and
vector registers are dropped instead of aliased.

The wave code only ever accesses `pc` in full, as a `uint64_t`; `pc_eq` and
`writeRegister64_pc` say what those accesses do, so that the state-machine proofs never unfold
the register code.
-/

namespace Dbgapi

namespace Arch

variable (A : Arch)

/-- `regnum` is a scalar register (`first_sgpr ≤ regnum ≤ last_sgpr`). -/
def isSgpr (r : Regnum) : Bool := A.regs.firstSgpr ≤ r && r ≤ A.regs.lastSgpr

/-- `regnum` is a vector register. -/
def isVgpr (r : Regnum) : Bool := A.regs.firstVgpr ≤ r && r ≤ A.regs.lastVgpr

/-- `regnum` is a trap temporary. -/
def isTtmp (r : Regnum) : Bool := A.regs.firstTtmp ≤ r && r ≤ A.regs.lastTtmp

/-- The range check of both accessors, in `size_t`: the size is zero or `offset + value_size`
exceeds the register's size. -/
def badRange (r : Regnum) (offset valueSize : BitVec 64) : Bool :=
  valueSize == 0 || decide (A.registerSize r < offset + valueSize)

/-- The address of `pc` in the context save record. -/
def pcAddress : BitVec 64 := (A.registerAddress A.regs.pc).get A.pc_address

theorem registerAddress_pc : A.registerAddress A.regs.pc = some A.pcAddress := by
  simp [pcAddress]

theorem isTtmp_pc : A.isTtmp A.regs.pc = false := by
  simpa [isTtmp] using A.pc_not_ttmp

theorem badRange_pc (offset valueSize : BitVec 64) :
    A.badRange A.regs.pc offset valueSize = false ↔
      valueSize ≠ 0 ∧ offset + valueSize ≤ 8 := by
  simp [badRange, A.pc_size]

end Arch

/-! ## The context save area -/

namespace SaveArea

/-- Read `len` bytes at `addr` into `dst + offset`: from the cache when its window holds them,
from global memory otherwise. -/
def read (sa : SaveArea) (addr : BitVec 64) (dst : Nat → BitVec 8) (offset len : BitVec 64) :
    Nat → BitVec 8 :=
  if sa.cache.contains addr len then sa.cache.read addr dst offset.toNat len.toNat
  else memcpyAt dst (shiftBytes sa.memory addr.toNat offset.toNat) offset.toNat len.toNat

/-- Write the `len` bytes of `src` from `offset` on at `addr`, through the cache when its window
holds them, to global memory otherwise. -/
def write (sa : SaveArea) (addr : BitVec 64) (src : Nat → BitVec 8) (offset len : BitVec 64) :
    SaveArea :=
  if sa.cache.contains addr len then
    { sa with cache := sa.cache.write addr src offset.toNat len.toNat }
  else
    { sa with
      memory := memcpyAt sa.memory (shiftBytes src offset.toNat addr.toNat) addr.toNat len.toNat }

theorem write_contains (sa : SaveArea) (addr : BitVec 64) (src : Nat → BitVec 8)
    (offset len a l : BitVec 64) :
    (sa.write addr src offset len).cache.contains a l = sa.cache.contains a l := by
  unfold write
  split <;> rfl

theorem write_cache_base (sa : SaveArea) (addr : BitVec 64) (src : Nat → BitVec 8)
    (offset len : BitVec 64) : (sa.write addr src offset len).cache.base = sa.cache.base := by
  unfold write
  split <;> rfl

theorem write_cache_size (sa : SaveArea) (addr : BitVec 64) (src : Nat → BitVec 8)
    (offset len : BitVec 64) : (sa.write addr src offset len).cache.size = sa.cache.size := by
  unfold write
  split <;> rfl

/-- Reading back the range just written gives the bytes written. -/
theorem read_write (sa : SaveArea) (addr : BitVec 64) (src dst : Nat → BitVec 8)
    (offset len : BitVec 64) :
    (sa.write addr src offset len).read addr dst offset len =
      memcpyAt dst src offset.toNat len.toNat := by
  rw [read, write_contains]
  unfold write
  by_cases hc : sa.cache.contains addr len <;>
    simp only [hc, if_true, if_false, Bool.false_eq_true, RegisterCache.read, RegisterCache.write,
      memcpyAt_shiftBytes_round_trip _ _ _ _ _ addr.isLt]

end SaveArea

/-! ## `read_register` and `write_register` -/

namespace Wave

variable (A : Arch) (w : Wave)

/-- The address `read_register` reads `regnum` at: an out-of-range scalar register reads `s0`,
an out-of-range vector register reads `v0` of the wave's lane count. -/
def readAddress (regnum : Regnum) : Option (BitVec 64) :=
  let a := A.registerAddress regnum
  let a := if a.isNone && A.isSgpr regnum then A.registerAddress A.regs.s0 else a
  if a.isNone && A.isVgpr regnum then
    A.registerAddress (if w.laneCount == 32 then A.regs.v0_32 else A.regs.v0_64)
  else a

/-- `read_register (regnum, offset, value_size, value)`: the caller's buffer `value` with bytes
`[offset, offset + value_size)` filled from the register. -/
def readRegister (regnum : Regnum) (offset valueSize : BitVec 64) (value : Nat → BitVec 8) :
    Except Fault (Nat → BitVec 8) :=
  if A.isPseudoRegister regnum then A.readPseudoRegister w regnum offset valueSize value
  else if A.badRange regnum offset valueSize then
    throw (.exception .errorInvalidArgumentCompatibility)
  else
    match w.readAddress A regnum with
    | none => throw (.assertion "reg_addr")
    | some addr =>
      if A.isTtmp regnum && !w.isPriv then
        pure (memcpyAt value (fun _ => 0) offset.toNat valueSize.toNat)
      else if w.isParked && regnum == A.regs.pc then
        pure (memcpyAt value (byteOf w.parkedPc) offset.toNat valueSize.toNat)
      else pure (w.saveArea.read (addr + offset) value offset valueSize)

/-- `write_register (regnum, offset, value_size, value)`: bytes `[offset, offset + value_size)`
of `value` are written to the register. -/
def writeRegister (regnum : Regnum) (offset valueSize : BitVec 64) (value : Nat → BitVec 8) :
    Except Fault Wave :=
  if A.isPseudoRegister regnum then
    (A.writePseudoRegister w regnum offset valueSize value).map fun sa => { w with saveArea := sa }
  else if A.badRange regnum offset valueSize then
    throw (.exception .errorInvalidArgumentCompatibility)
  else
    match A.registerAddress regnum with
    | none => if A.isSgpr regnum || A.isVgpr regnum then pure w else throw (.assertion "reg_addr")
    | some addr =>
      if A.isTtmp regnum && !w.isPriv then pure w
      else if w.isParked && regnum == A.regs.pc then
        pure { w with
          parkedPc := ofBytes (memcpyAt (byteOf w.parkedPc) value offset.toNat valueSize.toNat) }
      else pure { w with saveArea := w.saveArea.write (addr + offset) value offset valueSize }

/-- The template `read_register (regnum, &value)` for a `uint64_t`. -/
def readRegister64 (regnum : Regnum) : Except Fault (BitVec 64) :=
  (w.readRegister A regnum 0 8 fun _ => 0).map ofBytes

/-- The template `write_register (regnum, &value)` for a `uint64_t`. -/
def writeRegister64 (regnum : Regnum) (v : BitVec 64) : Except Fault Wave :=
  w.writeRegister A regnum 0 8 (byteOf v)

/-- `wave_t::pc ()`. -/
def pc : Except Fault (BitVec 64) := w.readRegister64 A A.regs.pc

/-- The pc the context save area holds, as the unparked path of `pc ()` reads it. -/
def csaPc : BitVec 64 := ofBytes (w.saveArea.read A.pcAddress (fun _ => 0) 0 8)

/-- The value `pc ()` returns: the parked pc of a parked wave, the saved pc otherwise. -/
def pcValue : BitVec 64 := if w.isParked then w.parkedPc else w.csaPc A

/-- The wave after a full write `v` of `pc`: the parked pc of a parked wave, the context save
area otherwise. -/
def withPc (v : BitVec 64) : Wave :=
  { w with
    parkedPc := if w.isParked then v else w.parkedPc
    saveArea := if w.isParked then w.saveArea else w.saveArea.write A.pcAddress (byteOf v) 0 8 }

/-! ## What the accessors do -/

/-- A successful write changes only the registers: the parked pc and the context save area. -/
theorem writeRegister_frame {regnum : Regnum} {offset valueSize : BitVec 64}
    {value : Nat → BitVec 8} {w' : Wave}
    (h : w.writeRegister A regnum offset valueSize value = .ok w') :
    ∃ pp sa, w' = { w with parkedPc := pp, saveArea := sa } := by
  unfold writeRegister at h
  split at h
  · cases hp : A.writePseudoRegister w regnum offset valueSize value <;>
      simp only [hp, Except.map] at h <;> cases h
    exact ⟨w.parkedPc, _, rfl⟩
  split at h
  · cases h
  split at h
  · split at h
    · cases h; exact ⟨w.parkedPc, w.saveArea, rfl⟩
    · cases h
  split at h
  · cases h; exact ⟨w.parkedPc, w.saveArea, rfl⟩
  split at h <;> cases h
  · exact ⟨_, w.saveArea, rfl⟩
  · exact ⟨w.parkedPc, _, rfl⟩

theorem writeRegister64_frame {regnum : Regnum} {v : BitVec 64} {w' : Wave}
    (h : w.writeRegister64 A regnum v = .ok w') :
    ∃ pp sa, w' = { w with parkedPc := pp, saveArea := sa } :=
  writeRegister_frame A w h

/-- `pc ()` reads the parked pc of a parked wave and the context save area otherwise. -/
theorem pc_eq : w.pc A = .ok (w.pcValue A) := by
  have hr : w.readAddress A A.regs.pc = some A.pcAddress := by
    simp [readAddress, A.registerAddress_pc]
  have h0 : A.pcAddress + 0 = A.pcAddress := BitVec.add_zero _
  unfold pc readRegister64 readRegister
  rw [if_neg (by simp [A.pc_not_pseudo]), if_neg (by simp [Arch.badRange, A.pc_size]), hr]
  unfold pcValue
  cases hp : w.isParked
  · simp only [A.isTtmp_pc, hp, h0, Bool.false_and, Bool.false_eq_true, if_false]
    rfl
  · simp only [A.isTtmp_pc, hp, Bool.false_and, Bool.false_eq_true, if_false, if_true,
      beq_self_eq_true, Bool.and_self]
    simp [Except.map, pure, Except.pure]

/-- A full write of `pc` goes to the parked pc of a parked wave and to the context save area
otherwise. -/
theorem writeRegister64_pc (v : BitVec 64) :
    w.writeRegister64 A A.regs.pc v = .ok (w.withPc A v) := by
  have h0 : A.pcAddress + 0 = A.pcAddress := BitVec.add_zero _
  unfold writeRegister64 writeRegister withPc
  rw [if_neg (by simp [A.pc_not_pseudo]), if_neg (by simp [Arch.badRange, A.pc_size]),
    A.registerAddress_pc]
  cases hp : w.isParked
  · simp only [A.isTtmp_pc, hp, h0, Bool.false_and, Bool.false_eq_true, if_false]
    rfl
  · simp [A.isTtmp_pc, hp, pure, Except.pure]

/-- After a full write of `pc` to the context save area, the area holds the value written. -/
theorem csaPc_write (v : BitVec 64) :
    ({ w with saveArea := w.saveArea.write A.pcAddress (byteOf v) 0 8 } : Wave).csaPc A = v := by
  simp [csaPc, SaveArea.read_write]

/-- `pc ()` reads back a full write of `pc`. -/
@[simp] theorem pcValue_withPc (v : BitVec 64) : (w.withPc A v).pcValue A = v := by
  unfold pcValue withPc
  cases w.isParked <;> simp [csaPc, SaveArea.read_write]

end Wave

end Dbgapi
