import Dbgapi.Wave.Basic

set_option autoImplicit false

/-! # Segment memory transfers

`wave_t::xfer_segment_memory` reads or writes a wave's private or local memory through the
process's partial global-memory primitive: private memory lives in the wave's scratch region,
swizzled (dword `i` of every lane side by side) or not, and local memory in the context save
area of the wave's group leader. Sizes and addresses are `size_t` and `uint64_t`, so the model
computes them in `BitVec 64`, where sums wrap.

A transfer is modelled by the calls it makes to the primitive (`Access`), the status it returns
and the value it leaves in `*size` (`XferResult`). The primitive's answers are arbitrary
(`PartialMemory`), save that it never reports more bytes than it was asked for. The read and
write paths differ only in the primitive they call and in the direction bytes move, so one
model covers both.

The bounds checks `offset + size > limit` are made on wrapped sums: a size close to `2 ^ 64`
passes the check of `xfer_private_memory_unswizzled` and `xfer_local_memory`
(`xferSegmentMemory_size_wraps`), and the swizzled loop returns `MEMORY_ACCESS` once its next
dword is past the scratch region even when it has already moved bytes
(`xferPrivateMemorySwizzled_drops_progress`).
-/

namespace Dbgapi

/-- One call of the partial global-memory primitive: the global address, the bytes asked for,
and the bytes it moved. -/
structure Access where
  address : BitVec 64
  size : BitVec 64
  moved : BitVec 64
  deriving DecidableEq, Repr

/-- `process_t::read_global_memory_partial` or `write_global_memory_partial`, whichever the
transfer uses: its `k`-th call, at an address for a number of bytes, answers a status and the
number of bytes it moved from the start of the range, never more than asked for. Modelled from
the spec: `process.cpp` is not part of the source. -/
structure PartialMemory where
  xfer : Nat → BitVec 64 → BitVec 64 → Status × BitVec 64
  moved_le : ∀ k address size, (xfer k address size).2 ≤ size

/-- How a transfer ends: the calls it made, the status it returns, and `*size` after it. -/
structure XferResult where
  accesses : List Access
  status : Status
  size : BitVec 64
  deriving DecidableEq, Repr

/-- The primitive that moves every byte it is asked for. -/
def PartialMemory.full : PartialMemory :=
  ⟨fun _ _ size => (.success, size), fun _ _ size => BitVec.le_refl size⟩

/-! ## Private memory, swizzled -/

/-- `std::min (4 - (segment_address % 4), bytes)`: the bytes left in the dword of
`segmentAddress`, or fewer if fewer are left to move. -/
def requestSize (segmentAddress bytes : BitVec 64) : BitVec 64 :=
  if bytes < 4 - segmentAddress % 4 then bytes else 4 - segmentAddress % 4

/-- The `offset` of `xfer_private_memory_swizzled`: where byte `segmentAddress` of lane `laneId`
sits in the scratch region, dword `segmentAddress / 4` of each lane stored side by side.
`lane_id * 4` is computed in 32 bits. -/
def scratchOffset (laneCount : Nat) (laneId : BitVec 32) (segmentAddress : BitVec 64) :
    BitVec 64 :=
  segmentAddress / 4 * BitVec.ofNat 64 laneCount * 4 + (laneId * 4).zeroExtend 64 +
    segmentAddress % 4

theorem toNat_four_sub_mod (a : BitVec 64) : (4 - a % 4).toNat = 4 - a.toNat % 4 := by
  have h4 : (4 : BitVec 64).toNat = 4 := rfl
  have h : a.toNat % 4 < 4 := Nat.mod_lt _ (by decide)
  rw [BitVec.toNat_sub, BitVec.toNat_umod, h4]
  omega

theorem requestSize_toNat (segmentAddress bytes : BitVec 64) :
    (requestSize segmentAddress bytes).toNat = min (4 - segmentAddress.toNat % 4) bytes.toNat := by
  unfold requestSize
  have h := toNat_four_sub_mod segmentAddress
  split_ifs with hlt <;> rw [BitVec.lt_def, h] at hlt
  · omega
  · rw [h]; omega

/-- The loop of `xfer_private_memory_swizzled`, from its `k`-th call on, at `segmentAddress`
with `bytes` left to move: the calls it makes, and the bytes left when the loop ends, or the
status it returns from inside the loop. A chunk cut at the end of the scratch region, or cut
short by the primitive, is the last. -/
def swizzledLoop (P : PartialMemory) (laneCount : Nat) (laneId : BitVec 32)
    (base scratchSize : BitVec 64) (k : Nat) (segmentAddress bytes : BitVec 64) :
    List Access × Except Status (BitVec 64) :=
  if hb : bytes = 0 then ([], .ok bytes)
  else
    let requestSize := requestSize segmentAddress bytes
    let offset := scratchOffset laneCount laneId segmentAddress
    let xferSize := if scratchSize < offset + requestSize then
        (if offset < scratchSize then scratchSize - offset else 0)
      else requestSize
    if scratchSize < offset + requestSize ∧ xferSize = 0 then ([], .error .errorMemoryAccess)
    else
      match P.xfer k (base + offset) xferSize with
      | (status, moved) =>
        let access : Access := ⟨base + offset, xferSize, moved⟩
        if status ≠ .success then ([access], .error status)
        else if hm : requestSize ≠ moved then ([access], .ok (bytes - moved))
        else
          let r := swizzledLoop P laneCount laneId base scratchSize (k + 1)
            (segmentAddress + moved) (bytes - moved)
          (access :: r.1, r.2)
termination_by bytes.toNat
decreasing_by
  have hm : Dbgapi.requestSize segmentAddress bytes = moved := not_not.1 hm
  have hr := requestSize_toNat segmentAddress bytes
  rw [hm] at hr
  have hb : 0 < bytes.toNat := by bv_omega
  rw [BitVec.toNat_sub_of_le (by rw [BitVec.le_def]; omega)]
  omega

/-- `AMD_DBGAPI_LANE_NONE`. -/
def laneNone : BitVec 32 := -1

/-- `wave_t::xfer_private_memory_swizzled`. -/
def xferPrivateMemorySwizzled (P : PartialMemory) (w : Wave) (segmentAddress : BitVec 64)
    (laneId : BitVec 32) (size : BitVec 64) : XferResult :=
  if laneId = laneNone ∨ w.laneCount ≤ laneId.toNat then ⟨[], .errorInvalidLaneId, size⟩
  else
    let (base, scratchSize) := w.callbacks.scratchMemoryRegion
    match swizzledLoop P w.laneCount laneId base scratchSize 0 segmentAddress size with
    | (accesses, .error status) => ⟨accesses, status, size⟩
    | (accesses, .ok bytes) =>
      if bytes ≠ 0 ∧ bytes = size then ⟨accesses, .errorMemoryAccess, size⟩
      else ⟨accesses, .success, size - bytes⟩

/-! ## Private memory, unswizzled, and local memory -/

/-- The bounds check shared by `xfer_private_memory_unswizzled` and `xfer_local_memory`: a range
`[offset, offset + size)` that ends past `limit` is cut at `limit`, and refused (`none`) when
it is not empty and none of it is below `limit`. -/
def clampSize (offset size limit : BitVec 64) : Option (BitVec 64) :=
  if limit < offset + size then
    let maxSize := if offset < limit then limit - offset else 0
    if maxSize = 0 ∧ size ≠ 0 then none else some maxSize
  else some size

/-- One call of the primitive, for `size` bytes at `address`, whose answer is the transfer's:
the primitive sets `*size` to the bytes it moved. -/
def xferOnce (P : PartialMemory) (address size : BitVec 64) : XferResult :=
  ⟨[⟨address, size, (P.xfer 0 address size).2⟩], (P.xfer 0 address size).1,
    (P.xfer 0 address size).2⟩

/-- `wave_t::xfer_private_memory_unswizzled`. -/
def xferPrivateMemoryUnswizzled (P : PartialMemory) (w : Wave) (segmentAddress size : BitVec 64) :
    XferResult :=
  match clampSize segmentAddress size w.callbacks.scratchMemoryRegion.2 with
  | none => ⟨[], .errorMemoryAccess, size⟩
  | some size => xferOnce P (w.callbacks.scratchMemoryRegion.1 + segmentAddress) size

/-- What `xfer_local_memory` reads from the context save records: the size of the wave's local
memory, and the address of `lds_0` in its group leader's record, if it has one. -/
structure LocalMemory where
  ldsSize : BitVec 64
  ldsBase : Option (BitVec 64)

/-- `wave_t::xfer_local_memory`. -/
def xferLocalMemory (P : PartialMemory) (lds : LocalMemory) (segmentAddress size : BitVec 64) :
    Except Fault XferResult :=
  match clampSize segmentAddress size lds.ldsSize with
  | none => .ok ⟨[], .errorMemoryAccess, size⟩
  | some size =>
    match lds.ldsBase with
    | none => throw (.fatal "local memory is not accessible")
    | some base => .ok (xferOnce P (base + segmentAddress) size)

/-! ## Segment memory -/

/-- The kinds of `address_space_t` the transfer distinguishes. -/
inductive AddressSpaceKind where
  | privateSwizzled
  | privateUnswizzled
  | local
  | global
  | other
  deriving DecidableEq, Repr

/-- An `address_space_t`: its kind and its address size in bits. -/
structure AddressSpace where
  kind : AddressSpaceKind
  addressSize : Nat
  deriving DecidableEq, Repr

/-- `utils::bit_mask (0, n - 1)`: the low `n` bits. -/
def bitMask (n : Nat) : BitVec 64 := BitVec.ofNat 64 (2 ^ n - 1)

/-- `wave_t::xfer_segment_memory`: the segment address is zero-extended from the address
space's size, then the transfer is made in the space's kind of memory. -/
def xferSegmentMemory (P : PartialMemory) (w : Wave) (lds : LocalMemory) (space : AddressSpace)
    (laneId : BitVec 32) (segmentAddress size : BitVec 64) : Except Fault XferResult := do
  check (w.state == .stop) "the wave must be stopped to read/write memory"
  let segmentAddress := segmentAddress &&& bitMask space.addressSize
  match space.kind with
  | .privateSwizzled => pure (xferPrivateMemorySwizzled P w segmentAddress laneId size)
  | .privateUnswizzled => pure (xferPrivateMemoryUnswizzled P w segmentAddress size)
  | .local => xferLocalMemory P lds segmentAddress size
  | .global => pure (xferOnce P segmentAddress size)
  | .other => pure ⟨[], .errorMemoryAccess, size⟩

/-! ## Sums that wrap -/

/-- The sample wave, stopped: 64 lanes, and a scratch region of 4096 bytes at `0x10000`. -/
def sampleScratchWave : Wave := { Wave.init 0 0 0 64 sampleCallbacks with state := .stop }

/-- A transfer of `2 ^ 64 - 8` bytes from address 16 of a 32-bit private or local space: the
check `segment_address + *size > limit` sees `8`, so the whole size is asked of the primitive,
from 16 bytes into a region of 4096. -/
theorem xferSegmentMemory_size_wraps :
    (xferSegmentMemory PartialMemory.full sampleScratchWave ⟨4096, some 0x20000⟩
        ⟨.privateUnswizzled, 32⟩ 0 16 (-8)).map XferResult.accesses =
      .ok [⟨0x10010, -8, -8⟩] ∧
    (xferSegmentMemory PartialMemory.full sampleScratchWave ⟨4096, some 0x20000⟩
        ⟨.local, 32⟩ 0 16 (-8)).map XferResult.accesses =
      .ok [⟨0x20010, -8, -8⟩] ∧
    4096 < 16 + (-8 : BitVec 64).toNat := by
  refine ⟨?_, ?_, by decide⟩ <;>
    simp [xferSegmentMemory, xferPrivateMemoryUnswizzled, xferLocalMemory, clampSize, xferOnce,
      bitMask, PartialMemory.full, sampleScratchWave, Wave.init, sampleCallbacks, Except.map]

/-- A read of 8 bytes from address 60 of lane 0: the dword at 60 is the last of the lane inside
the scratch region, so the loop moves its 4 bytes and then returns `MEMORY_ACCESS` for the next
dword, with `*size` unchanged. -/
theorem xferPrivateMemorySwizzled_drops_progress :
    xferPrivateMemorySwizzled PartialMemory.full sampleScratchWave 60 0 8 =
      ⟨[⟨0x10F00, 4, 4⟩], .errorMemoryAccess, 8⟩ := by
  simp [xferPrivateMemorySwizzled, swizzledLoop, requestSize, scratchOffset, PartialMemory.full,
    laneNone, sampleScratchWave, Wave.init, sampleCallbacks]

/-! ## Sums that do not wrap -/

/-- Without a wrapping sum, the bounds check decides as over unbounded integers: it refuses a
nonempty range that starts at or past the limit, and otherwise cuts the range at the limit. -/
theorem clampSize_eq {offset size limit : BitVec 64} (hw : offset.toNat + size.toNat < 2 ^ 64) :
    clampSize offset size limit =
      if size ≠ 0 ∧ limit ≤ offset then none
      else some (BitVec.ofNat 64 (min size.toNat (limit.toNat - offset.toNat))) := by
  have hsum : (offset + size).toNat = offset.toNat + size.toNat := by
    rw [BitVec.toNat_add]; omega
  have hof {n : Nat} {x : BitVec 64} (h : x.toNat = n) : some x = some (BitVec.ofNat 64 n) := by
    rw [← h, BitVec.ofNat_toNat, BitVec.setWidth_eq]
  unfold clampSize
  by_cases h₁ : limit < offset + size
  · rw [if_pos h₁]
    rw [BitVec.lt_def, hsum] at h₁
    by_cases h₂ : offset < limit
    · rw [BitVec.lt_def] at h₂
      have hsub : (limit - offset).toNat = limit.toNat - offset.toNat := by
        rw [BitVec.toNat_sub]; omega
      rw [if_pos (BitVec.lt_def.2 h₂), if_neg fun h => by have := h.1; bv_omega,
        if_neg fun h => by rw [BitVec.le_def] at h; omega]
      exact hof (by omega)
    · rw [if_neg h₂]
      by_cases h₃ : size = 0
      · subst h₃
        rw [if_neg fun h => h.2 rfl, if_neg fun h => h.1 rfl]
        exact hof (by simp)
      · rw [if_pos ⟨rfl, h₃⟩, if_pos ⟨h₃, by bv_omega⟩]
  · rw [if_neg h₁, if_neg fun h => by bv_omega]
    exact hof (by bv_omega)

/-- Without a wrapping sum `segment_address + *size`, `xfer_private_memory_unswizzled` and
`xfer_local_memory` transfer as over unbounded integers: a nonempty range that starts at or past
the end of the region is refused with `MEMORY_ACCESS` and no access, and any other range is cut
at the end of the region and moved by one call of the primitive, whose status and count the
transfer returns. -/
theorem xfer_unbounded (P : PartialMemory) (w : Wave) (lds : LocalMemory)
    (segmentAddress size : BitVec 64) (hw : segmentAddress.toNat + size.toNat < 2 ^ 64) :
    xferPrivateMemoryUnswizzled P w segmentAddress size =
      (if size ≠ 0 ∧ w.callbacks.scratchMemoryRegion.2 ≤ segmentAddress then
        ⟨[], .errorMemoryAccess, size⟩
      else xferOnce P (w.callbacks.scratchMemoryRegion.1 + segmentAddress)
        (BitVec.ofNat 64
          (min size.toNat (w.callbacks.scratchMemoryRegion.2.toNat - segmentAddress.toNat)))) ∧
    xferLocalMemory P lds segmentAddress size =
      if size ≠ 0 ∧ lds.ldsSize ≤ segmentAddress then .ok ⟨[], .errorMemoryAccess, size⟩
      else
        match lds.ldsBase with
        | none => throw (.fatal "local memory is not accessible")
        | some base => .ok (xferOnce P (base + segmentAddress)
            (BitVec.ofNat 64 (min size.toNat (lds.ldsSize.toNat - segmentAddress.toNat)))) := by
  unfold xferPrivateMemoryUnswizzled xferLocalMemory
  rw [clampSize_eq hw, clampSize_eq hw]
  constructor <;> split_ifs <;> rfl

theorem xfer_unbounded_sample :
    (16 : BitVec 64).toNat + (8 : BitVec 64).toNat < 2 ^ 64 ∧
    xferPrivateMemoryUnswizzled PartialMemory.full sampleScratchWave 16 8 =
      (if (8 : BitVec 64) ≠ 0 ∧ sampleScratchWave.callbacks.scratchMemoryRegion.2 ≤ 16 then
        ⟨[], .errorMemoryAccess, 8⟩
      else xferOnce PartialMemory.full (sampleScratchWave.callbacks.scratchMemoryRegion.1 + 16)
        (BitVec.ofNat 64
          (min (8 : BitVec 64).toNat
            (sampleScratchWave.callbacks.scratchMemoryRegion.2.toNat - (16 : BitVec 64).toNat)))) :=
  ⟨by decide, (xfer_unbounded PartialMemory.full sampleScratchWave ⟨4096, some 0x20000⟩ 16 8
    (by decide)).1⟩

end Dbgapi
