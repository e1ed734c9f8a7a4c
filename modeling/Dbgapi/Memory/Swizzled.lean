import Mathlib.Algebra.Order.Ring.Nat
import Dbgapi.Memory.Xfer

set_option autoImplicit false

/-! # The swizzled loop against the byte-wise layout

Swizzled private memory stores dword `i` of every lane side by side: byte `a` of lane `l` sits
at `a / 4 * L * 4 + l * 4 + a % 4` in the scratch region (`swizzledLayout`). The loop of
`xfer_private_memory_swizzled` moves a dword, or the part of one left to move, per call of the
primitive. `SwizzledRuns` says what its calls are, taken in order: each asks for 1 to 4 bytes
inside one dword, at the swizzled address of its first byte, inside the scratch region, and
starts where the bytes moved before it end. From it, the bytes the calls move are byte `k` of
the buffer at the swizzled address of `a + k` (`SwizzledRuns.movedAddresses`).

The loop computes its offsets and the sum `offset + xfer_size` of its bounds check in 64 bits.
It agrees with the layout when the first offset and its dword fit (the address of a 32-bit
space does) and the scratch size leaves room for one more row of dwords, `S + 4 L < 2 ^ 64`
(`xferPrivateMemorySwizzled_refines`). Without the second condition, a loop that reaches the
top of the address space wraps the sum and asks for a dword that ends past the region
(`xferPrivateMemorySwizzled_wraps_at_end`).

Under the same conditions every byte moved sits inside the scratch region, and the layout keeps
lanes apart: the transfers of two lanes never share an address, and no transfer moves two bytes
at one address (`xferPrivateMemorySwizzled_lanes_private`).
-/

namespace Dbgapi

/-- Where byte `a` of lane `laneId` sits in the scratch region. Modelled from the spec: "the
global byte sits at `scratch_base + ((segment_address/4) * lane_count * 4) + (lane_id * 4) +
(segment_address % 4)`". -/
def swizzledLayout (laneCount laneId a : Nat) : Nat := a / 4 * laneCount * 4 + laneId * 4 + a % 4

/-- The calls `accesses`, made from segment address `b` on, taken in order: each asks for 1 to
4 bytes inside one dword of the segment, at the swizzled address of its first byte, inside the
scratch region `[base, base + scratchSize)`, moves no more than it asks for, and starts where
the bytes moved by the calls before it end. -/
def SwizzledRuns (laneCount laneId : Nat) (base : BitVec 64) (scratchSize : Nat) :
    Nat → List Access → Prop
  | _, [] => True
  | b, acc :: accs =>
    acc.address = base + BitVec.ofNat 64 (swizzledLayout laneCount laneId b) ∧
    1 ≤ acc.size.toNat ∧ b % 4 + acc.size.toNat ≤ 4 ∧
    swizzledLayout laneCount laneId b + acc.size.toNat ≤ scratchSize ∧
    acc.moved.toNat ≤ acc.size.toNat ∧
    SwizzledRuns laneCount laneId base scratchSize (b + acc.moved.toNat) accs

/-- The global addresses of the bytes the calls moved, in the order of the caller's buffer: a
call moves a prefix of the range it asks for, and the buffer advances by the bytes moved. -/
def movedAddresses (accesses : List Access) : List (BitVec 64) :=
  accesses.flatMap fun acc =>
    (List.range acc.moved.toNat).map fun j => acc.address + BitVec.ofNat 64 j

/-- The number of bytes the calls moved. -/
def movedTotal (accesses : List Access) : Nat := (accesses.map fun acc => acc.moved.toNat).sum

/-- Inside a dword, consecutive bytes of a lane are consecutive in the scratch region. -/
theorem swizzledLayout_add (laneCount laneId : Nat) {b j : Nat} (h : b % 4 + j < 4) :
    swizzledLayout laneCount laneId (b + j) = swizzledLayout laneCount laneId b + j := by
  unfold swizzledLayout
  rw [show (b + j) / 4 = b / 4 by omega, show (b + j) % 4 = b % 4 + j by omega]
  omega

/-- The offset of the next dword, once a chunk has filled the dword of `a`. -/
theorem swizzledLayout_next (laneCount laneId : Nat) {a r : Nat} (h : a % 4 + r = 4) :
    swizzledLayout laneCount laneId (a + r) + 4 =
      swizzledLayout laneCount laneId a + r + 4 * laneCount := by
  unfold swizzledLayout
  rw [show (a + r) / 4 = a / 4 + 1 by omega, show (a + r) % 4 = 0 by omega, Nat.add_mul,
    Nat.add_mul]
  omega

section
variable (P : PartialMemory) {L : Nat} (hL : L = 32 ∨ L = 64) {lid : BitVec 32} (hl : lid.toNat < L)
  (base S : BitVec 64) (hS : S.toNat + 4 * L < 2 ^ 64)
include hL hl

theorem scratchOffset_toNat {a : BitVec 64}
    (hJ : swizzledLayout L lid.toNat a.toNat + (4 - a.toNat % 4) < 2 ^ 64) :
    (scratchOffset L lid a).toNat = swizzledLayout L lid.toNat a.toNat := by
  have h4 : (4 : BitVec 64).toNat = 4 := rfl
  have h4' : (4 : BitVec 32).toNat = 4 := rfl
  have hL' : (BitVec.ofNat 64 L).toNat = L := by rcases hL with rfl | rfl <;> rfl
  have hlid : lid.toNat * 4 < 2 ^ 32 := by rcases hL with rfl | rfl <;> omega
  unfold swizzledLayout at hJ ⊢
  have hq : a.toNat / 4 * L < 2 ^ 64 := by omega
  have hq4 : a.toNat / 4 * L * 4 < 2 ^ 64 := by omega
  unfold scratchOffset
  simp only [BitVec.toNat_add, BitVec.toNat_mul, BitVec.toNat_udiv, BitVec.toNat_umod, h4, h4', hL',
    BitVec.toNat_setWidth, Nat.mod_eq_of_lt hlid, Nat.mod_eq_of_lt hq, Nat.mod_eq_of_lt hq4]
  omega

omit hL hl in
/-- The chunk a turn of the loop asks for, when it asks for one: at least a byte, no more than
the request, inside the scratch region; the whole request exactly when it fits. -/
theorem chunk_spec {off req S xs : BitVec 64} (hsum : off.toNat + req.toNat < 2 ^ 64)
    (hreq : 1 ≤ req.toNat)
    (hx : (if S < off + req then (if off < S then S - off else 0) else req) = xs)
    (h₁ : ¬(S < off + req ∧ xs = 0)) :
    1 ≤ xs.toNat ∧ xs.toNat ≤ req.toNat ∧ off.toNat + xs.toNat ≤ S.toNat ∧
      (xs = req → off.toNat + req.toNat ≤ S.toNat) := by
  split_ifs at hx with h₂ h₃ <;> subst hx
  · bv_omega
  · exact absurd ⟨h₂, rfl⟩ h₁
  · bv_omega

omit hL hl in
/-- One turn of the loop with bytes left, in terms of the request, the offset, the chunk asked
for and the primitive's answer. -/
theorem swizzledLoop_turn {k : Nat} {a bytes req off xs : BitVec 64} {ans : Status × BitVec 64}
    (hb : bytes ≠ 0) (hreq : requestSize a bytes = req) (hoff : scratchOffset L lid a = off)
    (hxs : (if S < off + req then (if off < S then S - off else 0) else req) = xs)
    (hans : P.xfer k (base + off) xs = ans) :
    swizzledLoop P L lid base S k a bytes =
      if S < off + req ∧ xs = 0 then ([], .error .errorMemoryAccess)
      else if ans.1 ≠ .success then ([⟨base + off, xs, ans.2⟩], .error ans.1)
      else if req ≠ ans.2 then ([⟨base + off, xs, ans.2⟩], .ok (bytes - ans.2))
      else
        ((⟨base + off, xs, ans.2⟩ : Access) ::
          (swizzledLoop P L lid base S (k + 1) (a + ans.2) (bytes - ans.2)).1,
          (swizzledLoop P L lid base S (k + 1) (a + ans.2) (bytes - ans.2)).2) := by
  subst hreq hoff hxs hans
  rw [swizzledLoop, dif_neg hb]
  rfl

include hS in
theorem swizzledLoop_runs : ∀ (n k : Nat) (a bytes : BitVec 64), bytes.toNat = n →
    swizzledLayout L lid.toNat a.toNat + (4 - a.toNat % 4) < 2 ^ 64 →
    SwizzledRuns L lid.toNat base S.toNat a.toNat (swizzledLoop P L lid base S k a bytes).1 := by
  intro n
  induction n using Nat.strong_induction_on with
  | _ n ih =>
  intro k a bytes hn hJ
  by_cases hb : bytes = 0
  · rw [swizzledLoop, dif_pos hb]; trivial
  have ho := scratchOffset_toNat hL hl hJ
  have hr := requestSize_toNat a bytes
  have hb' : 0 < bytes.toNat :=
    Nat.pos_of_ne_zero fun h => hb (BitVec.eq_of_toNat_eq (by simpa using h))
  have hmv := P.moved_le k (base + scratchOffset L lid a)
    (if S < scratchOffset L lid a + requestSize a bytes then
      (if scratchOffset L lid a < S then S - scratchOffset L lid a else 0)
      else requestSize a bytes)
  rw [swizzledLoop_turn P base S hb rfl rfl rfl rfl]
  generalize scratchOffset L lid a = off at *
  generalize requestSize a bytes = req at *
  generalize hx : (if S < off + req then (if off < S then S - off else 0) else req) = xs at *
  generalize P.xfer k (base + off) xs = ans at *
  obtain ⟨st, mv⟩ := ans
  dsimp only at hmv ⊢
  by_cases h₁ : S < off + req ∧ xs = 0
  · rw [if_pos h₁]; trivial
  rw [if_neg h₁]
  obtain ⟨hx1, hx2, hx3, hx4⟩ := chunk_spec (by omega) (by omega) hx h₁
  have haddr : base + off = base + BitVec.ofNat 64 (swizzledLayout L lid.toNat a.toNat) := by
    rw [← ho, BitVec.ofNat_toNat, BitVec.setWidth_eq]
  have hmv' : mv.toNat ≤ xs.toNat := BitVec.le_def.1 hmv
  have hdword : a.toNat % 4 + xs.toNat ≤ 4 := by omega
  have hinside : swizzledLayout L lid.toNat a.toNat + xs.toNat ≤ S.toNat := ho ▸ hx3
  split_ifs with h₂ h₃ <;> dsimp only [SwizzledRuns]
  · exact ⟨haddr, hx1, hdword, hinside, hmv', trivial⟩
  · exact ⟨haddr, hx1, hdword, hinside, hmv', trivial⟩
  · have hm : mv = req := (not_not.1 h₃).symm
    subst hm
    have hxm : xs = mv := BitVec.eq_of_toNat_eq (by omega)
    have hfit := hx4 hxm
    refine ⟨haddr, hx1, hdword, hinside, hmv', ?_⟩
    by_cases hz : bytes - mv = 0
    · rw [hz, swizzledLoop, dif_pos rfl]; trivial
    have hne : mv.toNat ≠ bytes.toNat := fun h => hz <| by
      rw [BitVec.eq_of_toNat_eq h.symm, BitVec.sub_self]; rfl
    have hsub : (bytes - mv).toNat = bytes.toNat - mv.toNat :=
      BitVec.toNat_sub_of_le (BitVec.le_def.2 (by omega))
    have hlt : (bytes - mv).toNat < n := by omega
    have hfull : a.toNat % 4 + mv.toNat = 4 := by omega
    have hle : a.toNat ≤ swizzledLayout L lid.toNat a.toNat := by
      unfold swizzledLayout; rcases hL with rfl | rfl <;> omega
    have hsum : (a + mv).toNat = a.toNat + mv.toNat := by
      rw [BitVec.toNat_add]; omega
    have hnext := swizzledLayout_next L lid.toNat hfull
    have := ih _ hlt (k + 1) (a + mv) (bytes - mv) rfl (by rw [hsum]; omega)
    rwa [hsum] at this
end

/-- The bytes the calls of a swizzled run move are the buffer's bytes, in order, at the
swizzled addresses of their segment addresses. -/
theorem SwizzledRuns.movedAddresses {laneCount laneId : Nat} {base : BitVec 64}
    {scratchSize : Nat} : ∀ {b : Nat} {accesses : List Access},
      SwizzledRuns laneCount laneId base scratchSize b accesses →
      Dbgapi.movedAddresses accesses = (List.range (movedTotal accesses)).map fun k =>
        base + BitVec.ofNat 64 (swizzledLayout laneCount laneId (b + k))
  | _, [], _ => rfl
  | b, acc :: accs, ⟨hA, _, h4, _, hm, hrest⟩ => by
    simp only [Dbgapi.movedAddresses, movedTotal, List.flatMap_cons, List.map_cons, List.sum_cons]
    rw [List.range_add, List.map_append, List.map_map]
    congr 1
    · refine List.map_congr_left fun j hj => ?_
      rw [List.mem_range] at hj
      rw [hA, BitVec.add_assoc, ← BitVec.ofNat_add, swizzledLayout_add laneCount laneId (by omega)]
    · have := SwizzledRuns.movedAddresses hrest
      simp only [Dbgapi.movedAddresses, movedTotal] at this
      rw [this]
      refine List.map_congr_left fun k _ => ?_
      simp only [Function.comp, Nat.add_assoc]

/-- On a lane of the wave, the calls of `xfer_private_memory_swizzled` are those of its loop,
however the loop ends. -/
theorem xferPrivateMemorySwizzled_accesses (P : PartialMemory) (w : Wave) (a : BitVec 64)
    {laneId : BitVec 32} (size : BitVec 64) (hl : laneId.toNat < w.laneCount)
    (hL : w.laneCount ≤ 64) :
    (xferPrivateMemorySwizzled P w a laneId size).accesses =
      (swizzledLoop P w.laneCount laneId w.callbacks.scratchMemoryRegion.1
        w.callbacks.scratchMemoryRegion.2 0 a size).1 := by
  have hnone : laneNone.toNat = 2 ^ 32 - 1 := rfl
  have hn : laneId ≠ laneNone := fun h => by rw [h] at hl; omega
  unfold xferPrivateMemorySwizzled
  rw [if_neg (not_or.2 ⟨hn, by omega⟩)]
  rcases w.callbacks.scratchMemoryRegion with ⟨base, S⟩
  dsimp only
  rcases swizzledLoop P w.laneCount laneId base S 0 a size with ⟨accs, _ | bytes⟩
  · rfl
  · dsimp only
    split_ifs <;> rfl

/-- `xfer_private_memory_swizzled` on a lane of a wave of 32 or 64 lanes agrees with the
byte-wise layout: taken in order, its calls move byte `k` of the buffer to or from the swizzled
address of `a + k`, and each asks for 1 to 4 bytes inside one dword of the segment, inside the
scratch region. This needs the row of the first dword to fit in 64 bits, as it does for every
address of a 32-bit space, and the scratch size to leave room for one more row. The loop
terminates: `swizzledLoop` is a total function. -/
theorem xferPrivateMemorySwizzled_refines (P : PartialMemory) (w : Wave) (a : BitVec 64)
    (laneId : BitVec 32) (size : BitVec 64) (hL : w.laneCount = 32 ∨ w.laneCount = 64)
    (hl : laneId.toNat < w.laneCount)
    (ha : a.toNat / 4 * (4 * w.laneCount) + 4 * w.laneCount < 2 ^ 64)
    (hS : w.callbacks.scratchMemoryRegion.2.toNat + 4 * w.laneCount < 2 ^ 64) :
    movedAddresses (xferPrivateMemorySwizzled P w a laneId size).accesses =
      (List.range (movedTotal (xferPrivateMemorySwizzled P w a laneId size).accesses)).map
        (fun k => w.callbacks.scratchMemoryRegion.1 +
          BitVec.ofNat 64 (swizzledLayout w.laneCount laneId.toNat (a.toNat + k))) ∧
    SwizzledRuns w.laneCount laneId.toNat w.callbacks.scratchMemoryRegion.1
      w.callbacks.scratchMemoryRegion.2.toNat a.toNat
      (xferPrivateMemorySwizzled P w a laneId size).accesses := by
  have hJ : swizzledLayout w.laneCount laneId.toNat a.toNat + (4 - a.toNat % 4) < 2 ^ 64 := by
    unfold swizzledLayout
    rcases hL with h | h <;> rw [h] at hl ha ⊢ <;> omega
  have hruns := swizzledLoop_runs P hL hl w.callbacks.scratchMemoryRegion.1
    w.callbacks.scratchMemoryRegion.2 hS size.toNat 0 a size rfl hJ
  rw [xferPrivateMemorySwizzled_accesses P w a size hl (by omega)]
  exact ⟨hruns.movedAddresses, hruns⟩

theorem xferPrivateMemorySwizzled_refines_sample :
    (sampleScratchWave.laneCount = 32 ∨ sampleScratchWave.laneCount = 64) ∧
    (0 : BitVec 32).toNat < sampleScratchWave.laneCount ∧
    (60 : BitVec 64).toNat / 4 * (4 * sampleScratchWave.laneCount) +
      4 * sampleScratchWave.laneCount < 2 ^ 64 ∧
    sampleScratchWave.callbacks.scratchMemoryRegion.2.toNat + 4 * sampleScratchWave.laneCount <
      2 ^ 64 ∧
    movedAddresses
        (xferPrivateMemorySwizzled PartialMemory.full sampleScratchWave 60 0 8).accesses =
      (List.range (movedTotal
        (xferPrivateMemorySwizzled PartialMemory.full sampleScratchWave 60 0 8).accesses)).map
        (fun k => sampleScratchWave.callbacks.scratchMemoryRegion.1 +
          BitVec.ofNat 64 (swizzledLayout sampleScratchWave.laneCount (0 : BitVec 32).toNat
            ((60 : BitVec 64).toNat + k))) ∧
    SwizzledRuns sampleScratchWave.laneCount (0 : BitVec 32).toNat
      sampleScratchWave.callbacks.scratchMemoryRegion.1
      sampleScratchWave.callbacks.scratchMemoryRegion.2.toNat (60 : BitVec 64).toNat
      (xferPrivateMemorySwizzled PartialMemory.full sampleScratchWave 60 0 8).accesses :=
  have hL : sampleScratchWave.laneCount = 32 ∨ sampleScratchWave.laneCount = 64 := .inr rfl
  have hl : (0 : BitVec 32).toNat < sampleScratchWave.laneCount := by decide
  have ha : (60 : BitVec 64).toNat / 4 * (4 * sampleScratchWave.laneCount) +
      4 * sampleScratchWave.laneCount < 2 ^ 64 := by decide
  have hS : sampleScratchWave.callbacks.scratchMemoryRegion.2.toNat +
      4 * sampleScratchWave.laneCount < 2 ^ 64 := by decide
  ⟨hL, hl, ha, hS, xferPrivateMemorySwizzled_refines PartialMemory.full sampleScratchWave 60 0 8
    hL hl ha hS⟩

/-- A wave of 64 lanes whose scratch region is the whole address space but its last byte. -/
def topScratchWave : Wave :=
  { sampleScratchWave with callbacks := { sampleCallbacks with scratchMemoryRegion := (0, -1) } }

/-- Lane 63 reads 8 bytes from the last dword row below `2 ^ 64`: the second dword's offset is
`2 ^ 64 - 4`, the check `offset + xfer_size > scratch_size` sees `0`, and the loop asks for a
dword that ends past the region. -/
theorem xferPrivateMemorySwizzled_wraps_at_end :
    (topScratchWave.laneCount = 32 ∨ topScratchWave.laneCount = 64) ∧
    (63 : BitVec 32).toNat < topScratchWave.laneCount ∧
    (0x3FFFFFFFFFFFFF8 : BitVec 64).toNat / 4 * (4 * topScratchWave.laneCount) +
      4 * topScratchWave.laneCount < 2 ^ 64 ∧
    (xferPrivateMemorySwizzled PartialMemory.full topScratchWave 0x3FFFFFFFFFFFFF8 63 8).accesses =
      [⟨-260, 4, 4⟩, ⟨-4, 4, 4⟩] ∧
    topScratchWave.callbacks.scratchMemoryRegion.2.toNat < (-4 : BitVec 64).toNat + 4 := by
  refine ⟨.inr rfl, by decide, by decide, ?_, by decide⟩
  simp [xferPrivateMemorySwizzled, swizzledLoop, requestSize, scratchOffset, PartialMemory.full,
    laneNone, topScratchWave, sampleScratchWave, Wave.init, sampleCallbacks]

/-! ## Lanes keep to their own bytes -/

/-- Every byte a swizzled run moves sits inside the scratch region. -/
theorem SwizzledRuns.layout_lt {laneCount laneId : Nat} {base : BitVec 64} {scratchSize : Nat} :
    ∀ {b : Nat} {accesses : List Access},
      SwizzledRuns laneCount laneId base scratchSize b accesses →
      ∀ k < movedTotal accesses, swizzledLayout laneCount laneId (b + k) < scratchSize
  | _, [], _, k, hk => absurd hk (Nat.not_lt_zero k)
  | b, acc :: accs, ⟨_, _, h4, hin, hm, hrest⟩, k, hk => by
    simp only [movedTotal, List.map_cons, List.sum_cons] at hk
    by_cases hk' : k < acc.moved.toNat
    · rw [swizzledLayout_add laneCount laneId (by omega)]
      omega
    · have := SwizzledRuns.layout_lt hrest (k - acc.moved.toNat) (by unfold movedTotal; omega)
      rwa [Nat.add_assoc, Nat.add_sub_cancel' (by omega)] at this

/-- The swizzled layout keeps the lanes apart, and the bytes of a lane. -/
theorem swizzledLayout_inj {L l l' u v : Nat} (hL : L = 32 ∨ L = 64) (hl : l < L) (hl' : l' < L)
    (h : swizzledLayout L l u = swizzledLayout L l' v) : l = l' ∧ u = v := by
  unfold swizzledLayout at h
  rcases hL with rfl | rfl <;> omega

/-- The addresses a swizzled transfer of a lane moves bytes at: the swizzled addresses of the
bytes `a + k` it moves, each inside the scratch region. -/
theorem xferPrivateMemorySwizzled_moved (P : PartialMemory) (w : Wave) (a : BitVec 64)
    (laneId : BitVec 32) (size : BitVec 64) (hL : w.laneCount = 32 ∨ w.laneCount = 64)
    (hl : laneId.toNat < w.laneCount)
    (ha : a.toNat / 4 * (4 * w.laneCount) + 4 * w.laneCount < 2 ^ 64)
    (hS : w.callbacks.scratchMemoryRegion.2.toNat + 4 * w.laneCount < 2 ^ 64) :
    ∃ n, movedAddresses (xferPrivateMemorySwizzled P w a laneId size).accesses =
      (List.range n).map (fun k => w.callbacks.scratchMemoryRegion.1 +
        BitVec.ofNat 64 (swizzledLayout w.laneCount laneId.toNat (a.toNat + k))) ∧
      ∀ k < n, swizzledLayout w.laneCount laneId.toNat (a.toNat + k) <
        w.callbacks.scratchMemoryRegion.2.toNat := by
  have hJ : swizzledLayout w.laneCount laneId.toNat a.toNat + (4 - a.toNat % 4) < 2 ^ 64 := by
    unfold swizzledLayout
    rcases hL with h | h <;> rw [h] at hl ha ⊢ <;> omega
  have hruns := swizzledLoop_runs P hL hl w.callbacks.scratchMemoryRegion.1
    w.callbacks.scratchMemoryRegion.2 hS size.toNat 0 a size rfl hJ
  rw [xferPrivateMemorySwizzled_accesses P w a size hl (by omega)]
  exact ⟨_, hruns.movedAddresses, hruns.layout_lt⟩

/-- Lanes keep to their own bytes: the swizzled transfers of two lanes of a wave never touch a
common global address, neither moves two bytes at one address, and every byte they move lies in
the scratch region `[base, base + size)`. -/
theorem xferPrivateMemorySwizzled_lanes_private (P P' : PartialMemory) (w : Wave)
    (a a' : BitVec 64) (laneId laneId' : BitVec 32) (size size' : BitVec 64)
    (hL : w.laneCount = 32 ∨ w.laneCount = 64) (hl : laneId.toNat < w.laneCount)
    (hl' : laneId'.toNat < w.laneCount) (hne : laneId ≠ laneId')
    (ha : a.toNat / 4 * (4 * w.laneCount) + 4 * w.laneCount < 2 ^ 64)
    (ha' : a'.toNat / 4 * (4 * w.laneCount) + 4 * w.laneCount < 2 ^ 64)
    (hS : w.callbacks.scratchMemoryRegion.2.toNat + 4 * w.laneCount < 2 ^ 64) :
    (movedAddresses (xferPrivateMemorySwizzled P w a laneId size).accesses ++
      movedAddresses (xferPrivateMemorySwizzled P' w a' laneId' size').accesses).Nodup ∧
    ∀ x ∈ movedAddresses (xferPrivateMemorySwizzled P w a laneId size).accesses ++
        movedAddresses (xferPrivateMemorySwizzled P' w a' laneId' size').accesses,
      (x - w.callbacks.scratchMemoryRegion.1).toNat < w.callbacks.scratchMemoryRegion.2.toNat := by
  obtain ⟨n, hm, hlt⟩ := xferPrivateMemorySwizzled_moved P w a laneId size hL hl ha hS
  obtain ⟨n', hm', hlt'⟩ := xferPrivateMemorySwizzled_moved P' w a' laneId' size' hL hl' ha' hS
  have hS64 := w.callbacks.scratchMemoryRegion.2.isLt
  have cancel {x y : Nat} (hx : x < 2 ^ 64) (hy : y < 2 ^ 64)
      (h : w.callbacks.scratchMemoryRegion.1 + BitVec.ofNat 64 x =
        w.callbacks.scratchMemoryRegion.1 + BitVec.ofNat 64 y) : x = y := by
    have := congrArg BitVec.toNat h
    simp only [BitVec.toNat_add, BitVec.toNat_ofNat] at this
    omega
  have lane {b : BitVec 64} {l : BitVec 32} {m : Nat} (hl : l.toNat < w.laneCount)
      (hlt : ∀ k < m, swizzledLayout w.laneCount l.toNat (b.toNat + k) <
        w.callbacks.scratchMemoryRegion.2.toNat) :
      ((List.range m).map fun k => w.callbacks.scratchMemoryRegion.1 +
        BitVec.ofNat 64 (swizzledLayout w.laneCount l.toNat (b.toNat + k))).Nodup :=
    (List.nodup_range m).map_on fun k hk j hj h => by
      rw [List.mem_range] at hk hj
      have := (swizzledLayout_inj hL hl hl
        (cancel ((hlt k hk).trans hS64) ((hlt j hj).trans hS64) h)).2
      omega
  have inside {b : BitVec 64} {l : BitVec 32} {m : Nat}
      (hlt : ∀ k < m, swizzledLayout w.laneCount l.toNat (b.toNat + k) <
        w.callbacks.scratchMemoryRegion.2.toNat) :
      ∀ x ∈ (List.range m).map (fun k => w.callbacks.scratchMemoryRegion.1 +
        BitVec.ofNat 64 (swizzledLayout w.laneCount l.toNat (b.toNat + k))),
        (x - w.callbacks.scratchMemoryRegion.1).toNat < w.callbacks.scratchMemoryRegion.2.toNat := by
    intro x hx
    obtain ⟨k, hk, rfl⟩ := List.mem_map.1 hx
    have h := hlt k (List.mem_range.1 hk)
    rwa [add_sub_cancel_left, BitVec.toNat_ofNat, Nat.mod_eq_of_lt (h.trans hS64)]
  rw [hm, hm', List.nodup_append]
  refine ⟨⟨lane hl hlt, lane hl' hlt', fun x hx hx' => ?_⟩,
    fun x hx => (List.mem_append.1 hx).elim (inside hlt x) (inside hlt' x)⟩
  obtain ⟨k, hk, rfl⟩ := List.mem_map.1 hx
  obtain ⟨j, hj, h⟩ := List.mem_map.1 hx'
  rw [List.mem_range] at hk hj
  exact hne (BitVec.eq_of_toNat_eq (swizzledLayout_inj hL hl hl'
    (cancel ((hlt k hk).trans hS64) ((hlt' j hj).trans hS64) h.symm)).1)

theorem xferPrivateMemorySwizzled_lanes_private_sample :
    (movedAddresses
        (xferPrivateMemorySwizzled PartialMemory.full sampleScratchWave 60 0 8).accesses ++
      movedAddresses
        (xferPrivateMemorySwizzled PartialMemory.full sampleScratchWave 60 1 8).accesses).Nodup ∧
    ∀ x ∈ movedAddresses
        (xferPrivateMemorySwizzled PartialMemory.full sampleScratchWave 60 0 8).accesses ++
      movedAddresses
        (xferPrivateMemorySwizzled PartialMemory.full sampleScratchWave 60 1 8).accesses,
      (x - sampleScratchWave.callbacks.scratchMemoryRegion.1).toNat <
        sampleScratchWave.callbacks.scratchMemoryRegion.2.toNat :=
  xferPrivateMemorySwizzled_lanes_private _ _ _ _ _ _ _ _ _ (.inr rfl) (by decide) (by decide)
    (by decide) (by decide) (by decide) (by decide)

end Dbgapi
