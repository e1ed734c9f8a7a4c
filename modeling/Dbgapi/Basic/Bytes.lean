import Dbgapi.Basic.Types

set_option autoImplicit false

/-! # Object representations

`read_register` and `write_register` copy bytes with `memcpy`: into and out of the caller's
buffer at the same offset as in the register, and, for the parked pc, into and out of the
object representation of the `uint64_t` `m_parked_pc`. A buffer is a map from byte positions to
bytes, position `0` being the address the buffer starts at; a `uint64_t` is stored
little-endian, as on the hosts the library runs on.

Positions are 64-bit addresses: `value + offset` and `&m_parked_pc + offset` wrap at `2 ^ 64`
as pointer arithmetic does, so a copy of `size` bytes from `offset` covers the positions
`offset + k` for `k < size`, taken modulo `2 ^ 64` (`wrapSub`). When `offset + size` does not
pass `2 ^ 64`, that is the plain range `[offset, offset + size)` (`memcpyAt_of_le`). The bytes
around `m_parked_pc` are other members of the wave, which the model does not hold: they read
as zero and a copy into them is lost.

The two round-trip lemmas `byteOf_ofBytes` and `ofBytes_byteOf` are what make a partial
`memcpy` into `m_parked_pc` agree with the same `memcpy` into the context save area.
-/

namespace Dbgapi

/-- How far position `i` lies past position `start` in the 64-bit address space: `i - start`
taken modulo `2 ^ 64`, as `size_t` arithmetic computes it. -/
def wrapSub (i start : Nat) : Nat := (i + 2 ^ 64 - start % 2 ^ 64) % 2 ^ 64

theorem wrapSub_lt (i start : Nat) : wrapSub i start < 2 ^ 64 := Nat.mod_lt _ (by decide)

/-- Without wrap, the distance is the integer one. -/
theorem wrapSub_of_le {i start : Nat} (h : start ≤ i) (hi : i < 2 ^ 64) :
    wrapSub i start = i - start := by
  unfold wrapSub
  omega

/-- A range that does not pass `2 ^ 64` is the integer range. -/
theorem wrapSub_lt_iff {i offset size : Nat} (h : offset + size ≤ 2 ^ 64) :
    (i < 2 ^ 64 ∧ wrapSub i offset < size) ↔ (offset ≤ i ∧ i < offset + size) := by
  unfold wrapSub
  omega

/-- `memcpy (dst + offset, src + offset, size)`: the `size` bytes of `dst` from position
`offset` on, modulo `2 ^ 64`, are replaced by those of `src`. -/
def memcpyAt (dst src : Nat → BitVec 8) (offset size : Nat) : Nat → BitVec 8 :=
  fun i => if i < 2 ^ 64 ∧ wrapSub i offset < size then src i else dst i

theorem memcpyAt_apply (dst src : Nat → BitVec 8) (offset size i : Nat) :
    memcpyAt dst src offset size i =
      if i < 2 ^ 64 ∧ wrapSub i offset < size then src i else dst i :=
  rfl

/-- A copy whose range does not pass `2 ^ 64` replaces the integer range
`[offset, offset + size)`. -/
theorem memcpyAt_of_le {offset size : Nat} (h : offset + size ≤ 2 ^ 64)
    (dst src : Nat → BitVec 8) (i : Nat) :
    memcpyAt dst src offset size i = if offset ≤ i ∧ i < offset + size then src i else dst i := by
  simp only [memcpyAt_apply, wrapSub_lt_iff h]

/-- A copy from two sources that agree on the bytes copied is the same. -/
theorem memcpyAt_congr_src {dst src src' : Nat → BitVec 8} {offset size : Nat}
    (h : ∀ i, i < 2 ^ 64 → wrapSub i offset < size → src i = src' i) :
    memcpyAt dst src offset size = memcpyAt dst src' offset size := by
  funext i
  simp only [memcpyAt_apply]
  split_ifs with hi
  · exact h i hi.1 hi.2
  · rfl

@[simp] theorem memcpyAt_memcpyAt (dst src₁ src₂ : Nat → BitVec 8) (offset size : Nat) :
    memcpyAt (memcpyAt dst src₁ offset size) src₂ offset size = memcpyAt dst src₂ offset size := by
  funext i
  simp only [memcpyAt]
  split_ifs <;> rfl

/-- The bytes of `src` from position `start` on, moved to position `dest`: byte `dest + k` of
the result is byte `start + k` of `src`, positions taken modulo `2 ^ 64`. With `memcpyAt` it is
`memcpy (dst + dest, src + start, size)`. -/
def shiftBytes (src : Nat → BitVec 8) (start dest : Nat) : Nat → BitVec 8 :=
  fun i => src ((start + wrapSub i dest) % 2 ^ 64)

/-- Without wrap, byte `i` of the moved bytes is byte `start + (i - dest)` of the source. -/
theorem shiftBytes_of_le {src : Nat → BitVec 8} {start dest i : Nat} (h : dest ≤ i)
    (hi : i < 2 ^ 64) (hs : start + (i - dest) < 2 ^ 64) :
    shiftBytes src start dest i = src (start + (i - dest)) := by
  simp only [shiftBytes, wrapSub_of_le h hi, Nat.mod_eq_of_lt hs]

/-- A copy from `src + start` to `dst + offset` in which neither range passes `2 ^ 64` reads
byte `i` of the destination from byte `start + (i - offset)` of the source. -/
theorem memcpyAt_shiftBytes_of_le (dst src : Nat → BitVec 8) {start offset size : Nat}
    (ho : offset + size ≤ 2 ^ 64) (hs : start + size ≤ 2 ^ 64) :
    memcpyAt dst (shiftBytes src start offset) offset size =
      memcpyAt dst (fun i => src (start + (i - offset))) offset size :=
  memcpyAt_congr_src fun i hi hk => by
    have hr := (wrapSub_lt_iff ho).1 ⟨hi, hk⟩
    exact shiftBytes_of_le hr.1 hi (by omega)

/-- Copying `len` bytes from `src + o` to `m + a`, then from `m + a` to `dst + o`, is copying
them from `src + o` to `dst + o`. -/
theorem memcpyAt_shiftBytes_round_trip (dst m src : Nat → BitVec 8) {a : Nat} (o len : Nat)
    (ha : a < 2 ^ 64) :
    memcpyAt dst (shiftBytes (memcpyAt m (shiftBytes src o a) a len) a o) o len =
      memcpyAt dst src o len := by
  funext i
  simp only [memcpyAt_apply, shiftBytes]
  split_ifs with hi hj
  · congr 1
    unfold wrapSub at hi hj ⊢
    omega
  · unfold wrapSub at hi hj
    omega
  · rfl

/-- Reading bytes `[o, o + s)` back from `n` bytes just written at `a` gives the bytes
written. -/
theorem memcpyAt_shiftBytes_sub (dst m src : Nat → BitVec 8) {a o s n : Nat}
    (ha : a + n ≤ 2 ^ 64) (hs : o + s ≤ n) :
    memcpyAt dst (shiftBytes (memcpyAt m (shiftBytes src 0 a) a n) (a + o) o) o s =
      memcpyAt dst src o s := by
  rw [memcpyAt_shiftBytes_of_le _ _ (by omega : o + s ≤ 2 ^ 64) (by omega : a + o + s ≤ 2 ^ 64),
    memcpyAt_shiftBytes_of_le _ _ ha (by omega : 0 + n ≤ 2 ^ 64)]
  funext i
  simp only [memcpyAt_of_le ha, memcpyAt_of_le (show o + s ≤ 2 ^ 64 by omega)]
  split_ifs <;> first | rfl | omega | (congr 1; omega)

/-- Writing bytes `[o, o + s)` of `v` over `n` bytes just written at `a` is writing the merged
bytes. -/
theorem memcpyAt_shiftBytes_merge (m src v : Nat → BitVec 8) {a o s n : Nat}
    (ha : a + n ≤ 2 ^ 64) (hs : o + s ≤ n) :
    memcpyAt (memcpyAt m (shiftBytes src 0 a) a n) (shiftBytes v o (a + o)) (a + o) s =
      memcpyAt m (shiftBytes (memcpyAt src v o s) 0 a) a n := by
  have hn : 0 + n ≤ 2 ^ 64 := by omega
  rw [memcpyAt_shiftBytes_of_le _ _ ha hn, memcpyAt_shiftBytes_of_le _ _ ha hn,
    memcpyAt_shiftBytes_of_le _ _ (by omega : a + o + s ≤ 2 ^ 64) (by omega : o + s ≤ 2 ^ 64)]
  funext i
  simp only [memcpyAt_of_le ha, memcpyAt_of_le (show a + o + s ≤ 2 ^ 64 by omega),
    memcpyAt_of_le (show o + s ≤ 2 ^ 64 by omega)]
  split_ifs <;> first | rfl | omega | (congr 1; omega)

/-- Byte `i` of the object representation of `v`; past the eighth byte, memory the model does
not hold, read as zero. -/
def byteOf (v : BitVec 64) (i : Nat) : BitVec 8 := if i < 8 then BitVec.ofNat 8 (v.toNat / 256 ^ i) else 0

/-- The number whose little-endian bytes are `b 0, …, b (n - 1)`. -/
def bytesValue (b : Nat → BitVec 8) : Nat → Nat
  | 0 => 0
  | n + 1 => (b 0).toNat + 256 * bytesValue (fun i => b (i + 1)) n

/-- The `uint64_t` whose object representation is `b 0, …, b 7`. -/
def ofBytes (b : Nat → BitVec 8) : BitVec 64 := BitVec.ofNat 64 (bytesValue b 8)

theorem bytesValue_lt (b : Nat → BitVec 8) (n : Nat) : bytesValue b n < 256 ^ n := by
  induction n generalizing b with
  | zero => simp [bytesValue]
  | succ n ih =>
    have h0 := (b 0).isLt
    have h1 := ih (fun i => b (i + 1))
    rw [bytesValue, Nat.pow_succ]
    simp only [Nat.reducePow] at h0
    omega

theorem bytesValue_byte (b : Nat → BitVec 8) (n i : Nat) (h : i < n) :
    bytesValue b n / 256 ^ i % 256 = (b i).toNat := by
  induction n generalizing b i with
  | zero => omega
  | succ n ih =>
    have h0 := (b 0).isLt
    simp only [Nat.reducePow] at h0
    rw [bytesValue]
    cases i with
    | zero => simp; omega
    | succ i =>
      rw [Nat.pow_succ', ← Nat.div_div_eq_div_mul, Nat.add_mul_div_left _ _ (by omega),
        Nat.div_eq_of_lt h0, Nat.zero_add]
      exact ih _ i (by omega)

theorem bytesValue_byteOf (x n : Nat) :
    bytesValue (fun i => BitVec.ofNat 8 (x / 256 ^ i)) n = x % 256 ^ n := by
  induction n generalizing x with
  | zero => simp [bytesValue, Nat.mod_one]
  | succ n ih =>
    have hs : (fun i => BitVec.ofNat 8 (x / 256 ^ (i + 1))) =
        fun i => BitVec.ofNat 8 (x / 256 / 256 ^ i) := by
      funext i
      rw [Nat.div_div_eq_div_mul, ← Nat.pow_succ']
    rw [bytesValue, hs, ih, Nat.pow_succ', Nat.mod_mul]
    simp

@[simp] theorem byteOf_ofBytes (b : Nat → BitVec 8) (i : Nat) (h : i < 8) :
    byteOf (ofBytes b) i = b i := by
  apply BitVec.eq_of_toNat_eq
  have hlt := bytesValue_lt b 8
  simp only [byteOf, if_pos h, ofBytes, BitVec.toNat_ofNat, Nat.reducePow] at hlt ⊢
  rw [Nat.mod_eq_of_lt hlt]
  exact bytesValue_byte b 8 i h

theorem ofBytes_congr {b b' : Nat → BitVec 8} (h : ∀ i < 8, b i = b' i) :
    ofBytes b = ofBytes b' := by
  have key : ∀ n (b b' : Nat → BitVec 8), (∀ i < n, b i = b' i) →
      bytesValue b n = bytesValue b' n := by
    intro n
    induction n with
    | zero => intros; rfl
    | succ n ih =>
      intro b b' h
      simp only [bytesValue, h 0 (by omega), ih _ _ fun i hi => h (i + 1) (by omega)]
  simp only [ofBytes, key 8 b b' h]

@[simp] theorem ofBytes_byteOf (v : BitVec 64) : ofBytes (byteOf v) = v := by
  have hb : ofBytes (byteOf v) = ofBytes fun i => BitVec.ofNat 8 (v.toNat / 256 ^ i) :=
    ofBytes_congr fun i hi => if_pos hi
  rw [hb]
  apply BitVec.eq_of_toNat_eq
  have hv := bytesValue_byteOf v.toNat 8
  have hlt := v.isLt
  simp only [ofBytes, hv, BitVec.toNat_ofNat]
  simp only [Nat.reducePow] at hlt ⊢
  omega

/-- Copying all eight bytes of `v` into any buffer gives back `v`. -/
@[simp] theorem ofBytes_memcpyAt_byteOf (dst : Nat → BitVec 8) (v : BitVec 64) :
    ofBytes (memcpyAt dst (byteOf v) 0 8) = v := by
  conv_rhs => rw [← ofBytes_byteOf v]
  exact ofBytes_congr fun i hi => by simp [memcpyAt_of_le (show 0 + 8 ≤ 2 ^ 64 by decide), hi]

end Dbgapi
