import Dbgapi.Wave.Transitions

set_option autoImplicit false

/-! # The exception masks of `set_state`

Two parts of `wave_t::set_state` act on exception masks.

The conversion loop takes the lowest set bit `one = x ^ (x & (x - 1))` of the client's
exceptions, ors its OS mask into the mask for the driver and clears it, until no bit is left.
`peeledBits x` is the sequence of values `one` takes. The loop is a fold of the conversion over
that sequence (`convertExceptions_eq_foldlM`), and the sequence is the set bits of `x` in
increasing order, each as a single-bit mask (`peeledBits_eq`). The bit arithmetic follows the
decomposition `x = 2^(t+1) Q + 2^t` of a nonzero mask whose lowest set bit is `t`.

At its end, `set_state` clears the agent's device memory violation bit when the wave leaves STOP
and no wave of the agent is stopped with a memory violation (`clearDeviceMemoryViolation`).
-/

namespace Dbgapi

/-! ## The lowest set bit -/

/-- The indices of the set bits of `x`, in increasing order. -/
def setBits (x : BitVec 64) : List Nat := (List.range 64).filter fun i => x.getLsbD i

/-- Every positive number is `2^(t+1) Q + 2^t`, where `t` is its lowest set bit. -/
theorem exists_lowBit {X : Nat} (hX : 0 < X) : ∃ t Q, X = 2 ^ (t + 1) * Q + 2 ^ t := by
  induction X using Nat.strongRecOn with
  | _ X ih =>
    rcases Nat.mod_two_eq_zero_or_one X with h | h
    · obtain ⟨t, Q, e⟩ := ih (X / 2) (by omega) (by omega)
      have h2 : 2 ^ (t + 1 + 1) * Q = 2 * (2 ^ (t + 1) * Q) := by
        rw [Nat.pow_succ, Nat.mul_comm _ 2, Nat.mul_assoc]
      have h3 : 2 ^ (t + 1) = 2 * 2 ^ t := Nat.pow_succ'
      exact ⟨t + 1, Q, by omega⟩
    · exact ⟨0, X / 2, by omega⟩

/-- `x & (x - 1)` clears the lowest set bit `t` of a nonzero mask, below which no bit is set. -/
theorem lowBit_spec {x : BitVec 64} (hx : x ≠ 0) :
    ∃ t, x.getLsbD t = true ∧ (∀ i < t, x.getLsbD i = false) ∧
      ∀ i, (x &&& (x - 1)).getLsbD i = (x.getLsbD i && decide (i ≠ t)) := by
  have hpos : 0 < x.toNat :=
    Nat.pos_of_ne_zero fun h => hx (BitVec.eq_of_toNat_eq (by simpa using h))
  obtain ⟨t, Q, hX⟩ := exists_lowBit hpos
  have hlt : 2 ^ t < 2 ^ (t + 1) := Nat.pow_lt_pow_right (by decide) (by omega)
  have h1 := Nat.one_le_two_pow (n := t)
  have hsub : (x - 1).toNat = 2 ^ (t + 1) * Q + (2 ^ t - 1) := by
    rw [BitVec.toNat_sub_of_le (by simp [BitVec.le_def]; omega)]
    simp
    omega
  have hbit : ∀ i, x.getLsbD i = if i < t + 1 then decide (t = i) else Q.testBit (i - (t + 1)) :=
    fun i => by rw [← BitVec.testBit_toNat, hX, Nat.testBit_mul_pow_two_add _ hlt,
      Nat.testBit_two_pow]
  refine ⟨t, by simp [hbit], fun i hi => by simp [hbit, show i < t + 1 by omega]; omega,
    fun i => ?_⟩
  have hlt' : 2 ^ t - 1 < 2 ^ (t + 1) := by omega
  rw [BitVec.getLsbD_and, hbit, ← BitVec.testBit_toNat (x - 1), hsub,
    Nat.testBit_mul_pow_two_add _ hlt', Nat.testBit_two_pow_sub_one]
  split
  · by_cases h : t = i
    · simp [h]
    · simp [h, Ne.symm h]
  · simp [show i ≠ t by omega]

/-- The lowest set bit `x ^ (x & (x - 1))` of a nonzero mask is the single-bit mask of its index. -/
theorem lowestBit_eq_twoPow {x : BitVec 64} {t : Nat} (ht : x.getLsbD t = true)
    (hand : ∀ i, (x &&& (x - 1)).getLsbD i = (x.getLsbD i && decide (i ≠ t))) :
    x ^^^ (x &&& (x - 1)) = BitVec.twoPow 64 t := by
  have ht64 : t < 64 := by
    by_contra h
    rw [BitVec.getLsbD_ge x t (by omega)] at ht
    cases ht
  apply BitVec.eq_of_getLsbD_eq
  intro i
  rw [BitVec.getLsbD_xor, hand, BitVec.getLsbD_twoPow]
  by_cases h : (i : Nat) = t
  · simp [h, ht, ht64]
  · simp [h, Ne.symm h]

/-- A filter of `List.range n` whose first hit is `t`. -/
theorem filter_range_eq_cons {p : Nat → Bool} {t : Nat} (hp : p t = true)
    (hlow : ∀ i < t, p i = false) :
    ∀ {n}, t < n → (List.range n).filter p = t :: (List.range n).filter fun i => p i && i ≠ t
  | 0, h => absurd h (Nat.not_lt_zero t)
  | n + 1, h => by
    rw [List.range_succ, List.filter_append, List.filter_append]
    rcases Nat.lt_or_ge t n with h' | h'
    · rw [filter_range_eq_cons hp hlow h']
      simp [List.filter, show ¬n = t by omega]
    · obtain rfl : t = n := by omega
      have hnil : ∀ q : Nat → Bool, (∀ i < t, q i = false) → (List.range t).filter q = [] :=
        fun q hq => List.filter_eq_nil_iff.2 fun i hi => by simp [hq i (List.mem_range.1 hi)]
      rw [hnil p hlow, hnil _ fun i hi => by simp [hlow i hi]]
      simp [hp]

/-- The set bits of a nonzero mask are its lowest set bit `t`, then those of the mask with `t`
cleared. -/
theorem setBits_eq_cons {x : BitVec 64} {t : Nat} (ht : x.getLsbD t = true)
    (hlow : ∀ i < t, x.getLsbD i = false)
    (hand : ∀ i, (x &&& (x - 1)).getLsbD i = (x.getLsbD i && decide (i ≠ t))) :
    setBits x = t :: setBits (x &&& (x - 1)) := by
  have ht64 : t < 64 := by
    by_contra h
    rw [BitVec.getLsbD_ge x t (by omega)] at ht
    cases ht
  unfold setBits
  rw [filter_range_eq_cons ht hlow ht64]
  simp only [hand]

/-! ## The conversion loop -/

/-- The values `one = x ^ (x & (x - 1))` that the conversion loop of `set_state` takes, in
order: the lowest set bit of the exceptions left, which the loop then clears. -/
def peeledBits (x : BitVec 64) : List (BitVec 64) :=
  if h : x = 0 then []
  else
    let one := x ^^^ (x &&& (x - 1))
    one :: peeledBits (x ^^^ one)
termination_by x.toNat
decreasing_by simp only [one, xor_lowestBit]; exact and_sub_one_lt h

/-- The loop peels the set bits of `x` one by one, from the lowest, each as a single-bit mask. -/
theorem peeledBits_eq (x : BitVec 64) : peeledBits x = (setBits x).map (BitVec.twoPow 64) := by
  induction x using peeledBits.induct with
  | case1 => simp [peeledBits, setBits]
  | case2 x hx one ih =>
    obtain ⟨t, ht, hlow, hand⟩ := lowBit_spec hx
    have ih : peeledBits (x &&& (x - 1)) = (setBits (x &&& (x - 1))).map (BitVec.twoPow 64) := by
      simpa only [one, xor_lowestBit] using ih
    rw [peeledBits, dif_neg hx]
    simp only [xor_lowestBit]
    rw [ih, lowestBit_eq_twoPow ht hand, setBits_eq_cons ht hlow hand, List.map_cons]

/-- The conversion loop is the fold of the conversion over the peeled bits: it converts each of
them once, in order, and stops at the first conversion that fails. -/
theorem convertExceptions_eq_foldlM (convert : BitVec 64 → Except Fault (BitVec 64))
    (x os : BitVec 64) :
    convertExceptions convert x os =
      (peeledBits x).foldlM (fun os one => convert one >>= fun m => pure (os ||| m)) os := by
  induction x, os using convertExceptions.induct convert with
  | case1 os => simp [convertExceptions, peeledBits]
  | case2 x os hx one e he =>
    rw [convertExceptions, dif_neg hx, peeledBits, dif_neg hx]
    simp only [he, List.foldlM_cons]
    rfl
  | case3 x os hx one m hm ih =>
    rw [convertExceptions, dif_neg hx, peeledBits, dif_neg hx]
    simp only [hm, List.foldlM_cons]
    exact ih

/-- With a conversion that cannot fail, the fold is the or of the converted bits. -/
theorem foldlM_pure_or (f : BitVec 64 → BitVec 64) (l : List (BitVec 64)) (os : BitVec 64) :
    l.foldlM (fun os one => (pure (f one) : Except Fault (BitVec 64)) >>= fun m => pure (os ||| m))
      os = pure (l.foldl (fun os one => os ||| f one) os) := by
  induction l generalizing os with
  | nil => rfl
  | cons a l ih => exact ih _

/-- Every bit the loop meets in a valid exception set is one of the six wave exceptions. -/
theorem peeledBits_valid {x : BitVec 64} (h : x &&& ~~~validWaveExceptions = 0) :
    ∀ one ∈ peeledBits x, one ∈ [exceptionWaveAbort, exceptionWaveTrap, exceptionWaveMathError,
      exceptionWaveIllegalInstruction, exceptionWaveMemoryViolation,
      exceptionWaveApertureViolation] := by
  induction x using peeledBits.induct with
  | case1 => simp [peeledBits]
  | case2 x hx one ih =>
    rw [peeledBits, dif_neg hx]
    rintro b (_ | ⟨_, hb⟩)
    · exact Wave.lowestBit_mem hx h
    · exact ih (by simp only [one, xor_lowestBit]; exact Wave.and_valid h) b hb

/-- The conversion loop of `set_state`, on every 64-bit exceptions value `x` and every
conversion. The loop converts the bits `peeledBits x` once each, in order, and stops at the first
conversion that fails. Those bits are the set bits of `x` from the lowest, each as a single-bit
mask, so the loop runs once per set bit. With a conversion `f` that cannot fail it returns the or
of `f b` over the set bits `b` of `x`. For every exceptions mask that `amd_dbgapi_wave_resume`
lets through, `convert_one_exception` succeeds on every bit the loop meets, with a queue
exception bit, so the exception part of `set_state` succeeds whatever state it runs in. -/
theorem convertExceptions_loop (x os : BitVec 64) :
    (∀ convert : BitVec 64 → Except Fault (BitVec 64), convertExceptions convert x os =
      (peeledBits x).foldlM (fun os one => convert one >>= fun m => pure (os ||| m)) os) ∧
    peeledBits x = (setBits x).map (BitVec.twoPow 64) ∧
    (∀ f : BitVec 64 → BitVec 64, convertExceptions (fun one => pure (f one)) x os =
      pure ((setBits x).foldl (fun os i => os ||| f (BitVec.twoPow 64 i)) os)) ∧
    ∀ (A : Arch) (mode : ResumeMode) (w : Wave) (sh : Shared),
      Wave.resumeGuard mode x w sh = none →
      (∀ one ∈ peeledBits x, ∀ agentExceptions : BitVec 64, ∃ m,
        convertOneException A.masks agentExceptions one = .ok m ∧ m &&& A.masks.queueMask ≠ 0) ∧
      ∀ w' sh', ∃ sh'', Wave.sendExceptions A x w' sh' = .ok sh'' := by
  refine ⟨fun convert => convertExceptions_eq_foldlM convert x os, peeledBits_eq x, fun f => ?_,
    fun A mode w sh hg => ?_⟩
  · rw [convertExceptions_eq_foldlM, foldlM_pure_or, peeledBits_eq, List.foldl_map]
  · have hv := (Wave.resumeGuard_eq_none.1 hg).1
    exact ⟨fun one hone agentExceptions =>
      Wave.convertOneException_ok A.masks agentExceptions (peeledBits_valid hv one hone),
      fun w' sh' => Wave.sendExceptions_isOk A hv⟩

theorem convertExceptions_loop_sample :
    Wave.resumeGuard .normal (exceptionWaveTrap ||| exceptionWaveMemoryViolation)
        sampleResumableWave ⟨[], [], 0, fun _ => 0, []⟩ = none ∧
      ∀ one ∈ peeledBits (exceptionWaveTrap ||| exceptionWaveMemoryViolation),
        ∀ agentExceptions : BitVec 64, ∃ m,
          convertOneException sampleMasks agentExceptions one = .ok m ∧
            m &&& sampleMasks.queueMask ≠ 0 :=
  have hg : Wave.resumeGuard .normal (exceptionWaveTrap ||| exceptionWaveMemoryViolation)
      sampleResumableWave ⟨[], [], 0, fun _ => 0, []⟩ = none := by decide
  ⟨hg, ((convertExceptions_loop (exceptionWaveTrap ||| exceptionWaveMemoryViolation) 0).2.2.2
    (sampleArch false) .normal _ _ hg).1⟩

/-! ## The device memory violation bit -/

/-- The test of the loop over `process ().range<wave_t> ()` at the end of `set_state`: the wave
`v` is on `agent`, stopped, with a memory violation in its stop reason. -/
def memoryViolationStopped (agent : Nat) (v : Wave) : Bool :=
  v.agent == agent && v.state == .stop && v.stopReason.contains .memoryViolation

theorem not_any_memoryViolationStopped {agent : Nat} {l : List Wave} :
    (l.any (memoryViolationStopped agent)) = false ↔
      ∀ v ∈ l, v.agent = agent → v.state = .stop → .memoryViolation ∉ v.stopReason := by
  simp [memoryViolationStopped]

/-- Clearing the device memory violation bit leaves no bit of the mask set. -/
theorem and_not_and_self (x d : BitVec 64) : x &&& ~~~d &&& d = 0 := by
  apply BitVec.eq_of_getLsbD_eq
  intro i
  simp only [BitVec.getLsbD_and, BitVec.getLsbD_not, BitVec.getLsbD_zero]
  cases d.getLsbD i <;> simp

namespace Wave

variable (A : Arch) (env : SetStateEnv) {w w' : Wave} {sh sh' : Shared}

/-- The agents' exception masks after the check at the end of `set_state`: the agent's device
memory violation bit is cleared when it is set, the wave leaves STOP, and no wave of the agent is
stopped with a memory violation. -/
theorem clearDeviceMemoryViolation_agentExceptions (s : WaveState) (others : List Wave) :
    (clearDeviceMemoryViolation A s others w sh).agentExceptions =
      if sh.agentExceptions w.agent &&& A.masks.deviceMemoryViolation ≠ 0 ∧ s ≠ .stop ∧
          (w :: others).any (memoryViolationStopped w.agent) = false then
        Function.update sh.agentExceptions w.agent
          (sh.agentExceptions w.agent &&& ~~~A.masks.deviceMemoryViolation)
      else sh.agentExceptions := by
  unfold clearDeviceMemoryViolation memoryViolationStopped
  by_cases hc : sh.agentExceptions w.agent &&& A.masks.deviceMemoryViolation ≠ 0 ∧ s ≠ .stop
  · cases hany : (w :: others).any fun v =>
        v.agent == w.agent && v.state == .stop && v.stopReason.contains .memoryViolation
    · rw [if_pos hc, if_neg Bool.false_ne_true, if_pos ⟨hc.1, hc.2, rfl⟩]
    · rw [if_pos hc, if_pos rfl, if_neg fun h => Bool.false_ne_true h.2.2.symm]
  · rw [if_neg hc, if_neg fun h => hc ⟨h.1, h.2.1⟩]

/-- `set_state`, however it ends, is one of: nothing when the wave is already in the state, the
termination of a wave single-stepped onto a terminating instruction, or the transition proper
followed by an optional simulation, the exceptions and the device memory violation check. -/
theorem setState_ok {s : WaveState} {e : BitVec 64} (h : w.setState A env s e sh = .ok (w', sh')) :
    (s = w.state ∧ w' = w ∧ sh' = sh) ∨
    (s = .singleStep ∧ e = 0 ∧
      ∃ w₁ sh₁, terminate A env { w with stopRequested := false } sh = .ok (w₁, sh₁) ∧
        (w', sh') = raiseEvent .waveCommandTerminated w₁ sh₁) ∨
    (s ≠ w.state ∧ ∃ w₁ sh₁ w₂ sh₂ sh₃,
      changeState A w.state s { w with stopRequested := s == .stop }
        { sh with driverLog := sh.driverLog ++ [.waveSetState w.id s e] } = .ok (w₁, sh₁) ∧
      (simulateStep A env w₁ sh₁ = .ok (w₂, sh₂) ∨ (w₂, sh₂) = (w₁, sh₁)) ∧
      sendExceptions A e w₂ sh₂ = .ok sh₃ ∧ w' = w₂ ∧
      sh' = clearDeviceMemoryViolation A s env.others w₂ sh₃) := by
  rw [setState] at h
  by_cases hse : s = w.state
  · subst hse
    simp only [ite_true, except_bind_eq_ok] at h
    obtain ⟨-, -, h⟩ := h
    cases h
    exact .inl ⟨rfl, rfl, rfl⟩
  by_cases hT : s = .singleStep ∧ e = 0 ∧
      terminatingNext A w.displacedStepping (if s = .singleStep then env.instruction else none)
  · simp only [except_bind_eq_ok, check_eq_ok, hse, if_false, dif_pos hT] at h
    obtain ⟨-, -, -, -, -, -, ⟨w₁, sh₁⟩, ht, h⟩ := h
    obtain ⟨rfl, rfl, -⟩ := hT
    exact .inr (.inl ⟨rfl, rfl, w₁, sh₁, ht, (Except.ok.inj h).symm⟩)
  · simp only [except_bind_eq_ok, check_eq_ok, hse, if_false, dif_neg hT] at h
    obtain ⟨-, -, -, -, -, -, -, -, ⟨w₁, sh₁⟩, hc, h⟩ := h
    refine .inr (.inr ⟨hse, w₁, sh₁, ?_⟩)
    rcases ite_eq_iff.1 h with ⟨-, h⟩ | ⟨-, h⟩
    all_goals
      obtain ⟨⟨w₂, sh₂⟩, hs, h⟩ := except_bind_eq_ok.1 h
      obtain ⟨sh₃, he, h⟩ := except_bind_eq_ok.1 h
      cases h
    · exact ⟨w₂, sh₂, sh₃, hc, .inl hs, he, rfl, rfl⟩
    · obtain ⟨rfl, rfl⟩ : w₁ = w₂ ∧ sh₁ = sh₂ := by simpa using hs
      exact ⟨w₁, sh₁, sh₃, hc, .inr rfl, he, rfl, rfl⟩

/-- The transition proper keeps the agent and the exception masks, and leaves STOP only from
STOP. -/
theorem changeState_agentExceptions {prev s : WaveState} (hne : s ≠ prev)
    (h : changeState A prev s w sh = .ok (w', sh')) :
    w'.agent = w.agent ∧ sh'.agentExceptions = sh.agentExceptions ∧ (s ≠ .stop → prev = .stop) := by
  by_cases hs : s = .stop
  · subst hs
    obtain ⟨-, -, hr⟩ := (changeState_stop A (Ne.symm hne)).1 h
    obtain ⟨rfl, rfl⟩ := eq_raiseEvent_iff.1 hr
    exact ⟨rfl, rfl, fun h => absurd rfl h⟩
  · obtain ⟨hp, -, rfl, rfl⟩ := (changeState_resume A hs).1 h
    exact ⟨rfl, rfl, fun _ => hp⟩

theorem simulateStep_agentExceptions (h : simulateStep A env w sh = .ok (w', sh')) :
    w'.agent = w.agent ∧ sh'.agentExceptions = sh.agentExceptions := by
  obtain ⟨-, pp, sa, hr⟩ := simulateStep_ok A env h
  obtain ⟨rfl, rfl⟩ := eq_raiseEvent_iff.1 hr
  exact ⟨rfl, rfl⟩

theorem setVisibility_ok {halted : Bool} {v : Visibility} (h : w.setVisibility halted v = .ok w') :
    w' = { w with visibility := v } := by
  unfold setVisibility at h
  by_cases hv : w.visibility = v
  · simp only [hv, beq_self_eq_true, if_true] at h
    cases h
    rw [← hv]
  · simp only [beq_iff_eq, hv, if_false] at h
    split at h <;> simp [except_bind_eq_ok] at h <;> first | exact h.symm | exact h.2.symm

/-- `terminate` runs `set_state (RUN)` on the wave as it was, pc and visibility apart, with the
exception masks it was called with. -/
theorem terminate_setState {w₁ : Wave} {sh₁ : Shared} (h : terminate A env w sh = .ok (w₁, sh₁)) :
    ∃ w₄ : Wave, w₄.agent = w.agent ∧ w₄.state = w.state ∧
      w₄.setState A env .run 0 (releaseBuffer w.displacedStepping sh) = .ok (w₁, sh₁) := by
  rw [terminate] at h
  simp only [except_bind_eq_ok] at h
  obtain ⟨w₃, h₃, w₄, h₄, h⟩ := h
  obtain ⟨pp, sa, rfl⟩ := writeRegister64_frame A _ h₃
  obtain rfl := setVisibility_ok h₄
  exact ⟨_, by rfl, by rfl, h⟩

/-- The agents' exception masks after the transition proper, a simulation and the exceptions,
and the device memory violation check on the wave `w₂` they leave. -/
theorem agentExceptions_of_changeState {s : WaveState} {e : BitVec 64} {w₁ w₂ : Wave}
    {sh₁ sh₂ sh₃ : Shared} (hse : s ≠ w.state)
    (hc : changeState A w.state s { w with stopRequested := s == .stop }
      { sh with driverLog := sh.driverLog ++ [.waveSetState w.id s e] } = .ok (w₁, sh₁))
    (hsim : simulateStep A env w₁ sh₁ = .ok (w₂, sh₂) ∨ (w₂, sh₂) = (w₁, sh₁))
    (he : sendExceptions A e w₂ sh₂ = .ok sh₃) :
    w₂.agent = w.agent ∧ (clearDeviceMemoryViolation A s env.others w₂ sh₃).agentExceptions =
      if w.state = .stop ∧ s ≠ .stop ∧
          sh.agentExceptions w.agent &&& A.masks.deviceMemoryViolation ≠ 0 ∧
          (w₂ :: env.others).any (memoryViolationStopped w.agent) = false then
        Function.update sh.agentExceptions w.agent
          (sh.agentExceptions w.agent &&& ~~~A.masks.deviceMemoryViolation)
      else sh.agentExceptions := by
  obtain ⟨ha₁, hx₁, hst⟩ := changeState_agentExceptions A hse hc
  have ⟨ha₂, hx₂⟩ : w₂.agent = w₁.agent ∧ sh₂.agentExceptions = sh₁.agentExceptions := by
    rcases hsim with hsim | hsim
    · exact simulateStep_agentExceptions A env hsim
    · cases hsim; exact ⟨rfl, rfl⟩
  obtain ⟨log, rfl⟩ := sendExceptions_ok A he
  have ha : w₂.agent = w.agent := ha₂.trans ha₁
  refine ⟨ha, ?_⟩
  rw [clearDeviceMemoryViolation_agentExceptions, ha]
  simp only [hx₂, hx₁]
  by_cases hs : s = .stop
  · simp [hs]
  · simp [hs, hst hs]

/-- What `set_state` does to the agents' exception masks, on every path: only the device memory
violation bit of the wave's agent can change, and it is cleared exactly when the wave was stopped,
leaves STOP, the bit is set and no wave of the agent is stopped with a memory violation, the wave
itself counted in the state the call leaves it in. -/
theorem setState_agentExceptions {s : WaveState} {e : BitVec 64}
    (h : w.setState A env s e sh = .ok (w', sh')) :
    w'.agent = w.agent ∧ sh'.agentExceptions =
      if w.state = .stop ∧ s ≠ .stop ∧
          sh.agentExceptions w.agent &&& A.masks.deviceMemoryViolation ≠ 0 ∧
          (w' :: env.others).any (memoryViolationStopped w.agent) = false then
        Function.update sh.agentExceptions w.agent
          (sh.agentExceptions w.agent &&& ~~~A.masks.deviceMemoryViolation)
      else sh.agentExceptions := by
  rcases setState_ok A env h with ⟨rfl, rfl, rfl⟩ | ⟨rfl, rfl, w₁, sh₁, ht, hr⟩ |
    ⟨hse, w₁, sh₁, w₂, sh₂, sh₃, hc, hsim, he, rfl, rfl⟩
  · exact ⟨rfl, by rw [if_neg fun h => h.2.1 h.1]⟩
  · obtain ⟨rfl, rfl⟩ := eq_raiseEvent_iff.1 hr
    obtain ⟨w₄, ha₄, hs₄, h₄⟩ := terminate_setState A env ht
    simp only at ha₄ hs₄
    rcases setState_ok A env h₄ with ⟨hr₄, rfl, rfl⟩ | ⟨h', -⟩ |
      ⟨hse, w₅, sh₅, w₆, sh₆, sh₇, hc, hsim, he, rfl, rfl⟩
    · have hw : ¬w.state = .stop := by rw [← hs₄, ← hr₄]; decide
      exact ⟨ha₄, by simp [hw]⟩
    · cases h'
    · obtain ⟨ha, hx⟩ := agentExceptions_of_changeState A env hse hc hsim he
      rw [ha₄, hs₄, releaseBuffer_agentExceptions] at hx
      exact ⟨ha.trans ha₄, by simpa [memoryViolationStopped] using hx⟩
  · exact agentExceptions_of_changeState A env hse hc hsim he

end Wave

/-- Every successful `set_state (w, s, e)`, for every population of waves `w :: others` over any
agents, states and stop reasons. The masks of the other agents never change, and neither does
any mask when `s` is STOP or the wave was not stopped on entry. When a stopped wave leaves STOP,
its agent's device memory violation bit is clear afterwards exactly when it was clear before, or
no wave of the agent is stopped with `MEMORY_VIOLATION` in its stop reason. The wave itself
counts in the state and stop reason the call leaves it in, after a simulation that may stop it
again. -/
theorem setState_deviceMemoryViolation {A : Arch} {env : SetStateEnv} {s : WaveState}
    {e : BitVec 64} {w w' : Wave} {sh sh' : Shared} (h : w.setState A env s e sh = .ok (w', sh')) :
    (∀ a, a ≠ w.agent → sh'.agentExceptions a = sh.agentExceptions a) ∧
    (s = .stop ∨ w.state ≠ .stop → sh'.agentExceptions = sh.agentExceptions) ∧
    (s ≠ .stop → w.state = .stop →
      (sh'.agentExceptions w.agent &&& A.masks.deviceMemoryViolation = 0 ↔
        sh.agentExceptions w.agent &&& A.masks.deviceMemoryViolation = 0 ∨
        ∀ v ∈ w' :: env.others, v.agent = w.agent → v.state = .stop →
          .memoryViolation ∉ v.stopReason)) := by
  obtain ⟨-, hx⟩ := Wave.setState_agentExceptions A env h
  refine ⟨fun a ha => ?_, fun hs => ?_, fun hs hw => ?_⟩
  · rw [hx]
    split_ifs <;> simp [Function.update_noteq ha]
  · rw [hx, if_neg]
    rintro ⟨hw, hs', -⟩
    rcases hs with hs | hs
    exacts [hs' hs, hs hw]
  · rw [hx, ← not_any_memoryViolationStopped]
    by_cases hb : sh.agentExceptions w.agent &&& A.masks.deviceMemoryViolation = 0
    · simp [hb]
    · by_cases ha : (w' :: env.others).any (memoryViolationStopped w.agent) = false
      · rw [if_pos ⟨hw, hs, hb, ha⟩]
        simp [ha, and_not_and_self]
      · rw [if_neg fun h => ha h.2.2.2]
        simp [hb, ha]

/-- The process state of the samples: no event, no buffer, and every agent with its device memory
violation bit set. -/
def sampleViolationShared : Shared := ⟨[], [], 0, fun _ => sampleMasks.deviceMemoryViolation, []⟩

/-- What the hardware answers when the sample wave is resumed: no instruction is read. -/
def sampleResumeEnv : SetStateEnv := ⟨none, false, false, false, 0, ⟨.run, []⟩, []⟩

theorem setState_deviceMemoryViolation_sample :
    ∃ w' sh', sampleResumableWave.setState (sampleArch false) sampleResumeEnv .run 0
        sampleViolationShared = .ok (w', sh') ∧
      (∀ a, a ≠ sampleResumableWave.agent → sh'.agentExceptions a =
        sampleViolationShared.agentExceptions a) ∧
      (WaveState.run = .stop ∨ sampleResumableWave.state ≠ .stop →
        sh'.agentExceptions = sampleViolationShared.agentExceptions) ∧
      (WaveState.run ≠ .stop → sampleResumableWave.state = .stop →
        (sh'.agentExceptions sampleResumableWave.agent &&&
            (sampleArch false).masks.deviceMemoryViolation = 0 ↔
          sampleViolationShared.agentExceptions sampleResumableWave.agent &&&
              (sampleArch false).masks.deviceMemoryViolation = 0 ∨
          ∀ v ∈ w' :: sampleResumeEnv.others, v.agent = sampleResumableWave.agent →
            v.state = .stop → .memoryViolation ∉ v.stopReason)) :=
  have h : ∃ r, sampleResumableWave.setState (sampleArch false) sampleResumeEnv .run 0
      sampleViolationShared = .ok r := ⟨_, by rw [Wave.setState]; rfl⟩
  let ⟨⟨w', sh'⟩, h⟩ := h
  ⟨w', sh', h, setState_deviceMemoryViolation h⟩

/-- `set_state (RUN)` on a running wave returns at once. Its agent's device memory violation bit
stays set, although no wave of the agent is stopped with a memory violation. -/
theorem setState_running_keeps_deviceMemoryViolation :
    (Wave.init 0 0 0 64 sampleCallbacks).setState (sampleArch false) sampleResumeEnv .run 0
        sampleViolationShared = .ok (Wave.init 0 0 0 64 sampleCallbacks, sampleViolationShared) ∧
      sampleViolationShared.agentExceptions 0 &&& (sampleArch false).masks.deviceMemoryViolation ≠
        0 ∧
      ∀ v ∈ Wave.init 0 0 0 64 sampleCallbacks :: sampleResumeEnv.others, v.agent = 0 →
        v.state = .stop → .memoryViolation ∉ v.stopReason :=
  ⟨Wave.setState_self (sampleArch false) sampleResumeEnv (w := Wave.init 0 0 0 64 sampleCallbacks)
    (.inl rfl), by decide,
    by simp [sampleResumeEnv, Wave.init]⟩

end Dbgapi
