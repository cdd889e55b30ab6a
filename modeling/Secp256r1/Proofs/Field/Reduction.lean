import Mathlib.Tactic.LinearCombination
import Secp256r1.Proofs.Field.Product

/-!
# Reduction modulo the field prime is exact

Limbs are signed 64-bit accumulators.  For a radix `S = 2 ^ 32` the prime is
`S⁸ − S⁷ + S⁶ + S³ − 1`, so that a multiple `q` of `S⁸` may be replaced by
`q·(S⁷ − S⁶ − S³ + 1)`.

* `foldedLimbs_spec` — folding the upper words keeps the residue.
* `carrySweep_spec` — a sweep is division with remainder by a power of the radix.
* `sweepAndFold_spec` — a sweep with the carry folded back keeps the residue.
* `settled_spec` — after two of them the third sweep has no carry.
* `value_reduce` — the result is the residue in `[0, p)`, for every integer of sixteen words.
-/

set_option autoImplicit false

namespace Secp256r1

namespace Reduction

/-! ## Signed accumulators -/

/-- The accumulator holds exactly `z`, which is at most `k` words large. -/
def Holds (a : Int64) (z : ℤ) (k : ℕ) : Prop :=
  a.toInt = z ∧ -(k * 2 ^ 32) ≤ z ∧ z ≤ k * 2 ^ 32

theorem toInt_eq_of_bmod {a : Int64} {z : ℤ} (h : a.toInt = z.bmod (2 ^ 64)) (h1 : -2 ^ 63 < z)
    (h2 : z < 2 ^ 63) : a.toInt = z := by
  rw [h]
  exact Int.bmod_eq_of_le (by omega) (by omega)

theorem toInt_add_of_lt {a b : Int64} (h1 : -2 ^ 63 < a.toInt + b.toInt)
    (h2 : a.toInt + b.toInt < 2 ^ 63) : (a + b).toInt = a.toInt + b.toInt :=
  toInt_eq_of_bmod (Int64.toInt_add a b) h1 h2

theorem Holds.add {a b : Int64} {z y : ℤ} {k l : ℕ} (ha : Holds a z k) (hb : Holds b y l)
    (h : k + l < 2 ^ 31 := by decide) : Holds (a + b) (z + y) (k + l) := by
  obtain ⟨rfl, ha1, ha2⟩ := ha
  obtain ⟨rfl, hb1, hb2⟩ := hb
  exact ⟨toInt_add_of_lt (by omega) (by omega), by omega, by omega⟩

theorem Holds.sub {a b : Int64} {z y : ℤ} {k l : ℕ} (ha : Holds a z k) (hb : Holds b y l)
    (h : k + l < 2 ^ 31 := by decide) : Holds (a - b) (z - y) (k + l) := by
  obtain ⟨rfl, ha1, ha2⟩ := ha
  obtain ⟨rfl, hb1, hb2⟩ := hb
  exact ⟨toInt_eq_of_bmod (Int64.toInt_sub a b) (by omega) (by omega), by omega, by omega⟩

theorem Holds.mul {a m : Int64} {z : ℤ} {k c : ℕ} (ha : Holds a z k) (hm : m.toInt = c)
    (h : c * k < 2 ^ 31 := by decide) : Holds (m * a) (c * z) (c * k) := by
  obtain ⟨rfl, ha1, ha2⟩ := ha
  have h1 : (c : ℤ) * -(k * 2 ^ 32) ≤ c * a.toInt := mul_le_mul_of_nonneg_left ha1 (by omega)
  have h2 : (c : ℤ) * a.toInt ≤ c * (k * 2 ^ 32) := mul_le_mul_of_nonneg_left ha2 (by omega)
  have hck : (c : ℤ) * (k * 2 ^ 32) = (c * k : ℕ) * 2 ^ 32 := by push_cast; ring
  have hmul := Int64.toInt_mul m a
  rw [hm] at hmul
  exact ⟨toInt_eq_of_bmod hmul (by linarith) (by omega), by linarith, by linarith⟩

/-- A few words are far below what a sweep can take. -/
theorem Holds.bounds {a : Int64} {z : ℤ} {k : ℕ} (ha : Holds a z k) (h : k ≤ 2 ^ 8 := by decide) :
    -2 ^ 40 ≤ a.toInt ∧ a.toInt ≤ 2 ^ 40 := by
  obtain ⟨rfl, h1, h2⟩ := ha
  constructor <;> omega

theorem toInt_shiftRight (a : Int64) : (a >>> 32).toInt = a.toInt / UInt32.size := by
  rw [← Int64.toInt_toBitVec, Int64.toBitVec_shiftRight]
  simp [BitVec.toInt_sshiftRight, Int.shiftRight_eq_div_pow, UInt32.size]

theorem shiftRight_bounds {t : Int64} (h : -2 ^ 41 ≤ t.toInt ∧ t.toInt ≤ 2 ^ 41) :
    -2 ^ 40 ≤ (t >>> 32).toInt ∧ (t >>> 32).toInt ≤ 2 ^ 40 := by
  rw [toInt_shiftRight]
  simp only [UInt32.size]
  omega

theorem toInt_and_mask (a : Int64) : (a &&& 0xFFFFFFFF).toInt = a.toInt % UInt32.size := by
  have hmask : (a.toBitVec &&& 0xFFFFFFFF#64).toNat = a.toBitVec.toNat % 2 ^ 32 := by
    rw [BitVec.toNat_and]
    exact Nat.and_two_pow_sub_one_eq_mod _ 32
  have hlt : a.toBitVec.toNat % 2 ^ 32 < 2 ^ 32 := Nat.mod_lt _ (by decide)
  rw [← Int64.toInt_toBitVec, Int64.toBitVec_and, ← Int64.toInt_toBitVec,
    BitVec.toInt_eq_toNat_of_lt (x := a.toBitVec &&& _)]
  · show (((a.toBitVec &&& 0xFFFFFFFF#64).toNat : ℕ) : ℤ) = _
    rw [hmask, BitVec.toInt_eq_toNat_cond]
    simp only [UInt32.size]
    split <;> omega
  · show 2 * (a.toBitVec &&& 0xFFFFFFFF#64).toNat < _
    omega

theorem toInt_limbOfWord (w : UInt32) : (limbOfWord w).toInt = w.toNat := by
  have hw := w.toNat_lt
  unfold limbOfWord
  rw [← Int64.toInt_toBitVec, UInt64.toBitVec_toInt64, BitVec.toInt_eq_toNat_of_lt]
  · simp
  · simp; omega

theorem holds_limbOfWord (w : UInt32) : Holds (limbOfWord w) w.toNat 1 := by
  have hw := w.toNat_lt
  exact ⟨toInt_limbOfWord w, by omega, by omega⟩

/-- The integer that signed limbs stand for, least significant first. -/
def signedValue : List Int64 → ℤ
  | [] => 0
  | a :: as => a.toInt + UInt32.size * signedValue as

/-- The limbs that a sweep leaves. -/
def InRange (limbs : List Int64) : Prop := ∀ a ∈ limbs, 0 ≤ a.toInt ∧ a.toInt < UInt32.size

theorem InRange.holds {limbs : List Int64} (h : InRange limbs) {a : Int64} (ha : a ∈ limbs) :
    Holds a a.toInt 1 := by
  have ha' := h a ha
  simp only [UInt32.size] at ha'
  exact ⟨rfl, by omega, by omega⟩

/-- The accumulators that a sweep can take. -/
def Bounded (limbs : List Int64) : Prop := ∀ a ∈ limbs, -2 ^ 40 ≤ a.toInt ∧ a.toInt ≤ 2 ^ 40

theorem InRange.signedValue_bounds {limbs : List Int64} (h : InRange limbs) :
    0 ≤ signedValue limbs ∧ signedValue limbs < UInt32.size ^ limbs.length := by
  induction limbs with
  | nil => simp [signedValue]
  | cons a as ih =>
    obtain ⟨⟨ha0, ha1⟩, has⟩ := List.forall_mem_cons.mp h
    obtain ⟨h0, h1⟩ := ih has
    have hm : (UInt32.size : ℤ) * (signedValue as + 1) ≤ UInt32.size * UInt32.size ^ as.length :=
      mul_le_mul_of_nonneg_left h1 (by decide)
    unfold signedValue
    rw [List.length_cons, pow_succ']
    exact ⟨by positivity, by linarith⟩

theorem Bounded.signedValue_bounds {limbs : List Int64} (h : Bounded limbs) :
    -(2 ^ 9 * (UInt32.size ^ limbs.length - 1)) ≤ signedValue limbs ∧
      signedValue limbs ≤ 2 ^ 9 * (UInt32.size ^ limbs.length - 1) := by
  induction limbs with
  | nil => simp [signedValue]
  | cons a as ih =>
    obtain ⟨ha, has⟩ := List.forall_mem_cons.mp h
    obtain ⟨h1, h2⟩ := ih has
    unfold signedValue
    rw [List.length_cons, pow_succ' (UInt32.size : ℤ)]
    obtain ⟨top, htop⟩ : ∃ top : ℤ, top = UInt32.size ^ as.length := ⟨_, rfl⟩
    rw [← htop] at h1 h2 ⊢
    simp only [UInt32.size, Nat.cast_ofNat]
    constructor <;> linarith

/-! ## Sweeping -/

/-- **A sweep divides with remainder**: limbs in range stand for the remainder and the carry is
the quotient. -/
theorem carrySweep_spec (as : List Int64) (c : Int64) (h : Bounded as)
    (hc : -2 ^ 40 ≤ c.toInt ∧ c.toInt ≤ 2 ^ 40) :
    signedValue (carrySweep as c).1 + UInt32.size ^ as.length * (carrySweep as c).2.toInt =
      signedValue as + c.toInt ∧ InRange (carrySweep as c).1 := by
  induction as generalizing c with
  | nil => simp [carrySweep, signedValue, InRange]
  | cons a as ih =>
    obtain ⟨ha, has⟩ := List.forall_mem_cons.mp h
    obtain ⟨t, ht⟩ : ∃ t, t = a + c := ⟨_, rfl⟩
    have hsum : t.toInt = a.toInt + c.toInt := by
      rw [ht]; exact toInt_add_of_lt (by omega) (by omega)
    have hshift := toInt_shiftRight t
    have hmask := toInt_and_mask t
    have hcarry := shiftRight_bounds (t := t) (by omega)
    obtain ⟨hvalue, hrange⟩ := ih (t >>> 32) has hcarry
    have hlimb : 0 ≤ t.toInt % UInt32.size ∧ t.toInt % UInt32.size < UInt32.size :=
      ⟨Int.emod_nonneg _ (by decide), Int.emod_lt_of_pos _ (by decide)⟩
    have hdiv := Int.emod_add_mul_ediv t.toInt UInt32.size
    simp only [carrySweep, ← ht, signedValue, List.length_cons, pow_succ', hmask]
    rw [hshift] at hvalue
    refine ⟨?_, List.forall_mem_cons.mpr ⟨by rw [hmask]; exact hlimb, hrange⟩⟩
    linear_combination UInt32.size * hvalue + hdiv + hsum

/-! ## Folding -/

theorem value_modulus : (modulus.value : ℤ) =
    UInt32.size ^ 8 - UInt32.size ^ 7 + UInt32.size ^ 6 + UInt32.size ^ 3 - 1 := by
  decide +kernel

/-- **Folding the upper words keeps the residue**, and no accumulator overflows. -/
theorem foldedLimbs_spec (c : Words 16) :
    (∃ k : ℤ, (c.value : ℤ) = signedValue (foldedLimbs c) + k * modulus.value) ∧
      Bounded (foldedLimbs c) := by
  obtain ⟨ws, hl⟩ := c
  match ws, hl with
  | [w0, w1, w2, w3, w4, w5, w6, w7, w8, w9, w10, w11, w12, w13, w14, w15], _ =>
    have x := holds_limbOfWord
    have h2 (w : UInt32) : Holds (2 * limbOfWord w) (2 * w.toNat) 2 := (x w).mul rfl
    have h3 (w : UInt32) : Holds (3 * limbOfWord w) (3 * w.toNat) 3 := (x w).mul rfl
    have e0 := ((((((x w0).add (x w8)).add (x w9)).sub (x w11)).sub (x w12)).sub (x w13)).sub (x w14)
    have e1 := ((((((x w1).add (x w9)).add (x w10)).sub (x w12)).sub (x w13)).sub (x w14)).sub (x w15)
    have e2 := (((((x w2).add (x w10)).add (x w11)).sub (x w13)).sub (x w14)).sub (x w15)
    have e3 := ((((((x w3).add (h2 w11)).add (h2 w12)).add (x w13)).sub (x w15)).sub (x w8)).sub (x w9)
    have e4 := (((((x w4).add (h2 w12)).add (h2 w13)).add (x w14)).sub (x w9)).sub (x w10)
    have e5 := (((((x w5).add (h2 w13)).add (h2 w14)).add (x w15)).sub (x w10)).sub (x w11)
    have e6 := (((((x w6).add (h3 w14)).add (h2 w15)).add (x w13)).sub (x w8)).sub (x w9)
    have e7 := ((((((x w7).add (h3 w15)).add (x w8)).sub (x w10)).sub (x w11)).sub (x w12)).sub (x w13)
    constructor
    · -- the quotients of `S⁸, S⁹, …, S¹⁵` by the prime
      obtain ⟨S, hS⟩ : ∃ S : ℤ, S = UInt32.size := ⟨_, rfl⟩
      refine ⟨w8.toNat + w9.toNat * (S + 1) + w10.toNat * (S ^ 2 + S) +
        w11.toNat * (S ^ 3 + S ^ 2 - 1) + w12.toNat * (S ^ 4 + S ^ 3 - S - 1) +
        w13.toNat * (S ^ 5 + S ^ 4 - S ^ 2 - S - 1) +
        w14.toNat * (S ^ 6 + S ^ 5 - S ^ 3 - S ^ 2 - S - 1) +
        w15.toNat * (S ^ 7 + S ^ 6 - S ^ 4 - S ^ 3 - S ^ 2 - S), ?_⟩
      simp only [value_modulus, foldedLimbs, List.map_cons, List.map_nil, signedValue, e0.1, e1.1,
        e2.1, e3.1, e4.1, e5.1, e6.1, e7.1]
      simp only [Words.value, littleEndian, Nat.cast_add, Nat.cast_mul, ← hS]
      ring
    · intro a ha
      simp only [foldedLimbs, List.map_cons, List.map_nil, List.mem_cons, List.not_mem_nil,
        or_false] at ha
      rcases ha with rfl | rfl | rfl | rfl | rfl | rfl | rfl | rfl
      exacts [e0.bounds, e1.bounds, e2.bounds, e3.bounds, e4.bounds, e5.bounds, e6.bounds, e7.bounds]

/-- The integer after the carry is folded back. -/
theorem foldCarry_spec (q : Int64) (limbs : List Int64) (hl : limbs.length = 8)
    (hr : InRange limbs) (hq : -2 ^ 10 ≤ q.toInt ∧ q.toInt ≤ 2 ^ 10) :
    signedValue (foldCarry q limbs) = signedValue limbs +
      q.toInt * (UInt32.size ^ 8 - modulus.value) ∧ Bounded (foldCarry q limbs) := by
  match limbs, hl with
  | [a0, a1, a2, a3, a4, a5, a6, a7], _ =>
    have hword {a : Int64} (ha : a ∈ [a0, a1, a2, a3, a4, a5, a6, a7]) := hr.holds ha
    have hc : Holds q q.toInt 1 := ⟨rfl, by omega, by omega⟩
    have hz : Holds 0 0 1 := ⟨rfl, by omega, by omega⟩
    have hneg : Holds (-q) (-q.toInt) 1 := by
      have h := Int64.toInt_neg q
      exact ⟨toInt_eq_of_bmod h (by omega) (by omega), by omega, by omega⟩
    have e0 := (hword (a := a0) (by simp)).add hc
    have e1 := (hword (a := a1) (by simp)).add hz
    have e2 := (hword (a := a2) (by simp)).add hz
    have e3 := (hword (a := a3) (by simp)).add hneg
    have e4 := (hword (a := a4) (by simp)).add hz
    have e5 := (hword (a := a5) (by simp)).add hz
    have e6 := (hword (a := a6) (by simp)).add hneg
    have e7 := (hword (a := a7) (by simp)).add hc
    constructor
    · simp only [foldCarry, List.zipWith_cons_cons, List.zipWith_nil_right, signedValue, e0.1, e1.1,
        e2.1, e3.1, e4.1, e5.1, e6.1, e7.1, value_modulus]
      ring
    · intro a ha
      simp only [foldCarry, List.zipWith_cons_cons, List.zipWith_nil_right, List.mem_cons,
        List.not_mem_nil, or_false] at ha
      rcases ha with rfl | rfl | rfl | rfl | rfl | rfl | rfl | rfl
      exacts [e0.bounds, e1.bounds, e2.bounds, e3.bounds, e4.bounds, e5.bounds, e6.bounds, e7.bounds]

/-- The carry out of eight accumulators is small. -/
theorem carry_bounds {limbs : List Int64} (hl : limbs.length = 8) (h : Bounded limbs) :
    -2 ^ 10 ≤ (carrySweep limbs 0).2.toInt ∧ (carrySweep limbs 0).2.toInt ≤ 2 ^ 10 := by
  obtain ⟨hsweep, hrange⟩ := carrySweep_spec limbs 0 h (by decide)
  obtain ⟨hv1, hv2⟩ := h.signedValue_bounds
  obtain ⟨hr1, hr2⟩ := hrange.signedValue_bounds
  rw [length_carrySweep, hl] at hr2
  rw [hl, Int64.toInt_zero, add_zero] at hsweep
  rw [hl] at hv1 hv2
  simp only [UInt32.size, Nat.cast_ofNat] at *
  constructor <;> omega

/-- **One sweep with the carry folded back**: the carry `q` is the quotient by the radix of the
top, and the integer loses `q` times the prime. -/
theorem sweepAndFold_spec (limbs : List Int64) (hl : limbs.length = 8) (h : Bounded limbs) :
    ∃ q : ℤ, (-2 ^ 10 ≤ q ∧ q ≤ 2 ^ 10) ∧
      (0 ≤ signedValue limbs - UInt32.size ^ 8 * q ∧
        signedValue limbs - UInt32.size ^ 8 * q < UInt32.size ^ 8) ∧
      signedValue (sweepAndFold limbs) = signedValue limbs - q * modulus.value ∧
      Bounded (sweepAndFold limbs) := by
  obtain ⟨hsweep, hrange⟩ := carrySweep_spec limbs 0 h (by decide)
  obtain ⟨hr1, hr2⟩ := hrange.signedValue_bounds
  have hqb := carry_bounds hl h
  obtain ⟨q, hq⟩ : ∃ q, q = (carrySweep limbs 0).2 := ⟨_, rfl⟩
  rw [length_carrySweep, hl] at hr2
  rw [hl, ← hq, Int64.toInt_zero, add_zero] at hsweep
  rw [← hq] at hqb
  obtain ⟨hfold, hb⟩ := foldCarry_spec q _ ((length_carrySweep limbs 0).trans hl) hrange hqb
  have hdef : sweepAndFold limbs = foldCarry q (carrySweep limbs 0).1 := by
    rw [hq]; rfl
  refine ⟨q.toInt, hqb, ⟨by linarith, by linarith⟩, ?_, hdef ▸ hb⟩
  rw [hdef, hfold]
  linear_combination hsweep

/-- **Two sweeps settle the limbs**: the third has no carry, and the integer is congruent. -/
theorem settled_spec (c : Words 16) :
    (∃ k : ℤ, (c.value : ℤ) = signedValue (settled c).1 + k * modulus.value) ∧
      InRange (settled c).1 ∧ (settled c).2 = 0 := by
  obtain ⟨⟨k, hk⟩, hb0⟩ := foldedLimbs_spec c
  have hl0 := length_foldedLimbs c
  have hl1 := length_sweepAndFold hl0
  obtain ⟨q0, hq0, hr0, hv1, hb1⟩ := sweepAndFold_spec _ hl0 hb0
  obtain ⟨q1, hq1, hr1, hv2, hb2⟩ := sweepAndFold_spec _ hl1 hb1
  obtain ⟨hsweep, hrange⟩ := carrySweep_spec _ 0 hb2 (by decide)
  obtain ⟨hr2, hr3⟩ := hrange.signedValue_bounds
  rw [length_carrySweep] at hr3
  rw [length_sweepAndFold hl1] at hsweep hr3
  rw [Int64.toInt_zero, add_zero] at hsweep
  have hzero : (settled c).2.toInt = 0 := by
    unfold settled
    rw [value_modulus] at hv1 hv2
    simp only [UInt32.size, Nat.cast_ofNat] at *
    omega
  unfold settled at hzero
  refine ⟨⟨k + q0 + q1, ?_⟩, hrange, Int64.toInt_inj.mp (hzero.trans rfl)⟩
  unfold settled
  rw [hzero] at hsweep
  linear_combination hk - hv1 - hv2 - hsweep

theorem littleEndian_map_toUInt32 {limbs : List Int64} (h : InRange limbs) :
    (littleEndian (limbs.map fun a => a.toUInt64.toUInt32) : ℤ) = signedValue limbs := by
  induction limbs with
  | nil => rfl
  | cons a as ih =>
    obtain ⟨ha, has⟩ := List.forall_mem_cons.mp h
    have hword : (a.toUInt64.toUInt32.toNat : ℤ) = a.toInt := by
      have hnat := Int64.toInt_toBitVec a
      rw [BitVec.toInt_eq_toNat_cond] at hnat
      have htop := a.toBitVec.isLt
      simp only [UInt32.size, Nat.cast_ofNat] at ha
      rw [UInt64.toNat_toUInt32]
      change ((a.toBitVec.toNat % 2 ^ 32 : ℕ) : ℤ) = _
      split at hnat <;> omega
    rw [List.map_cons, littleEndian, signedValue, ← ih has, ← hword]
    push_cast
    rfl

/-- The settled words are congruent to what is reduced. -/
theorem settledWords_mod (c : Words 16) :
    (settledWords c).value % modulus.value = c.value % modulus.value := by
  obtain ⟨⟨k, hk⟩, hrange, -⟩ := settled_spec c
  have hv : ((settledWords c).value : ℤ) = signedValue (settled c).1 :=
    littleEndian_map_toUInt32 hrange
  zify
  rw [hk, hv, Int.add_mul_emod_self_right]

/-- The settled words are small enough for one subtraction. -/
theorem settledWords_lt (c : Words 16) : (settledWords c).value < 2 * modulus.value :=
  (settledWords c).value_lt.trans (by decide +kernel)

/-- **Reduction returns the residue** of any integer of sixteen words. -/
theorem value_reduce (c : Words 16) : (reduce c).value = c.value % modulus.value := by
  rw [← settledWords_mod, ← Words.value_lowered_zero _ _ (settledWords_lt c)]
  rfl

end Reduction

end Secp256r1
