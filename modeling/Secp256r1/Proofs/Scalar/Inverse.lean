import Secp256r1.Proofs.Scalar.Obtainable

/-!
# Inverses modulo the group order

The power `n − 2` is the inverse in the field of residues, as the order is prime.  So an inverse is
missing for zero alone, and any other scalar within reach has exactly one.

* `inverse_eq_error_iff` — the only failure.
* `Represents.inverse_eq_ok_iff` — the result as a residue.
* `inverse_eq_ok_iff` — **the result is the one scalar within reach whose product with the operand
  is one.**
* `inverse_inverse`, `inverse_mul` — inverting twice, and inverting a product.
* `inverse_exact` — all of it for every scalar within reach.
-/

set_option autoImplicit false

namespace Secp256r1

namespace Scalar

variable {k l : Scalar} {x y : ZMod groupOrder}

theorem Represents.eq_zero_iff (hk : k.Represents x) : k = zero ↔ x = 0 := hk.inj represents_zero

/-- **Only zero has no inverse.** -/
theorem inverse_eq_error_iff {e : ArithmeticError} : k.inverse = .error e ↔
    k = zero ∧ e = .invalidOperand "Scalar::inv_mod_n" "zero has no inverse" := by
  rw [inverse_eq, ← value_eq_zero_iff]
  split
  · rename_i h
    simp only [Except.error.injEq, h, true_and]
    exact eq_comm
  · rename_i h
    exact iff_of_false (by simp) fun he => h he.1

theorem inverse_zero :
    zero.inverse = .error (.invalidOperand "Scalar::inv_mod_n" "zero has no inverse") :=
  inverse_eq_error_iff.mpr ⟨rfl, rfl⟩

/-- The result stands for the inverse of the residue. -/
theorem Represents.inverse_eq_ok_iff (hk : k.Represents x) :
    k.inverse = .ok l ↔ x ≠ 0 ∧ l.Represents x⁻¹ := by
  have hzero : k.value = 0 ↔ x = 0 := by rw [value_eq_zero_iff, hk.eq_zero_iff]
  have hinv := represents_inverseTotal k
  rw [hk.cast] at hinv
  rw [inverse_eq]
  split
  · rename_i h
    exact iff_of_false (by simp) fun hl => hl.1 (hzero.mp h)
  · rename_i h
    rw [Except.ok.injEq]
    constructor
    · rintro rfl
      exact ⟨fun hx => h (hzero.mpr hx), hinv⟩
    · rintro ⟨-, hl⟩
      exact hinv.ext hl

/-- **What is returned is the one scalar within reach whose product with the operand is one.** -/
theorem inverse_eq_ok_iff (hk : Obtainable k) : k.inverse = .ok l ↔ Obtainable l ∧ k * l = one := by
  have hk' := hk.represents
  rw [hk'.inverse_eq_ok_iff]
  constructor
  · rintro ⟨hne, hl⟩
    have hproduct := hk'.mul hl
    rw [mul_inv_cancel₀ hne] at hproduct
    exact ⟨obtainable_iff_lt.mpr hl.lt, hproduct.ext represents_one⟩
  · rintro ⟨hl, hone⟩
    have hl' := hl.represents
    have hproduct : (k.value : ZMod groupOrder) * l.value = 1 :=
      ((hk'.mul hl').inj represents_one).mp hone
    rw [inv_eq_of_mul_eq_one_right hproduct]
    exact ⟨left_ne_zero_of_mul_eq_one hproduct, hl'⟩

theorem exists_inverse_eq_ok (hk : Obtainable k) (hne : k ≠ zero) : ∃ l, k.inverse = .ok l := by
  rw [Ne, hk.represents.eq_zero_iff] at hne
  exact ⟨_, hk.represents.inverse_eq_ok_iff.mpr ⟨hne, represents_inverseTotal k⟩⟩

/-- **Inverting twice gives the operand back.** -/
theorem inverse_inverse (hk : Obtainable k) (h : k.inverse = .ok l) : l.inverse = .ok k := by
  obtain ⟨hne, hl⟩ := hk.represents.inverse_eq_ok_iff.mp h
  rw [hl.inverse_eq_ok_iff, inv_inv]
  exact ⟨inv_ne_zero hne, hk.represents⟩

/-- **The inverse of a product is the product of the inverses**, and is missing if one of them is. -/
theorem inverse_mul (hk : Obtainable k) (hl : Obtainable l) :
    (k * l).inverse = do return (← k.inverse) * (← l.inverse) := by
  have hproduct := hk.represents.mul hl.represents
  rcases eq_or_ne k zero with rfl | hk0
  · have hzero : zero * l = zero := by
      rw [hproduct.eq_zero_iff, represents_zero.cast, zero_mul]
    rw [hzero, inverse_zero]
    rfl
  obtain ⟨k', hk'⟩ := exists_inverse_eq_ok hk hk0
  rcases eq_or_ne l zero with rfl | hl0
  · have hzero : k * zero = zero := by
      rw [hproduct.eq_zero_iff, represents_zero.cast, mul_zero]
    rw [hzero, inverse_zero, hk']
    rfl
  obtain ⟨l', hl'⟩ := exists_inverse_eq_ok hl hl0
  obtain ⟨hk0, hk₁⟩ := hk.represents.inverse_eq_ok_iff.mp hk'
  obtain ⟨hl0, hl₁⟩ := hl.represents.inverse_eq_ok_iff.mp hl'
  have hinverse : (k * l).inverse = .ok (k' * l') := by
    rw [hproduct.inverse_eq_ok_iff, mul_inv]
    exact ⟨mul_ne_zero hk0 hl0, hk₁.mul hl₁⟩
  rw [hinverse, hk', hl']
  rfl

/-- **Inversion modulo the group order is exact for every scalar within reach.**

* It fails exactly at zero, with one error.
* Any other scalar has an inverse: the one reduced scalar whose product with it is one.
* Inverting twice gives the operand back.
* The inverse of a product is the product of the inverses; it is missing if one of them is. -/
theorem inverse_exact :
    (∀ k : Scalar, Obtainable k →
      (∀ e, k.inverse = .error e ↔
        k = zero ∧ e = .invalidOperand "Scalar::inv_mod_n" "zero has no inverse") ∧
      (∀ l, k.inverse = .ok l ↔ l.value < groupOrder ∧ k * l = one) ∧
      (k ≠ zero → ∃ l, k.inverse = .ok l ∧ l ≠ zero ∧ l.inverse = .ok k)) ∧
    ∀ k l : Scalar, Obtainable k → Obtainable l →
      (k * l).inverse = do return (← k.inverse) * (← l.inverse) := by
  refine ⟨fun k hk => ⟨fun e => inverse_eq_error_iff, fun l => ?_, fun hne => ?_⟩,
    fun k l hk hl => inverse_mul hk hl⟩
  · rw [inverse_eq_ok_iff hk, obtainable_iff_lt]
  · obtain ⟨l, hl⟩ := exists_inverse_eq_ok hk hne
    have hback := inverse_inverse hk hl
    refine ⟨l, hl, ?_, hback⟩
    rintro rfl
    rw [inverse_zero] at hback
    cases hback

/-- The inverse of two. -/
def half : Scalar :=
  reduce (.ofNat 32 0x7fffffff800000007fffffffffffffffde737d56d38bcf4279dce5617e3192a9)

/-- Two and its inverse, and a product with the greatest scalar, which is its own inverse. -/
theorem inverse_exact_two :
    (one + one).inverse = .ok half ∧
    half.inverse = .ok (one + one) ∧
    ((one + one) * one.negate).inverse = .ok (half * one.negate) ∧
    zero.inverse = .error (.invalidOperand "Scalar::inv_mod_n" "zero has no inverse") := by
  have htwo : Obtainable (one + one) := .add .one .one
  have hgreatest : Obtainable one.negate := .negate .one
  obtain ⟨-, hresult, hback⟩ := inverse_exact.1 _ htwo
  have hhalf : (one + one).inverse = .ok half :=
    (hresult half).mpr ⟨by decide +kernel, by decide +kernel⟩
  have hself : one.negate.inverse = .ok one.negate :=
    ((inverse_exact.1 _ hgreatest).2.1 _).mpr ⟨by decide +kernel, by decide +kernel⟩
  refine ⟨hhalf, ?_, ?_, ((inverse_exact.1 _ .zero).1 _).mpr ⟨rfl, rfl⟩⟩
  · obtain ⟨l, hl, -, hl'⟩ := hback (by decide +kernel)
    rw [hhalf] at hl
    cases hl
    exact hl'
  · rw [inverse_exact.2 _ _ htwo hgreatest, hhalf, hself]
    rfl

end Scalar

end Secp256r1
