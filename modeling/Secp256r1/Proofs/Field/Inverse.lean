import Secp256r1.Proofs.Field.Obtainable

/-!
# Inverses modulo the field prime

The power `p − 2` is the inverse in the field of residues.  The total inversion keeps zero at zero;
the other one refuses it.

* `invert_eq_error_iff` — the only failure.
* `Represents.invert_eq_ok_iff` — the result as a residue.
* `invert_eq_ok_iff` — **the result is the one element within reach whose product with the operand
  is one.**
-/

set_option autoImplicit false

namespace Secp256r1

namespace FieldElement

variable {a b : FieldElement} {x : ZMod fieldPrime}

theorem Represents.eq_zero_iff (ha : a.Represents x) : a = zero ↔ x = 0 := ha.inj represents_zero

theorem isZero_iff_eq_zero : a.isZero = true ↔ a = zero := by
  have hzero : zero.value = 0 := rfl
  unfold isZero
  rw [Words.isZero_iff]
  constructor
  · intro h
    exact FieldElement.ext (Words.value_injective (h.trans hzero.symm))
  · rintro rfl
    exact hzero

/-- **Only zero has no inverse.** -/
theorem invert_eq_error_iff {e : ArithmeticError} : a.invert = .error e ↔
    a = zero ∧ e = .invalidOperand "FieldElement::invert" "zero has no inverse" := by
  unfold invert
  rw [← isZero_iff_eq_zero]
  split
  · rename_i h
    simp only [Except.error.injEq, h, true_and]
    exact eq_comm
  · rename_i h
    exact iff_of_false (by simp) fun he => h he.1

/-- The result stands for the inverse of the residue. -/
theorem Represents.invert_eq_ok_iff (ha : a.Represents x) :
    a.invert = .ok b ↔ x ≠ 0 ∧ b.Represents x⁻¹ := by
  unfold invert
  split
  · rename_i h
    exact iff_of_false (by simp) fun hb => hb.1 (ha.isZero_iff.mp h)
  · rename_i h
    rw [Except.ok.injEq]
    constructor
    · rintro rfl
      exact ⟨fun hx => h (ha.isZero_iff.mpr hx), ha.invertTotal⟩
    · rintro ⟨-, hb⟩
      exact ha.invertTotal.ext hb

/-- **What is returned is the one element within reach whose product with the operand is one.** -/
theorem invert_eq_ok_iff (ha : Obtainable a) : a.invert = .ok b ↔ Obtainable b ∧ a * b = one := by
  have ha' := ha.represents
  rw [ha'.invert_eq_ok_iff]
  constructor
  · rintro ⟨hne, hb⟩
    have hproduct := ha'.mul hb
    rw [mul_inv_cancel₀ hne] at hproduct
    exact ⟨obtainable_iff_lt.mpr hb.lt, hproduct.ext represents_one⟩
  · rintro ⟨hb, hone⟩
    have hb' := hb.represents
    have hproduct : (a.value : ZMod fieldPrime) * b.value = 1 :=
      ((ha'.mul hb').inj represents_one).mp hone
    rw [inv_eq_of_mul_eq_one_right hproduct]
    exact ⟨left_ne_zero_of_mul_eq_one hproduct, hb'⟩

/-- The total inversion answers wherever the other one does. -/
theorem Represents.invert_eq_ok (ha : a.Represents x) (hx : x ≠ 0) :
    a.invert = .ok a.invertTotal := ha.invert_eq_ok_iff.mpr ⟨hx, ha.invertTotal⟩

end FieldElement

end Secp256r1
