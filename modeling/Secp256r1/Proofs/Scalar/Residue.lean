import Secp256r1.Proofs.Comparison
import Secp256r1.Proofs.Scalar.Montgomery
import Secp256r1.Scalar

/-!
# Scalars compute modulo the group order

A scalar represents a residue modulo the group order if its octets hold the representative in
`[0, n)`.  Arithmetic keeps representatives; reduction, products with one reduced operand and
inversion also take integers that are not reduced.

* `Scalar.Represents` — with `Represents.ext`, a one-to-one match with the residues.
* `represents_reduce` — any 32 octets modulo `n`.
* `Represents.add`, `Represents.sub`, `represents_mul`, `represents_inverseTotal` — arithmetic.
* `ofCanonical_eq`, `ofCanonical_eq_ok_iff` — the octets accepted are exactly those of an integer in `[1, n-1]`.
-/

set_option autoImplicit false

namespace Secp256r1

namespace Scalar

/-- The octets hold the representative of the residue in `[0, n)`. -/
def Represents (k : Scalar) (x : ZMod groupOrder) : Prop := k.value = x.val

variable {k l : Scalar} {x y : ZMod groupOrder}

theorem represents_iff : k.Represents x ↔ k.value < groupOrder ∧ (k.value : ZMod groupOrder) = x := by
  constructor
  · intro h
    rw [h]
    exact ⟨x.val_lt, ZMod.natCast_zmod_val x⟩
  · rintro ⟨h, rfl⟩
    exact (ZMod.val_cast_of_lt h).symm

theorem represents_of_lt (h : k.value < groupOrder) : k.Represents k.value :=
  represents_iff.mpr ⟨h, rfl⟩

theorem Represents.lt (h : k.Represents x) : k.value < groupOrder := (represents_iff.mp h).1

theorem Represents.cast (h : k.Represents x) : (k.value : ZMod groupOrder) = x :=
  (represents_iff.mp h).2

/-- **A residue has one representative.** -/
theorem Represents.ext (hk : k.Represents x) (hl : l.Represents x) : k = l :=
  Scalar.ext (SecretBuffer.ext (Octets.value_injective (hk.trans hl.symm)))

theorem Represents.inj (hk : k.Represents x) (hl : l.Represents y) : k = l ↔ x = y :=
  ⟨fun h => hk.cast.symm.trans (h ▸ hl.cast), fun h => hk.ext (h ▸ hl)⟩

theorem represents_of_value {v : ℕ} (h : k.value = v % groupOrder) : k.Represents v :=
  h.trans (ZMod.val_natCast _ v).symm

theorem value_limbs (k : Scalar) : k.limbs.value = k.value := Words.value_ofOctets _

theorem value_ofLimbs (w : Words 8) : (ofLimbs w).value = w.value := Words.value_toOctets w

theorem represents_zero : zero.Represents 0 := by
  rw [Represents, ZMod.val_zero]
  decide

theorem represents_one : one.Represents 1 := by
  rw [Represents, ZMod.val_one]
  decide

/-! ## Arithmetic -/

/-- **Any 32 octets are reduced by one subtraction.** -/
theorem represents_reduce (o : Octets 32) : (reduce o).Represents o.value := by
  have hlt : (Words.ofOctets o).value < 2 * Montgomery.order.value :=
    (Words.ofOctets o).value_lt.trans (by decide +kernel)
  have hvalue : (reduce o).value = o.value % groupOrder := by
    rw [← Montgomery.value_order, ← Words.value_ofOctets, ← Words.value_lowered_zero _ _ hlt]
    exact value_ofLimbs _
  exact represents_of_value hvalue

theorem Represents.add (hk : k.Represents x) (hl : l.Represents y) : (k + l).Represents (x + y) := by
  have hsum : (k + l).value = (k.value + l.value) % groupOrder := by
    rw [← Montgomery.value_order, ← value_limbs k, ← value_limbs l,
      ← Words.value_addMod _ _ Montgomery.order]
    · exact value_ofLimbs _
    · rw [value_limbs, Montgomery.value_order]; exact hk.lt
    · rw [value_limbs, Montgomery.value_order]; exact hl.lt
  have h := represents_of_value hsum
  rwa [Nat.cast_add, hk.cast, hl.cast] at h

theorem Represents.sub (hk : k.Represents x) (hl : l.Represents y) : (k - l).Represents (x - y) := by
  have hdiff : (k - l).value = (k.value + (groupOrder - l.value)) % groupOrder := by
    rw [← Montgomery.value_order, ← value_limbs k, ← value_limbs l,
      ← Words.value_subMod _ _ Montgomery.order]
    · exact value_ofLimbs _
    · rw [value_limbs, Montgomery.value_order]; exact hk.lt
    · rw [value_limbs, Montgomery.value_order]; exact hl.lt
  have h := represents_of_value hdiff
  rwa [Nat.cast_add, Nat.cast_sub hl.lt.le, hk.cast, hl.cast, ZMod.natCast_self, zero_sub,
    ← sub_eq_add_neg] at h

theorem Represents.negate (hk : k.Represents x) : k.negate.Represents (-x) := by
  rw [← zero_sub]
  exact represents_zero.sub hk

/-- **The product takes one operand that is not reduced.** -/
theorem represents_mul (h : k.value < groupOrder ∨ l.value < groupOrder) :
    (k * l).Represents (k.value * l.value) := by
  rw [← value_limbs, ← value_limbs] at h ⊢
  obtain ⟨hlt, hprod⟩ := Montgomery.product_spec (Montgomery.mul_lt_of_lt h)
  obtain ⟨hlt', hdomain⟩ :=
    Montgomery.inDomain_product_radixSquared (Montgomery.product k.limbs l.limbs)
  have hvalue : (k * l).value = (Montgomery.product (Montgomery.product k.limbs l.limbs)
    Montgomery.radixSquared).value := value_ofLimbs _
  rw [represents_iff, hvalue, hdomain, hprod]
  exact ⟨hlt', rfl⟩

theorem Represents.mul (hk : k.Represents x) (hl : l.Represents y) : (k * l).Represents (x * y) := by
  have h := represents_mul (.inl hk.lt : k.value < groupOrder ∨ l.value < groupOrder)
  rwa [hk.cast, hl.cast] at h

/-- **Inversion by a power** takes any integer of 32 octets and keeps multiples of `n` at zero. -/
theorem represents_inverseTotal (k : Scalar) :
    k.inverseTotal.Represents (k.value : ZMod groupOrder)⁻¹ := by
  have hexp : inversionExponent.value = groupOrder - 2 := by decide +kernel
  have hpow := (Montgomery.inDomain_product_radixSquared k.limbs).power inversionExponent
  rw [hexp, pow_sub_two_eq_inv (by decide +kernel), value_limbs] at hpow
  exact (value_ofLimbs _).trans (hpow.value_product_one (by decide))

/-! ## Zero -/

theorem isZero_iff (k : Scalar) : k.isZero = true ↔ k.value = 0 := ConstantTime.isZero_iff _

theorem isZero_eq_false_iff (k : Scalar) : k.isZero = false ↔ k.value ≠ 0 := by
  rw [Ne, ← isZero_iff, Bool.not_eq_true]

theorem Represents.isZero_iff (hk : k.Represents x) : k.isZero = true ↔ x = 0 := by
  rw [Scalar.isZero_iff, ← ZMod.val_eq_zero, ← hk]

theorem value_eq_zero_iff : k.value = 0 ↔ k = zero := by
  constructor
  · intro h
    have hk : k.Represents 0 := by rw [Represents, h, ZMod.val_zero]
    exact hk.ext represents_zero
  · rintro rfl
    rfl

/-- Only zero has no inverse. -/
theorem inverse_eq (k : Scalar) : k.inverse =
    if k.value = 0 then .error (.invalidOperand "Scalar::inv_mod_n" "zero has no inverse")
    else .ok k.inverseTotal := by
  simp only [inverse, isZero_iff]

/-! ## Octets -/

/-- **Exactly the octets of an integer in `[1, n-1]` are accepted.** -/
theorem ofCanonical_eq (o : Octets 32) : ofCanonical o =
    if 0 < o.value ∧ o.value < groupOrder then .ok ⟨⟨o⟩⟩ else .error (.scalarRange "P-256 Scalar") := by
  have hzero : ConstantTime.isZero o.toList = decide (o.value = 0) := by
    rw [Bool.eq_iff_iff, ConstantTime.isZero_iff, decide_eq_true_iff]
    rfl
  have hless : ConstantTime.lessThan o Curve.secp256r1.n = decide (o.value < groupOrder) := by
    rw [Bool.eq_iff_iff, ConstantTime.lessThan_iff, decide_eq_true_iff]
    rfl
  unfold ofCanonical
  rw [hzero, hless]
  by_cases h : 0 < o.value ∧ o.value < groupOrder
  · have hne : o.value ≠ 0 := h.1.ne'
    rw [if_pos h]
    simp [checkScalarRange, h.2, hne]
  · rw [if_neg h]
    have hcond : (decide (o.value < groupOrder) && !decide (o.value = 0)) = false := by
      rw [Bool.eq_false_iff]
      intro hc
      simp only [Bool.and_eq_true, decide_eq_true_eq, Bool.not_eq_true', decide_eq_false_iff_not]
        at hc
      exact h ⟨Nat.pos_of_ne_zero hc.2, hc.1⟩
    rw [hcond]
    rfl

/-- **What is accepted lies in `[1, n-1]` and writes back.** -/
theorem ofCanonical_eq_ok_iff {o : Octets 32} :
    ofCanonical o = .ok k ↔ k.toOctets = o ∧ 0 < k.value ∧ k.value < groupOrder := by
  rw [ofCanonical_eq]
  constructor
  · intro h
    split at h
    · rename_i hrange
      cases h
      exact ⟨rfl, hrange⟩
    · cases h
  · rintro ⟨rfl, hrange⟩
    exact if_pos hrange

end Scalar

end Secp256r1
