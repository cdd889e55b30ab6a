import Mathlib.FieldTheory.Finite.Basic
import Secp256r1.Field
import Secp256r1.Proofs.Comparison
import Secp256r1.Proofs.Field.Reduction
import Secp256r1.Proofs.Primality

/-!
# Field elements compute in the field of residues

A field element represents a residue modulo the field prime if its words hold the
representative in `[0, p)`.  Every operation follows the operation of the field.

* `FieldElement.Represents` — with `Represents.unique` and `Represents.ext`, a one-to-one match
  between reduced elements and residues.
* `Represents.add`, `Represents.sub`, `Represents.mul`, … — one lemma per operation.
* `Represents.invertTotal` — the power `p − 2` is the inverse, and zero at zero.
* `ofOctets_eq`, `ofOctets_eq_ok_iff` — the octets accepted are exactly those below `p`.
-/

set_option autoImplicit false

namespace Secp256r1

theorem value_modulus_eq : Reduction.modulus.value = fieldPrime := by decide +kernel

namespace FieldElement

/-- The words hold the representative of the residue in `[0, p)`. -/
def Represents (a : FieldElement) (x : ZMod fieldPrime) : Prop := a.value = x.val

variable {a b : FieldElement} {x y : ZMod fieldPrime}

theorem represents_iff : a.Represents x ↔ a.value < fieldPrime ∧ (a.value : ZMod fieldPrime) = x := by
  constructor
  · intro h
    rw [h]
    exact ⟨x.val_lt, ZMod.natCast_zmod_val x⟩
  · rintro ⟨h, rfl⟩
    exact (ZMod.val_cast_of_lt h).symm

theorem represents_of_lt (h : a.value < fieldPrime) : a.Represents a.value :=
  represents_iff.mpr ⟨h, rfl⟩

theorem Represents.lt (h : a.Represents x) : a.value < fieldPrime := (represents_iff.mp h).1

theorem Represents.cast (h : a.Represents x) : (a.value : ZMod fieldPrime) = x :=
  (represents_iff.mp h).2

theorem Represents.unique (hx : a.Represents x) (hy : a.Represents y) : x = y :=
  hx.cast.symm.trans hy.cast

/-- **A residue has one representative.** -/
theorem Represents.ext (ha : a.Represents x) (hb : b.Represents x) : a = b :=
  FieldElement.ext (Words.value_injective (ha.trans hb.symm))

theorem Represents.inj (ha : a.Represents x) (hb : b.Represents y) : a = b ↔ x = y :=
  ⟨fun h => ha.unique (h ▸ hb), fun h => ha.ext (h ▸ hb)⟩

theorem represents_of_value {v : ℕ} (h : a.value = v % fieldPrime) : a.Represents v :=
  h.trans (ZMod.val_natCast _ v).symm

/-! ## Constants -/

theorem value_ofConstant (o : Octets 32) : (ofConstant o).value = o.value :=
  (Words.value_ofNat o.value).trans (Nat.mod_eq_of_lt o.value_lt)

theorem represents_ofConstant {o : Octets 32} (h : o.value < fieldPrime) :
    (ofConstant o).Represents o.value := by
  have h' := value_ofConstant o
  rw [← h'] at h ⊢
  exact represents_of_lt h

theorem represents_zero : zero.Represents 0 := by
  rw [Represents, ZMod.val_zero]
  rfl

theorem represents_one : one.Represents 1 := by
  rw [Represents, ZMod.val_one]
  rfl

/-! ## Arithmetic -/

theorem Represents.add (ha : a.Represents x) (hb : b.Represents y) : (a + b).Represents (x + y) := by
  have hsum : (a + b).value = (a.value + b.value) % fieldPrime := by
    rw [← value_modulus_eq]
    exact Words.value_addMod a.limbs b.limbs Reduction.modulus (value_modulus_eq ▸ ha.lt)
      (value_modulus_eq ▸ hb.lt)
  have h := represents_of_value hsum
  rwa [Nat.cast_add, ha.cast, hb.cast] at h

theorem Represents.sub (ha : a.Represents x) (hb : b.Represents y) : (a - b).Represents (x - y) := by
  have hdiff : (a - b).value = (a.value + (fieldPrime - b.value)) % fieldPrime := by
    rw [← value_modulus_eq]
    exact Words.value_subMod a.limbs b.limbs Reduction.modulus (value_modulus_eq ▸ ha.lt)
      (value_modulus_eq ▸ hb.lt)
  have h := represents_of_value hdiff
  rwa [Nat.cast_add, Nat.cast_sub hb.lt.le, ha.cast, hb.cast, ZMod.natCast_self, zero_sub,
    ← sub_eq_add_neg] at h

/-- **The product needs no reduced operands.** -/
theorem value_mul (a b : FieldElement) : (a * b).value = a.value * b.value % fieldPrime := by
  rw [← value_modulus_eq]
  exact (Reduction.value_reduce _).trans (by rw [Reduction.value_product]; rfl)

theorem represents_mul (a b : FieldElement) : (a * b).Represents (a.value * b.value) := by
  have h := represents_of_value (value_mul a b)
  rwa [Nat.cast_mul] at h

theorem Represents.mul (ha : a.Represents x) (hb : b.Represents y) : (a * b).Represents (x * y) := by
  have h := represents_mul a b
  rwa [ha.cast, hb.cast] at h

theorem Represents.double (ha : a.Represents x) : a.double.Represents (2 * x) := by
  rw [two_mul]
  exact ha.add ha

theorem Represents.triple (ha : a.Represents x) : a.triple.Represents (3 * x) := by
  rw [show 3 * x = 2 * x + x by ring]
  exact ha.double.add ha

theorem Represents.negate (ha : a.Represents x) : a.negate.Represents (-x) := by
  rw [← zero_sub]
  exact represents_zero.sub ha

theorem Represents.square (ha : a.Represents x) : a.square.Represents (x ^ 2) := by
  rw [pow_two]
  exact ha.mul ha

/-- Binary digits raise to the power that they stand for. -/
theorem Represents.power {n : ℕ} (ha : a.Represents x) (o : Octets n) :
    (a.power o.bits).Represents (x ^ o.value) := by
  have hstep : ∀ bit ∈ o.bits, ∀ (r : FieldElement) (k : ℕ), r.Represents (x ^ k) →
      (if bit then r.square * a else r.square).Represents (x ^ (2 * k + bit.toNat)) := by
    intro bit _ r k hr
    rw [pow_add, pow_mul']
    cases bit with
    | false => simpa using hr.square
    | true => simpa using hr.square.mul ha
  have hone : one.Represents (x ^ 0) := by
    rw [pow_zero]
    exact represents_one
  rw [← o.value_bits]
  exact foldl_digits o.bits hstep hone

/-- **Inversion by a power**: the exponent `p − 2` inverts, and zero goes to zero. -/
theorem Represents.invertTotal (ha : a.Represents x) : a.invertTotal.Represents x⁻¹ := by
  have hexp : inversionExponent.value = fieldPrime - 2 := by decide +kernel
  have hpow := ha.power inversionExponent
  rwa [hexp, pow_sub_two_eq_inv (by decide +kernel)] at hpow

/-! ## Comparison and choice -/

theorem Represents.isZero_iff (ha : a.Represents x) : a.isZero = true ↔ x = 0 := by
  unfold isZero
  rw [Words.isZero_iff, ← ZMod.val_eq_zero, ← ha]
  rfl

theorem equal_iff (a b : FieldElement) : a.equal b = true ↔ a = b := by
  unfold equal
  rw [Words.equal_iff, FieldElement.ext_iff]

theorem Represents.equal_iff (ha : a.Represents x) (hb : b.Represents y) :
    a.equal b = true ↔ x = y := by
  rw [FieldElement.equal_iff, ha.inj hb]

@[simp] theorem select_false (a b : FieldElement) : a.select b false = a :=
  FieldElement.ext (Words.select_zero _ _)

@[simp] theorem select_true (a b : FieldElement) : a.select b true = b :=
  FieldElement.ext (Words.select_one _ _)

/-! ## Octets -/

/-- **Exactly the octets below `p` are accepted.** -/
theorem ofOctets_eq (o : Octets 32) : ofOctets o =
    if o.value < fieldPrime then .ok ⟨.ofOctets o⟩
    else .error (.parameter "FieldElement P-256" "Value ≥ modulus") := by
  have hb := Words.borrow_sub (Words.ofOctets o) Reduction.modulus
  rw [Words.value_ofOctets, value_modulus_eq] at hb
  simp only [ofOctets, hb]
  split <;> rfl

theorem value_toOctets (a : FieldElement) : a.toOctets.value = a.value := Words.value_toOctets a.limbs

/-- **Elements are told apart by what they write.** -/
theorem toOctets_inj {a b : FieldElement} : a.toOctets = b.toOctets ↔ a = b := by
  rw [← Octets.value_inj, value_toOctets, value_toOctets]
  exact ⟨fun h => FieldElement.ext (Words.value_injective h), fun h => h ▸ rfl⟩

/-- **What is read is reduced and writes back.** -/
theorem ofOctets_eq_ok_iff {o : Octets 32} :
    ofOctets o = .ok a ↔ a.value < fieldPrime ∧ a.toOctets = o := by
  rw [ofOctets_eq]
  constructor
  · intro h
    split at h
    · rename_i hlt
      cases h
      exact ⟨(Words.value_ofOctets o).trans_lt hlt, Words.toOctets_ofOctets o⟩
    · cases h
  · rintro ⟨hlt, rfl⟩
    rw [value_toOctets, if_pos hlt, toOctets, Words.ofOctets_toOctets]

end FieldElement

end Secp256r1
