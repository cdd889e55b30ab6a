import Secp256r1.Proofs.Point.Obtainable
import Secp256r1.Proofs.Scalar.Obtainable

/-!
# Scalars act on points

Scalars are computed by words modulo the group order, and points by triples modulo the field prime.
The two agree because the group order annihilates every point: a sum or a product of scalars that
wraps around gives the same multiple as one that does not.

* `ProjectivePoint.toAffine_add` — triples may be added before they are converted or after, whatever
  their scaling.
* `Represents.mul_residue`, `Represents.mulOctets_residue` — a multiple depends on the residue of its
  multiplier alone.
* `scalar_action` — **arithmetic of scalars is arithmetic of multiples**.
* `mulAddBase_exact` — **the sum of two multiples is the one that they have as points**.
-/

set_option autoImplicit false

namespace Secp256r1

/-- **Triples may be added before they are converted or after**, whatever their scaling: equal,
opposite or zero. -/
theorem ProjectivePoint.toAffine_add {t u : ProjectivePoint} (ht : t.OnCurve) (hu : u.OnCurve) :
    (t.add u).toAffine = t.toAffine.add u.toAffine := by
  obtain ⟨a, ha⟩ := exists_represents_iff.mpr ht
  obtain ⟨b, hb⟩ := exists_represents_iff.mpr hu
  have hbefore := (ha.add hb).toAffine
  have hafter := ha.toAffine.add hb.toAffine
  exact hbefore.ext hafter

namespace Point

variable {p q : Point} {a b : Scalar} {g : CurveGroup}

/-! ## Multiples by residues -/

/-- The multiple by a scalar depends on its residue alone. -/
theorem Represents.mul_residue (hp : p.Represents g) {k : Scalar} {x : ZMod groupOrder}
    (hk : k.Represents x) : (Point.mul k p).Represents (x • g) := by
  have h := hp.mul k
  rwa [← Nat.cast_smul_eq_nsmul (ZMod groupOrder), hk.cast] at h

/-- The multiple by any 32 octets depends on their residue alone. -/
theorem Represents.mulOctets_residue (hp : p.Represents g) (k : Octets 32) :
    (p.mulOctets k).Represents ((k.value : ZMod groupOrder) • g) := by
  have h := hp.mulOctets k
  rwa [← Nat.cast_smul_eq_nsmul (ZMod groupOrder)] at h

/-- Octets and the scalar that they are reduced to have the same multiples. -/
theorem Represents.mulOctets_eq_mul_reduce (hp : p.Represents g) (k : Octets 32) :
    p.mulOctets k = Point.mul (.reduce k) p := by
  have hscalar := hp.mul_residue (Scalar.represents_reduce k)
  exact (hp.mulOctets_residue k).ext hscalar

/-- **Arithmetic of scalars is arithmetic of multiples**, although the one is modulo the group order
and the other modulo the field prime: sums, differences, products and negatives of scalars give the
sums, the differences, the repeated multiples and the mirror points, also where they wrap around or
cancel; and 32 octets of any integer may be reduced first. -/
theorem scalar_action (ha : a.Obtainable) (hb : b.Obtainable) (hp : p.Obtainable) :
    mul (a + b) p = (mul a p).add (mul b p) ∧
    mul (a - b) p = (mul a p).add (mul b p).negate ∧
    mul (a * b) p = mul a (mul b p) ∧
    mul a.negate p = (mul a p).negate ∧
    mul .one p = p ∧
    ∀ k : Octets 32, p.mulOctets k = mul (.reduce k) p := by
  have hpoint := hp.valid.represents
  have hx := Scalar.represents_of_lt ha.lt
  have hy := Scalar.represents_of_lt hb.lt
  have hap := hpoint.mul_residue hx
  have hbp := hpoint.mul_residue hy
  refine ⟨?_, ?_, ?_, ?_, ?_, hpoint.mulOctets_eq_mul_reduce⟩
  · have hsum := hpoint.mul_residue (hx.add hy)
    rw [add_smul] at hsum
    exact hsum.ext (hap.add hbp)
  · have hdifference := hpoint.mul_residue (hx.sub hy)
    rw [sub_smul, sub_eq_add_neg] at hdifference
    exact hdifference.ext (hap.add hbp.negate)
  · have hproduct := hpoint.mul_residue (hx.mul hy)
    rw [mul_smul] at hproduct
    exact hproduct.ext (hbp.mul_residue hx)
  · have hnegative := hpoint.mul_residue hx.negate
    rw [neg_smul] at hnegative
    exact hnegative.ext hap.negate
  · have hone := hpoint.mul_residue Scalar.represents_one
    rw [one_smul] at hone
    exact hone.ext hpoint

/-- The scalars `n − 1` and 1 cancel, and the base point has the same multiples by `n` and by zero. -/
theorem scalar_action_cancelling :
    (⟨⟨.ofNat 32 (groupOrder - 1)⟩⟩ : Scalar) + .one = .zero ∧
    (mul ⟨⟨.ofNat 32 (groupOrder - 1)⟩⟩ generator).add generator = mul .zero generator ∧
    generator.mulOctets Curve.secp256r1.n = mul .zero generator := by
  have hcancel : (⟨⟨.ofNat 32 (groupOrder - 1)⟩⟩ : Scalar) + .one = .zero := by decide +kernel
  have hreduce : Scalar.reduce Curve.secp256r1.n = .zero := by decide +kernel
  have hgreatest : Scalar.Obtainable ⟨⟨.ofNat 32 (groupOrder - 1)⟩⟩ :=
    Scalar.obtainable_iff_lt.mpr (by decide +kernel)
  obtain ⟨hsum, -, -, -, hone, hoctets⟩ := scalar_action hgreatest .one Obtainable.generator
  rw [hcancel, hone] at hsum
  refine ⟨hcancel, hsum.symm, ?_⟩
  rw [hoctets, hreduce]

/-! ## The sum of two multiples -/

/-- **The sum of two multiples is the one that they have as points**: one conversion at the end, from
two triples of any scaling, does for three.  It is flagged as the identity exactly if the multiples
cancel in the group. -/
theorem mulAddBase_exact (u₁ u₂ : Scalar) (hq : q.Obtainable) :
    mulAddBase u₁ u₂ q = (mulBase u₁).add (mul u₂ q) ∧
    ((mulAddBase u₁ u₂ q).isIdentity = true ↔
      u₁.value • basePoint + u₂.value • q.toGroup = 0) := by
  have hpoint := hq.valid.represents
  have hbase := represents_generator.toProjective.mulOctets u₁.toOctets
  have hother := hpoint.toProjective.mulOctets u₂.toOctets
  constructor
  · exact ProjectivePoint.toAffine_add (ProjectivePoint.exists_represents_iff.mp ⟨_, hbase⟩)
      (ProjectivePoint.exists_represents_iff.mp ⟨_, hother⟩)
  · exact (hpoint.mulAddBase u₁ u₂).isIdentity_iff

/-- The base point and its mirror point cancel; so do two multiples by zero, of whatever point. -/
theorem mulAddBase_exact_cancelling :
    mulAddBase .one .one generator.negate = (mulBase .one).add (mul .one generator.negate) ∧
    (mulAddBase .one .one generator.negate).isIdentity = true ∧
    (mulAddBase .zero .zero identity).isIdentity = true := by
  obtain ⟨hsum, hcancel⟩ := mulAddBase_exact .one .one (.negate .generator)
  obtain ⟨-, hzero⟩ := mulAddBase_exact .zero .zero .identity
  refine ⟨hsum, hcancel.mpr ?_, hzero.mpr ?_⟩
  · have hone : Scalar.one.value = 1 := by decide
    rw [hone, one_nsmul, one_nsmul, represents_generator.negate.2, add_neg_cancel]
  · have hvalue : Scalar.zero.value = 0 := by decide
    rw [hvalue, zero_nsmul, zero_nsmul, add_zero]

end Point

end Secp256r1
