import Secp256r1.Proofs.Point.Multiplication

/-!
# Points within reach

A caller gets points from the checked constructors and from the operations.  These are exactly the
valid points, so that every law of valid points holds for all that a caller can have.

* `Obtainable` — the points that a caller can have; `obtainable_iff_valid`.
* `group_law` — addition, doubling and the mirror point are the group law, without exception.
* `mulOctets_exact` — multiplication in windows is repeated addition, for every 256-bit integer.
* `subgroup_check_total` — the subgroup check accepts every point.
-/

set_option autoImplicit false

namespace Secp256r1

namespace Point

variable {p q : Point}

/-- The points that the checked constructors and the operations produce. -/
inductive Obtainable : Point → Prop
  | identity : Obtainable identity
  | generator : Obtainable generator
  | ofCoordinates {x y : Octets 32} {p : Point} : ofCoordinates x y = .ok p → Obtainable p
  | ofRaw {o : Octets 64} {p : Point} : ofRaw o = .ok p → Obtainable p
  | decode {bs : List UInt8} {p : Point} : decode bs = .ok p → Obtainable p
  | add {p q : Point} : Obtainable p → Obtainable q → Obtainable (p.add q)
  | double {p : Point} : Obtainable p → Obtainable p.double
  | negate {p : Point} : Obtainable p → Obtainable p.negate
  | mulOctets {p : Point} (k : Octets 32) : Obtainable p → Obtainable (p.mulOctets k)
  | mul {p : Point} (k : Scalar) : Obtainable p → Obtainable (mul k p)
  | mulBase (k : Scalar) : Obtainable (mulBase k)
  | mulAddBase {q : Point} (u₁ u₂ : Scalar) : Obtainable q → Obtainable (mulAddBase u₁ u₂ q)

/-- **Every step keeps points valid.** -/
theorem Obtainable.valid (h : Obtainable p) : p.Valid := by
  induction h with
  | identity => exact valid_identity
  | generator => exact represents_generator.1
  | ofCoordinates h => exact (ofCoordinates_eq_ok_iff.mp h).1
  | ofRaw h => exact (ofRaw_eq_ok_iff.mp h).1
  | decode h => exact (decode_eq_ok_iff.mp h).1
  | add _ _ hp hq => exact (hp.represents.add hq.represents).1
  | double _ hp => exact hp.represents.double.1
  | negate _ hp => exact hp.represents.negate.1
  | mulOctets k _ hp => exact (hp.represents.mulOctets k).1
  | mul k _ hp => exact (hp.represents.mul k).1
  | mulBase k => exact (represents_mulBase k).1
  | mulAddBase u₁ u₂ _ hq => exact (hq.represents.mulAddBase u₁ u₂).1

/-- **The points within reach are the valid ones**: the identity and every reduced pair of
coordinates on the curve. -/
theorem obtainable_iff_valid : Obtainable p ↔ p.Valid := by
  constructor
  · exact Obtainable.valid
  · intro h
    cases hp : p.isIdentity with
    | true =>
      rw [h.eq_identity hp]
      exact .identity
    | false =>
      apply Obtainable.ofCoordinates
      exact ofCoordinates_eq_ok_iff.mpr ⟨h, hp, rfl, rfl⟩

/-- **The group law has no exceptional case**: not for affine points, and not for triples on the
curve of any scaling. -/
theorem group_law :
    (∀ p q : Point, Obtainable p → Obtainable q →
      (p.add q).Represents (p.toGroup + q.toGroup) ∧
      p.negate.Represents (-p.toGroup) ∧
      p.double = p.add p ∧
      p.add p.negate = identity ∧
      p.add identity = p ∧
      identity.add p = p) ∧
    ∀ t u : ProjectivePoint, t.OnCurve → u.OnCurve →
      ∃ a b : CurveGroup, t.Represents a ∧ u.Represents b ∧
        (t.add u).Represents (a + b) ∧
        t.add u ≠ ⟨.zero, .zero, .zero⟩ ∧
        ((t.add u).z.isZero = true ↔ a + b = 0) := by
  constructor
  · intro p q hp hq
    have hp' := hp.valid.represents
    have hq' := hq.valid.represents
    refine ⟨hp'.add hq', hp'.negate, rfl, ?_, ?_, ?_⟩
    · have h := hp'.add hp'.negate
      rwa [add_neg_cancel, represents_zero_iff] at h
    · have h := hp'.add represents_identity
      rw [add_zero] at h
      exact h.ext hp'
    · have h := represents_identity.add hp'
      rw [zero_add] at h
      exact h.ext hp'
  · intro t u ht hu
    obtain ⟨a, ha⟩ := ProjectivePoint.exists_represents_iff.mpr ht
    obtain ⟨b, hb⟩ := ProjectivePoint.exists_represents_iff.mpr hu
    have hsum := ha.add hb
    exact ⟨a, b, ha, hb, hsum, (ProjectivePoint.exists_represents_iff.mp ⟨_, hsum⟩).ne_zero,
      hsum.isZero_z_iff⟩

theorem onCurve_scaled_identity : ProjectivePoint.OnCurve ⟨.zero, .ofUInt32 2, .zero⟩ where
  x_lt := by decide +kernel
  y_lt := by decide +kernel
  z_lt := by decide +kernel
  equation := by
    have hzero : (FieldElement.zero.value : ZMod fieldPrime) = 0 := FieldElement.represents_zero.cast
    simp [Triple.OnCurve, ProjectivePoint.residues, hzero]
  ne_zero := by decide +kernel

/-- The base point with its mirror point, and as a triple with `(0:2:0)`. -/
theorem group_law_generator :
    generator.add generator.negate = identity ∧
    ∃ a b : CurveGroup, generator.toProjective.Represents a ∧
      ProjectivePoint.Represents ⟨.zero, .ofUInt32 2, .zero⟩ b ∧
      (generator.toProjective.add ⟨.zero, .ofUInt32 2, .zero⟩).Represents (a + b) := by
  obtain ⟨a, b, ha, hb, hsum, -⟩ := group_law.2 generator.toProjective ⟨.zero, .ofUInt32 2, .zero⟩
    (ProjectivePoint.exists_represents_iff.mp ⟨_, represents_generator.toProjective⟩)
    onCurve_scaled_identity
  exact ⟨(group_law.1 generator generator .generator .generator).2.2.2.1, a, b, ha, hb, hsum⟩

/-- Adding a point again and again to the identity gives its multiples. -/
theorem Represents.iterate_add {a : CurveGroup} (hp : p.Represents a) (n : ℕ) :
    ((fun q : Point => q.add p)^[n] identity).Represents (n • a) := by
  induction n with
  | zero =>
    rw [zero_nsmul]
    exact represents_identity
  | succ n ih =>
    rw [Function.iterate_succ_apply', succ_nsmul]
    exact ih.add hp

/-- **Multiplication in windows is exact**: for every point and every 256-bit integer, reduced modulo
the group order or not, the result stands for that multiple in the group, and is the point that
one addition after another to the identity gives. -/
theorem mulOctets_exact (hp : Obtainable p) (k : Octets 32) :
    (p.mulOctets k).Represents (k.value • p.toGroup) ∧
    p.mulOctets k = (fun q : Point => q.add p)^[k.value] identity := by
  have hmul := hp.valid.represents.mulOctets k
  exact ⟨hmul, hmul.ext (hp.valid.represents.iterate_add k.value)⟩

/-- The base point by the largest integer, all of whose hexadecimal digits are fifteen. -/
theorem mulOctets_exact_generator :
    (Octets.replicate 32 0xFF).value = 2 ^ 256 - 1 ∧
    (generator.mulOctets (.replicate 32 0xFF)).Represents
      ((Octets.replicate 32 0xFF).value • generator.toGroup) ∧
    generator.mulOctets (.replicate 32 0xFF) =
      (fun q : Point => q.add generator)^[(Octets.replicate 32 0xFF).value] identity :=
  ⟨by decide +kernel, mulOctets_exact .generator _⟩

/-- **The subgroup check accepts every point**: the group order annihilates it, only the identity is
refused, and never for its order. -/
theorem subgroup_check_total (hp : Obtainable p) :
    p.mulOctets Curve.secp256r1.n = identity ∧
    p.isInPrimeSubgroup = true ∧
    (p.validate = .ok () ↔ p.isIdentity = false) ∧
    ∀ context : String, p.validate ≠ .error (.invalidSubgroup context) := by
  have hvalid := hp.valid
  refine ⟨hvalid.represents.mulOctets_order, hvalid.represents.isInPrimeSubgroup_eq, ?_, ?_⟩
  · rw [hvalid.validate_eq]
    cases p.isIdentity <;> simp
  · intro context
    rw [hvalid.validate_eq]
    cases p.isIdentity <;> simp

/-- The base point in particular. -/
theorem subgroup_check_generator :
    generator.mulOctets Curve.secp256r1.n = identity ∧
    generator.isInPrimeSubgroup = true ∧
    (generator.validate = .ok () ↔ generator.isIdentity = false) ∧
    ∀ context : String, generator.validate ≠ .error (.invalidSubgroup context) :=
  subgroup_check_total .generator

end Point

end Secp256r1
