import Secp256r1.Proofs.Field.Inverse
import Secp256r1.Proofs.Point.Addition

/-!
# The affine form of a triple

A triple of reduced coordinates has an affine form, be it on the curve or not: the quotients by `Z`,
or the identity where `Z` is zero and no quotient exists.  The form forgets the scaling and nothing
else.

* `ProjectivePoint.Reduced`, `ProjectivePoint.scale` — reduced coordinates, and all of them
  multiplied by one element.
* `toAffine_scale` — **scaling does not change the affine form.**
* `exists_eq_scale` — finite triples of one affine form are scalings of each other.
* `affine_form_exact` — inversion in the field and the affine form of every reduced triple.
-/

set_option autoImplicit false

namespace Secp256r1

namespace ProjectivePoint

/-- All coordinates are reduced. -/
structure Reduced (t : ProjectivePoint) : Prop where
  x_lt : t.x.value < fieldPrime
  y_lt : t.y.value < fieldPrime
  z_lt : t.z.value < fieldPrime

/-- Every coordinate multiplied by one element. -/
def scale (c : FieldElement) (t : ProjectivePoint) : ProjectivePoint := ⟨c * t.x, c * t.y, c * t.z⟩

variable {t u : ProjectivePoint} {v w : Triple (ZMod fieldPrime)} {c : FieldElement}
  {r : ZMod fieldPrime}

theorem Reduced.rel (h : t.Reduced) : t.triple.Rel FieldElement.Represents t.residues :=
  rel_residues h.x_lt h.y_lt h.z_lt

theorem z_eq_zero_iff (h : t.triple.Rel FieldElement.Represents v) : t.z = .zero ↔ v.z = 0 := by
  have hz : t.z.Represents v.z := h.z
  exact hz.eq_zero_iff

/-- Triples are equal exactly if their residues are. -/
theorem eq_of_rel (ht : t.triple.Rel FieldElement.Represents v)
    (hu : u.triple.Rel FieldElement.Represents v) : t = u :=
  ProjectivePoint.ext (ht.x.ext hu.x) (ht.y.ext hu.y) (ht.z.ext hu.z)

theorem rel_scale (hc : c.Represents r) (h : t.triple.Rel FieldElement.Represents v) :
    (t.scale c).triple.Rel FieldElement.Represents (v.scale r) :=
  ⟨hc.mul h.x, hc.mul h.y, hc.mul h.z⟩

/-- Finite triples with the same quotients have the same affine form. -/
theorem toAffine_eq_of_div_eq (ht : t.triple.Rel FieldElement.Represents v)
    (hu : u.triple.Rel FieldElement.Represents w) (hv : v.z ≠ 0) (hw : w.z ≠ 0)
    (hx : v.x / v.z = w.x / w.z) (hy : v.y / v.z = w.y / w.z) : t.toAffine = u.toAffine := by
  obtain ⟨ht0, htx, hty⟩ := toAffine_finite ht hv
  obtain ⟨hu0, hux, huy⟩ := toAffine_finite hu hw
  rw [hx] at htx
  rw [hy] at hty
  exact Point.ext (ht0.trans hu0.symm) (htx.ext hux) (hty.ext huy)

/-- **Scaling does not change the affine form.** -/
theorem toAffine_scale (hc : c.Represents r) (hr : r ≠ 0)
    (h : t.triple.Rel FieldElement.Represents v) : (t.scale c).toAffine = t.toAffine := by
  have hscaled := rel_scale hc h
  by_cases hz : v.z = 0
  · have hzero : (v.scale r).z = 0 := by simp [Triple.scale, hz]
    rw [toAffine_eq_identity hscaled hzero, toAffine_eq_identity h hz]
  · have hne : (v.scale r).z ≠ 0 := mul_ne_zero hr hz
    apply toAffine_eq_of_div_eq hscaled h hne hz
    · exact mul_div_mul_left _ _ hr
    · exact mul_div_mul_left _ _ hr

/-- **Finite triples of one affine form are scalings of each other**, by the quotient of their last
coordinates. -/
theorem exists_eq_scale (ht : t.Reduced) (hu : u.Reduced) (hz : t.z ≠ .zero)
    (h : u.toAffine = t.toAffine) :
    ∃ c : FieldElement, c.Obtainable ∧ c ≠ .zero ∧ u = t.scale c := by
  have htz : t.residues.z ≠ 0 := fun hzero => hz ((z_eq_zero_iff ht.rel).mpr hzero)
  obtain ⟨ht0, htx, hty⟩ := toAffine_finite ht.rel htz
  have huz : u.residues.z ≠ 0 := by
    intro hzero
    rw [← h, toAffine_eq_identity hu.rel hzero] at ht0
    cases ht0
  obtain ⟨-, hux, huy⟩ := toAffine_finite hu.rel huz
  rw [h] at hux huy
  have hx : u.residues.x / u.residues.z = t.residues.x / t.residues.z := hux.unique htx
  have hy : u.residues.y / u.residues.z = t.residues.y / t.residues.z := huy.unique hty
  have hc : (u.z * t.z.invertTotal).Represents (u.residues.z / t.residues.z) := by
    rw [div_eq_mul_inv]
    exact hu.rel.z.mul ht.rel.z.invertTotal
  have hscaled : t.residues.scale (u.residues.z / t.residues.z) = u.residues := by
    rw [div_eq_div_iff huz htz] at hx hy
    apply Triple.ext
    · show u.residues.z / t.residues.z * t.residues.x = u.residues.x
      rw [div_mul_eq_mul_div, div_eq_iff htz, hx, mul_comm]
    · show u.residues.z / t.residues.z * t.residues.y = u.residues.y
      rw [div_mul_eq_mul_div, div_eq_iff htz, hy, mul_comm]
    · exact div_mul_cancel₀ _ htz
  have hrel := rel_scale hc ht.rel
  rw [hscaled] at hrel
  refine ⟨_, FieldElement.obtainable_iff_lt.mpr hc.lt, ?_, eq_of_rel hu.rel hrel⟩
  rw [Ne, hc.eq_zero_iff]
  exact div_ne_zero huz htz

/-- **Inversion in the field is exact, and so is the affine form of every reduced triple.**

* Inversion fails exactly at zero, with one error; any other element has an inverse, the one reduced
  element whose product with it is one.
* A triple with `Z = 0` becomes the identity with zero coordinates, any other the reduced quotients
  `X/Z` and `Y/Z`.
* Scaling by an element other than zero does not change the affine form, and finite triples of one
  affine form are such scalings of each other. -/
theorem affine_form_exact :
    (∀ a : FieldElement, a.Obtainable →
      (∀ e, a.invert = .error e ↔
        a = .zero ∧ e = .invalidOperand "FieldElement::invert" "zero has no inverse") ∧
      (∀ b, a.invert = .ok b ↔ b.value < fieldPrime ∧ a * b = .one) ∧
      (a ≠ .zero → ∃ b, a.invert = .ok b)) ∧
    ∀ t : ProjectivePoint, t.Reduced →
      (t.z = .zero → t.toAffine = ⟨true, .zero, .zero⟩) ∧
      (t.z ≠ .zero →
        t.toAffine.isIdentity = false ∧
        t.toAffine.x.Represents (t.x.value / t.z.value) ∧
        t.toAffine.y.Represents (t.y.value / t.z.value)) ∧
      (∀ c : FieldElement, c.Obtainable → c ≠ .zero → (t.scale c).toAffine = t.toAffine) ∧
      ∀ u : ProjectivePoint, u.Reduced → t.z ≠ .zero → u.toAffine = t.toAffine →
        ∃ c : FieldElement, c.Obtainable ∧ c ≠ .zero ∧ u = t.scale c := by
  constructor
  · intro a ha
    refine ⟨fun e => FieldElement.invert_eq_error_iff, fun b => ?_, fun hne => ?_⟩
    · rw [FieldElement.invert_eq_ok_iff ha, FieldElement.obtainable_iff_lt]
    · rw [Ne, ha.represents.eq_zero_iff] at hne
      exact ⟨_, ha.represents.invert_eq_ok hne⟩
  · intro t ht
    refine ⟨fun hz => ?_, fun hz => ?_, fun c hc hne => ?_, fun u hu hz h => ?_⟩
    · exact toAffine_eq_identity ht.rel ((z_eq_zero_iff ht.rel).mp hz)
    · exact toAffine_finite ht.rel fun hzero => hz ((z_eq_zero_iff ht.rel).mpr hzero)
    · rw [Ne, hc.represents.eq_zero_iff] at hne
      exact toAffine_scale hc.represents hne ht.rel
    · exact exists_eq_scale ht hu hz h

/-- The inverse of two and that of zero; triples off the curve, with `Z = 0` and with the scaling by
two. -/
theorem affine_form_exact_off_curve :
    (FieldElement.ofUInt32 2).invert = .ok (.ofConstant
      (.ofNat 32 0x7fffffff80000000800000000000000000000000800000000000000000000000)) ∧
    FieldElement.zero.invert =
      .error (.invalidOperand "FieldElement::invert" "zero has no inverse") ∧
    toAffine ⟨.ofUInt32 3, .ofUInt32 5, .zero⟩ = ⟨true, .zero, .zero⟩ ∧
    toAffine ⟨.ofUInt32 6, .ofUInt32 10, .ofUInt32 2⟩ = ⟨false, .ofUInt32 3, .ofUInt32 5⟩ ∧
    ∃ c : FieldElement, c.Obtainable ∧ c ≠ .zero ∧
      ⟨.ofUInt32 6, .ofUInt32 10, .ofUInt32 2⟩ = scale c ⟨.ofUInt32 3, .ofUInt32 5, .one⟩ := by
  have hsmall (n : UInt32) := FieldElement.ofUInt32_lt n
  obtain ⟨-, hinverse, -⟩ := affine_form_exact.1 _ (.ofUInt32 2)
  obtain ⟨hrefused, -, -⟩ := affine_form_exact.1 _ .zero
  obtain ⟨hidentity, -⟩ :=
    affine_form_exact.2 ⟨.ofUInt32 3, .ofUInt32 5, .zero⟩ ⟨hsmall 3, hsmall 5, hsmall 0⟩
  obtain ⟨-, hfinite, hscale, hback⟩ :=
    affine_form_exact.2 ⟨.ofUInt32 3, .ofUInt32 5, .one⟩ ⟨hsmall 3, hsmall 5, hsmall 1⟩
  have hone : (FieldElement.one.value : ZMod fieldPrime) = 1 := FieldElement.represents_one.cast
  have htwice : scale (.ofUInt32 2) ⟨.ofUInt32 3, .ofUInt32 5, .one⟩ =
      ⟨.ofUInt32 6, .ofUInt32 10, .ofUInt32 2⟩ := by decide +kernel
  have hsame := hscale (.ofUInt32 2) (.ofUInt32 2) (by decide +kernel)
  obtain ⟨h0, hx, hy⟩ := hfinite (by decide +kernel)
  rw [hone, div_one] at hx hy
  rw [htwice] at hsame
  refine ⟨(hinverse _).mpr ⟨by decide +kernel, by decide +kernel⟩, (hrefused _).mpr ⟨rfl, rfl⟩,
    hidentity rfl, ?_, hback _ ⟨hsmall 6, hsmall 10, hsmall 2⟩ (by decide +kernel) hsame⟩
  rw [hsame]
  exact Point.ext h0 (hx.ext (FieldElement.represents_of_lt (hsmall 3)))
    (hy.ext (FieldElement.represents_of_lt (hsmall 5)))

end ProjectivePoint

end Secp256r1
