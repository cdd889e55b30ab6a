import Secp256r1.Point.Projective
import Secp256r1.Proofs.Point.Group

/-!
# Point addition is the group law

* `ProjectivePoint.Represents` — a triple of reduced elements standing for an element of the group.
* `ProjectivePoint.exists_represents_iff` — exactly the reduced triples on the curve other than
  `(0:0:0)` do, whatever their scaling.
* `ProjectivePoint.Represents.add` — the addition formula follows the group law.
* `ProjectivePoint.toAffine_eq_identity`, `ProjectivePoint.toAffine_finite` — the affine point of
  any reduced triple.
* `Represents.toProjective`, `Represents.toAffine` — the conversions keep the element.
* `Point.Represents.add`, `Point.Represents.double` — the same for affine points.
-/

set_option autoImplicit false

namespace Secp256r1

namespace ProjectivePoint

def triple (t : ProjectivePoint) : Triple FieldElement := ⟨t.x, t.y, t.z⟩

/-- The coordinates represent residues that stand for the element. -/
def Represents (t : ProjectivePoint) (a : CurveGroup) : Prop :=
  ∃ u, t.triple.Rel FieldElement.Represents u ∧ Secp256r1.Represents u a

def residues (t : ProjectivePoint) : Triple (ZMod fieldPrime) := ⟨t.x.value, t.y.value, t.z.value⟩

/-- All coordinates are reduced, not all are zero, and they satisfy the curve equation. -/
structure OnCurve (t : ProjectivePoint) : Prop where
  x_lt : t.x.value < fieldPrime
  y_lt : t.y.value < fieldPrime
  z_lt : t.z.value < fieldPrime
  equation : t.residues.OnCurve coefficientB
  ne_zero : t ≠ ⟨.zero, .zero, .zero⟩

variable {t u : ProjectivePoint} {a b : CurveGroup}

theorem rel_residues (hx : t.x.value < fieldPrime) (hy : t.y.value < fieldPrime)
    (hz : t.z.value < fieldPrime) : t.triple.Rel FieldElement.Represents t.residues :=
  ⟨FieldElement.represents_of_lt hx, FieldElement.represents_of_lt hy,
    FieldElement.represents_of_lt hz⟩

theorem eq_residues {v : Triple (ZMod fieldPrime)} (h : t.triple.Rel FieldElement.Represents v) :
    t.residues = v := Triple.ext h.x.cast h.y.cast h.z.cast

theorem residues_eq_zero_iff (h : t.triple.Rel FieldElement.Represents t.residues) :
    t.residues = ⟨0, 0, 0⟩ ↔ t = ⟨.zero, .zero, .zero⟩ := by
  rw [Triple.ext_iff, ProjectivePoint.ext_iff, ← h.x.inj FieldElement.represents_zero,
    ← h.y.inj FieldElement.represents_zero, ← h.z.inj FieldElement.represents_zero]
  rfl

/-- **Exactly the triples on the curve represent elements.** -/
theorem exists_represents_iff : (∃ a, t.Represents a) ↔ t.OnCurve := by
  constructor
  · rintro ⟨a, v, hrel, ha⟩
    obtain rfl := eq_residues hrel
    obtain ⟨hcurve, hne⟩ := (Secp256r1.exists_represents_iff noTwoTorsion_coefficientB).mp ⟨a, ha⟩
    exact ⟨hrel.x.lt, hrel.y.lt, hrel.z.lt, hcurve, fun h => hne ((residues_eq_zero_iff hrel).mpr h)⟩
  · rintro ⟨hx, hy, hz, hcurve, hne⟩
    have hrel := rel_residues hx hy hz
    obtain ⟨a, ha⟩ := (Secp256r1.exists_represents_iff noTwoTorsion_coefficientB).mpr
      ⟨hcurve, fun h => hne ((residues_eq_zero_iff hrel).mp h)⟩
    exact ⟨a, t.residues, hrel, ha⟩

theorem Represents.isZero_z_iff (h : t.Represents a) : t.z.isZero = true ↔ a = 0 := by
  obtain ⟨v, hrel, ha⟩ := h
  have hz : t.z.Represents v.z := hrel.z
  rw [hz.isZero_iff, ← ha.z_eq_zero_iff]

theorem Represents.unique (ha : t.Represents a) (hb : t.Represents b) : a = b := by
  obtain ⟨v, hv, ha⟩ := ha
  obtain ⟨w, hw, hb⟩ := hb
  rw [← eq_residues hv] at ha
  rw [← eq_residues hw] at hb
  exact ha.unique hb

theorem represents_identity : identity.Represents 0 :=
  ⟨⟨0, 1, 0⟩, ⟨FieldElement.represents_zero, FieldElement.represents_one,
    FieldElement.represents_zero⟩, represents_zero_iff.mpr ⟨rfl, one_ne_zero, rfl⟩⟩

/-! ## The group law -/

theorem compatible_represents : Triple.Compatible FieldElement.Represents where
  add := FieldElement.Represents.add
  sub := FieldElement.Represents.sub
  mul := FieldElement.Represents.mul

theorem triple_add (t u : ProjectivePoint) :
    (t.add u).triple = Triple.sum FieldElement.curveB t.triple u.triple := by
  simp only [triple, ProjectivePoint.add, Triple.sum, Triple.thrice, FieldElement.triple,
    FieldElement.double]

/-- **The addition formula follows the group law**, for all operands. -/
theorem Represents.add (ht : t.Represents a) (hu : u.Represents b) : (t.add u).Represents (a + b) := by
  obtain ⟨v, hv, ha⟩ := ht
  obtain ⟨w, hw, hb⟩ := hu
  have hsum := Triple.Rel.sum compatible_represents Point.represents_curveB hv hw
  rw [← triple_add] at hsum
  exact ⟨_, hsum, ha.sum noTwoTorsion_coefficientB hb⟩

theorem Represents.double (ht : t.Represents a) : t.double.Represents (a + a) := ht.add ht

/-! ## Conversions -/

section Conversion

variable {v : Triple (ZMod fieldPrime)}

/-- A triple with `Z = 0` gives the identity. -/
theorem toAffine_eq_identity (h : t.triple.Rel FieldElement.Represents v) (hz : v.z = 0) :
    t.toAffine = .identity := by
  have hz' : t.z.Represents v.z := h.z
  have hzero : t.z.isZero = true := hz'.isZero_iff.mpr hz
  simp [toAffine, hzero, Point.identity]

/-- Any other triple gives the coordinates `X/Z` and `Y/Z`. -/
theorem toAffine_finite (h : t.triple.Rel FieldElement.Represents v) (hz : v.z ≠ 0) :
    t.toAffine.isIdentity = false ∧ t.toAffine.x.Represents (v.x / v.z) ∧
      t.toAffine.y.Represents (v.y / v.z) := by
  have hz' : t.z.Represents v.z := h.z
  have hfinite : t.z.isZero = false := by
    rw [Bool.eq_false_iff, Ne, hz'.isZero_iff]
    exact hz
  have hx := h.x.mul h.z.invertTotal
  have hy := h.y.mul h.z.invertTotal
  rw [← div_eq_mul_inv] at hx hy
  simp only [toAffine, hfinite, FieldElement.select_false]
  exact ⟨trivial, hx, hy⟩

/-- **The affine point of a triple** stands for the same element. -/
theorem Represents.toAffine (h : t.Represents a) : t.toAffine.Represents a := by
  obtain ⟨v, hrel, ha⟩ := h
  cases a with
  | zero =>
    obtain ⟨-, -, hz⟩ := represents_zero_iff.mp ha
    exact Point.represents_zero_iff.mpr (toAffine_eq_identity hrel hz)
  | some x y hxy =>
    obtain ⟨hvz, hvx, hvy⟩ := represents_some_iff.mp ha
    obtain ⟨hfinite, hx, hy⟩ := toAffine_finite hrel hvz
    rw [hvx, mul_div_cancel_right₀ _ hvz] at hx
    rw [hvy, mul_div_cancel_right₀ _ hvz] at hy
    exact Point.represents_some_iff.mpr ⟨hfinite, hx, hy⟩

end Conversion

end ProjectivePoint

namespace Point

variable {p q : Point} {a b : CurveGroup}

/-- **The triple of an affine point** stands for the same element. -/
theorem Represents.toProjective (h : p.Represents a) : p.toProjective.Represents a := by
  cases a with
  | zero =>
    rw [represents_zero_iff.mp h]
    exact ProjectivePoint.represents_identity
  | some x y hxy =>
    obtain ⟨hfinite, hx, hy⟩ := represents_some_iff.mp h
    have hp : p.toProjective = ⟨p.x, p.y, .one⟩ := by
      simp [toProjective, ProjectivePoint.select, hfinite]
    rw [hp]
    refine ⟨⟨x, y, 1⟩, ⟨hx, hy, FieldElement.represents_one⟩, Secp256r1.represents_some_iff.mpr ?_⟩
    exact ⟨one_ne_zero, (mul_one x).symm, (mul_one y).symm⟩

/-- **Addition is the group law.** -/
theorem Represents.add (hp : p.Represents a) (hq : q.Represents b) : (p.add q).Represents (a + b) :=
  (hp.toProjective.add hq.toProjective).toAffine

theorem Represents.double (hp : p.Represents a) : p.double.Represents (a + a) :=
  hp.toProjective.double.toAffine

end Point

end Secp256r1
