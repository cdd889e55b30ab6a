import Mathlib.AlgebraicGeometry.EllipticCurve.Affine.Point
import Mathlib.Tactic.LinearCombination

/-!
# One addition formula for all operands

Over a field in which 2 is not zero, a curve `y² = x³ − 3x + b` whose cubic has no root has no
point of order two.  Then one formula in homogeneous coordinates adds any two points.

* `Triple.sum` — the formula, over anything with `+`, `-` and `*`.
* `Triple.Rel.sum` — the formula commutes with every representation of the operations.
* `Represents` — a triple represents a point of the group of the curve.
* `exists_represents_iff` — exactly the triples on the curve other than `(0:0:0)` do.
* `Represents.sum` — **the formula is complete**: it represents the sum of any two points.
-/

set_option autoImplicit false

namespace Secp256r1

/-- Homogeneous coordinates. -/
@[ext]
structure Triple (α : Type) where
  x : α
  y : α
  z : α

namespace Triple

/-! ## The formula -/

section Formula

variable {α β : Type} [Add α] [Sub α] [Mul α] [Add β] [Sub β] [Mul β]

def thrice (a : α) : α := a + a + a

/-- The sum by one formula, for the curve with the coefficients `−3` and `b`. -/
def sum (b : α) (p q : Triple α) : Triple α :=
  let xx := p.x * q.x
  let yy := p.y * q.y
  let zz := p.z * q.z
  let c := (p.x + p.y) * (q.x + q.y) - xx - yy
  let d := (p.y + p.z) * (q.y + q.z) - yy - zz
  let e := (p.x + p.z) * (q.x + q.z) - xx - zz
  let f := thrice (e - b * zz)
  let g := yy - f
  let h := yy + f
  let i := thrice zz
  let j := thrice (b * e - xx - i)
  let k := thrice xx - i
  ⟨h * c - d * j, h * g + k * j, g * d + k * c⟩

/-- Coordinates related one by one. -/
structure Rel (R : α → β → Prop) (p : Triple α) (q : Triple β) : Prop where
  x : R p.x q.x
  y : R p.y q.y
  z : R p.z q.z

/-- A relation that the operations keep. -/
structure Compatible (R : α → β → Prop) : Prop where
  add : ∀ {a c : α} {x y : β}, R a x → R c y → R (a + c) (x + y)
  sub : ∀ {a c : α} {x y : β}, R a x → R c y → R (a - c) (x - y)
  mul : ∀ {a c : α} {x y : β}, R a x → R c y → R (a * c) (x * y)

theorem Compatible.thrice {R : α → β → Prop} (hR : Compatible R) {a : α} {x : β} (h : R a x) :
    R (thrice a) (Triple.thrice x) := hR.add (hR.add h h) h

/-- **The formula commutes with every representation of the operations.** -/
theorem Rel.sum {R : α → β → Prop} (hR : Compatible R) {b : α} {b' : β} (hb : R b b')
    {p q : Triple α} {p' q' : Triple β} (hp : Rel R p p') (hq : Rel R q q') :
    Rel R (sum b p q) (Triple.sum b' p' q') := by
  have hxx := hR.mul hp.x hq.x
  have hyy := hR.mul hp.y hq.y
  have hzz := hR.mul hp.z hq.z
  have hc := hR.sub (hR.sub (hR.mul (hR.add hp.x hp.y) (hR.add hq.x hq.y)) hxx) hyy
  have hd := hR.sub (hR.sub (hR.mul (hR.add hp.y hp.z) (hR.add hq.y hq.z)) hyy) hzz
  have he := hR.sub (hR.sub (hR.mul (hR.add hp.x hp.z) (hR.add hq.x hq.z)) hxx) hzz
  have hf := hR.thrice (hR.sub he (hR.mul hb hzz))
  have hg := hR.sub hyy hf
  have hh := hR.add hyy hf
  have hi := hR.thrice hzz
  have hj := hR.thrice (hR.sub (hR.sub (hR.mul hb he) hxx) hi)
  have hk := hR.sub (hR.thrice hxx) hi
  exact ⟨hR.sub (hR.mul hh hc) (hR.mul hd hj), hR.add (hR.mul hh hg) (hR.mul hk hj),
    hR.add (hR.mul hg hd) (hR.mul hk hc)⟩

end Formula

/-! ## Scaling -/

section Scaling

variable {F : Type} [CommRing F]

def scale (c : F) (p : Triple F) : Triple F := ⟨c * p.x, c * p.y, c * p.z⟩

def ofAffine (x y : F) : Triple F := ⟨x, y, 1⟩

theorem sum_scale (b c d : F) (p q : Triple F) :
    sum b (scale c p) (scale d q) = scale ((c * d) ^ 2) (sum b p q) := by
  simp only [sum, scale, thrice]
  ext <;> ring

theorem sum_comm (b : F) (p q : Triple F) : sum b p q = sum b q p := by
  simp only [sum, thrice]
  ext <;> ring

/-- Adding `(0:y:0)` scales. -/
theorem sum_infinity (b y : F) (p : Triple F) :
    sum b ⟨0, y, 0⟩ p = scale (y ^ 2 * p.y) p := by
  simp only [sum, scale, thrice]
  ext <;> ring

def OnCurve (b : F) (p : Triple F) : Prop :=
  p.y ^ 2 * p.z = p.x ^ 3 - 3 * p.x * p.z ^ 2 + b * p.z ^ 3

end Scaling

end Triple

/-! ## The curve -/

variable {F : Type} [Field F]

/-- The curve `y² = x³ − 3x + b`. -/
def weierstrass (b : F) : WeierstrassCurve.Affine F where
  a₁ := 0
  a₂ := 0
  a₃ := 0
  a₄ := -3
  a₆ := b

/-- The affine curve equation. -/
def CurveEquation (b x y : F) : Prop := y ^ 2 = x ^ 3 - 3 * x + b

instance {b x y : F} [DecidableEq F] : Decidable (CurveEquation b x y) :=
  inferInstanceAs (Decidable (_ = _))

/-- What rules out points of order two. -/
structure NoTwoTorsion (b : F) : Prop where
  two_ne_zero : (2 : F) ≠ 0
  no_root : ∀ x : F, x ^ 3 - 3 * x + b ≠ 0

open WeierstrassCurve.Affine (Point)

section Curve

variable {b x y : F}

theorem equation_iff : (weierstrass b).Equation x y ↔ y ^ 2 = x ^ 3 - 3 * x + b := by
  rw [WeierstrassCurve.Affine.equation_iff]
  simp only [weierstrass]
  constructor <;> intro h <;> linear_combination h

theorem negY_eq : (weierstrass b).negY x y = -y := by
  simp [weierstrass, WeierstrassCurve.Affine.negY]

theorem NoTwoTorsion.y_ne_zero (hb : NoTwoTorsion b) (h : y ^ 2 = x ^ 3 - 3 * x + b) : y ≠ 0 := by
  rintro rfl
  exact hb.no_root x (by rw [← h]; ring)

/-- **Every solution of the equation is a point of the group.** -/
theorem NoTwoTorsion.nonsingular_iff (hb : NoTwoTorsion b) :
    (weierstrass b).Nonsingular x y ↔ y ^ 2 = x ^ 3 - 3 * x + b := by
  rw [WeierstrassCurve.Affine.nonsingular_iff, equation_iff]
  constructor
  · exact And.left
  · intro h
    refine ⟨h, .inr ?_⟩
    intro hy
    have h2 : 2 * y = 0 := by
      simp only [weierstrass] at hy
      linear_combination hy
    exact hb.y_ne_zero h ((mul_eq_zero.mp h2).resolve_left hb.two_ne_zero)

theorem equation_of_nonsingular (h : (weierstrass b).Nonsingular x y) :
    y ^ 2 = x ^ 3 - 3 * x + b := equation_iff.mp h.1

end Curve

/-! ## Triples and points -/

/-- The triple stands for the point: `(0:y:0)` for zero, `(xz:yz:z)` for a finite point. -/
def Represents {b : F} (t : Triple F) : (weierstrass b).Point → Prop
  | .zero => t.x = 0 ∧ t.y ≠ 0 ∧ t.z = 0
  | .some x y _ => t.z ≠ 0 ∧ t.x = x * t.z ∧ t.y = y * t.z

section Represents

variable {b : F} {t u : Triple F} {P Q : (weierstrass b).Point}

theorem represents_zero_iff :
    Represents t (0 : (weierstrass b).Point) ↔ t.x = 0 ∧ t.y ≠ 0 ∧ t.z = 0 := Iff.rfl

theorem represents_some_iff {x y : F} {h : (weierstrass b).Nonsingular x y} :
    Represents t (Point.some x y h) ↔ t.z ≠ 0 ∧ t.x = x * t.z ∧ t.y = y * t.z := Iff.rfl

theorem Represents.z_eq_zero_iff (h : Represents t P) : t.z = 0 ↔ P = 0 := by
  cases P with
  | zero => exact iff_of_true h.2.2 rfl
  | some x y hP => exact iff_of_false h.1 (Point.some_ne_zero hP)

theorem Represents.unique (hP : Represents t P) (hQ : Represents t Q) : P = Q := by
  cases P with
  | zero => exact (hQ.z_eq_zero_iff.mp hP.2.2).symm
  | some x y h =>
    cases Q with
    | zero => exact absurd hQ.2.2 hP.1
    | some x' y' h' =>
      obtain ⟨hz, hx, hy⟩ := hP
      obtain ⟨-, hx', hy'⟩ := hQ
      have hxx : x = x' := mul_right_cancel₀ hz (hx.symm.trans hx')
      have hyy : y = y' := mul_right_cancel₀ hz (hy.symm.trans hy')
      subst hxx hyy
      rfl

theorem Represents.scale {c : F} (hc : c ≠ 0) (h : Represents t P) :
    Represents (t.scale c) P := by
  cases P with
  | zero =>
    obtain ⟨hx, hy, hz⟩ := h
    exact ⟨by simp [Triple.scale, hx], mul_ne_zero hc hy, by simp [Triple.scale, hz]⟩
  | some x y hP =>
    obtain ⟨hz, hx, hy⟩ := h
    refine ⟨mul_ne_zero hc hz, ?_, ?_⟩
    · simp only [Triple.scale, hx]; ring
    · simp only [Triple.scale, hy]; ring

/-- A finite point is a scaled affine triple. -/
theorem Represents.eq_scale {x y : F} {h : (weierstrass b).Nonsingular x y}
    (ht : Represents t (Point.some x y h)) : t = (Triple.ofAffine x y).scale t.z := by
  obtain ⟨-, hx, hy⟩ := ht
  ext
  · rw [hx]; exact mul_comm _ _
  · rw [hy]; exact mul_comm _ _
  · exact (mul_one _).symm

/-- **Exactly the triples on the curve other than `(0:0:0)` represent points.** -/
theorem exists_represents_iff (hb : NoTwoTorsion b) :
    (∃ P : (weierstrass b).Point, Represents t P) ↔ t.OnCurve b ∧ t ≠ ⟨0, 0, 0⟩ := by
  constructor
  · rintro ⟨_ | ⟨x, y, hP⟩, h⟩
    · obtain ⟨hx, hy, hz⟩ := h
      refine ⟨by simp [Triple.OnCurve, hx, hz], fun h0 => hy (by rw [h0])⟩
    · obtain ⟨hz, hx, hy⟩ := h
      refine ⟨?_, fun h0 => hz (by rw [h0])⟩
      rw [Triple.OnCurve, hx, hy]
      linear_combination t.z ^ 3 * equation_of_nonsingular hP
  · rintro ⟨hcurve, hne⟩
    rw [Triple.OnCurve] at hcurve
    by_cases hz : t.z = 0
    · have hx : t.x = 0 := by
        rw [hz] at hcurve
        exact pow_eq_zero_iff (three_ne_zero) |>.mp (by linear_combination -hcurve)
      exact ⟨0, hx, fun hy => hne (Triple.ext hx hy hz), hz⟩
    · have heq : (t.y / t.z) ^ 2 = (t.x / t.z) ^ 3 - 3 * (t.x / t.z) + b := by
        field_simp
        linear_combination hcurve
      exact ⟨.some _ _ (hb.nonsingular_iff.mpr heq), hz, (div_mul_cancel₀ _ hz).symm,
        (div_mul_cancel₀ _ hz).symm⟩

/-- Adding a triple of the identity changes the scale only. -/
theorem Represents.zero_sum (hb : NoTwoTorsion b) (ht : Represents t (0 : (weierstrass b).Point))
    (hu : Represents u Q) : Represents (Triple.sum b t u) Q := by
  obtain ⟨hx, hy, hz⟩ := ht
  have hu0 : u.y ≠ 0 := by
    cases Q with
    | zero => exact hu.2.1
    | some x y hQ =>
      rw [hu.2.2]
      exact mul_ne_zero (hb.y_ne_zero (equation_of_nonsingular hQ)) hu.1
  have htriple : t = ⟨0, t.y, 0⟩ := Triple.ext hx rfl hz
  rw [htriple, Triple.sum_infinity]
  exact hu.scale (mul_ne_zero (pow_ne_zero 2 hy) hu0)

end Represents

/-! ## Completeness -/

section Identities

variable {b x₁ y₁ x₂ y₂ ℓ : F}

/-- Along a line of slope `ℓ` the formula is `Z` times chord and tangent. -/
theorem sum_ofAffine_of_slope (h₁ : y₁ ^ 2 = x₁ ^ 3 - 3 * x₁ + b) (hx : ℓ * (x₁ - x₂) = y₁ - y₂)
    (hy : ℓ * (y₁ + y₂) = x₁ ^ 2 + x₁ * x₂ + x₂ ^ 2 - 3) :
    let s := Triple.sum b (.ofAffine x₁ y₁) (.ofAffine x₂ y₂)
    s.x = (ℓ ^ 2 - x₁ - x₂) * s.z ∧ s.y = -(ℓ * (ℓ ^ 2 - x₁ - x₂ - x₁) + y₁) * s.z := by
  simp only [Triple.sum, Triple.ofAffine, Triple.thrice]
  constructor <;> grind

/-- For different abscissas, `Z` is a cube times the ordinate of the difference. -/
theorem sum_z_of_ne (h₁ : y₁ ^ 2 = x₁ ^ 3 - 3 * x₁ + b) (h₂ : y₂ ^ 2 = x₂ ^ 3 - 3 * x₂ + b)
    (hm : ℓ * (x₁ - x₂) = y₁ + y₂) :
    (Triple.sum b (.ofAffine x₁ y₁) (.ofAffine x₂ y₂)).z =
      (x₁ - x₂) ^ 3 * (ℓ * (ℓ ^ 2 - x₁ - x₂ - x₁) + y₁) := by
  simp only [Triple.sum, Triple.ofAffine, Triple.thrice]
  grind

/-- For equal points, `Z` is the cube of `2y`. -/
theorem sum_z_self (h₁ : y₁ ^ 2 = x₁ ^ 3 - 3 * x₁ + b) :
    (Triple.sum b (.ofAffine x₁ y₁) (.ofAffine x₁ y₁)).z = (2 * y₁) ^ 3 := by
  simp only [Triple.sum, Triple.ofAffine, Triple.thrice]
  grind

/-- For opposite points, `Y` is a cube times the ordinate of the double. -/
theorem sum_opposite (h₁ : y₁ ^ 2 = x₁ ^ 3 - 3 * x₁ + b) (hm : ℓ * (2 * y₁) = 3 * x₁ ^ 2 - 3) :
    Triple.sum b (.ofAffine x₁ y₁) (.ofAffine x₁ (-y₁)) =
      ⟨0, -(2 * y₁) ^ 3 * (ℓ * (ℓ ^ 2 - x₁ - x₁ - x₁) + y₁), 0⟩ := by
  simp only [Triple.sum, Triple.ofAffine, Triple.thrice]
  ext <;> grind

end Identities

section Completeness

variable [DecidableEq F] {b : F} {x₁ y₁ x₂ y₂ : F}

/-- Secants and tangents have a slope with the same two equations. -/
theorem slope_spec (hb : NoTwoTorsion b) (h₁ : (weierstrass b).Nonsingular x₁ y₁)
    (h₂ : (weierstrass b).Nonsingular x₂ y₂)
    (hxy : ¬(x₁ = x₂ ∧ y₁ = (weierstrass b).negY x₂ y₂)) :
    (weierstrass b).slope x₁ x₂ y₁ y₂ * (x₁ - x₂) = y₁ - y₂ ∧
      (weierstrass b).slope x₁ x₂ y₁ y₂ * (y₁ + y₂) = x₁ ^ 2 + x₁ * x₂ + x₂ ^ 2 - 3 := by
  have e₁ := equation_of_nonsingular h₁
  have e₂ := equation_of_nonsingular h₂
  by_cases hx : x₁ = x₂
  · have hneg : y₁ ≠ (weierstrass b).negY x₂ y₂ := fun hy => hxy ⟨hx, hy⟩
    have hy : y₁ = y₂ := WeierstrassCurve.Affine.Y_eq_of_Y_ne h₁.1 h₂.1 hx hneg
    have hne : 2 * y₁ ≠ 0 := mul_ne_zero hb.two_ne_zero (hb.y_ne_zero e₁)
    have hslope : (weierstrass b).slope x₁ x₂ y₁ y₂ = (3 * x₁ ^ 2 - 3) / (2 * y₁) := by
      rw [WeierstrassCurve.Affine.slope_of_Y_ne hx hneg, negY_eq]
      simp only [weierstrass]
      congr 1 <;> ring
    subst hx hy
    rw [hslope, ← two_mul, div_mul_cancel₀ _ hne]
    exact ⟨by ring, by ring⟩
  · have hne : x₁ - x₂ ≠ 0 := sub_ne_zero.mpr hx
    rw [WeierstrassCurve.Affine.slope_of_X_ne hx]
    refine ⟨div_mul_cancel₀ _ hne, ?_⟩
    rw [div_mul_eq_mul_div, div_eq_iff hne]
    linear_combination e₁ - e₂

/-- The sum of points that are not opposite, by the slope. -/
theorem add_some_eq (h₁ : (weierstrass b).Nonsingular x₁ y₁)
    (h₂ : (weierstrass b).Nonsingular x₂ y₂)
    (hxy : ¬(x₁ = x₂ ∧ y₁ = (weierstrass b).negY x₂ y₂)) {ℓ : F}
    (hℓ : ℓ = (weierstrass b).slope x₁ x₂ y₁ y₂) :
    ∃ h, Point.some x₁ y₁ h₁ + Point.some x₂ y₂ h₂ =
      Point.some (ℓ ^ 2 - x₁ - x₂) (-(ℓ * (ℓ ^ 2 - x₁ - x₂ - x₁) + y₁)) h := by
  have hX : (weierstrass b).addX x₁ x₂ ℓ = ℓ ^ 2 - x₁ - x₂ := by
    simp [WeierstrassCurve.Affine.addX, weierstrass]
  have hY : (weierstrass b).addY x₁ x₂ y₁ ℓ = -(ℓ * (ℓ ^ 2 - x₁ - x₂ - x₁) + y₁) := by
    rw [WeierstrassCurve.Affine.addY, negY_eq, WeierstrassCurve.Affine.negAddY, hX]
  rw [Point.add_some hxy, ← hY, ← hX]
  subst hℓ
  exact ⟨_, rfl⟩

/-- The ordinate of a sum of points that are not opposite does not vanish. -/
theorem slope_ordinate_ne_zero (hb : NoTwoTorsion b) (h₁ : (weierstrass b).Nonsingular x₁ y₁)
    (h₂ : (weierstrass b).Nonsingular x₂ y₂)
    (hxy : ¬(x₁ = x₂ ∧ y₁ = (weierstrass b).negY x₂ y₂)) {ℓ : F}
    (hℓ : ℓ = (weierstrass b).slope x₁ x₂ y₁ y₂) :
    ℓ * (ℓ ^ 2 - x₁ - x₂ - x₁) + y₁ ≠ 0 := by
  obtain ⟨h, -⟩ := add_some_eq h₁ h₂ hxy hℓ
  exact neg_ne_zero.mp (hb.y_ne_zero (equation_of_nonsingular h))

theorem represents_sum_of_ne (hb : NoTwoTorsion b) (h₁ : (weierstrass b).Nonsingular x₁ y₁)
    (h₂ : (weierstrass b).Nonsingular x₂ y₂)
    (hxy : ¬(x₁ = x₂ ∧ y₁ = (weierstrass b).negY x₂ y₂)) :
    Represents (Triple.sum b (.ofAffine x₁ y₁) (.ofAffine x₂ y₂))
      (Point.some x₁ y₁ h₁ + Point.some x₂ y₂ h₂) := by
  have e₁ := equation_of_nonsingular h₁
  have e₂ := equation_of_nonsingular h₂
  obtain ⟨ℓ, hℓ⟩ : ∃ ℓ, ℓ = (weierstrass b).slope x₁ x₂ y₁ y₂ := ⟨_, rfl⟩
  obtain ⟨hx, hy⟩ := slope_spec hb h₁ h₂ hxy
  rw [← hℓ] at hx hy
  obtain ⟨h, hsum⟩ := add_some_eq h₁ h₂ hxy hℓ
  obtain ⟨hX, hY⟩ := sum_ofAffine_of_slope e₁ hx hy
  rw [hsum, represents_some_iff]
  refine ⟨?_, hX, hY⟩
  by_cases hxx : x₁ = x₂
  · have hneg : y₁ ≠ (weierstrass b).negY x₂ y₂ := fun hy => hxy ⟨hxx, hy⟩
    have hyy : y₁ = y₂ := WeierstrassCurve.Affine.Y_eq_of_Y_ne h₁.1 h₂.1 hxx hneg
    subst hxx hyy
    rw [sum_z_self e₁]
    exact pow_ne_zero 3 (mul_ne_zero hb.two_ne_zero (hb.y_ne_zero e₁))
  · -- the difference of the points is finite too
    have h₂' : (weierstrass b).Nonsingular x₂ (-y₂) := by
      rw [hb.nonsingular_iff, neg_sq]
      exact e₂
    have hxy' : ¬(x₁ = x₂ ∧ y₁ = (weierstrass b).negY x₂ (-y₂)) := fun h' => hxx h'.1
    obtain ⟨hm, -⟩ := slope_spec hb h₁ h₂' hxy'
    rw [sum_z_of_ne e₁ e₂ (hm.trans (sub_neg_eq_add _ _))]
    exact mul_ne_zero (pow_ne_zero 3 (sub_ne_zero.mpr hxx))
      (slope_ordinate_ne_zero hb h₁ h₂' hxy' rfl)

theorem represents_sum_of_opposite (hb : NoTwoTorsion b) (h₁ : (weierstrass b).Nonsingular x₁ y₁) :
    Represents (Triple.sum b (.ofAffine x₁ y₁) (.ofAffine x₁ (-y₁))) (0 : (weierstrass b).Point) := by
  have e₁ := equation_of_nonsingular h₁
  have hne : 2 * y₁ ≠ 0 := mul_ne_zero hb.two_ne_zero (hb.y_ne_zero e₁)
  have hxy : ¬(x₁ = x₁ ∧ y₁ = (weierstrass b).negY x₁ y₁) := by
    rintro ⟨-, hy⟩
    rw [negY_eq] at hy
    exact hne (by linear_combination hy)
  have hm : (weierstrass b).slope x₁ x₁ y₁ y₁ * (2 * y₁) = 3 * x₁ ^ 2 - 3 := by
    linear_combination (slope_spec hb h₁ h₁ hxy).2
  rw [sum_opposite e₁ hm, represents_zero_iff]
  exact ⟨rfl, mul_ne_zero (neg_ne_zero.mpr (pow_ne_zero 3 hne))
    (slope_ordinate_ne_zero hb h₁ h₁ hxy rfl), rfl⟩

variable {t u : Triple F} {P Q : (weierstrass b).Point}

/-- **The formula is complete**: it represents the sum of any two points. -/
theorem Represents.sum (hb : NoTwoTorsion b) (ht : Represents t P) (hu : Represents u Q) :
    Represents (Triple.sum b t u) (P + Q) := by
  cases P with
  | zero =>
    have h0 : (Point.zero : (weierstrass b).Point) + Q = Q := zero_add Q
    rw [h0]
    exact ht.zero_sum hb hu
  | some x₁ y₁ h₁ =>
    cases Q with
    | zero =>
      have h0 : Point.some x₁ y₁ h₁ + (Point.zero : (weierstrass b).Point) = .some x₁ y₁ h₁ :=
        add_zero _
      rw [h0, Triple.sum_comm]
      exact hu.zero_sum hb ht
    | some x₂ y₂ h₂ =>
      rw [ht.eq_scale, hu.eq_scale, Triple.sum_scale]
      refine Represents.scale (pow_ne_zero 2 (mul_ne_zero ht.1 hu.1)) ?_
      by_cases hxy : x₁ = x₂ ∧ y₁ = (weierstrass b).negY x₂ y₂
      · obtain ⟨hx, hy⟩ := hxy
        rw [Point.add_of_Y_eq hx hy]
        have hyy : y₂ = -y₁ := by rw [hy, negY_eq, neg_neg]
        subst hx hyy
        exact represents_sum_of_opposite hb h₁
      · exact represents_sum_of_ne hb h₁ h₂ hxy

end Completeness

-- unfolding would look for the shape of a point, and so compute multiples in the group
attribute [irreducible] Represents

end Secp256r1
