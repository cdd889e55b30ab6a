import Mathlib.Algebra.Module.ZMod
import Mathlib.GroupTheory.Perm.Cycle.Type
import Secp256r1.Proofs.Group.Curve

/-!
# The group of the curve has the order of the base point

Every abscissa carries at most two points, told apart by the parity of the ordinate, so that the
group has at most `2p + 1` elements.  The base point has the prime order `n`, which divides the
size of the group, and `3n` exceeds `2p + 1`.  The size is not `2n`, as there is no point of order
two.

* `nsmul_basePoint` — `n·G = 0`, computed by the kernel with the complete formula.
* `card_le` — the bound on the number of points.
* `card_curveGroup` — **the group has exactly `n` elements**.
* `groupOrder_nsmul` — the group order annihilates every point.
* `smul_basePoint_bijective` — every point is a multiple of the base point in exactly one way.
* `nsmul_inj_of_lt`, `nsmul_right_inj` — multipliers below the group order cancel.
-/

set_option autoImplicit false

namespace Secp256r1

open WeierstrassCurve.Affine (Point)

/-- The group of the curve. -/
abbrev CurveGroup : Type := (weierstrass coefficientB).Point

/-! ## The base point -/

theorem nonsingular_basePoint :
    (weierstrass coefficientB).Nonsingular (Curve.secp256r1.gx.value : ZMod fieldPrime)
      (Curve.secp256r1.gy.value : ZMod fieldPrime) := by
  rw [noTwoTorsion_coefficientB.nonsingular_iff]
  have h : ((Curve.secp256r1.gy.value ^ 2 + 3 * Curve.secp256r1.gx.value : ℕ) : ZMod fieldPrime) =
      ((Curve.secp256r1.gx.value ^ 3 + Curve.secp256r1.b.value : ℕ) : ZMod fieldPrime) := by
    rw [ZMod.natCast_eq_natCast_iff]
    decide +kernel
  push_cast at h
  unfold coefficientB
  linear_combination h

def basePoint : CurveGroup := .some _ _ nonsingular_basePoint

theorem basePoint_ne_zero : basePoint ≠ 0 := Point.some_ne_zero _

namespace Evaluated

def triple (t : Triple Evaluated) : Triple (ZMod fieldPrime) :=
  ⟨t.x.residue, t.y.residue, t.z.residue⟩

/-- Evaluation follows the complete formula. -/
theorem triple_sum (t u : Triple Evaluated) :
    triple (Triple.sum evaluatedB t u) = Triple.sum coefficientB (triple t) (triple u) := by
  have hR : Triple.Compatible fun (a : Evaluated) x => a.residue = x := {
    add := by rintro a c _ _ rfl rfl; exact residue_add a c
    sub := by rintro a c _ _ rfl rfl; exact residue_sub a c
    mul := by rintro a c _ _ rfl rfl; exact residue_mul a c }
  have hb : evaluatedB.residue = coefficientB := rfl
  have hrel (v : Triple Evaluated) : Triple.Rel (fun a x => a.residue = x) v (triple v) :=
    ⟨rfl, rfl, rfl⟩
  have h := Triple.Rel.sum hR hb (hrel t) (hrel u)
  exact Triple.ext h.x h.y h.z

def base : Triple Evaluated := ⟨⟨Curve.secp256r1.gx.value⟩, ⟨Curve.secp256r1.gy.value⟩, ⟨1⟩⟩

/-- A triple of the multiple of the base point by the group order. -/
def orderMultiple : Triple Evaluated :=
  binaryPower (Triple.sum evaluatedB) 256 ⟨⟨0⟩, ⟨1⟩, ⟨0⟩⟩ base groupOrder

theorem represents_orderMultiple : Represents (triple orderMultiple) (groupOrder • basePoint) := by
  have hsum : ∀ (t u : Triple Evaluated) (k l : ℕ), Represents (triple t) (k • basePoint) →
      Represents (triple u) (l • basePoint) →
      Represents (triple (Triple.sum evaluatedB t u)) ((k + l) • basePoint) := by
    intro t u k l ht hu
    rw [triple_sum, add_nsmul]
    exact ht.sum noTwoTorsion_coefficientB hu
  have hzero : Represents (triple ⟨⟨0⟩, ⟨1⟩, ⟨0⟩⟩) (0 • basePoint) := by
    have hone : residue ⟨1⟩ = 1 := Nat.cast_one
    rw [zero_nsmul, represents_zero_iff]
    exact ⟨Nat.cast_zero, hone.trans_ne one_ne_zero, Nat.cast_zero⟩
  have hbase : Represents (triple base) (1 • basePoint) := by
    have hone : (triple base).z = 1 := Nat.cast_one
    rw [one_nsmul, basePoint, represents_some_iff, hone, mul_one, mul_one]
    exact ⟨one_ne_zero, rfl, rfl⟩
  have hlt : groupOrder < 2 ^ 256 := Curve.secp256r1.n.value_lt
  have h := binaryPower_spec hsum 256 hlt hzero hbase
  rwa [zero_add, mul_one] at h

theorem orderMultiple_z : orderMultiple.z = ⟨0⟩ := by decide +kernel

end Evaluated

/-- **The group order annihilates the base point.** -/
theorem nsmul_basePoint : groupOrder • basePoint = 0 := by
  rw [← Evaluated.represents_orderMultiple.z_eq_zero_iff, Evaluated.triple,
    Evaluated.orderMultiple_z]
  exact Nat.cast_zero

theorem addOrderOf_basePoint : addOrderOf basePoint = groupOrder :=
  addOrderOf_eq_prime nsmul_basePoint basePoint_ne_zero

/-! ## The number of points -/

/-- The abscissa with the parity of the ordinate; the identity has none. -/
def compressed : CurveGroup → Option (ZMod fieldPrime × Bool)
  | .zero => none
  | .some x y _ => some (x, y.val % 2 == 1)

/-- Opposite ordinates have different parities. -/
theorem parity_neg_ne {y : ZMod fieldPrime} (hy : y ≠ 0) : (-y).val % 2 ≠ y.val % 2 := by
  have hodd : fieldPrime % 2 = 1 := by decide +kernel
  have hlt := y.val_lt
  have : NeZero y := ⟨hy⟩
  rw [ZMod.val_neg_of_ne_zero]
  omega

/-- **At most two points share an abscissa.** -/
theorem compressed_injective : Function.Injective compressed := by
  rintro (_ | ⟨x, y, h⟩) (_ | ⟨x', y', h'⟩) heq
  · rfl
  · cases heq
  · cases heq
  · simp only [compressed, Option.some.injEq, Prod.mk.injEq] at heq
    obtain ⟨rfl, hparity⟩ := heq
    have hy := equation_of_nonsingular h
    have hy' := equation_of_nonsingular h'
    have hne : y' ≠ 0 := noTwoTorsion_coefficientB.y_ne_zero hy'
    rcases sq_eq_sq_iff_eq_or_eq_neg.mp (hy.trans hy'.symm) with rfl | rfl
    · rfl
    · have hcontra := parity_neg_ne hne
      simp only [beq_eq_beq] at hparity
      omega

instance : Finite CurveGroup := Finite.of_injective compressed compressed_injective

theorem card_le : Nat.card CurveGroup ≤ 2 * fieldPrime + 1 := by
  refine (Nat.card_le_card_of_injective compressed compressed_injective).trans_eq ?_
  rw [Nat.card_eq_fintype_card, Fintype.card_option, Fintype.card_prod, ZMod.card, Fintype.card_bool,
    mul_comm]

/-- No point is its own negative. -/
theorem eq_zero_of_two_nsmul {P : CurveGroup} (h : 2 • P = 0) : P = 0 := by
  rw [two_nsmul, add_eq_zero_iff_eq_neg] at h
  cases P with
  | zero => rfl
  | some x y hP =>
    rw [Point.neg_some, Point.some.injEq, negY_eq] at h
    have h2 : 2 * y = 0 := by linear_combination h.2
    exact absurd ((mul_eq_zero.mp h2).resolve_left noTwoTorsion_coefficientB.two_ne_zero)
      (noTwoTorsion_coefficientB.y_ne_zero (equation_of_nonsingular hP))

/-- **The group has exactly `n` elements.** -/
theorem card_curveGroup : Nat.card CurveGroup = groupOrder := by
  obtain ⟨k, hk⟩ : groupOrder ∣ Nat.card CurveGroup := by
    rw [← addOrderOf_basePoint]
    exact addOrderOf_dvd_natCard basePoint
  have hpos : 0 < Nat.card CurveGroup := Nat.card_pos
  have hle := card_le
  rw [hk] at hpos hle
  have hlt : 2 * fieldPrime + 1 < groupOrder * 3 := by decide +kernel
  have hk3 : k < 3 := Nat.lt_of_mul_lt_mul_left (hle.trans_lt hlt)
  have hk0 : 0 < k := Nat.pos_of_mul_pos_left hpos
  have hk2 : k ≠ 2 := by
    rintro rfl
    obtain ⟨P, hP⟩ := exists_prime_addOrderOf_dvd_card' 2 (G := CurveGroup)
      (by rw [hk]; exact Dvd.intro_left _ rfl)
    have hzero : P = 0 := eq_zero_of_two_nsmul (by rw [← hP, addOrderOf_nsmul_eq_zero])
    rw [hzero, addOrderOf_zero] at hP
    exact absurd hP (by decide)
  rw [hk, show k = 1 by omega, mul_one]

/-- **The group order annihilates every point.** -/
theorem groupOrder_nsmul (P : CurveGroup) : groupOrder • P = 0 := by
  rw [← card_curveGroup]
  exact card_nsmul_eq_zero'

/-- Multiples by residues modulo the group order. -/
instance : Module (ZMod groupOrder) CurveGroup := AddCommGroup.zmodModule groupOrder_nsmul

/-- **Every point is the multiple of the base point by exactly one residue.** -/
theorem smul_basePoint_bijective :
    Function.Bijective fun k : ZMod groupOrder => k • basePoint := by
  have hcard : Nat.card CurveGroup ≤ Nat.card (ZMod groupOrder) := by
    rw [card_curveGroup, Nat.card_zmod]
  exact (smul_left_injective (ZMod groupOrder) basePoint_ne_zero).bijective_of_nat_card_le hcard

/-- Different multipliers below the group order give different multiples. -/
theorem nsmul_inj_of_lt {a : CurveGroup} (ha : a ≠ 0) {u v : ℕ} (hu : u < groupOrder)
    (hv : v < groupOrder) (h : u • a = v • a) : u = v := by
  rw [← Nat.cast_smul_eq_nsmul (ZMod groupOrder), ← Nat.cast_smul_eq_nsmul (ZMod groupOrder)] at h
  have hcast := smul_left_injective (ZMod groupOrder) ha h
  rw [ZMod.natCast_eq_natCast_iff'] at hcast
  rwa [Nat.mod_eq_of_lt hu, Nat.mod_eq_of_lt hv] at hcast

/-- Every point is a multiple of the base point by a multiplier below the group order. -/
theorem exists_nsmul_basePoint_eq (a : CurveGroup) :
    ∃ z, z < groupOrder ∧ z • basePoint = a := by
  obtain ⟨k, hk⟩ := smul_basePoint_bijective.2 a
  refine ⟨k.val, k.val_lt, ?_⟩
  rw [← Nat.cast_smul_eq_nsmul (ZMod groupOrder), ZMod.natCast_zmod_val]
  exact hk

/-- A multiplier in `[1, n-1]` gives different points different multiples. -/
theorem nsmul_right_inj {r : ℕ} (hr : 0 < r ∧ r < groupOrder) {q q' : CurveGroup}
    (h : r • q = r • q') : q = q' := by
  have hne : (r : ZMod groupOrder) ≠ 0 := by
    rw [Ne, ZMod.natCast_eq_zero_iff]
    exact Nat.not_dvd_of_pos_of_lt hr.1 hr.2
  rw [← Nat.cast_smul_eq_nsmul (ZMod groupOrder), ← Nat.cast_smul_eq_nsmul (ZMod groupOrder)] at h
  exact smul_right_injective CurveGroup hne h

end Secp256r1
