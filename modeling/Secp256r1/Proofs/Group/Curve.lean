import Secp256r1.Proofs.Group.Complete
import Secp256r1.Proofs.Primality

/-!
# The curve has no point of order two

A root `t` of the cubic `t³ − 3t + b` would satisfy `t ^ p = t`, as every residue does.  Powers
of `t` are quadratic in `t`, so `t ^ p − t` is a quadratic that vanishes at `t`; but it has an
inverse modulo the cubic.  The kernel computes the power and checks the inverse.

* `Evaluated` — residues as natural numbers, for evaluation.
* `CubicRemainder.mul` — products modulo the cubic.
* `noTwoTorsion_coefficientB` — the cubic of the curve has no root.
-/

set_option autoImplicit false

namespace Secp256r1

/-! ## Residues for evaluation -/

/-- A residue modulo the field prime by a natural number. -/
structure Evaluated where
  toNat : ℕ
deriving DecidableEq

namespace Evaluated

instance : Add Evaluated := ⟨fun a c => ⟨(a.toNat + c.toNat) % fieldPrime⟩⟩
instance : Sub Evaluated := ⟨fun a c => ⟨(a.toNat + (fieldPrime - c.toNat % fieldPrime)) % fieldPrime⟩⟩
instance : Mul Evaluated := ⟨fun a c => ⟨a.toNat * c.toNat % fieldPrime⟩⟩

def residue (a : Evaluated) : ZMod fieldPrime := a.toNat

theorem residue_add (a c : Evaluated) : (a + c).residue = a.residue + c.residue := by
  show (((a.toNat + c.toNat) % fieldPrime : ℕ) : ZMod fieldPrime) = _
  rw [ZMod.natCast_mod, Nat.cast_add]
  rfl

theorem residue_sub (a c : Evaluated) : (a - c).residue = a.residue - c.residue := by
  have hle : c.toNat % fieldPrime ≤ fieldPrime := (Nat.mod_lt _ prime_fieldPrime.pos).le
  show (((a.toNat + (fieldPrime - c.toNat % fieldPrime)) % fieldPrime : ℕ) : ZMod fieldPrime) = _
  rw [ZMod.natCast_mod, Nat.cast_add, Nat.cast_sub hle, ZMod.natCast_mod, ZMod.natCast_self,
    zero_sub, ← sub_eq_add_neg]
  rfl

theorem residue_mul (a c : Evaluated) : (a * c).residue = a.residue * c.residue := by
  show ((a.toNat * c.toNat % fieldPrime : ℕ) : ZMod fieldPrime) = _
  rw [ZMod.natCast_mod, Nat.cast_mul]
  rfl

end Evaluated

def evaluatedB : Evaluated := ⟨Curve.secp256r1.b.value⟩

/-- The coefficient `b` of the curve. -/
def coefficientB : ZMod fieldPrime := Curve.secp256r1.b.value

/-! ## Quadratics modulo the cubic -/

/-- The quadratic `c₀ + c₁t + c₂t²`. -/
structure CubicRemainder where
  c₀ : Evaluated
  c₁ : Evaluated
  c₂ : Evaluated
deriving DecidableEq

namespace CubicRemainder

/-- The product modulo `t³ = 3t − b` and `t⁴ = 3t² − bt`. -/
def mul (u v : CubicRemainder) : CubicRemainder :=
  let cubic := u.c₁ * v.c₂ + u.c₂ * v.c₁
  let quartic := u.c₂ * v.c₂
  { c₀ := u.c₀ * v.c₀ - evaluatedB * cubic
    c₁ := u.c₀ * v.c₁ + u.c₁ * v.c₀ + Triple.thrice cubic - evaluatedB * quartic
    c₂ := u.c₀ * v.c₂ + u.c₁ * v.c₁ + u.c₂ * v.c₀ + Triple.thrice quartic }

def eval (t : ZMod fieldPrime) (u : CubicRemainder) : ZMod fieldPrime :=
  u.c₀.residue + u.c₁.residue * t + u.c₂.residue * t ^ 2

/-- At a root of the cubic, values multiply. -/
theorem eval_mul {t : ZMod fieldPrime} (ht : t ^ 3 - 3 * t + coefficientB = 0)
    (u v : CubicRemainder) : (u.mul v).eval t = u.eval t * v.eval t := by
  have hb : evaluatedB.residue = coefficientB := rfl
  simp only [eval, mul, Triple.thrice, Evaluated.residue_add, Evaluated.residue_sub,
    Evaluated.residue_mul, hb]
  linear_combination (-(u.c₁.residue * v.c₂.residue + u.c₂.residue * v.c₁.residue) -
    u.c₂.residue * v.c₂.residue * t) * ht

def one : CubicRemainder := ⟨⟨1⟩, ⟨0⟩, ⟨0⟩⟩

def unknown : CubicRemainder := ⟨⟨0⟩, ⟨1⟩, ⟨0⟩⟩

theorem eval_one (t : ZMod fieldPrime) : one.eval t = 1 := by
  simp [eval, one, Evaluated.residue]

theorem eval_unknown (t : ZMod fieldPrime) : unknown.eval t = t := by
  simp [eval, unknown, Evaluated.residue]

/-- The power `p` of the unknown. -/
def frobenius : CubicRemainder := binaryPower mul 256 one unknown fieldPrime

theorem eval_frobenius {t : ZMod fieldPrime} (ht : t ^ 3 - 3 * t + coefficientB = 0) :
    frobenius.eval t = t := by
  have hmul : ∀ (u v : CubicRemainder) (k l : ℕ), u.eval t = t ^ k → v.eval t = t ^ l →
      (u.mul v).eval t = t ^ (k + l) := by
    intro u v k l hu hv
    rw [eval_mul ht, hu, hv, pow_add]
  have hlt : fieldPrime < 2 ^ 256 := Curve.secp256r1.p.value_lt
  have hone : one.eval t = t ^ 0 := by rw [eval_one, pow_zero]
  have hunknown : unknown.eval t = t ^ 1 := by rw [eval_unknown, pow_one]
  have h := binaryPower_spec hmul 256 hlt hone hunknown
  rwa [zero_add, mul_one, ZMod.pow_card] at h

/-- The inverse of `frobenius − unknown` modulo the cubic. -/
def witness : CubicRemainder where
  c₀ := ⟨76626890310466861426869089647039036757962535851890885406097439786770458211455⟩
  c₁ := ⟨74462945259064871768191128030512052509059297803194871526163573358218695456204⟩
  c₂ := ⟨34768139465301476436978405170953382516735956999154666452188405812258086013549⟩

theorem frobenius_sub_unknown_mul_witness :
    mul ⟨frobenius.c₀, frobenius.c₁ - ⟨1⟩, frobenius.c₂⟩ witness = one := by
  decide +kernel

end CubicRemainder

/-- **The cubic of the curve has no root.** -/
theorem noTwoTorsion_coefficientB : NoTwoTorsion coefficientB where
  two_ne_zero := by
    have h : ((2 : ℕ) : ZMod fieldPrime) ≠ 0 := by
      rw [Ne, ZMod.natCast_eq_zero_iff]
      exact Nat.not_dvd_of_pos_of_lt two_pos (by decide +kernel)
    exact_mod_cast h
  no_root t ht := by
    have hunit := congrArg (CubicRemainder.eval t) CubicRemainder.frobenius_sub_unknown_mul_witness
    have hfrob := CubicRemainder.eval_frobenius ht
    have hzero : CubicRemainder.eval t ⟨CubicRemainder.frobenius.c₀,
        CubicRemainder.frobenius.c₁ - ⟨1⟩, CubicRemainder.frobenius.c₂⟩ = 0 := by
      have hone : (⟨1⟩ : Evaluated).residue = 1 := Nat.cast_one
      unfold CubicRemainder.eval at hfrob ⊢
      rw [Evaluated.residue_sub, hone]
      linear_combination hfrob
    rw [CubicRemainder.eval_mul ht, hzero, zero_mul, CubicRemainder.eval_one] at hunit
    exact zero_ne_one hunit

end Secp256r1
