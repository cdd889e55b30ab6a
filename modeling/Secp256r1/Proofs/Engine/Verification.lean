import Secp256r1.Engine
import Secp256r1.Proofs.Keys

/-!
# Verification decides the signature relation

On the software backend, the components `r` and `s` match a digest `z` under a key `Q` if some
finite point `R` has an abscissa that is `r` modulo `n` and satisfies `s·R = z·G + r·Q`.

* `SignatureRelation` — that relation.
* `accepts_iff` — the last step of verification looks at the abscissa of a finite point.
* `verify_eq` — components in `[1, n-1]` get an answer, which is the relation.
* `verify_decides` — the same for keys read from their encoded form.
-/

set_option autoImplicit false

namespace Secp256r1

open WeierstrassCurve.Affine.Point (some)

/-- A finite point with abscissa `r` modulo `n` satisfies the equation of the signature. -/
def SignatureRelation (z r s : ℕ) (q : CurveGroup) : Prop :=
  ∃ (x y : ZMod fieldPrime) (h : (weierstrass coefficientB).Nonsingular x y),
    x.val % groupOrder = r ∧ s • (some x y h : CurveGroup) = z • basePoint + r • q

namespace Engine

variable {ν σ : Type} {e : Engine ν σ Unit}

/-- Acceptance looks at the abscissa of a finite point. -/
theorem accepts_iff {p : Point} {a : CurveGroup} (hp : p.Represents a) (r : Octets 32) :
    accepts p r = true ↔ ∃ (x y : ZMod fieldPrime)
      (h : (weierstrass coefficientB).Nonsingular x y), a = some x y h ∧
        x.val % groupOrder = r.value := by
  have hreduce := Scalar.represents_reduce p.x.toOctets
  rw [Scalar.Represents, ZMod.val_natCast, FieldElement.value_toOctets] at hreduce
  unfold accepts
  rw [Bool.and_eq_true, Bool.not_eq_true', ConstantTime.equal_iff, ← Octets.ext_iff,
    ← Octets.value_inj]
  unfold Scalar.value at hreduce
  rw [hreduce]
  cases a with
  | zero =>
    rw [Point.represents_zero_iff.mp hp]
    refine iff_of_false (fun h => by cases h.1) ?_
    rintro ⟨x, y, h, hzero, -⟩
    exact WeierstrassCurve.Affine.Point.some_ne_zero h hzero.symm
  | some x y h =>
    obtain ⟨hfinite, hx, -⟩ := Point.represents_some_iff.mp hp
    rw [hx]
    constructor
    · rintro ⟨-, hr⟩
      exact ⟨x, y, h, rfl, hr⟩
    · rintro ⟨x', y', h', heq, hr⟩
      cases heq
      exact ⟨hfinite, hr⟩

theorem readSignature_eq {g : Signature} (hr : 0 < g.r.value ∧ g.r.value < groupOrder)
    (hs : 0 < g.s.value ∧ g.s.value < groupOrder) :
    readSignature g = .ok (⟨⟨g.r⟩⟩, Scalar.inverseTotal ⟨⟨g.s⟩⟩) := by
  have hcr : Scalar.ofCanonical g.r = .ok ⟨⟨g.r⟩⟩ := Scalar.ofCanonical_eq_ok_iff.mpr ⟨rfl, hr⟩
  have hcs : Scalar.ofCanonical g.s = .ok ⟨⟨g.s⟩⟩ := Scalar.ofCanonical_eq_ok_iff.mpr ⟨rfl, hs⟩
  have hinv : Scalar.inverse ⟨⟨g.s⟩⟩ = .ok (Scalar.inverseTotal ⟨⟨g.s⟩⟩) := by
    rw [Scalar.inverse_eq, if_neg]
    exact hs.1.ne'
  simp only [readSignature, component, hcr, hcs, hinv, Except.mapError, relabel, bind, Except.bind,
    pure, Except.pure]

/-- The point that verification looks at: `s` times it is `z·G + r·Q`. -/
theorem smul_eq_iff {s : ZMod groupOrder} (hs : s ≠ 0) (z r : ZMod groupOrder) (q a : CurveGroup) :
    s • a = z • basePoint + r • q ↔ (z * s⁻¹) • basePoint + (r * s⁻¹) • q = a := by
  have hfactor : (z * s⁻¹) • basePoint + (r * s⁻¹) • q = s⁻¹ • (z • basePoint + r • q) := by
    rw [smul_add, smul_smul, smul_smul, mul_comm z, mul_comm r]
  rw [hfactor]
  constructor
  · intro h
    rw [← h, smul_smul, inv_mul_cancel₀ hs, one_smul]
  · rintro rfl
    rw [smul_smul, mul_inv_cancel₀ hs, one_smul]

/-- **Verification answers the relation** for components in `[1, n-1]` and a live key. -/
theorem verify_eq (he : e.backend = .software) {key : PublicKey} (hkey : key.Live)
    (digest : Digest) {g : Signature} (hr : 0 < g.r.value ∧ g.r.value < groupOrder)
    (hs : 0 < g.s.value ∧ g.s.value < groupOrder) :
    ∃ accepted : Bool, (e.verify digest key g).1 = .ok accepted ∧
      (accepted = true ↔ SignatureRelation (digest.octets.value % groupOrder) g.r.value g.s.value
        key.point.toGroup) := by
  obtain ⟨u₁, hu₁⟩ : ∃ u, u = Scalar.reduce digest.octets * Scalar.inverseTotal ⟨⟨g.s⟩⟩ := ⟨_, rfl⟩
  obtain ⟨u₂, hu₂⟩ : ∃ u, u = (⟨⟨g.r⟩⟩ : Scalar) * Scalar.inverseTotal ⟨⟨g.s⟩⟩ := ⟨_, rfl⟩
  have hp := hkey.1.represents.mulAddBase u₁ u₂
  have hverify : (e.verify digest key g).1 = .ok (accepts (.mulAddBase u₁ u₂ key.point) g.r) := by
    simp only [verify, readSignature_eq hr hs, onDevice, he, Backend.software, ← hu₁, ← hu₂]
    rfl
  refine ⟨_, hverify, ?_⟩
  rw [accepts_iff hp]
  -- the two multipliers as residues
  have hsne : (g.s.value : ZMod groupOrder) ≠ 0 := by
    rw [Ne, ZMod.natCast_eq_zero_iff]
    exact Nat.not_dvd_of_pos_of_lt hs.1 hs.2
  have hinv := Scalar.represents_inverseTotal ⟨⟨g.s⟩⟩
  have hz := Scalar.represents_reduce digest.octets
  have hrr : Scalar.Represents ⟨⟨g.r⟩⟩ g.r.value := Scalar.represents_of_lt hr.2
  have h₁ := (hz.mul hinv).cast
  have h₂ := (hrr.mul hinv).cast
  rw [← hu₁] at h₁
  rw [← hu₂] at h₂
  have hpoint : u₁.value • basePoint + u₂.value • key.point.toGroup =
      ((digest.octets.value : ZMod groupOrder) * (g.s.value : ZMod groupOrder)⁻¹) • basePoint +
        ((g.r.value : ZMod groupOrder) * (g.s.value : ZMod groupOrder)⁻¹) • key.point.toGroup := by
    rw [← Nat.cast_smul_eq_nsmul (ZMod groupOrder), ← Nat.cast_smul_eq_nsmul (ZMod groupOrder), h₁, h₂]
    rfl
  have hrel (a : CurveGroup) : g.s.value • a = (digest.octets.value % groupOrder) • basePoint +
      g.r.value • key.point.toGroup ↔
      u₁.value • basePoint + u₂.value • key.point.toGroup = a := by
    rw [hpoint, ← smul_eq_iff hsne, ← Nat.cast_smul_eq_nsmul (ZMod groupOrder) g.s.value,
      ← Nat.cast_smul_eq_nsmul (ZMod groupOrder) (digest.octets.value % groupOrder),
      ← Nat.cast_smul_eq_nsmul (ZMod groupOrder) g.r.value, ZMod.natCast_mod]
  constructor
  · rintro ⟨x, y, h, ha, hx⟩
    exact ⟨x, y, h, hx, (hrel _).mpr ha⟩
  · rintro ⟨x, y, h, hx, ha⟩
    exact ⟨x, y, h, (hrel _).mp ha, hx⟩

/-- **Verification decides the signature relation**: for a key read from its encoded form, any
digest and components in `[1, n-1]`, the answer is `true` exactly if the relation holds, and
`false` otherwise. -/
theorem verify_decides (he : e.backend = .software) {encoded : List UInt8} {key : PublicKey}
    (hkey : PublicKey.decode encoded = .ok key) (digest : Digest) {g : Signature}
    (hr : 0 < g.r.value ∧ g.r.value < groupOrder) (hs : 0 < g.s.value ∧ g.s.value < groupOrder) :
    ∃ accepted : Bool, (e.verify digest key g).1 = .ok accepted ∧
      (accepted = true ↔ SignatureRelation (digest.octets.value % groupOrder) g.r.value g.s.value
        key.point.toGroup) :=
  verify_eq he (PublicKey.decode_eq_ok_iff.mp hkey).1 digest hr hs

/-- An engine without nonces. -/
def verifier : Engine Unit Unit Unit :=
  ⟨⟨none, fun _ _ ν => (.ok (), ν), fun _ _ _ => none⟩, .software, (), ()⟩

/-- The digest 0 and the components 1 under the key of the base point. -/
theorem verify_decides_generator :
    ∃ accepted : Bool,
      (verifier.verify ⟨.zero 32⟩ ⟨.generator⟩ ⟨Scalar.one.toOctets, Scalar.one.toOctets⟩).1 =
        .ok accepted ∧
      (accepted = true ↔ SignatureRelation ((Octets.zero 32).value % groupOrder)
        Scalar.one.toOctets.value Scalar.one.toOctets.value Point.generator.toGroup) :=
  verify_decides rfl
    (PublicKey.decode_eq_ok_iff.mpr ⟨⟨Point.represents_generator.1, rfl⟩, rfl⟩) ⟨.zero 32⟩
    (g := ⟨Scalar.one.toOctets, Scalar.one.toOctets⟩) (by decide +kernel) (by decide +kernel)

end Engine

end Secp256r1
