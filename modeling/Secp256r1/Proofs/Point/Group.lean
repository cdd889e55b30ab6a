import Secp256r1.Point
import Secp256r1.Proofs.Field.Residue
import Secp256r1.Proofs.Group.Order

/-!
# Affine points as elements of the group

* `Point.Valid` — the identity with zero coordinates, or reduced coordinates on the curve.
* `Point.toGroup` — the element of the group that a point stands for.
* `Point.Represents` — a valid point standing for a given element; each element has exactly one.
* `Valid.equal_iff` — valid points compare equal exactly if they are the same.
* `Point.ofCoordinates_eq_ok_iff` — what the checked constructor accepts.
* `Point.ofRaw_eq_ok_iff`, `Point.decode_eq_ok_iff` — what is read is exactly what is written for
  finite valid points.
* `Represents.negate` — the mirror point is the negative.
-/

set_option autoImplicit false

namespace Secp256r1

open WeierstrassCurve.Affine.Point (some)

namespace Point

/-- The identity with zero coordinates, or reduced coordinates on the curve. -/
structure Valid (p : Point) : Prop where
  eq_identity : p.isIdentity = true → p = identity
  x_lt : p.x.value < fieldPrime
  y_lt : p.y.value < fieldPrime
  equation : p.isIdentity = false → CurveEquation coefficientB p.x.value p.y.value

/-- The element of the group: zero for the identity (and for what is no point at all). -/
def toGroup (p : Point) : CurveGroup :=
  if h : p.isIdentity = false ∧ CurveEquation coefficientB p.x.value p.y.value then
    some _ _ (noTwoTorsion_coefficientB.nonsingular_iff.mpr h.2)
  else 0

/-- The point is valid and stands for the element. -/
def Represents (p : Point) (a : CurveGroup) : Prop := p.Valid ∧ p.toGroup = a

variable {p q : Point} {a b : CurveGroup}

theorem Valid.represents (h : p.Valid) : p.Represents p.toGroup := ⟨h, rfl⟩

theorem Represents.unique (ha : p.Represents a) (hb : p.Represents b) : a = b :=
  ha.2.symm.trans hb.2

theorem valid_identity : identity.Valid where
  eq_identity _ := rfl
  x_lt := FieldElement.represents_zero.lt
  y_lt := FieldElement.represents_zero.lt
  equation h := by cases h

theorem valid_of_finite (hfinite : p.isIdentity = false) (hx : p.x.value < fieldPrime)
    (hy : p.y.value < fieldPrime) (heq : CurveEquation coefficientB p.x.value p.y.value) :
    p.Valid where
  eq_identity ht := by
    rw [hfinite] at ht
    cases ht
  x_lt := hx
  y_lt := hy
  equation _ := heq

theorem represents_zero_iff : p.Represents 0 ↔ p = identity := by
  constructor
  · rintro ⟨hvalid, hzero⟩
    by_contra hne
    have hfinite : p.isIdentity = false := by
      rw [Bool.eq_false_iff]
      exact fun h => hne (hvalid.eq_identity h)
    unfold toGroup at hzero
    rw [dif_pos ⟨hfinite, hvalid.equation hfinite⟩] at hzero
    exact WeierstrassCurve.Affine.Point.some_ne_zero _ hzero
  · rintro rfl
    exact ⟨valid_identity, dif_neg fun h => by cases h.1⟩

theorem represents_some_iff {x y : ZMod fieldPrime}
    {h : (weierstrass coefficientB).Nonsingular x y} :
    p.Represents (some x y h) ↔ p.isIdentity = false ∧ p.x.Represents x ∧ p.y.Represents y := by
  constructor
  · rintro ⟨hvalid, hsome⟩
    have hx := FieldElement.represents_of_lt hvalid.x_lt
    have hy := FieldElement.represents_of_lt hvalid.y_lt
    unfold toGroup at hsome
    split at hsome
    · rename_i hcond
      obtain ⟨rfl, rfl⟩ := (WeierstrassCurve.Affine.Point.some.injEq ..).mp hsome
      exact ⟨hcond.1, hx, hy⟩
    · exact absurd hsome.symm (WeierstrassCurve.Affine.Point.some_ne_zero h)
  · rintro ⟨hfinite, hx, hy⟩
    have heq : CurveEquation coefficientB (p.x.value : ZMod fieldPrime) p.y.value := by
      rw [hx.cast, hy.cast]
      exact equation_of_nonsingular h
    refine ⟨valid_of_finite hfinite hx.lt hy.lt heq, ?_⟩
    unfold toGroup
    rw [dif_pos ⟨hfinite, heq⟩, WeierstrassCurve.Affine.Point.some.injEq]
    exact ⟨hx.cast, hy.cast⟩

/-- **An element has one point.** -/
theorem Represents.ext (hp : p.Represents a) (hq : q.Represents a) : p = q := by
  cases a with
  | zero => rw [represents_zero_iff.mp hp, represents_zero_iff.mp hq]
  | some x y h =>
    obtain ⟨hp0, hpx, hpy⟩ := represents_some_iff.mp hp
    obtain ⟨hq0, hqx, hqy⟩ := represents_some_iff.mp hq
    exact Point.ext (hp0.trans hq0.symm) (hpx.ext hqx) (hpy.ext hqy)

theorem Represents.isIdentity_iff (h : p.Represents a) : p.isIdentity = true ↔ a = 0 := by
  cases a with
  | zero =>
    rw [represents_zero_iff.mp h]
    exact iff_of_true rfl rfl
  | some x y ha =>
    rw [(represents_some_iff.mp h).1]
    exact iff_of_false (by simp) (WeierstrassCurve.Affine.Point.some_ne_zero ha)

/-- **Two valid points compare equal exactly if they are the same.** -/
theorem Valid.equal_iff (hp : p.Valid) (hq : q.Valid) : p.equal q = true ↔ p = q := by
  simp only [equal, Bool.or_eq_true, Bool.and_eq_true, Bool.not_eq_true', FieldElement.equal_iff]
  constructor
  · rintro (⟨hpi, hqi⟩ | ⟨⟨hpi, hqi⟩, hx, hy⟩)
    · rw [hp.eq_identity hpi, hq.eq_identity hqi]
    · exact Point.ext (hpi.trans hqi.symm) hx hy
  · rintro rfl
    simp only [and_self, and_true]
    exact Bool.eq_false_or_eq_true _

/-! ## The base point and the mirror point -/

theorem represents_generator : generator.Represents basePoint := by
  unfold basePoint
  rw [represents_some_iff]
  exact ⟨rfl, FieldElement.represents_ofConstant (by decide +kernel),
    FieldElement.represents_ofConstant (by decide +kernel)⟩

theorem represents_identity : identity.Represents 0 := represents_zero_iff.mpr rfl

/-- **The mirror point is the negative.** -/
theorem Represents.negate (h : p.Represents a) : p.negate.Represents (-a) := by
  cases a with
  | zero =>
    have hneg : FieldElement.zero.negate = FieldElement.zero := by
      have h0 := FieldElement.represents_zero.negate
      rw [neg_zero] at h0
      exact h0.ext FieldElement.represents_zero
    have h0 : -(.zero : CurveGroup) = 0 := rfl
    rw [h0, represents_zero_iff, represents_zero_iff.mp h]
    exact Point.ext rfl rfl hneg
  | some x y ha =>
    rw [WeierstrassCurve.Affine.Point.neg_some, represents_some_iff, negY_eq]
    obtain ⟨hfinite, hx, hy⟩ := represents_some_iff.mp h
    exact ⟨hfinite, hx, hy.negate⟩

/-! ## Checked constructors -/

theorem represents_curveB : FieldElement.curveB.Represents coefficientB :=
  FieldElement.represents_ofConstant (by decide +kernel)

/-- **The curve check decides the curve equation.** -/
theorem isOnCurve_iff {x y : FieldElement} {u v : ZMod fieldPrime} (hx : x.Represents u)
    (hy : y.Represents v) : isOnCurve x y = true ↔ v ^ 2 = u ^ 3 - 3 * u + coefficientB := by
  unfold isOnCurve
  rw [hy.square.equal_iff (((hx.square.mul hx).sub hx.triple).add represents_curveB),
    ← pow_succ]

/-- The constructor reads both coordinates and checks the equation. -/
theorem ofCoordinates_eq_ok {x y : Octets 32} : ofCoordinates x y = .ok p ↔
    FieldElement.ofOctets x = .ok p.x ∧ FieldElement.ofOctets y = .ok p.y ∧
      isOnCurve p.x p.y = true ∧ p.isIdentity = false := by
  unfold ofCoordinates
  cases FieldElement.ofOctets x with
  | error e => simp [Except.mapError, bind, Except.bind]
  | ok u =>
    cases FieldElement.ofOctets y with
    | error e => simp [Except.mapError, bind, Except.bind]
    | ok v =>
      simp only [Except.mapError, checkOnCurve, bind, Except.bind, pure, Except.pure,
        Except.ok.injEq]
      constructor
      · intro h
        split at h
        · cases h
        · rename_i hc
          cases h
          simpa using hc
      · rintro ⟨rfl, rfl, hc, hfinite⟩
        rw [hc, ← hfinite]
        rfl

/-- **Exactly the reduced coordinates on the curve are accepted**, and kept as they are. -/
theorem ofCoordinates_eq_ok_iff {x y : Octets 32} : ofCoordinates x y = .ok p ↔
    p.Valid ∧ p.isIdentity = false ∧ p.x.toOctets = x ∧ p.y.toOctets = y := by
  rw [ofCoordinates_eq_ok, FieldElement.ofOctets_eq_ok_iff, FieldElement.ofOctets_eq_ok_iff]
  constructor
  · rintro ⟨⟨hx, rfl⟩, ⟨hy, rfl⟩, hc, hfinite⟩
    have heq := (isOnCurve_iff (FieldElement.represents_of_lt hx)
      (FieldElement.represents_of_lt hy)).mp hc
    exact ⟨valid_of_finite hfinite hx hy heq, hfinite, rfl, rfl⟩
  · rintro ⟨hvalid, hfinite, rfl, rfl⟩
    exact ⟨⟨hvalid.x_lt, rfl⟩, ⟨hvalid.y_lt, rfl⟩,
      (isOnCurve_iff (FieldElement.represents_of_lt hvalid.x_lt)
        (FieldElement.represents_of_lt hvalid.y_lt)).mpr (hvalid.equation hfinite), hfinite⟩

/-- **The raw form that is read is the one written** for a finite valid point. -/
theorem ofRaw_eq_ok_iff {o : Octets 64} :
    ofRaw o = .ok p ↔ p.Valid ∧ p.isIdentity = false ∧ p.toRaw = o := by
  obtain ⟨x, y, rfl⟩ := Octets.exists_eq_append (m := 32) (n := 32) o
  unfold ofRaw
  rw [Octets.split_append, toRaw, Octets.append_inj]
  exact ofCoordinates_eq_ok_iff

theorem encode_of_finite (h : p.isIdentity = false) :
    p.encode = (Octets.replicate 1 0x04).append p.toRaw := by
  unfold encode
  rw [if_neg (by rw [h]; exact Bool.false_ne_true)]

/-- **The encoded form that is read is the one written** for a finite valid point. -/
theorem decode_eq_ok_iff {bs : List UInt8} : decode bs = .ok p ↔
    p.Valid ∧ p.isIdentity = false ∧ p.encode.toList = bs := by
  unfold decode
  cases ho : Octets.ofList? 65 bs with
  | none =>
    refine iff_of_false (by simp) ?_
    rintro ⟨-, -, h⟩
    exact Octets.toList_ne_of_ofList?_eq_none ho _ h
  | some o =>
    rw [← Octets.ofList?_eq_some_iff.mp ho]
    obtain ⟨tag, raw, rfl⟩ := Octets.exists_eq_append (m := 1) (n := 64) o
    have hencode : p.isIdentity = false →
        (p.encode.toList = (tag.append raw).toList ↔ tag.toList = [0x04] ∧ p.toRaw = raw) := by
      intro hfinite
      rw [encode_of_finite hfinite, ← Octets.ext_iff, Octets.append_inj, eq_comm, Octets.ext_iff]
      rfl
    simp only [Octets.split_append]
    by_cases htag : tag.toList = [0x04]
    · rw [if_pos htag, ofRaw_eq_ok_iff]
      refine and_congr_right fun _ => and_congr_right fun hfinite => ?_
      rw [hencode hfinite]
      exact ⟨fun h => ⟨htag, h⟩, And.right⟩
    · rw [if_neg htag]
      refine iff_of_false (by simp) ?_
      rintro ⟨-, hfinite, h⟩
      exact htag ((hencode hfinite).mp h).1

end Point

end Secp256r1
