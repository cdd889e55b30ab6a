import Secp256r1.Proofs.Point.Obtainable

/-!
# Points have one form

A point is kept either as the flag with zero coordinates or as reduced coordinates on the curve.
The pair `(0, 0)` is not on the curve, so that the coordinates alone tell the identity from
every other point, and comparing points comes to comparing what they write.

* `Valid.isIdentity_iff` — the flag is determined by the coordinates.
* `Valid.toRaw_inj`, `Valid.encode_inj` — points are told apart by either form that they write.
* `Valid.decode_encode` — what a point writes reads back as the point, except for the identity.
* `obtainable_canonical` — the same for every point within reach.
-/

set_option autoImplicit false

namespace Secp256r1

namespace Point

variable {p q : Point}

/-- **Only the identity has zero coordinates.** -/
theorem Valid.isIdentity_iff (hp : p.Valid) :
    p.isIdentity = true ↔ p.x = .zero ∧ p.y = .zero := by
  constructor
  · intro h
    rw [hp.eq_identity h]
    exact ⟨rfl, rfl⟩
  · rintro ⟨hx, hy⟩
    by_contra h
    have hequation := hp.equation (by simpa using h)
    rw [hx, hy, FieldElement.represents_zero.cast] at hequation
    -- zero would be a root of the cubic
    unfold CurveEquation at hequation
    apply noTwoTorsion_coefficientB.no_root 0
    linear_combination -hequation

/-- **Points are told apart by their coordinates.** -/
theorem Valid.toRaw_inj (hp : p.Valid) (hq : q.Valid) : p.toRaw = q.toRaw ↔ p = q := by
  unfold toRaw
  rw [Octets.append_inj, FieldElement.toOctets_inj, FieldElement.toOctets_inj]
  constructor
  · rintro ⟨hx, hy⟩
    have hflag : p.isIdentity = q.isIdentity := by
      rw [Bool.eq_iff_iff, hp.isIdentity_iff, hq.isIdentity_iff, hx, hy]
    exact Point.ext hflag hx hy
  · rintro rfl
    exact ⟨rfl, rfl⟩

/-- **What a point writes reads back as the point**; the identity writes a tag that is refused. -/
theorem Valid.decode_encode (hp : p.Valid) : decode p.encode.toList =
    if p.isIdentity then .error (.pointNotOnCurve "P-256 Point tag") else .ok p := by
  cases h : p.isIdentity with
  | true =>
    rw [hp.eq_identity h]
    rfl
  | false => exact decode_eq_ok_iff.mpr ⟨hp, h, rfl⟩

/-- **Points are told apart by their encodings.** -/
theorem Valid.encode_inj (hp : p.Valid) (hq : q.Valid) : p.encode = q.encode ↔ p = q := by
  constructor
  · intro h
    have hread := hp.decode_encode
    rw [h, hq.decode_encode] at hread
    cases hpi : p.isIdentity with
    | true =>
      cases hqi : q.isIdentity with
      | true => rw [hp.eq_identity hpi, hq.eq_identity hqi]
      | false => simp [hpi, hqi] at hread
    | false =>
      cases hqi : q.isIdentity with
      | true => simp [hpi, hqi] at hread
      | false =>
        simp only [hpi, hqi, Bool.false_eq_true, if_false, Except.ok.injEq] at hread
        exact hread.symm
  · rintro rfl
    rfl

/-- **Every point within reach is canonical**: it is the flag with zero coordinates, or has reduced
coordinates on the curve.  Two of them compare equal exactly if they write the same encoding, and
exactly if they write the same coordinates; and a finite one is read back from its encoding, while
that of the identity is refused. -/
theorem obtainable_canonical :
    (∀ p : Point, Obtainable p →
      (p.isIdentity = true ∧ p.x = .zero ∧ p.y = .zero ∨
        p.isIdentity = false ∧ p.x.value < fieldPrime ∧ p.y.value < fieldPrime ∧
          CurveEquation coefficientB p.x.value p.y.value) ∧
      (p.isIdentity = false → decode p.encode.toList = .ok p) ∧
      (p.isIdentity = true →
        decode p.encode.toList = .error (.pointNotOnCurve "P-256 Point tag"))) ∧
    ∀ p q : Point, Obtainable p → Obtainable q →
      (p.equal q = true ↔ p = q) ∧
      (p.equal q = true ↔ p.encode = q.encode) ∧
      (p.equal q = true ↔ p.toRaw = q.toRaw) := by
  constructor
  · intro p hp
    have hvalid := hp.valid
    have hread := hvalid.decode_encode
    cases h : p.isIdentity with
    | true =>
      rw [h, if_pos rfl] at hread
      refine ⟨.inl ⟨rfl, hvalid.isIdentity_iff.mp h⟩, fun hfinite => ?_, fun _ => hread⟩
      cases hfinite
    | false =>
      rw [h, if_neg Bool.false_ne_true] at hread
      refine ⟨.inr ⟨rfl, hvalid.x_lt, hvalid.y_lt, hvalid.equation h⟩, fun _ => hread,
        fun hidentity => ?_⟩
      cases hidentity
  · intro p q hp hq
    have hequal := hp.valid.equal_iff hq.valid
    refine ⟨hequal, ?_, ?_⟩
    · rw [hequal, hp.valid.encode_inj hq.valid]
    · rw [hequal, hp.valid.toRaw_inj hq.valid]

/-- The base point and its sum with its mirror point, which is the identity. -/
theorem obtainable_canonical_generator :
    generator.equal (generator.add generator.negate) = false ∧
    decode generator.encode.toList = .ok generator ∧
    decode (generator.add generator.negate).encode.toList =
      .error (.pointNotOnCurve "P-256 Point tag") ∧
    generator.toRaw ≠ (generator.add generator.negate).toRaw := by
  have hreach : Obtainable (generator.add generator.negate) := .add .generator (.negate .generator)
  have hidentity : generator.add generator.negate = identity := by
    have h := represents_generator.add represents_generator.negate
    rwa [add_neg_cancel, represents_zero_iff] at h
  have hequal : generator.equal (generator.add generator.negate) = false := by
    rw [hidentity]
    decide
  obtain ⟨-, -, hraw⟩ := obtainable_canonical.2 _ _ .generator hreach
  refine ⟨hequal, (obtainable_canonical.1 _ .generator).2.1 rfl,
    (obtainable_canonical.1 _ hreach).2.2 (by rw [hidentity]; rfl), fun h => ?_⟩
  rw [hraw.mpr h] at hequal
  cases hequal

end Point

end Secp256r1
