import Secp256r1.Point.Multiplication
import Secp256r1.Proofs.Point.Addition
import Secp256r1.Proofs.Scalar.Residue

/-!
# Multiples in windows are multiples in the group

* `lookUp_eq` — the pass over the table finds the entry at the index.
* `represents_getD_multiples` — the table holds `0·P, 1·P, …`.
* `Represents.windowStep` — one hexadecimal digit: `k` becomes `16k + d`.
* `Represents.mulOctets` — the multiple by any 32 octets; `represents_mulBase` and
  `Represents.mulAddBase` by scalars.
* `Represents.isInPrimeSubgroup` — every point passes the subgroup check.
* `Valid.validate_eq` — the full check refuses the identity only.
-/

set_option autoImplicit false

namespace Secp256r1

namespace ProjectivePoint

variable {t u : ProjectivePoint} {a b : CurveGroup}

/-! ## The table -/

theorem select_eq (p q : ProjectivePoint) (choice : Bool) :
    p.select q choice = if choice then q else p := by
  cases choice <;> simp [select]

/-- **A pass over a table** whose entries are numbered from `k` keeps the one at the index. -/
theorem foldl_select (index : UInt8) (table : List ProjectivePoint) (k : ℕ)
    (out : ProjectivePoint) (h : k + table.length ≤ UInt8.size) :
    (table.zipIdx k).foldl (fun out (entry, i) => out.select entry (UInt8.ofNat i == index)) out =
      if k ≤ index.toNat then table.getD (index.toNat - k) out else out := by
  induction table generalizing k out with
  | nil => simp
  | cons entry table ih =>
    rw [List.length_cons] at h
    -- the number of an entry fits into an octet, so that no other entry is taken for it
    have hk : (UInt8.ofNat k).toNat = k := UInt8.toNat_ofNat_of_lt' (by omega)
    have hout : out.select entry (UInt8.ofNat k == index) =
        if k = index.toNat then entry else out := by
      rw [select_eq]
      simp only [beq_iff_eq, ← UInt8.toNat_inj, hk]
    rw [List.zipIdx_cons, List.foldl_cons, ih (k + 1) _ (by omega)]
    simp only [hout]
    rcases lt_trichotomy k index.toNat with hlt | heq | hgt
    · rw [if_neg hlt.ne, if_pos (Nat.succ_le_of_lt hlt), if_pos hlt.le,
        show index.toNat - k = index.toNat - (k + 1) + 1 by omega, List.getD_cons_succ]
    · rw [if_pos heq, if_neg (by omega), if_pos heq.le, heq, Nat.sub_self, List.getD_cons_zero]
    · rw [if_neg hgt.ne', if_neg (by omega), if_neg (by omega)]

theorem lookUp_eq {table : List ProjectivePoint} (h : table.length ≤ UInt8.size) (index : UInt8) :
    lookUp table index = table.getD index.toNat identity := by
  unfold lookUp
  rw [foldl_select _ _ _ _ (by omega), if_pos (Nat.zero_le _), Nat.sub_zero]

theorem length_multiples (p : ProjectivePoint) : ∀ (count : ℕ) (q : ProjectivePoint),
    (multiples p count q).length = count
  | 0, _ => rfl
  | count + 1, q => by simp [multiples, length_multiples p count]

/-- **The table holds the multiples in order.** -/
theorem represents_getD_multiples (ht : t.Represents a) (count : ℕ) {u : ProjectivePoint} {k : ℕ}
    (hu : u.Represents (k • a)) (i : ℕ) (hi : i < count) :
    ((multiples t count u).getD i identity).Represents ((k + i) • a) := by
  induction count generalizing u k i with
  | zero => exact absurd hi (Nat.not_lt_zero i)
  | succ count ih =>
    cases i with
    | zero => exact hu
    | succ i =>
      have hnext : (u.add t).Represents ((k + 1) • a) := by
        rw [succ_nsmul]
        exact hu.add ht
      have hrest := ih hnext i (Nat.lt_of_succ_lt_succ hi)
      rwa [show k + 1 + i = k + (i + 1) by ring] at hrest

/-! ## Windows -/

/-- **One hexadecimal digit** multiplies by sixteen and adds the digit. -/
theorem Represents.windowStep (ht : t.Represents a) {k : ℕ} (hu : u.Represents (k • a))
    {digit : UInt8} (hd : digit.toNat < 16) :
    (windowStep (multiples t 16 identity) u digit).Represents ((16 * k + digit.toNat) • a) := by
  have hzero : identity.Represents (0 • a) := by
    rw [zero_nsmul]
    exact represents_identity
  have hentry := represents_getD_multiples ht 16 hzero digit.toNat hd
  rw [zero_add, ← lookUp_eq (by rw [length_multiples]; decide)] at hentry
  have hsum := hu.double.double.double.double.add hentry
  have hk : (16 * k + digit.toNat) • a = k • a + k • a + (k • a + k • a) +
      (k • a + k • a + (k • a + k • a)) + (k • a + k • a + (k • a + k • a) +
      (k • a + k • a + (k • a + k • a))) + digit.toNat • a := by
    simp only [← add_nsmul]
    congr 1
    ring
  rw [hk]
  exact hsum

/-- **The multiple by any 32 octets.** -/
theorem Represents.mulOctets (ht : t.Represents a) (k : Octets 32) :
    (t.mulOctets k).Represents (k.value • a) := by
  have hstep : ∀ d ∈ k.nibbles, ∀ (u : ProjectivePoint) (l : ℕ), u.Represents (l • a) →
      (ProjectivePoint.windowStep (multiples t 16 identity) u d).Represents
        ((16 * l + d.toNat) • a) :=
    fun d hd u l hu => ht.windowStep hu (k.nibbles_lt d hd)
  have hzero : identity.Represents (0 • a) := by
    rw [zero_nsmul]
    exact represents_identity
  rw [← k.value_nibbles]
  exact foldl_digits k.nibbles hstep hzero

end ProjectivePoint

namespace Point

variable {p q : Point} {a b : CurveGroup}

/-- **The multiple of an affine point** by any 32 octets, reduced or not. -/
theorem Represents.mulOctets (hp : p.Represents a) (k : Octets 32) :
    (p.mulOctets k).Represents (k.value • a) := (hp.toProjective.mulOctets k).toAffine

theorem Represents.mul (hp : p.Represents a) (k : Scalar) : (mul k p).Represents (k.value • a) :=
  hp.mulOctets k.toOctets

theorem represents_mulBase (k : Scalar) : (mulBase k).Represents (k.value • basePoint) :=
  represents_generator.mul k

theorem Represents.mulAddBase (hq : q.Represents b) (u₁ u₂ : Scalar) :
    (mulAddBase u₁ u₂ q).Represents (u₁.value • basePoint + u₂.value • b) :=
  ((represents_generator.toProjective.mulOctets u₁.toOctets).add
    (hq.toProjective.mulOctets u₂.toOctets)).toAffine

/-! ## Validation -/

theorem Represents.mulOctets_order (hp : p.Represents a) :
    p.mulOctets Curve.secp256r1.n = identity := by
  have h := hp.mulOctets Curve.secp256r1.n
  rw [← represents_zero_iff, ← groupOrder_nsmul a]
  exact h

/-- **Every point passes the subgroup check.** -/
theorem Represents.isInPrimeSubgroup_eq (hp : p.Represents a) : p.isInPrimeSubgroup = true := by
  unfold isInPrimeSubgroup
  rw [hp.mulOctets_order]
  rfl

/-- **The full check refuses the identity only.** -/
theorem Valid.validate_eq (hp : p.Valid) : p.validate =
    if p.isIdentity then .error (.pointNotOnCurve "P-256 public point is the identity")
    else .ok () := by
  rw [validate, hp.represents.isInPrimeSubgroup_eq]
  split
  · rfl
  · rename_i h
    have hfinite : p.isIdentity = false := by simpa using h
    rw [ofCoordinates_eq_ok_iff.mpr ⟨hp, hfinite, rfl, rfl⟩]
    rfl

end Point

end Secp256r1
