import Mathlib.Data.Set.Card
import Secp256r1.Proofs.Engine.Verification

/-!
# What is accepted beside the original

Behind a first component `r` stand the finite points with abscissa `r` modulo `n`: two for the
abscissa `r`, and two more for `r + n` if that is still below `p`.  Whatever two of the digest, the
second component and the key are fixed, such a point determines the third.

* `card_pointsBehind_le` — at most four points stand behind `r`, and two for large `r`.
* `verify_eq_ok_true_iff` — what verification accepts, with the ranges of the components.
* `encard_accepted_digests_eq` — as many residues of digests are accepted as there are such points.
* `accepted_at_most_four` — **tampering with one input leaves at most four acceptances**.
* `SignatureRelation.mirror`, `verify_mirror` — **`s` and `n − s` are verified alike**.
-/

set_option autoImplicit false

namespace Secp256r1

open WeierstrassCurve.Affine.Point (some)

/-- Values that are each tied to an element of a set, no two to the same one, are no more than the
elements. -/
theorem encard_le_of_determined {α β : Type} {A : Set α} {S : Set β} (tied : α → β → Prop)
    (hex : ∀ a ∈ A, ∃ p ∈ S, tied a p)
    (hdet : ∀ a ∈ A, ∀ a' ∈ A, ∀ p ∈ S, tied a p → tied a' p → a = a') : A.encard ≤ S.encard := by
  choose f hmem htied using hex
  have hinjective : Function.Injective fun a : A => (⟨f a a.2, hmem a a.2⟩ : S) := by
    intro a a' heq
    have hsame : f a a.2 = f a' a'.2 := congrArg Subtype.val heq
    exact Subtype.ext (hdet a a.2 a' a'.2 _ (hmem a a.2) (htied a a.2) (hsame ▸ htied a' a'.2))
  exact Function.Embedding.encard_le ⟨_, hinjective⟩

/-! ## Points behind a first component -/

/-- The finite points with abscissa `r` modulo `n`. -/
def pointsBehind (r : ℕ) : Set CurveGroup :=
  {a | ∃ (x y : ZMod fieldPrime) (h : (weierstrass coefficientB).Nonsingular x y),
    a = some x y h ∧ x.val % groupOrder = r}

/-- How many points can stand behind a first component. -/
def acceptanceBound (r : ℕ) : ℕ := if fieldPrime - groupOrder ≤ r then 2 else 4

/-- The abscissae that are `r` modulo `n`. -/
def abscissae (r : ℕ) : Finset (ZMod fieldPrime) :=
  if fieldPrime - groupOrder ≤ r then {(r : ZMod fieldPrime)}
  else {(r : ZMod fieldPrime), ((r + groupOrder : ℕ) : ZMod fieldPrime)}

theorem mem_abscissae {x : ZMod fieldPrime} {r : ℕ} (h : x.val % groupOrder = r) :
    x ∈ abscissae r := by
  have hlt : x.val < fieldPrime := x.val_lt
  have hsizes : groupOrder < fieldPrime ∧ fieldPrime < 2 * groupOrder := by decide +kernel
  have hx : x = ((x.val : ℕ) : ZMod fieldPrime) := (ZMod.natCast_zmod_val x).symm
  have hval : x.val = r ∨ x.val = r + groupOrder ∧ r < fieldPrime - groupOrder := by
    have hdiv := Nat.div_add_mod x.val groupOrder
    have hquot : x.val / groupOrder < 2 := Nat.div_lt_of_lt_mul (by omega)
    rcases Nat.lt_succ_iff.mp hquot |>.lt_or_eq with h0 | h1
    · rw [Nat.lt_one_iff.mp h0] at hdiv
      omega
    · rw [h1] at hdiv
      omega
  unfold abscissae
  split
  · rw [Finset.mem_singleton, hx]
    rcases hval with hval | ⟨-, hsmall⟩
    · rw [hval]
    · omega
  · rw [Finset.mem_insert, Finset.mem_singleton, hx]
    exact hval.imp (fun h => by rw [h]) fun h => by rw [h.1]

theorem card_abscissae_le (r : ℕ) : 2 * (abscissae r).card ≤ acceptanceBound r := by
  unfold abscissae acceptanceBound
  split
  · exact (congrArg (2 * ·) (Finset.card_singleton _)).le
  · exact Nat.mul_le_mul_left 2 Finset.card_le_two

/-- **At most four points stand behind a first component**, and two if it is large. -/
theorem card_pointsBehind_le (r : ℕ) : (pointsBehind r).encard ≤ acceptanceBound r := by
  let behind : Finset (Option (ZMod fieldPrime × Bool)) :=
    (abscissae r ×ˢ Finset.univ).map Function.Embedding.some
  have hmaps : Set.MapsTo compressed (pointsBehind r) behind := by
    rintro _ ⟨x, y, h, rfl, hx⟩
    exact Finset.mem_map_of_mem _ (Finset.mem_product.mpr ⟨mem_abscissae hx, Finset.mem_univ _⟩)
  have hcard : behind.card ≤ acceptanceBound r := by
    rw [Finset.card_map, Finset.card_product, Finset.card_univ, Fintype.card_bool, mul_comm]
    exact card_abscissae_le r
  refine (Set.encard_le_encard_of_injOn hmaps compressed_injective.injOn).trans ?_
  rw [Set.encard_coe_eq_coe_finsetCard]
  exact_mod_cast hcard

theorem ne_zero_of_mem_pointsBehind {r : ℕ} {a : CurveGroup} (ha : a ∈ pointsBehind r) :
    a ≠ 0 := by
  obtain ⟨x, y, h, rfl, -⟩ := ha
  exact WeierstrassCurve.Affine.Point.some_ne_zero h

/-- The relation asks for a point behind the first component. -/
theorem signatureRelation_iff {z r s : ℕ} {q : CurveGroup} :
    SignatureRelation z r s q ↔ ∃ a ∈ pointsBehind r, s • a = z • basePoint + r • q := by
  constructor
  · rintro ⟨x, y, h, hx, heq⟩
    exact ⟨some x y h, ⟨x, y, h, rfl, hx⟩, heq⟩
  · rintro ⟨_, ⟨x, y, h, rfl, hx⟩, heq⟩
    exact ⟨x, y, h, hx, heq⟩

/-- The mirror image of a point has the same abscissa. -/
theorem neg_mem_pointsBehind {r : ℕ} {a : CurveGroup} (ha : a ∈ pointsBehind r) :
    -a ∈ pointsBehind r := by
  obtain ⟨x, y, h, rfl, hx⟩ := ha
  exact ⟨x, _, _, WeierstrassCurve.Affine.Point.neg_some h, hx⟩

/-- **The relation holds for `s` and `n − s` alike**: the point behind `r` is mirrored. -/
theorem SignatureRelation.mirror {z r s s' : ℕ} {q : CurveGroup} (hs : s + s' = groupOrder)
    (h : SignatureRelation z r s q) : SignatureRelation z r s' q := by
  obtain ⟨a, ha, heq⟩ := signatureRelation_iff.mp h
  have hmirror : s' • -a = s • a := by
    rw [neg_nsmul, neg_eq_iff_add_eq_zero, ← add_nsmul, Nat.add_comm, hs]
    exact groupOrder_nsmul a
  exact signatureRelation_iff.mpr ⟨-a, neg_mem_pointsBehind ha, hmirror.trans heq⟩

namespace Engine

variable {ν σ : Type} {e : Engine ν σ Unit}

/-- A component is read exactly if it lies in `[1, n-1]`. -/
theorem component_eq (o : Octets 32) (reason : String) : component o reason =
    if 0 < o.value ∧ o.value < groupOrder then .ok ⟨⟨o⟩⟩
    else .error (.malformedSignature "EcdsaP256::verify" reason) := by
  unfold component
  rw [Scalar.ofCanonical_eq]
  split <;> rfl

/-- The first component is looked at first: out of range, it stops the reading. -/
theorem readSignature_of_first {r s : Octets 32} (hr : ¬(0 < r.value ∧ r.value < groupOrder)) :
    readSignature ⟨r, s⟩ = .error
      (.malformedSignature "EcdsaP256::verify" "r is zero or not below the group order") := by
  unfold readSignature
  rw [component_eq, if_neg hr]
  rfl

/-- What is read has both components in `[1, n-1]`. -/
theorem range_of_readSignature {g : Signature} {read : Scalar × Scalar}
    (h : readSignature g = .ok read) : (0 < g.r.value ∧ g.r.value < groupOrder) ∧
      (0 < g.s.value ∧ g.s.value < groupOrder) := by
  unfold readSignature at h
  rw [component_eq, component_eq] at h
  by_cases hr : 0 < g.r.value ∧ g.r.value < groupOrder
  · by_cases hs : 0 < g.s.value ∧ g.s.value < groupOrder
    · exact ⟨hr, hs⟩
    · rw [if_pos hr, if_neg hs] at h
      cases h
  · rw [if_neg hr] at h
    cases h

/-- **What verification accepts**: components in `[1, n-1]` that satisfy the relation. -/
theorem verify_eq_ok_true_iff (he : e.backend = .software) {key : PublicKey} (hkey : key.Live)
    (digest : Digest) (g : Signature) : (e.verify digest key g).1 = .ok true ↔
      (0 < g.r.value ∧ g.r.value < groupOrder) ∧ (0 < g.s.value ∧ g.s.value < groupOrder) ∧
        SignatureRelation (digest.octets.value % groupOrder) g.r.value g.s.value
          key.point.toGroup := by
  constructor
  · intro h
    cases hread : readSignature g with
    | error err =>
      unfold verify at h
      rw [hread] at h
      cases h
    | ok read =>
      obtain ⟨hr, hs⟩ := range_of_readSignature hread
      obtain ⟨accepted, hverify, hiff⟩ := verify_eq he hkey digest hr hs
      rw [hverify] at h
      exact ⟨hr, hs, hiff.mp (Except.ok.inj h)⟩
  · rintro ⟨hr, hs, hrelation⟩
    obtain ⟨accepted, hverify, hiff⟩ := verify_eq he hkey digest hr hs
    rw [hverify, hiff.mpr hrelation]

/-! ## Tampering -/

section Tampering

variable (he : e.backend = .software)
include he

/-- At most as many residues of digests are accepted as points stand behind `r`. -/
theorem encard_accepted_digests_le {key : PublicKey} (hkey : key.Live) (r s : Octets 32) :
    {z | ∃ digest : Digest, digest.octets.value % groupOrder = z ∧
      (e.verify digest key ⟨r, s⟩).1 = .ok true}.encard ≤ (pointsBehind r.value).encard := by
  refine encard_le_of_determined (fun z a => z < groupOrder ∧
    s.value • a = z • basePoint + r.value • key.point.toGroup) ?_ ?_
  · rintro z ⟨digest, rfl, hverify⟩
    obtain ⟨-, -, hrelation⟩ := (verify_eq_ok_true_iff he hkey digest _).mp hverify
    obtain ⟨a, ha, heq⟩ := signatureRelation_iff.mp hrelation
    exact ⟨a, ha, Nat.mod_lt _ prime_groupOrder.pos, heq⟩
  · rintro z - z' - a - ⟨hz, heq⟩ ⟨hz', heq'⟩
    exact nsmul_inj_of_lt basePoint_ne_zero hz hz' (add_right_cancel (heq.symm.trans heq'))

/-- For components in range, exactly as many residues of digests are accepted as points stand behind
`r`: each point asks for one multiple of the base point. -/
theorem encard_accepted_digests_eq {key : PublicKey} (hkey : key.Live) {r s : Octets 32}
    (hr : 0 < r.value ∧ r.value < groupOrder) (hs : 0 < s.value ∧ s.value < groupOrder) :
    {z | ∃ digest : Digest, digest.octets.value % groupOrder = z ∧
      (e.verify digest key ⟨r, s⟩).1 = .ok true}.encard = (pointsBehind r.value).encard := by
  apply le_antisymm (encard_accepted_digests_le he hkey r s)
  refine encard_le_of_determined
    (fun a z => s.value • a = z • basePoint + r.value • key.point.toGroup) ?_ ?_
  · intro a ha
    obtain ⟨z, hz⟩ := exists_nsmul_basePoint_eq (s.value • a - r.value • key.point.toGroup)
    have heq : s.value • a = z • basePoint + r.value • key.point.toGroup := by
      rw [hz.2, sub_add_cancel]
    have hmod : (Octets.ofNat 32 z).value % groupOrder = z := by
      rw [Octets.value_ofNat, Nat.mod_eq_of_lt (hz.1.trans (by decide +kernel)),
        Nat.mod_eq_of_lt hz.1]
    refine ⟨z, ⟨⟨.ofNat 32 z⟩, hmod, (verify_eq_ok_true_iff he hkey _ _).mpr ⟨hr, hs, ?_⟩⟩, heq⟩
    rw [hmod]
    exact signatureRelation_iff.mpr ⟨a, ha, heq⟩
  · rintro a - a' - z - heq heq'
    exact nsmul_right_inj hs (heq.trans heq'.symm)

/-- At most as many second components are accepted as points stand behind `r`. -/
theorem encard_accepted_seconds_le {key : PublicKey} (hkey : key.Live) (digest : Digest)
    (r : Octets 32) :
    {s | (e.verify digest key ⟨r, s⟩).1 = .ok true}.encard ≤ (pointsBehind r.value).encard := by
  refine encard_le_of_determined (fun s a => s.value < groupOrder ∧ s.value • a =
    (digest.octets.value % groupOrder) • basePoint + r.value • key.point.toGroup) ?_ ?_
  · intro s hverify
    obtain ⟨-, hs, hrelation⟩ := (verify_eq_ok_true_iff he hkey digest _).mp hverify
    obtain ⟨a, ha, heq⟩ := signatureRelation_iff.mp hrelation
    exact ⟨a, ha, hs.2, heq⟩
  · rintro s - s' - a ha ⟨hs, heq⟩ ⟨hs', heq'⟩
    exact Octets.value_injective
      (nsmul_inj_of_lt (ne_zero_of_mem_pointsBehind ha) hs hs' (heq.trans heq'.symm))

/-- At most as many keys are accepted as points stand behind `r`. -/
theorem encard_accepted_keys_le (digest : Digest) (r s : Octets 32) :
    {key : PublicKey | key.Live ∧ (e.verify digest key ⟨r, s⟩).1 = .ok true}.encard ≤
      (pointsBehind r.value).encard := by
  refine encard_le_of_determined (fun key a => (0 < r.value ∧ r.value < groupOrder) ∧
    s.value • a = (digest.octets.value % groupOrder) • basePoint +
      r.value • key.point.toGroup) ?_ ?_
  · rintro key ⟨hkey, hverify⟩
    obtain ⟨hr, -, hrelation⟩ := (verify_eq_ok_true_iff he hkey digest _).mp hverify
    obtain ⟨a, ha, heq⟩ := signatureRelation_iff.mp hrelation
    exact ⟨a, ha, hr, heq⟩
  · rintro key ⟨hkey, -⟩ key' ⟨hkey', -⟩ a - ⟨hr, heq⟩ ⟨-, heq'⟩
    have hgroup := nsmul_right_inj hr (add_left_cancel (heq.symm.trans heq'))
    have hpoint := hkey'.1.represents
    rw [← hgroup] at hpoint
    exact PublicKey.ext (hkey.1.represents.ext hpoint)

/-- **Tampering with one input leaves at most four acceptances**, and two if `r ≥ p − n`: of the
residues of digests, of the second components and of the keys that are read, whatever the other
inputs are.  For components in range, as many residues are accepted as points stand behind `r`. -/
theorem accepted_at_most_four (r : Octets 32) :
    (∀ encoded key, PublicKey.decode encoded = .ok key → ∀ s : Octets 32,
      {z | ∃ digest : Digest, digest.octets.value % groupOrder = z ∧
        (e.verify digest key ⟨r, s⟩).1 = .ok true}.encard ≤ acceptanceBound r.value ∧
      ((0 < r.value ∧ r.value < groupOrder) → (0 < s.value ∧ s.value < groupOrder) →
        {z | ∃ digest : Digest, digest.octets.value % groupOrder = z ∧
          (e.verify digest key ⟨r, s⟩).1 = .ok true}.encard = (pointsBehind r.value).encard)) ∧
    (∀ encoded key, PublicKey.decode encoded = .ok key → ∀ digest : Digest,
      {s | (e.verify digest key ⟨r, s⟩).1 = .ok true}.encard ≤ acceptanceBound r.value) ∧
    ∀ (digest : Digest) (s : Octets 32),
      {key | (∃ encoded, PublicKey.decode encoded = .ok key) ∧
        (e.verify digest key ⟨r, s⟩).1 = .ok true}.encard ≤ acceptanceBound r.value := by
  have hbound := card_pointsBehind_le r.value
  refine ⟨fun encoded key hkey s => ?_, fun encoded key hkey digest => ?_, fun digest s => ?_⟩
  · have hlive := (PublicKey.decode_eq_ok_iff.mp hkey).1
    exact ⟨(encard_accepted_digests_le he hlive r s).trans hbound,
      encard_accepted_digests_eq he hlive⟩
  · have hlive := (PublicKey.decode_eq_ok_iff.mp hkey).1
    exact (encard_accepted_seconds_le he hlive digest r).trans hbound
  · refine le_trans (Set.encard_le_encard ?_) ((encard_accepted_keys_le he digest r s).trans hbound)
    rintro key ⟨⟨encoded, hkey⟩, hverify⟩
    exact ⟨(PublicKey.decode_eq_ok_iff.mp hkey).1, hverify⟩

end Tampering

/-- The key of the base point, with 1 and with `p − n` as first components. -/
theorem accepted_at_most_four_generator :
    ({z | ∃ digest : Digest, digest.octets.value % groupOrder = z ∧
      (verifier.verify digest ⟨.generator⟩ ⟨.ofNat 32 1, .ofNat 32 1⟩).1 = .ok true}.encard ≤ 4 ∧
    {z | ∃ digest : Digest, digest.octets.value % groupOrder = z ∧
      (verifier.verify digest ⟨.generator⟩ ⟨.ofNat 32 1, .ofNat 32 1⟩).1 = .ok true}.encard =
        (pointsBehind 1).encard) ∧
    {s | (verifier.verify ⟨.zero 32⟩ ⟨.generator⟩
      ⟨.ofNat 32 (fieldPrime - groupOrder), s⟩).1 = .ok true}.encard ≤ 2 ∧
    {key | (∃ encoded, PublicKey.decode encoded = .ok key) ∧
      (verifier.verify ⟨.zero 32⟩ key
        ⟨.ofNat 32 (fieldPrime - groupOrder), .ofNat 32 1⟩).1 = .ok true}.encard ≤ 2 := by
  have hkey : PublicKey.decode (PublicKey.encode ⟨.generator⟩).toList = .ok ⟨.generator⟩ :=
    PublicKey.decode_eq_ok_iff.mpr ⟨⟨Point.represents_generator.1, rfl⟩, rfl⟩
  have hvalue : (Octets.ofNat 32 1).value = 1 := by decide +kernel
  have hrange : 0 < (Octets.ofNat 32 1).value ∧ (Octets.ofNat 32 1).value < groupOrder := by
    decide +kernel
  have hone : acceptanceBound (Octets.ofNat 32 1).value = 4 := by decide +kernel
  have htwo : acceptanceBound (Octets.ofNat 32 (fieldPrime - groupOrder)).value = 2 := by
    decide +kernel
  obtain ⟨hsmall, hexact⟩ :=
    (accepted_at_most_four (e := verifier) rfl (.ofNat 32 1)).1 _ _ hkey (.ofNat 32 1)
  have hlarge := accepted_at_most_four (e := verifier) rfl (.ofNat 32 (fieldPrime - groupOrder))
  have hbehind := hexact hrange hrange
  rw [hone] at hsmall
  rw [hvalue] at hbehind
  rw [htwo] at hlarge
  exact ⟨⟨hsmall, hbehind⟩, hlarge.2.1 _ _ hkey ⟨.zero 32⟩,
    hlarge.2.2 ⟨.zero 32⟩ (.ofNat 32 1)⟩

/-! ## The mirror image -/

/-- Verification with a backend that has no state leaves the engine as it is. -/
theorem verify_engine (digest : Digest) (key : PublicKey) (g : Signature) :
    (e.verify digest key g).2 = e := by
  unfold verify
  split <;> rfl

/-- **`s` and `n − s` are verified alike**, whatever the digest, the key and the first component:
the answer is the same, or the error. -/
theorem verify_mirror (he : e.backend = .software) {encoded : List UInt8} {key : PublicKey}
    (hkey : PublicKey.decode encoded = .ok key) (digest : Digest) (r : Octets 32)
    {s s' : Octets 32} (hs : 0 < s.value ∧ s.value < groupOrder)
    (hmirror : s'.value = groupOrder - s.value) :
    e.verify digest key ⟨r, s⟩ = e.verify digest key ⟨r, s'⟩ := by
  have hlive := (PublicKey.decode_eq_ok_iff.mp hkey).1
  have hsum : s.value + s'.value = groupOrder := by omega
  have hsum' : s'.value + s.value = groupOrder := by omega
  have hs' : 0 < s'.value ∧ s'.value < groupOrder := by omega
  refine Prod.ext ?_ ((verify_engine digest key _).trans (verify_engine digest key _).symm)
  by_cases hr : 0 < r.value ∧ r.value < groupOrder
  · obtain ⟨accepted, hverify, hiff⟩ := verify_eq he hlive digest (g := ⟨r, s⟩) hr hs
    obtain ⟨accepted', hverify', hiff'⟩ := verify_eq he hlive digest (g := ⟨r, s'⟩) hr hs'
    have hsame : accepted = accepted' := by
      rw [Bool.eq_iff_iff, hiff, hiff']
      exact ⟨SignatureRelation.mirror hsum, SignatureRelation.mirror hsum'⟩
    rw [hverify, hverify', hsame]
  · unfold verify
    rw [readSignature_of_first hr, readSignature_of_first hr]

/-- The digest 0 and the key of the base point: its abscissa as both components is accepted, and
with `n` minus it as the second. -/
theorem verify_mirror_generator :
    (0 < Curve.secp256r1.gx.value ∧ Curve.secp256r1.gx.value < groupOrder) ∧
    (verifier.verify ⟨.zero 32⟩ ⟨.generator⟩ ⟨Curve.secp256r1.gx, Curve.secp256r1.gx⟩).1 =
      .ok true ∧
    (verifier.verify ⟨.zero 32⟩ ⟨.generator⟩
      ⟨Curve.secp256r1.gx, .ofNat 32 (groupOrder - Curve.secp256r1.gx.value)⟩).1 = .ok true := by
  have hrange : 0 < Curve.secp256r1.gx.value ∧ Curve.secp256r1.gx.value < groupOrder := by
    decide +kernel
  have hlive : PublicKey.Live ⟨.generator⟩ := ⟨Point.represents_generator.1, rfl⟩
  have hzero : (Octets.zero 32).value % groupOrder = 0 := by decide +kernel
  have hbehind : basePoint ∈ pointsBehind Curve.secp256r1.gx.value := by
    refine ⟨_, _, nonsingular_basePoint, rfl, ?_⟩
    rw [ZMod.val_natCast]
    decide +kernel
  have hrelation : SignatureRelation ((Octets.zero 32).value % groupOrder)
      Curve.secp256r1.gx.value Curve.secp256r1.gx.value Point.generator.toGroup := by
    refine signatureRelation_iff.mpr ⟨basePoint, hbehind, ?_⟩
    rw [Point.represents_generator.2, hzero, zero_nsmul, zero_add]
  have haccepted := (verify_eq_ok_true_iff (e := verifier) rfl hlive ⟨.zero 32⟩
    ⟨Curve.secp256r1.gx, Curve.secp256r1.gx⟩).mpr ⟨hrange, hrange, hrelation⟩
  have hmirror : (Octets.ofNat 32 (groupOrder - Curve.secp256r1.gx.value)).value =
      groupOrder - Curve.secp256r1.gx.value := by decide +kernel
  have hverify := verify_mirror (e := verifier) rfl (PublicKey.decode_eq_ok_iff.mpr ⟨hlive, rfl⟩)
    ⟨.zero 32⟩ Curve.secp256r1.gx hrange hmirror
  exact ⟨hrange, haccepted, hverify ▸ haccepted⟩

end Engine

end Secp256r1
