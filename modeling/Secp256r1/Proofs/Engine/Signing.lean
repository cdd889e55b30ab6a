import Secp256r1.Proofs.Engine.Search
import Secp256r1.Proofs.Engine.Verification

/-!
# What is signed verifies

* `SignedWith` — the equations of a signature made with a nonce.
* `search_eq_ok`, `signWithNonceCount_eq_ok` — whatever the nonces, a signature that comes out was
  made with one of them.
* `SignedWith.relation` — the equations give the signature relation under the public key.
* `verify_signed` — every signature is accepted, also after keys and signatures have been written
  and read back.
-/

set_option autoImplicit false

namespace Secp256r1

open WeierstrassCurve.Affine.Point (some)

namespace Engine

variable {ν σ : Type}

/-- The equations between the nonce `k`, the digest `z`, the private scalar `d` and the components
`r` and `s`, neither of which is zero. -/
structure SignedWith (k z d r s : Scalar) : Prop where
  r_eq : r = .reduce (Point.mulBase k).x.toOctets
  s_eq : s = k.inverseTotal * (z + r * d)
  r_ne_zero : r.isZero = false
  s_ne_zero : s.isZero = false

/-- A trial with the multiple of the base point that is signed with gives the equations. -/
theorem signedWith_of_signs {t : Trial} {z d : Scalar} {x : ZMod groupOrder} {g : Signature}
    (hz : z.Represents x) (hpoint : t.point = .mulBase t.k) (h : t.Signs x d.value g) :
    SignedWith t.k z d t.first (t.k.inverseTotal * (z + t.first * d)) where
  r_eq := by rw [Trial.first, hpoint]
  s_eq := rfl
  r_ne_zero := h.first_isZero
  s_ne_zero := h.second_isZero hz

/-- The software backend multiplies the base point on its own. -/
theorem software_mulBase {e : Engine ν σ Unit} (he : e.backend = .software) (k : Scalar) :
    e.backend.mulBase k e.device = (.mulBase k, ()) := by
  rw [he]
  rfl

/-- **The search returns what one candidate signs**, however many candidates it rejects. -/
theorem search_eq_ok {limit : ℕ} {z d : Scalar} {x : ZMod groupOrder} {g : Signature}
    {m candidates drawn : ℕ} {stream : σ} {e e' : Engine ν σ Unit} (hz : z.Represents x)
    (he : e.backend = .software)
    (h : search limit z d candidates drawn stream e = .some (.ok (g, m), e')) :
    ∃ k r s, SignedWith k z d r s ∧ g = ⟨r.toOctets, s.toOctets⟩ := by
  obtain ⟨_, _, _, _, _, hrun, hend⟩ := finds_of_search hz h
  cases hend with
  | @signed t _ _ _ hone hsign =>
    cases hone with
    | cons _ hmul _ =>
      rw [software_mulBase (hrun.backend_eq.trans he)] at hmul
      have hpoint : t.point = .mulBase t.k := (congrArg Prod.fst hmul).symm
      exact ⟨_, _, _, signedWith_of_signs hz hpoint hsign, hsign.eq hz⟩

/-- **The first candidate that signs is taken.** -/
theorem search_eq_of_signedWith {e : Engine ν σ Unit} {limit candidates drawn : ℕ}
    {stream stream' : σ} {nonces : ν} {k z d r s : Scalar} (he : e.backend = .software)
    (hnext : e.source.next limit stream e.nonces = .some (.ok k, stream', nonces))
    (hk : k.value ≠ 0) (h : SignedWith k z d r s) :
    search limit z d (candidates + 1) drawn stream e =
      .some (.ok (⟨r.toOctets, s.toOctets⟩, drawn + 1), { e with nonces }) := by
  obtain ⟨rfl, rfl, hr, hs⟩ := h
  rw [search_succ (t := ⟨k, .mulBase k⟩) hnext (software_mulBase he k)]
  simp only [Trial.first, hr, hs, if_neg hk, Bool.false_eq_true, if_false]

variable {e e' : Engine ν σ Unit} {limit : ℕ} {digest : Digest} {key : SecretKey} {g : Signature}

/-- **A signature that comes out was made with some nonce**, by a key that is not disposed. -/
theorem signWithNonceCount_eq_ok (he : e.backend = .software) {m : ℕ}
    (h : e.signWithNonceCount limit digest key = .some (.ok (g, m), e')) :
    key.isDisposed = false ∧ ∃ k r s, SignedWith k (.reduce digest.octets) key.d r s ∧
      g = ⟨r.toOctets, s.toOctets⟩ := by
  cases hlive : key.isDisposed with
  | true =>
    rw [signWithNonceCount_of_disposed hlive] at h
    cases h
  | false =>
    unfold signWithNonceCount at h
    rw [SecretKey.scalar_eq hlive] at h
    dsimp only at h
    split at h
    · cases h
    · rename_i stream nonces hstart
      have hbackend : ({ e with nonces } : Engine ν σ Unit).backend = .software := he
      exact ⟨rfl, search_eq_ok (Scalar.represents_reduce digest.octets) hbackend h⟩

/-- Signing alone forgets the count. -/
theorem sign_eq_ok (h : e.sign limit digest key = .some (.ok g, e')) :
    ∃ m, e.signWithNonceCount limit digest key = .some (.ok (g, m), e') := by
  unfold sign at h
  rw [Option.map_eq_some_iff] at h
  obtain ⟨⟨r, e''⟩, hr, heq⟩ := h
  obtain ⟨hmap, rfl⟩ := (Prod.mk.injEq ..).mp heq
  cases r with
  | error err => cases hmap
  | ok gm =>
    obtain ⟨g', m⟩ := gm
    cases hmap
    exact ⟨m, hr⟩

/-! ## The equations give the relation -/

/-- The nonce times the base point is finite, with `r` as its abscissa modulo `n`. -/
theorem SignedWith.abscissa {k z d r s : Scalar} (h : SignedWith k z d r s) :
    ∃ (x y : ZMod fieldPrime) (hxy : (weierstrass coefficientB).Nonsingular x y),
      k.value • basePoint = some x y hxy ∧ x.val % groupOrder = r.value := by
  have hpoint := Point.represents_mulBase k
  have hr := Scalar.represents_reduce (Point.mulBase k).x.toOctets
  rw [← h.r_eq, Scalar.Represents, ZMod.val_natCast, FieldElement.value_toOctets] at hr
  generalize k.value • basePoint = a at hpoint
  cases a with
  | zero =>
    -- the identity has abscissa 0, which is no `r`
    have hr0 : r.value = 0 := by
      rw [hr, Point.represents_zero_iff.mp hpoint]
      decide +kernel
    exact absurd hr0 ((Scalar.isZero_eq_false_iff r).mp h.r_ne_zero)
  | some x y hxy =>
    obtain ⟨-, hx, -⟩ := Point.represents_some_iff.mp hpoint
    exact ⟨x, y, hxy, rfl, by rw [hr, hx]⟩

/-- **What is signed satisfies the relation** under the multiple of the base point by `d`. -/
theorem SignedWith.relation {k d r s : Scalar} {o : Octets 32} (hd : d.value < groupOrder)
    (h : SignedWith k (.reduce o) d r s) :
    (0 < r.value ∧ r.value < groupOrder) ∧ (0 < s.value ∧ s.value < groupOrder) ∧
      SignatureRelation (o.value % groupOrder) r.value s.value (d.value • basePoint) := by
  obtain ⟨x, y, hxy, hpoint, hx⟩ := h.abscissa
  have hr := Scalar.represents_reduce (Point.mulBase k).x.toOctets
  rw [← h.r_eq] at hr
  have hrr : r.Represents r.value := Scalar.represents_of_lt hr.lt
  have hdd : d.Represents d.value := Scalar.represents_of_lt hd
  have hs := (Scalar.represents_inverseTotal k).mul
    ((Scalar.represents_reduce o).add (hrr.mul hdd))
  rw [← h.s_eq] at hs
  have hr0 : r.value ≠ 0 := (Scalar.isZero_eq_false_iff r).mp h.r_ne_zero
  have hs0 : s.value ≠ 0 := (Scalar.isZero_eq_false_iff s).mp h.s_ne_zero
  refine ⟨⟨Nat.pos_of_ne_zero hr0, hr.lt⟩, ⟨Nat.pos_of_ne_zero hs0, hs.lt⟩, ?_⟩
  -- the nonce is invertible, or `s` would vanish
  have hk : (k.value : ZMod groupOrder) ≠ 0 := by
    intro hk
    rw [hk, inv_zero, zero_mul] at hs
    exact hs0 (hs.trans ZMod.val_zero)
  have hsk : (s.value : ZMod groupOrder) * k.value = o.value + r.value * d.value := by
    rw [hs.cast, mul_comm, mul_inv_cancel_left₀ hk]
  have hequation : s.value • k.value • basePoint =
      (o.value % groupOrder) • basePoint + r.value • d.value • basePoint := by
    rw [← mul_nsmul', ← mul_nsmul', ← add_nsmul, ← Nat.cast_smul_eq_nsmul (ZMod groupOrder),
      ← Nat.cast_smul_eq_nsmul (ZMod groupOrder) (_ + _)]
    push_cast
    rw [ZMod.natCast_mod, hsk]
  rw [hpoint] at hequation
  exact ⟨x, y, hxy, hx, hequation⟩

variable {ν' σ' : Type}

/-- **Every signature verifies.**  Whatever the source of nonces, if a key that was read signs a
digest, then its public key exists, keys and signature survive being written and read, and every
engine on the software backend accepts. -/
theorem verify_signed (he : e.backend = .software) {encoded : List UInt8}
    (hkey : SecretKey.decode encoded = .ok key)
    (hsign : e.sign limit digest key = .some (.ok g, e') ∨
      ∃ m, e.signWithNonceCount limit digest key = .some (.ok (g, m), e')) :
    ∃ pub : PublicKey, key.publicKey = .ok pub ∧
      Signature.decode g.encode.toList = .ok g ∧
      PublicKey.decode pub.encode.toList = .ok pub ∧
      PublicKey.ofRaw pub.toRaw.toList = .ok pub ∧
      ∀ verifier : Engine ν' σ' Unit, verifier.backend = .software →
        (verifier.verify digest pub g).1 = .ok true := by
  obtain ⟨hlive, hpos, hlt, -⟩ := SecretKey.decode_eq_ok_iff.mp hkey
  have hpub := SecretKey.live_mulBase hpos hlt
  obtain ⟨m, hcount⟩ : ∃ m, e.signWithNonceCount limit digest key = .some (.ok (g, m), e') :=
    hsign.elim sign_eq_ok id
  obtain ⟨-, k, r, s, hsigned, rfl⟩ := signWithNonceCount_eq_ok he hcount
  obtain ⟨hr, hs, hrelation⟩ := hsigned.relation hlt
  refine ⟨_, SecretKey.publicKey_eq hlive, Signature.decode_encode _,
    PublicKey.decode_eq_ok_iff.mpr ⟨hpub, rfl⟩, PublicKey.ofRaw_eq_ok_iff.mpr ⟨hpub, rfl⟩, ?_⟩
  intro verifier hverifier
  obtain ⟨accepted, hverify, hiff⟩ := verify_eq hverifier hpub digest
    (g := ⟨r.toOctets, s.toOctets⟩) hr hs
  rw [hverify]
  rw [(Point.represents_mulBase key.d).2] at hiff
  rw [hiff.mpr hrelation]

/-- An engine whose nonces are all 1. -/
def unitSigner : Engine Unit Unit Unit :=
  ⟨⟨none, fun _ _ ν => (.ok (), ν), fun _ σ ν => .some (.ok .one, σ, ν)⟩, .software, (), ()⟩

/-- The digest 0 is signed by the key 1 and the nonce 1. -/
theorem exists_signedWith_one : ∃ r s, SignedWith .one (.reduce (.zero 32)) .one r s := by
  have hbase : Point.mulBase .one = .generator := by
    have h := Point.represents_mulBase .one
    rw [show Scalar.one.value = 1 by decide, one_nsmul] at h
    exact h.ext Point.represents_generator
  exact ⟨_, _, signedWith_of_signs (Scalar.represents_reduce (.zero 32)) hbase.symm Trial.signs_one⟩

/-- The key 1 signs the digest 0, and the signature verifies. -/
theorem verify_signed_one : ∃ (g : Signature) (e' : Engine Unit Unit Unit),
    unitSigner.sign 1 ⟨.zero 32⟩ ⟨.one, false⟩ = .some (.ok g, e') ∧
    ∃ pub : PublicKey, SecretKey.publicKey ⟨.one, false⟩ = .ok pub ∧
      Signature.decode g.encode.toList = .ok g ∧
      PublicKey.decode pub.encode.toList = .ok pub ∧
      PublicKey.ofRaw pub.toRaw.toList = .ok pub ∧
      ∀ verifier : Engine Unit Unit Unit, verifier.backend = .software →
        (verifier.verify ⟨.zero 32⟩ pub g).1 = .ok true := by
  obtain ⟨r, s, h⟩ := exists_signedWith_one
  have hkey : SecretKey.decode Scalar.one.toOctets.toList = .ok ⟨.one, false⟩ :=
    SecretKey.decode_eq_ok_iff.mpr ⟨rfl, by decide, by decide +kernel, rfl⟩
  have hsearch : search 1 (.reduce (.zero 32)) .one 1 0 () unitSigner =
      .some (.ok (⟨r.toOctets, s.toOctets⟩, 1), unitSigner) :=
    search_eq_of_signedWith rfl rfl (by decide) h
  have hsign : unitSigner.sign 1 ⟨.zero 32⟩ ⟨.one, false⟩ =
      .some (.ok ⟨r.toOctets, s.toOctets⟩, unitSigner) := by
    unfold sign
    rw [signWithNonceCount, SecretKey.scalar_eq rfl]
    show (search 1 (.reduce (.zero 32)) .one 1 0 () unitSigner).map _ = _
    rw [hsearch]
    rfl
  exact ⟨_, _, hsign, verify_signed rfl hkey (.inl hsign)⟩

end Engine

end Secp256r1
