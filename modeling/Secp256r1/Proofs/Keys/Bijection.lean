import Secp256r1.Proofs.Keys

/-!
# Each public key has one secret key

Every point is the multiple of the base point by exactly one residue modulo the group order, and
the residue is zero only for the identity.  Secret keys are the residues that are not zero, and
public keys the points that are not the identity.

* `SecretKey.exists_publicKey_eq` — every public key that is read belongs to some secret key.
* `SecretKey.eq_of_publicKey_eq` — different secret keys have different public keys.
* `SecretKey.publicKey_bijective` — **secret and public keys correspond one to one**.
-/

set_option autoImplicit false

namespace Secp256r1

namespace PublicKey

/-- **Two live keys compare equal exactly if they are the same.** -/
theorem equal_iff {a b : PublicKey} (ha : a.Live) (hb : b.Live) : a.equal b = true ↔ a = b := by
  unfold equal
  rw [ha.1.equal_iff hb.1, PublicKey.ext_iff]

/-- Live keys are told apart by what they write. -/
theorem encode_injective {a b : PublicKey} (ha : a.Live) (hb : b.Live)
    (h : a.encode.toList = b.encode.toList) : a = b := by
  have hread : decode a.encode.toList = .ok a := decode_eq_ok_iff.mpr ⟨ha, rfl⟩
  rw [h, decode_eq_ok_iff.mpr ⟨hb, rfl⟩] at hread
  exact (Except.ok.inj hread).symm

end PublicKey

namespace SecretKey

/-- The octets of a secret key and of its public key. -/
def Pair (secret encoded : List UInt8) : Prop :=
  ∃ key pub, decode secret = .ok key ∧ key.publicKey = .ok pub ∧ pub.encode.toList = encoded

/-- The public key of what was read as a secret key. -/
theorem publicKey_of_decode {secret : List UInt8} {key : SecretKey} (h : decode secret = .ok key) :
    ∃ pub : PublicKey, key.publicKey = .ok pub ∧ pub.Live ∧
      pub.point.Represents (key.d.value • basePoint) := by
  obtain ⟨hlive, hpos, hlt, -⟩ := decode_eq_ok_iff.mp h
  exact ⟨_, publicKey_eq hlive, live_mulBase hpos hlt, Point.represents_mulBase key.d⟩

/-- **Every public key belongs to some secret key.** -/
theorem exists_publicKey_eq {pub : PublicKey} (hpub : pub.Live) :
    ∃ secret key, decode secret = .ok key ∧ key.publicKey = .ok pub := by
  obtain ⟨k, hk : k • basePoint = pub.point.toGroup⟩ :=
    smul_basePoint_bijective.surjective pub.point.toGroup
  have hmul : k.val • basePoint = pub.point.toGroup := by
    rw [← hk, ← Nat.cast_smul_eq_nsmul (ZMod groupOrder), ZMod.natCast_zmod_val]
  have hpoint := hpub.1.represents
  rw [← hmul] at hpoint
  obtain ⟨d, hd⟩ : ∃ d : Scalar, d = ⟨⟨.ofNat 32 k.val⟩⟩ := ⟨_, rfl⟩
  have hvalue : d.value = k.val := by
    rw [hd]
    refine (Octets.value_ofNat 32 k.val).trans (Nat.mod_eq_of_lt (k.val_lt.trans ?_))
    exact Curve.secp256r1.n.value_lt
  have hpos : 0 < d.value := by
    rw [hvalue, Nat.pos_iff_ne_zero]
    intro hzero
    -- only the identity is the multiple by zero
    have hidentity := hpoint.isIdentity_iff.mpr (by rw [hzero, zero_nsmul])
    rw [hpub.2] at hidentity
    cases hidentity
  have hlt : d.value < groupOrder := by
    rw [hvalue]
    exact k.val_lt
  refine ⟨d.toOctets.toList, ⟨d, false⟩, decode_eq_ok_iff.mpr ⟨rfl, hpos, hlt, rfl⟩, ?_⟩
  have hpublic := Point.represents_mulBase d
  rw [hvalue] at hpublic
  rw [publicKey_eq rfl, hpublic.ext hpoint]

/-- **Different secret keys have different public keys.** -/
theorem eq_of_publicKey_eq {a b : List UInt8} {key other : SecretKey} (ha : decode a = .ok key)
    (hb : decode b = .ok other) (h : key.publicKey = other.publicKey) : a = b := by
  obtain ⟨pub, hkey, -, hpoint⟩ := publicKey_of_decode ha
  obtain ⟨pub', hother, -, hpoint'⟩ := publicKey_of_decode hb
  rw [hkey, hother] at h
  cases h
  obtain ⟨-, -, hlt, rfl⟩ := decode_eq_ok_iff.mp ha
  obtain ⟨-, -, hlt', rfl⟩ := decode_eq_ok_iff.mp hb
  have hmul := hpoint.unique hpoint'
  rw [← Nat.cast_smul_eq_nsmul (ZMod groupOrder),
    ← Nat.cast_smul_eq_nsmul (ZMod groupOrder)] at hmul
  have hcast := smul_basePoint_bijective.injective hmul
  rw [(Scalar.represents_of_lt hlt).ext (hcast ▸ Scalar.represents_of_lt hlt')]

/-- **Secret and public keys correspond one to one.**  Whatever is read as a public key is written
by the public key of exactly one string that is read as a secret key; the public key of a secret
key is finite and is read back; and different secret keys never have equal public keys. -/
theorem publicKey_bijective :
    (∀ encoded pub, PublicKey.decode encoded = .ok pub → ∃! secret, Pair secret encoded) ∧
    (∀ secret key, decode secret = .ok key → ∃ pub, key.publicKey = .ok pub ∧
      pub.point.isIdentity = false ∧ PublicKey.decode pub.encode.toList = .ok pub) ∧
    ∀ a b key other pub pub', decode a = .ok key → decode b = .ok other →
      key.publicKey = .ok pub → other.publicKey = .ok pub' → a ≠ b → pub.equal pub' = false := by
  refine ⟨fun encoded pub h => ?_, fun secret key h => ?_, ?_⟩
  · obtain ⟨hpub, rfl⟩ := PublicKey.decode_eq_ok_iff.mp h
    obtain ⟨secret, key, hkey, hpublic⟩ := exists_publicKey_eq hpub
    refine ⟨secret, ⟨key, pub, hkey, hpublic, rfl⟩, ?_⟩
    rintro other ⟨key', pub', hkey', hpublic', hencode⟩
    obtain ⟨_, heq, hlive, -⟩ := publicKey_of_decode hkey'
    rw [hpublic'] at heq
    cases heq
    rw [PublicKey.encode_injective hlive hpub hencode] at hpublic'
    exact eq_of_publicKey_eq hkey' hkey (hpublic'.trans hpublic.symm)
  · obtain ⟨pub, hpub, hlive, -⟩ := publicKey_of_decode h
    exact ⟨pub, hpub, hlive.2, PublicKey.decode_eq_ok_iff.mpr ⟨hlive, rfl⟩⟩
  · intro a b key other pub pub' ha hb hpub hpub' hne
    obtain ⟨_, heq, hlive, -⟩ := publicKey_of_decode ha
    obtain ⟨_, heq', hlive', -⟩ := publicKey_of_decode hb
    rw [hpub] at heq
    rw [hpub'] at heq'
    cases heq
    cases heq'
    rw [Bool.eq_false_iff, Ne, PublicKey.equal_iff hlive hlive']
    rintro rfl
    exact hne (eq_of_publicKey_eq ha hb (hpub.trans hpub'.symm))

/-- The base point has one secret key, which is 1, and the secret key 2 has another public key. -/
theorem publicKey_bijective_one :
    (∃! secret, Pair secret (PublicKey.encode ⟨.generator⟩).toList) ∧
    (∃ pub, SecretKey.publicKey ⟨.one, false⟩ = .ok pub ∧ pub.point.isIdentity = false ∧
      PublicKey.decode pub.encode.toList = .ok pub) ∧
    PublicKey.equal ⟨.mulBase .one⟩ ⟨.mulBase ⟨⟨.ofNat 32 2⟩⟩⟩ = false := by
  have hgenerator : PublicKey.decode (PublicKey.encode ⟨.generator⟩).toList = .ok ⟨.generator⟩ :=
    PublicKey.decode_eq_ok_iff.mpr ⟨⟨Point.represents_generator.1, rfl⟩, rfl⟩
  have hone : decode Scalar.one.toOctets.toList = .ok ⟨.one, false⟩ :=
    decode_eq_ok_iff.mpr ⟨rfl, by decide, by decide +kernel, rfl⟩
  have htwo : decode (Octets.ofNat 32 2).toList = .ok ⟨⟨⟨.ofNat 32 2⟩⟩, false⟩ :=
    decode_eq_ok_iff.mpr ⟨rfl, by decide +kernel, by decide +kernel, rfl⟩
  exact ⟨publicKey_bijective.1 _ _ hgenerator, publicKey_bijective.2.1 _ _ hone,
    publicKey_bijective.2.2 _ _ _ _ _ _ hone htwo (publicKey_eq rfl) (publicKey_eq rfl)
      (by decide +kernel)⟩

end SecretKey

end Secp256r1
