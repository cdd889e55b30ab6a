import Secp256r1.Engine
import Secp256r1.Nonce.Random
import Secp256r1.Proofs.Scalar.Residue

/-!
# A digest counts modulo the group order

A digest is used in three places: in the derivation of nonces, in the equation of the signature and
in verification.  Each reduces it modulo the group order before anything else, so that two digests
with the same residue cannot be told apart.

* `NonceSource.SeesResidue` — streams for such digests open alike (`seesResidue_rfc6979`,
  `seesResidue_random`, `seesResidue_hedged`).
* `Engine.SignsAlike` — signing cannot tell two digests apart.
* `Engine.signWithNonceCount_congr`, `Engine.verify_congr` — signing and verifying go alike.
* `Engine.digest_modulo_order` — **both runs give the same result and the same engine**.
-/

set_option autoImplicit false

namespace Secp256r1

/-- **Congruent octets have the same residue.** -/
theorem Scalar.reduce_congr {a b : Octets 32} (h : a.value ≡ b.value [MOD groupOrder]) :
    reduce a = reduce b := by
  have ha := represents_reduce a
  rw [(ZMod.natCast_eq_natCast_iff _ _ _).mpr h] at ha
  exact ha.ext (represents_reduce b)

namespace NonceSource

variable {ν σ γ : Type}

/-- Opening a stream looks at no more of the digest than its residue. -/
def SeesResidue (source : NonceSource ν σ) : Prop :=
  ∀ (x : Scalar) (a b : Digest) (nonces : ν), Scalar.reduce a.octets = Scalar.reduce b.octets →
    source.start x a nonces = source.start x b nonces

theorem seed_congr (x : Scalar) {a b : Digest} (h : Scalar.reduce a.octets = Scalar.reduce b.octets)
    (extra : List UInt8) : Rfc6979.seed x a extra = Rfc6979.seed x b extra := by
  unfold Rfc6979.seed
  rw [h]

theorem seesResidue_rfc6979 : rfc6979.SeesResidue := by
  intro x a b nonces h
  simp only [rfc6979, seed_congr x h]

theorem seesResidue_random (gen : Generator γ) : (random gen).SeesResidue := by
  intro x a b nonces h
  rfl

theorem seesResidue_hedged (gen : Generator γ) : (hedged gen).SeesResidue := by
  intro x a b nonces h
  simp only [hedged, seed_congr x h]

end NonceSource

namespace Engine

variable {ν σ β : Type} {a b : Digest}

/-- **Signing sees the residue alone**, if the source of nonces does. -/
theorem signWithNonceCount_congr {e : Engine ν σ β} (hsource : e.source.SeesResidue)
    (h : Scalar.reduce a.octets = Scalar.reduce b.octets) (limit : ℕ) (key : SecretKey) :
    e.signWithNonceCount limit a key = e.signWithNonceCount limit b key := by
  unfold signWithNonceCount
  cases key.scalar signContext with
  | error err => rfl
  | ok d =>
    dsimp only
    rw [hsource d a b e.nonces h, h]

/-- **Verifying sees the residue alone.** -/
theorem verify_congr (h : Scalar.reduce a.octets = Scalar.reduce b.octets) (e : Engine ν σ β)
    (key : PublicKey) (g : Signature) : e.verify a key g = e.verify b key g := by
  unfold verify
  rw [h]

/-- Signing cannot tell two digests apart: within every limit and under every key it gives the same
signature and count or the same error, and leaves the same engine. -/
def SignsAlike (e : Engine ν σ β) (a b : Digest) : Prop :=
  ∀ limit key, e.signWithNonceCount limit a key = e.signWithNonceCount limit b key

theorem signsAlike_of_seesResidue {e : Engine ν σ β} {source : NonceSource ν σ}
    (he : e.source = source) (hsource : source.SeesResidue)
    (h : Scalar.reduce a.octets = Scalar.reduce b.octets) : e.SignsAlike a b := by
  intro limit key
  apply signWithNonceCount_congr _ h
  rwa [he]

/-- **A digest counts modulo the group order.**  From the same engine, with deterministic, random or
hedged nonces and any backend, two congruent digests are signed alike.  They also verify alike on
every engine, under every public key and with every signature. -/
theorem digest_modulo_order (h : a.octets.value ≡ b.octets.value [MOD groupOrder]) :
    (∀ e : Engine Unit Rfc6979 β, e.source = .rfc6979 → e.SignsAlike a b) ∧
    (∀ (γ : Type) (gen : Generator γ) (e : Engine γ Unit β), e.source = .random gen →
      e.SignsAlike a b) ∧
    (∀ (γ : Type) (gen : Generator γ) (e : Engine γ Rfc6979 β), e.source = .hedged gen →
      e.SignsAlike a b) ∧
    ∀ (e : Engine ν σ β) (key : PublicKey) (g : Signature),
      e.verify a key g = e.verify b key g := by
  have hreduce := Scalar.reduce_congr h
  refine ⟨?_, ?_, ?_, ?_⟩
  · intro e he
    exact signsAlike_of_seesResidue he NonceSource.seesResidue_rfc6979 hreduce
  · intro γ gen e he
    exact signsAlike_of_seesResidue he (NonceSource.seesResidue_random gen) hreduce
  · intro γ gen e he
    exact signsAlike_of_seesResidue he (NonceSource.seesResidue_hedged gen) hreduce
  · intro e key g
    exact verify_congr hreduce e key g

/-- The integers 1 and `n + 1` are two digests, and are signed and verified alike. -/
theorem digest_modulo_order_one :
    (⟨.ofNat 32 1⟩ : Digest) ≠ ⟨.ofNat 32 (groupOrder + 1)⟩ ∧
    SignsAlike (⟨.rfc6979, .software, (), ()⟩ : Engine Unit Rfc6979 Unit)
      ⟨.ofNat 32 1⟩ ⟨.ofNat 32 (groupOrder + 1)⟩ ∧
    SignsAlike (⟨.random .tape, .software, [], ()⟩ : Engine (List UInt8) Unit Unit)
      ⟨.ofNat 32 1⟩ ⟨.ofNat 32 (groupOrder + 1)⟩ ∧
    SignsAlike (⟨.hedged .tape, .software, [], ()⟩ : Engine (List UInt8) Rfc6979 Unit)
      ⟨.ofNat 32 1⟩ ⟨.ofNat 32 (groupOrder + 1)⟩ ∧
    ∀ (e : Engine Unit Rfc6979 Unit) (key : PublicKey) (g : Signature),
      e.verify ⟨.ofNat 32 1⟩ key g = e.verify ⟨.ofNat 32 (groupOrder + 1)⟩ key g := by
  have hmod : (⟨.ofNat 32 1⟩ : Digest).octets.value ≡
      (⟨.ofNat 32 (groupOrder + 1)⟩ : Digest).octets.value [MOD groupOrder] := by decide +kernel
  obtain ⟨hrfc, hrandom, hhedged, hverify⟩ :=
    digest_modulo_order (ν := Unit) (σ := Rfc6979) (β := Unit) hmod
  exact ⟨by decide +kernel, hrfc _ rfl, hrandom _ _ _ rfl, hhedged _ _ _ rfl, hverify⟩

end Engine

end Secp256r1
