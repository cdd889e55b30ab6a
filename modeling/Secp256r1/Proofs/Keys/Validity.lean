import Secp256r1.Backend.Scripted
import Secp256r1.Engine
import Secp256r1.Nonce.Rfc6979
import Secp256r1.Proofs.Keys
import Secp256r1.Proofs.Point.Obtainable

/-!
# Which public keys are genuine

A public key ought to hold a finite point of the curve that the group order annihilates.  Reading
checks that again on its own, so that it holds for whatever a backend says of the point.  A derived
key is the answer of the backend.

* `PublicKey.Genuine` — what a public key ought to be; `genuine_iff_live`.
* `PublicKey.genuine_of_decodeWith` — a backend can only refuse a key that is read.
* `PublicKey.genuine_exact` — **every key is genuine, but for one derived from a backend that
  answers with the identity**.
-/

set_option autoImplicit false

namespace Secp256r1

namespace PublicKey

variable {ν σ β : Type} {key : PublicKey}

/-- The point is finite, its coordinates are reduced and on the curve, and the group order
annihilates it. -/
structure Genuine (key : PublicKey) : Prop where
  finite : key.point.isIdentity = false
  x_lt : key.point.x.value < fieldPrime
  y_lt : key.point.y.value < fieldPrime
  equation : CurveEquation coefficientB key.point.x.value key.point.y.value
  order : key.point.mulOctets Curve.secp256r1.n = .identity

/-- The order of the point says nothing more. -/
theorem genuine_iff_live : key.Genuine ↔ key.Live := by
  constructor
  · intro h
    exact ⟨Point.valid_of_finite h.finite h.x_lt h.y_lt h.equation, h.finite⟩
  · rintro ⟨hvalid, hfinite⟩
    exact {
      finite := hfinite
      x_lt := hvalid.x_lt
      y_lt := hvalid.y_lt
      equation := hvalid.equation hfinite
      order := hvalid.represents.mulOctets_order }

/-- A point within reach is the identity, or makes a genuine key. -/
theorem genuine_mk_iff {p : Point} (hp : p.Obtainable) : Genuine ⟨p⟩ ↔ p ≠ .identity := by
  rw [genuine_iff_live]
  constructor
  · rintro ⟨-, hfinite⟩ rfl
    cases hfinite
  · intro hne
    refine ⟨hp.valid, ?_⟩
    rw [Bool.eq_false_iff]
    exact fun h => hne (hp.valid.eq_identity h)

/-- A key is made of the very point that the backend is asked about. -/
theorem eq_of_ofPoint {backend : Backend β} {context : String} {p : Point} {device : β}
    (h : ((ofPoint backend context p).run device).1 = .ok key) : key = ⟨p⟩ := by
  have hanswer : ((ofPoint backend context p).run device).1 =
      (relabel context ((backend.validatePoint p).run device).1).map fun _ => ⟨p⟩ := rfl
  rw [hanswer] at h
  cases hverdict : relabel context ((backend.validatePoint p).run device).1 with
  | error e =>
    rw [hverdict] at h
    cases h
  | ok _ =>
    rw [hverdict] at h
    cases h
    rfl

/-- **The backend can only refuse a key that is read**: whatever it answers, a key that comes out
has passed the checks of the encoding. -/
theorem genuine_of_decodeWith {backend : Backend β} {bs : List UInt8} {device : β}
    (h : ((decodeWith backend bs).run device).1 = .ok key) : key.Genuine := by
  unfold decodeWith at h
  dsimp only at h
  split at h
  · cases h
  · rename_i p hread
    have hpoint : Point.decode bs = .ok p := by
      unfold checkKeyLength at hread
      split at hread
      · exact relabel_eq_ok_iff.mp hread
      · cases hread
    obtain ⟨hvalid, hfinite, -⟩ := Point.decode_eq_ok_iff.mp hpoint
    rw [eq_of_ofPoint h, genuine_iff_live]
    exact ⟨hvalid, hfinite⟩

/-- **Every public key is genuine, but for one derived from a backend that answers with the
identity.**  Both ways of reading give genuine keys, on every backend and whatever it says of the
point.  For a secret key that was read, this library derives a genuine key.  Another backend derives
the point that it answers with, unseen: if that is within reach of a caller, the key is genuine
unless the point is the identity. -/
theorem genuine_exact (e : Engine ν σ β) :
    (∀ (bs : List UInt8) (key : PublicKey), decode bs = .ok key ∨ ofRaw bs = .ok key ∨
      ((decodeWith e.backend bs).run e.device).1 = .ok key ∨
      (e.decodePublicKey bs).1 = .ok key → key.Genuine) ∧
    (∀ (bs : List UInt8) (secret : SecretKey), SecretKey.decode bs = .ok secret →
      (∃ key, secret.publicKey = .ok key ∧ key.Genuine) ∧
      ∀ (p : Point) (device : β), (e.backend.mulBase secret.d).run e.device = (p, device) →
        p.Obtainable →
        (secret.publicKeyWith e.backend).run e.device = (.ok ⟨p⟩, device) ∧
        e.publicKey secret = (.ok ⟨p⟩, { e with device }) ∧
        (Genuine ⟨p⟩ ↔ p ≠ .identity)) := by
  constructor
  · rintro bs key (h | h | h | h)
    · exact genuine_iff_live.mpr (decode_eq_ok_iff.mp h).1
    · exact genuine_iff_live.mpr (ofRaw_eq_ok_iff.mp h).1
    · exact genuine_of_decodeWith h
    · have hread : ((decodeWith e.backend bs).run e.device).1 = .ok key := h
      exact genuine_of_decodeWith hread
  · intro bs secret hsecret
    obtain ⟨hlive, hpos, hlt, -⟩ := SecretKey.decode_eq_ok_iff.mp hsecret
    refine ⟨⟨_, SecretKey.publicKey_eq hlive,
      genuine_iff_live.mpr (SecretKey.live_mulBase hpos hlt)⟩, ?_⟩
    intro p device hpoint hp
    have hderived : (secret.publicKeyWith e.backend).run e.device = (.ok ⟨p⟩, device) := by
      rw [SecretKey.publicKeyWith, SecretKey.scalar_eq hlive, StateT.run_bind, hpoint]
      rfl
    refine ⟨hderived, ?_, genuine_mk_iff hp⟩
    rw [Engine.publicKey, Engine.onDevice, hderived]

/-- An engine whose backend answers its first multiplication with a given point. -/
def answering (p : Point) : Engine Unit Rfc6979 Script :=
  ⟨.rfc6979, .scripted, (), ⟨[p], [], none, []⟩⟩

/-- A backend that answers with the base point derives a genuine key from the integer 1. -/
theorem genuine_exact_generator :
    SecretKey.decode Scalar.one.toOctets.toList = .ok ⟨.one, false⟩ ∧
    ((answering .generator).publicKey ⟨.one, false⟩).1 = .ok ⟨.generator⟩ ∧
    Genuine ⟨.generator⟩ := by
  have hkey : SecretKey.decode Scalar.one.toOctets.toList = .ok ⟨.one, false⟩ := by decide +kernel
  obtain ⟨-, hderive⟩ := (genuine_exact (answering .generator)).2 _ _ hkey
  obtain ⟨-, hanswer, hgenuine⟩ := hderive _ _ rfl .generator
  exact ⟨hkey, congrArg Prod.fst hanswer, hgenuine.mpr (by decide)⟩

/-- **A backend that answers with the identity derives a key that is not genuine** from the integer
1, although the identity is a point within reach. -/
theorem not_genuine_of_identity :
    SecretKey.decode Scalar.one.toOctets.toList = .ok ⟨.one, false⟩ ∧
    Point.identity.Obtainable ∧
    ((answering .identity).publicKey ⟨.one, false⟩).1 = .ok ⟨.identity⟩ ∧
    ¬ Genuine ⟨.identity⟩ := by
  refine ⟨by decide +kernel, .identity, rfl, ?_⟩
  intro h
  cases h.finite

end PublicKey

end Secp256r1
