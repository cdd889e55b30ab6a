import Secp256r1.Proofs.Point.Multiplication
import Secp256r1.SecretKey

/-!
# Keys hold what they promise

* `PublicKey.decode_eq_ok_iff`, `PublicKey.ofRaw_eq_ok_iff` — a public key is read exactly from what
  it writes, and holds a finite valid point.
* `SecretKey.decode_eq_ok_iff` — a secret key is read exactly from an integer in `[1, n-1]`.
* `SecretKey.publicKey_eq` — the public key of a live key is the multiple of the base point, which is
  finite.
-/

set_option autoImplicit false

namespace Secp256r1

theorem relabel_eq_ok_iff {α : Type} {context : String} {r : Except ArithmeticError α} {a : α} :
    relabel context r = .ok a ↔ r = .ok a := by
  cases r <;> simp [relabel, Except.mapError]

namespace PublicKey

variable {key : PublicKey}

/-- A key whose point is finite and valid. -/
def Live (key : PublicKey) : Prop := key.point.Valid ∧ key.point.isIdentity = false

/-- The software backend refuses no finite valid point. -/
theorem ofPoint_software (context : String) {p : Point} (hp : p.Valid)
    (hfinite : p.isIdentity = false) :
    ((ofPoint .software context p).run ()).1 = .ok ⟨p⟩ := by
  have hvalidate : p.validate = .ok () := by
    rw [hp.validate_eq, hfinite]
    rfl
  simp only [ofPoint, Backend.software, hvalidate]
  rfl

/-- Reading checks the length, then the encoding, then the point. -/
theorem decode_eq (bs : List UInt8) : decode bs =
    if bs.length = Curve.publicKeySize then
      match relabel "EcdsaP256PublicKey::import" (Point.decode bs) with
      | .error e => .error e
      | .ok p => ((ofPoint .software "EcdsaP256PublicKey::import" p).run ()).1
    else .error (.invalidKeyLength "EcdsaP256PublicKey::import" Curve.publicKeySize bs.length) := by
  simp only [decode, decodeWith, checkKeyLength]
  split_ifs
  · cases relabel "EcdsaP256PublicKey::import" (Point.decode bs) <;> rfl
  · rfl

/-- **The encoded form that is read is the one written**, and the key is live. -/
theorem decode_eq_ok_iff {bs : List UInt8} :
    decode bs = .ok key ↔ key.Live ∧ key.encode.toList = bs := by
  rw [decode_eq]
  constructor
  · intro h
    split at h
    · split at h
      · cases h
      · rename_i p hp
        obtain ⟨hvalid, hfinite, hencode⟩ := Point.decode_eq_ok_iff.mp (relabel_eq_ok_iff.mp hp)
        rw [ofPoint_software _ hvalid hfinite] at h
        cases h
        exact ⟨⟨hvalid, hfinite⟩, hencode⟩
    · cases h
  · rintro ⟨⟨hvalid, hfinite⟩, rfl⟩
    have hdecode := Point.decode_eq_ok_iff.mpr ⟨hvalid, hfinite, rfl⟩
    have hlength : key.encode.toList.length = Curve.publicKeySize := key.encode.length_toList
    rw [if_pos hlength, encode, relabel_eq_ok_iff.mpr hdecode]
    exact ofPoint_software _ hvalid hfinite

/-- **The raw form that is read is the one written**, and the key is live. -/
theorem ofRaw_eq_ok_iff {bs : List UInt8} :
    ofRaw bs = .ok key ↔ key.Live ∧ key.toRaw.toList = bs := by
  unfold ofRaw
  cases ho : Octets.ofList? 64 bs with
  | none =>
    refine iff_of_false (by simp [throw, throwThe, MonadExceptOf.throw]) ?_
    rintro ⟨-, h⟩
    exact Octets.toList_ne_of_ofList?_eq_none ho _ h
  | some o =>
    rw [← Octets.ofList?_eq_some_iff.mp ho, ← Octets.ext_iff]
    constructor
    · intro h
      cases hp : relabel "EcdsaP256PublicKey::from_raw_xy" (Point.ofRaw o) with
      | error e =>
        simp only [hp, bind, Except.bind] at h
        cases h
      | ok p =>
        obtain ⟨hvalid, hfinite, hraw⟩ := Point.ofRaw_eq_ok_iff.mp (relabel_eq_ok_iff.mp hp)
        simp only [hp, bind, Except.bind, ofPoint_software _ hvalid hfinite] at h
        cases h
        exact ⟨⟨hvalid, hfinite⟩, hraw⟩
    · rintro ⟨⟨hvalid, hfinite⟩, rfl⟩
      have hread := Point.ofRaw_eq_ok_iff.mpr ⟨hvalid, hfinite, rfl⟩
      simp only [toRaw, relabel_eq_ok_iff.mpr hread, bind, Except.bind]
      exact ofPoint_software _ hvalid hfinite

end PublicKey

namespace SecretKey

variable {key : SecretKey} {β : Type}

/-- **A secret key is read exactly from an integer in `[1, n-1]`.** -/
theorem decode_eq_ok_iff {bs : List UInt8} : decode bs = .ok key ↔
    key.isDisposed = false ∧ 0 < key.d.value ∧ key.d.value < groupOrder ∧
      key.d.toOctets.toList = bs := by
  unfold decode
  cases ho : Octets.ofList? 32 bs with
  | none =>
    refine iff_of_false (by simp) ?_
    rintro ⟨-, -, -, h⟩
    exact Octets.toList_ne_of_ofList?_eq_none ho _ h
  | some o =>
    rw [← Octets.ofList?_eq_some_iff.mp ho, ← Octets.ext_iff]
    dsimp only
    constructor
    · intro h
      cases hd : relabel "EcdsaP256SecretKey::import" (Scalar.ofCanonical o) with
      | error e => rw [hd] at h; cases h
      | ok d =>
        rw [hd] at h
        cases h
        obtain ⟨ho, hrange⟩ := Scalar.ofCanonical_eq_ok_iff.mp (relabel_eq_ok_iff.mp hd)
        exact ⟨rfl, hrange.1, hrange.2, ho⟩
    · rintro ⟨hlive, hpos, hlt, hoctets⟩
      have hread := Scalar.ofCanonical_eq_ok_iff.mpr ⟨hoctets, hpos, hlt⟩
      rw [relabel_eq_ok_iff.mpr hread, ← hlive]
      rfl

theorem scalar_eq (h : key.isDisposed = false) (context : String) :
    key.scalar context = .ok key.d := by
  unfold scalar
  rw [h]
  rfl

theorem scalar_of_disposed (h : key.isDisposed = true) (context : String) :
    key.scalar context = .error (.keyDisposed context) := by
  unfold scalar
  rw [h]
  rfl

theorem encode_of_disposed (h : key.isDisposed = true) :
    key.encode = .error (.keyDisposed "EcdsaP256SecretKey::export") := by
  unfold encode
  rw [scalar_of_disposed h]
  rfl

/-- A disposed key has no public key, and the backend is not asked for one. -/
theorem publicKeyWith_of_disposed (h : key.isDisposed = true) (backend : Backend β) :
    key.publicKeyWith backend = pure (.error (.keyDisposed "EcdsaP256SecretKey::public_key")) := by
  unfold publicKeyWith
  rw [scalar_of_disposed h]

theorem publicKey_of_disposed (h : key.isDisposed = true) :
    key.publicKey = .error (.keyDisposed "EcdsaP256SecretKey::public_key") := by
  unfold publicKey
  rw [publicKeyWith_of_disposed h]
  rfl

/-- A key is disposed of once. -/
@[simp]
theorem dispose_dispose (key : SecretKey) : key.dispose.dispose = key.dispose := rfl

theorem publicKey_eq (h : key.isDisposed = false) : key.publicKey = .ok ⟨.mulBase key.d⟩ := by
  unfold publicKey
  rw [publicKeyWith, scalar_eq h]
  rfl

/-- **The public key of a scalar in `[1, n-1]` is live.** -/
theorem live_mulBase {d : Scalar} (hpos : 0 < d.value) (hlt : d.value < groupOrder) :
    PublicKey.Live ⟨.mulBase d⟩ := by
  have h := Point.represents_mulBase d
  refine ⟨h.1, ?_⟩
  rw [Bool.eq_false_iff, Ne, h.isIdentity_iff, ← addOrderOf_dvd_iff_nsmul_eq_zero,
    addOrderOf_basePoint]
  exact Nat.not_dvd_of_pos_of_lt hpos hlt

end SecretKey

end Secp256r1
