import Secp256r1.Proofs.Keys

/-!
# The grammar of public keys

What is read as a public key, and what is said of all other octets.

* `Encoded` — 65 octets: the tag `0x04` and two reduced coordinates of a point on the curve.
* `exists_live_encode_iff` — exactly these octets are written by live keys.
* `decode_eq_error_of_length_eq` — octets of the right length are refused in one way only: neither
  the subgroup check nor the check for the identity ever speaks.
* `mapError_kind_ofRaw` — the raw form is read as the encoded form without its tag.
* `decode_exact` — **reading accepts exactly the grammar and undoes writing**.
-/

set_option autoImplicit false

namespace Secp256r1

namespace Point

variable {e : ArithmeticError}

/-- Coordinates are refused in one way: they stand for no point of the curve. -/
theorem ofCoordinates_eq_error {x y : Octets 32} (h : ofCoordinates x y = .error e) :
    ∃ context, e = .pointNotOnCurve context := by
  unfold ofCoordinates at h
  cases hx : FieldElement.ofOctets x with
  | error _ =>
    rw [hx] at h
    cases h
    exact ⟨_, rfl⟩
  | ok u =>
    cases hy : FieldElement.ofOctets y with
    | error _ =>
      rw [hx, hy] at h
      cases h
      exact ⟨_, rfl⟩
    | ok v =>
      rw [hx, hy] at h
      simp only [Except.mapError, checkOnCurve, bind, Except.bind] at h
      split at h
      · rename_i hcheck
        split at hcheck
        · cases hcheck
        · cases hcheck
          cases h
          exact ⟨_, rfl⟩
      · cases h

theorem ofRaw_eq_error {o : Octets 64} (h : ofRaw o = .error e) :
    ∃ context, e = .pointNotOnCurve context := ofCoordinates_eq_error h

theorem decode_eq_error {bs : List UInt8} (hlength : bs.length = 65) (h : decode bs = .error e) :
    ∃ context, e = .pointNotOnCurve context := by
  unfold decode Octets.ofList? at h
  rw [dif_pos hlength] at h
  dsimp only at h
  split at h
  · exact ofRaw_eq_error h
  · cases h
    exact ⟨_, rfl⟩

end Point

namespace PublicKey

/-! ## The grammar -/

/-- The integer of the 32 octets after the tag. -/
def abscissa (bs : List UInt8) : ℕ := bigEndian ((bs.drop 1).take 32)

/-- The integer of the 32 octets after the abscissa. -/
def ordinate (bs : List UInt8) : ℕ := bigEndian ((bs.drop 33).take 32)

/-- Octets that stand for a public key: the tag `0x04` and two coordinates of 32 octets, both below
`p` and on the curve. -/
structure Encoded (bs : List UInt8) : Prop where
  length_eq : bs.length = 65
  head_eq : bs.head? = some 0x04
  abscissa_lt : abscissa bs < fieldPrime
  ordinate_lt : ordinate bs < fieldPrime
  equation : CurveEquation coefficientB (abscissa bs) (ordinate bs)

theorem encoded_append_iff {tag : Octets 1} {x y : Octets 32} :
    Encoded (tag.append (x.append y)).toList ↔ tag = .replicate 1 0x04 ∧ x.value < fieldPrime ∧
      y.value < fieldPrime ∧ CurveEquation coefficientB x.value y.value := by
  obtain ⟨t, ht⟩ := List.length_eq_one_iff.mp tag.length_toList
  have hlist : (tag.append (x.append y)).toList = t :: (x.toList ++ y.toList) := by
    show tag.toList ++ (x.toList ++ y.toList) = _
    rw [ht, List.singleton_append]
  have hx : abscissa (t :: (x.toList ++ y.toList)) = x.value := by
    unfold abscissa
    rw [List.drop_one, List.tail_cons, List.take_left' x.length_toList]
    rfl
  have hy : ordinate (t :: (x.toList ++ y.toList)) = y.value := by
    unfold ordinate
    rw [List.drop_succ_cons, List.drop_left' x.length_toList,
      List.take_of_length_le y.length_toList.le]
    rfl
  have htag : tag = .replicate 1 0x04 ↔ t = 0x04 := by
    rw [Octets.ext_iff, ht]
    exact List.singleton_inj
  rw [hlist, htag]
  constructor
  · intro h
    have h₁ := h.abscissa_lt
    have h₂ := h.ordinate_lt
    have h₃ := h.equation
    rw [hx] at h₁ h₃
    rw [hy] at h₂ h₃
    exact ⟨Option.some.inj h.head_eq, h₁, h₂, h₃⟩
  · rintro ⟨rfl, h₁, h₂, h₃⟩
    rw [← hx] at h₁ h₃
    rw [← hy] at h₂ h₃
    exact ⟨by simp [x.length_toList, y.length_toList], rfl, h₁, h₂, h₃⟩

/-- **Live keys write exactly the grammar.** -/
theorem exists_live_encode_iff {bs : List UInt8} :
    (∃ key : PublicKey, key.Live ∧ key.encode.toList = bs) ↔ Encoded bs := by
  constructor
  · rintro ⟨key, ⟨hvalid, hfinite⟩, rfl⟩
    rw [encode, Point.encode_of_finite hfinite, Point.toRaw, encoded_append_iff,
      FieldElement.value_toOctets, FieldElement.value_toOctets]
    exact ⟨rfl, hvalid.x_lt, hvalid.y_lt, hvalid.equation hfinite⟩
  · intro h
    obtain ⟨o, rfl⟩ : ∃ o : Octets 65, o.toList = bs := ⟨⟨bs, h.length_eq⟩, rfl⟩
    obtain ⟨tag, raw, rfl⟩ := Octets.exists_eq_append (m := 1) (n := 64) o
    obtain ⟨x, y, rfl⟩ := Octets.exists_eq_append (m := 32) (n := 32) raw
    obtain ⟨rfl, hx, hy, heq⟩ := encoded_append_iff.mp h
    rw [← Words.value_ofOctets] at hx hy heq
    rw [← Words.value_ofOctets y] at heq
    refine ⟨⟨⟨false, ⟨.ofOctets x⟩, ⟨.ofOctets y⟩⟩⟩,
      ⟨Point.valid_of_finite rfl hx hy heq, rfl⟩, ?_⟩
    rw [encode, Point.encode_of_finite rfl, Point.toRaw, FieldElement.toOctets,
      FieldElement.toOctets, Words.toOctets_ofOctets, Words.toOctets_ofOctets]

theorem exists_decode_eq_ok_iff {bs : List UInt8} : (∃ key, decode bs = .ok key) ↔ Encoded bs := by
  rw [← exists_live_encode_iff]
  exact exists_congr fun _ => decode_eq_ok_iff

/-! ## Refusals -/

variable {bs : List UInt8} {e : Error}

theorem decode_of_length_ne (h : bs.length ≠ 65) : decode bs =
    .error (.invalidKeyLength "EcdsaP256PublicKey::import" 65 bs.length) := by
  rw [decode_eq]
  exact if_neg h

/-- **Octets of the right length are refused in one way.** -/
theorem decode_eq_error_of_length_eq (hlength : bs.length = 65) (h : decode bs = .error e) :
    e = .pointNotOnCurve "EcdsaP256PublicKey::import" := by
  have hsize : bs.length = Curve.publicKeySize := hlength
  rw [decode_eq, if_pos hsize] at h
  cases hp : Point.decode bs with
  | error a =>
    obtain ⟨context, rfl⟩ := Point.decode_eq_error hlength hp
    rw [hp] at h
    cases h
    rfl
  | ok p =>
    obtain ⟨hvalid, hfinite, -⟩ := Point.decode_eq_ok_iff.mp hp
    rw [relabel_eq_ok_iff.mpr hp] at h
    dsimp only at h
    rw [ofPoint_software _ hvalid hfinite] at h
    cases h

theorem decode_eq_pointNotOnCurve_iff : decode bs =
    .error (.pointNotOnCurve "EcdsaP256PublicKey::import") ↔ bs.length = 65 ∧ ¬ Encoded bs := by
  constructor
  · intro h
    constructor
    · by_contra hlength
      rw [decode_of_length_ne hlength] at h
      cases h
    · intro hencoded
      obtain ⟨key, hkey⟩ := exists_decode_eq_ok_iff.mpr hencoded
      rw [hkey] at h
      cases h
  · rintro ⟨hlength, hencoded⟩
    cases h : decode bs with
    | error e => rw [decode_eq_error_of_length_eq hlength h]
    | ok key => exact absurd (exists_decode_eq_ok_iff.mp ⟨key, h⟩) hencoded

/-! ## The raw form -/

theorem ofRaw_of_length_ne (h : bs.length ≠ 64) : ofRaw bs =
    .error (.invalidKeyLength "EcdsaP256PublicKey::from_raw_xy" 64 bs.length) := by
  unfold ofRaw Octets.ofList?
  rw [dif_neg h]
  rfl

theorem ofRaw_eq_error_of_length_eq (hlength : bs.length = 64) (h : ofRaw bs = .error e) :
    e = .pointNotOnCurve "EcdsaP256PublicKey::from_raw_xy" := by
  unfold ofRaw Octets.ofList? at h
  rw [dif_pos hlength] at h
  dsimp only at h
  cases hp : Point.ofRaw ⟨bs, hlength⟩ with
  | error a =>
    obtain ⟨context, rfl⟩ := Point.ofRaw_eq_error hp
    rw [hp] at h
    cases h
    rfl
  | ok p =>
    obtain ⟨hvalid, hfinite, -⟩ := Point.ofRaw_eq_ok_iff.mp hp
    rw [relabel_eq_ok_iff.mpr hp] at h
    simp only [bind, Except.bind, ofPoint_software _ hvalid hfinite] at h
    cases h

/-- A key is read from its raw form and from its encoded form alike. -/
theorem ofRaw_eq_ok_iff_decode {key : PublicKey} :
    ofRaw bs = .ok key ↔ decode (0x04 :: bs) = .ok key := by
  rw [ofRaw_eq_ok_iff, decode_eq_ok_iff]
  refine and_congr_right fun hlive => ?_
  have hencode : key.encode.toList = 0x04 :: key.toRaw.toList := by
    rw [encode, Point.encode_of_finite hlive.2]
    rfl
  rw [hencode, List.cons.injEq]
  exact ⟨fun h => ⟨rfl, h⟩, And.right⟩

/-- **The raw form is read as the encoded form without its tag**: the same key, or an error of the
same kind. -/
theorem mapError_kind_ofRaw (bs : List UInt8) :
    (ofRaw bs).mapError Error.kind = (decode (0x04 :: bs)).mapError Error.kind := by
  cases hraw : ofRaw bs with
  | ok key => rw [ofRaw_eq_ok_iff_decode.mp hraw]
  | error e =>
    by_cases hlength : bs.length = 64
    · cases hdecode : decode (0x04 :: bs) with
      | ok key =>
        rw [ofRaw_eq_ok_iff_decode.mpr hdecode] at hraw
        cases hraw
      | error e' =>
        rw [ofRaw_eq_error_of_length_eq hlength hraw,
          decode_eq_error_of_length_eq (by rw [List.length_cons, hlength]) hdecode]
        rfl
    · rw [ofRaw_of_length_ne hlength] at hraw
      cases hraw
      rw [decode_of_length_ne (by rw [List.length_cons]; omega)]
      rfl

/-- **Reading accepts exactly the grammar and undoes writing.**  Octets are read exactly if they are
encoded; otherwise a wrong length is one error and all else another.  What is read writes back,
and reads again as an equal key.  The raw form is read exactly as the encoded form is. -/
theorem decode_exact :
    (∀ bs, (∃ key, decode bs = .ok key) ↔ Encoded bs) ∧
    (∀ bs, decode bs = .error (.invalidKeyLength "EcdsaP256PublicKey::import" 65 bs.length) ↔
      bs.length ≠ 65) ∧
    (∀ bs, decode bs = .error (.pointNotOnCurve "EcdsaP256PublicKey::import") ↔
      bs.length = 65 ∧ ¬ Encoded bs) ∧
    (∀ bs key, decode bs = .ok key → key.encode.toList = bs ∧
      ∃ again, decode key.encode.toList = .ok again ∧ again = key ∧ again.equal key = true) ∧
    ∀ bs, (ofRaw bs).mapError Error.kind = (decode (0x04 :: bs)).mapError Error.kind := by
  refine ⟨fun _ => exists_decode_eq_ok_iff, fun bs => ⟨fun h hlength => ?_, decode_of_length_ne⟩,
    fun _ => decode_eq_pointNotOnCurve_iff, fun bs key h => ?_, mapError_kind_ofRaw⟩
  · cases decode_eq_error_of_length_eq hlength h
  · obtain ⟨⟨hvalid, hfinite⟩, hencode⟩ := decode_eq_ok_iff.mp h
    exact ⟨hencode, key, by rw [hencode, h], rfl, (hvalid.equal_iff hvalid).mpr rfl⟩

/-- The key of the base point; its encoding with another tag, and without a tag. -/
theorem decode_exact_generator :
    (∃ again, decode (encode ⟨.generator⟩).toList = .ok again ∧ again = ⟨.generator⟩ ∧
      again.equal ⟨.generator⟩ = true) ∧
    decode (0x02 :: (toRaw ⟨.generator⟩).toList) =
      .error (.pointNotOnCurve "EcdsaP256PublicKey::import") ∧
    (ofRaw (toRaw ⟨.generator⟩).toList).mapError Error.kind = .ok ⟨.generator⟩ := by
  have hread : decode (encode ⟨.generator⟩).toList = .ok ⟨.generator⟩ :=
    decode_eq_ok_iff.mpr ⟨⟨Point.represents_generator.1, rfl⟩, rfl⟩
  obtain ⟨-, -, hrefused, hagain, hraw⟩ := decode_exact
  refine ⟨(hagain _ _ hread).2, (hrefused _).mpr ⟨?_, ?_⟩, ?_⟩
  · rw [List.length_cons, Octets.length_toList]
  · intro h
    cases h.head_eq
  · rw [hraw]
    exact congrArg (Except.mapError Error.kind) hread

end PublicKey

end Secp256r1
