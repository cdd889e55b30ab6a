import Secp256r1.Proofs.Keys

/-!
# One range, checked twice

The group order stands in the library as octets and as words.  Scalars and keys are read against the
octets, by the borrow of a comparison; reduction subtracts the words.  Both draw the line at the same
integer, so that what is read is exactly what reduction leaves alone, zero apart.

* `Scalar.toOctets_reduce_eq_iff`, `Scalar.exists_ofCanonical_iff_reduce` — the two checks agree.
* `Scalar.Accepted` — octets of any number that are accepted as a scalar.
* `ReadsRange` — a reader that accepts these and has one reason for a wrong length and another for
  the rest; `Scalar.readsRange_decode`, `SecretKey.readsRange_decode`.
* `range_checks_agree` — **scalars, keys and reduction agree on the range.**
-/

set_option autoImplicit false

namespace Secp256r1

namespace Scalar

variable {o : Octets 32}

/-! ## The two checks -/

theorem exists_ofCanonical_iff :
    (∃ k, ofCanonical o = .ok k) ↔ 0 < o.value ∧ o.value < groupOrder := by
  rw [ofCanonical_eq]
  constructor
  · rintro ⟨k, hk⟩
    split at hk
    · assumption
    · cases hk
  · intro h
    exact ⟨_, if_pos h⟩

/-- Reduction leaves exactly the integers below the order alone. -/
theorem toOctets_reduce_eq_iff : (reduce o).toOctets = o ↔ o.value < groupOrder := by
  have h := represents_reduce o
  constructor
  · intro ho
    have hlt : (reduce o).toOctets.value < groupOrder := h.lt
    rwa [ho] at hlt
  · intro hlt
    have hvalue : (reduce o).value = o.value := h.trans (ZMod.val_cast_of_lt hlt)
    exact Octets.value_injective hvalue

/-- **The check by octets and the one by words agree.** -/
theorem exists_ofCanonical_iff_reduce :
    (∃ k, ofCanonical o = .ok k) ↔ o ≠ .zero 32 ∧ (reduce o).toOctets = o := by
  have hzero : 0 < o.value ↔ o ≠ .zero 32 := by
    rw [Nat.pos_iff_ne_zero, Ne, Ne, ← Octets.value_inj, Octets.value_zero]
  rw [exists_ofCanonical_iff, toOctets_reduce_eq_iff, hzero]

/-! ## Octets of any number -/

/-- Octets that are accepted as a scalar; there are 32 of them. -/
def Accepted (bs : List UInt8) : Prop :=
  ∃ (o : Octets 32) (k : Scalar), o.toList = bs ∧ ofCanonical o = .ok k

theorem accepted_toList_iff : Accepted o.toList ↔ 0 < o.value ∧ o.value < groupOrder := by
  rw [← exists_ofCanonical_iff]
  constructor
  · rintro ⟨o', k, ho, hk⟩
    rw [← Octets.ext ho]
    exact ⟨k, hk⟩
  · rintro ⟨k, hk⟩
    exact ⟨o, k, rfl, hk⟩

theorem Accepted.length_eq {bs : List UInt8} (h : Accepted bs) : bs.length = 32 := by
  obtain ⟨o, -, rfl, -⟩ := h
  exact o.length_toList

end Scalar

/-! ## Readers -/

/-- A reader of octets that has one reason to refuse a wrong length and another to refuse an integer
out of range. -/
structure ReadsRange {α ε : Type} (read : List UInt8 → Except ε α) (make : Octets 32 → α)
    (wrongLength : ℕ → ε) (outOfRange : ε) : Prop where
  of_length_ne : ∀ bs, bs.length ≠ 32 → read bs = .error (wrongLength bs.length)
  of_octets : ∀ o : Octets 32, read o.toList =
    if 0 < o.value ∧ o.value < groupOrder then .ok (make o) else .error outOfRange

section

open Scalar (Accepted accepted_toList_iff)

variable {α ε : Type} {read : List UInt8 → Except ε α} {make : Octets 32 → α}
  {wrongLength : ℕ → ε} {outOfRange e : ε} {bs : List UInt8} {a : α}

/-- **Such a reader accepts exactly what is accepted as a scalar**, and makes its result of it. -/
theorem ReadsRange.eq_ok_iff (h : ReadsRange read make wrongLength outOfRange) :
    read bs = .ok a ↔ Accepted bs ∧ ∃ o : Octets 32, o.toList = bs ∧ make o = a := by
  by_cases hlength : bs.length = 32
  · obtain ⟨o, rfl⟩ : ∃ o : Octets 32, o.toList = bs := ⟨⟨bs, hlength⟩, rfl⟩
    have hmade : (∃ o' : Octets 32, o'.toList = o.toList ∧ make o' = a) ↔ make o = a := by
      constructor
      · rintro ⟨o', ho, rfl⟩
        rw [Octets.ext ho]
      · intro ha
        exact ⟨o, rfl, ha⟩
    rw [h.of_octets, accepted_toList_iff, hmade]
    split
    · rename_i hrange
      simp [hrange]
    · rename_i hrange
      simp [hrange]
  · rw [h.of_length_ne bs hlength]
    exact iff_of_false (by simp) fun hread => hlength hread.1.length_eq

theorem ReadsRange.exists_eq_ok_iff (h : ReadsRange read make wrongLength outOfRange) :
    (∃ a, read bs = .ok a) ↔ Accepted bs := by
  constructor
  · rintro ⟨a, ha⟩
    exact (h.eq_ok_iff.mp ha).1
  · intro haccepted
    exact ⟨make ⟨bs, haccepted.length_eq⟩, h.eq_ok_iff.mpr ⟨haccepted, _, rfl, rfl⟩⟩

/-- **Such a reader refuses for two reasons only.** -/
theorem ReadsRange.eq_error_iff (h : ReadsRange read make wrongLength outOfRange) :
    read bs = .error e ↔ bs.length ≠ 32 ∧ e = wrongLength bs.length ∨
      bs.length = 32 ∧ ¬ Accepted bs ∧ e = outOfRange := by
  by_cases hlength : bs.length = 32
  · obtain ⟨o, rfl⟩ : ∃ o : Octets 32, o.toList = bs := ⟨⟨bs, hlength⟩, rfl⟩
    rw [h.of_octets, accepted_toList_iff]
    split
    · rename_i hrange
      simp [hlength, hrange]
    · rename_i hrange
      simp only [Except.error.injEq, hlength, hrange]
      simp [eq_comm]
  · rw [h.of_length_ne bs hlength]
    simp [hlength, eq_comm]

end

theorem Scalar.readsRange_decode : ReadsRange Scalar.decode (fun o => ⟨⟨o⟩⟩)
    (.length "P-256 Scalar" 32) (.scalarRange "P-256 Scalar") where
  of_length_ne := by
    intro bs h
    unfold Scalar.decode Octets.ofList?
    rw [dif_neg h]
  of_octets := by
    intro o
    unfold Scalar.decode
    rw [Octets.ofList?_toList]
    exact Scalar.ofCanonical_eq o

theorem SecretKey.readsRange_decode : ReadsRange SecretKey.decode (fun o => ⟨⟨⟨o⟩⟩, false⟩)
    (.invalidKeyLength "EcdsaP256SecretKey::import" 32)
    (.invalidScalarRange "EcdsaP256SecretKey::import") where
  of_length_ne := by
    intro bs h
    unfold SecretKey.decode Octets.ofList?
    rw [dif_neg h]
    rfl
  of_octets := by
    intro o
    unfold SecretKey.decode
    rw [Octets.ofList?_toList]
    dsimp only
    rw [Scalar.ofCanonical_eq]
    split <;> rfl

/-- A scalar that was read holds the octets that it was read from. -/
theorem Scalar.toOctets_of_decode {bs : List UInt8} {k : Scalar} (h : Scalar.decode bs = .ok k) :
    k.toOctets.toList = bs := by
  obtain ⟨-, o, rfl, rfl⟩ := Scalar.readsRange_decode.eq_ok_iff.mp h
  rfl

/-- A key that was read writes the octets that it was read from. -/
theorem SecretKey.encode_of_decode {bs : List UInt8} {key : SecretKey}
    (h : SecretKey.decode bs = .ok key) : ∃ o : Octets 32, key.encode = .ok o ∧ o.toList = bs := by
  obtain ⟨-, o, rfl, rfl⟩ := SecretKey.readsRange_decode.eq_ok_iff.mp h
  exact ⟨o, rfl, rfl⟩

/-- **All checks of the range `[1, n-1]` agree.**

* 32 octets are accepted as a scalar exactly if their integer is in the range, and exactly if they
  are not all zero and reduction leaves them alone.  The scalar writes them back.
* Octets of any number are read as a scalar, and as a secret key, exactly if they are 32 and accepted
  as a scalar.  Another length is refused for its length, all else for the range.
* What was read writes the octets that it was read from. -/
theorem range_checks_agree :
    (∀ o : Octets 32,
      ((∃ k, Scalar.ofCanonical o = .ok k) ↔ 1 ≤ o.value ∧ o.value ≤ groupOrder - 1) ∧
      ((∃ k, Scalar.ofCanonical o = .ok k) ↔ o ≠ .zero 32 ∧ (Scalar.reduce o).toOctets = o) ∧
      ∀ k, Scalar.ofCanonical o = .ok k → k.toOctets = o) ∧
    ∀ bs : List UInt8,
      ((∃ k, Scalar.decode bs = .ok k) ↔ Scalar.Accepted bs) ∧
      (∀ e, Scalar.decode bs = .error e ↔
        bs.length ≠ 32 ∧ e = .length "P-256 Scalar" 32 bs.length ∨
        bs.length = 32 ∧ ¬ Scalar.Accepted bs ∧ e = .scalarRange "P-256 Scalar") ∧
      (∀ k, Scalar.decode bs = .ok k → k.toOctets.toList = bs) ∧
      ((∃ key, SecretKey.decode bs = .ok key) ↔ Scalar.Accepted bs) ∧
      (∀ e, SecretKey.decode bs = .error e ↔
        bs.length ≠ 32 ∧ e = .invalidKeyLength "EcdsaP256SecretKey::import" 32 bs.length ∨
        bs.length = 32 ∧ ¬ Scalar.Accepted bs ∧
          e = .invalidScalarRange "EcdsaP256SecretKey::import") ∧
      ∀ key, SecretKey.decode bs = .ok key →
        ∃ o : Octets 32, key.encode = .ok o ∧ o.toList = bs := by
  constructor
  · intro o
    refine ⟨?_, Scalar.exists_ofCanonical_iff_reduce, fun k hk => ?_⟩
    · have hpos : 0 < groupOrder := prime_groupOrder.pos
      rw [Scalar.exists_ofCanonical_iff]
      omega
    · exact (Scalar.ofCanonical_eq_ok_iff.mp hk).1
  · intro bs
    exact ⟨Scalar.readsRange_decode.exists_eq_ok_iff, fun e => Scalar.readsRange_decode.eq_error_iff,
      fun k => Scalar.toOctets_of_decode, SecretKey.readsRange_decode.exists_eq_ok_iff,
      fun e => SecretKey.readsRange_decode.eq_error_iff, fun key => SecretKey.encode_of_decode⟩

/-- The greatest integer in the range and the least above it, zero, and octets of another length. -/
theorem range_checks_agree_ends :
    (∃ key o, SecretKey.decode (Octets.ofNat 32 (groupOrder - 1)).toList = .ok key ∧
      key.encode = .ok o ∧ o.toList = (Octets.ofNat 32 (groupOrder - 1)).toList) ∧
    Scalar.decode Curve.secp256r1.n.toList = .error (.scalarRange "P-256 Scalar") ∧
    SecretKey.decode (Octets.zero 32).toList =
      .error (.invalidScalarRange "EcdsaP256SecretKey::import") ∧
    SecretKey.decode (Octets.zero 31).toList =
      .error (.invalidKeyLength "EcdsaP256SecretKey::import" 32 31) := by
  have hgreatest : Scalar.Accepted (Octets.ofNat 32 (groupOrder - 1)).toList :=
    Scalar.accepted_toList_iff.mpr (by decide +kernel)
  have horder : ¬ Scalar.Accepted Curve.secp256r1.n.toList := by
    rw [Scalar.accepted_toList_iff]
    decide +kernel
  have hzero : ¬ Scalar.Accepted (Octets.zero 32).toList := by
    rw [Scalar.accepted_toList_iff]
    decide +kernel
  obtain ⟨-, -, -, hread, -, hwritten⟩ :=
    range_checks_agree.2 (Octets.ofNat 32 (groupOrder - 1)).toList
  obtain ⟨-, hscalar, -⟩ := range_checks_agree.2 Curve.secp256r1.n.toList
  obtain ⟨-, -, -, -, hkey, -⟩ := range_checks_agree.2 (Octets.zero 32).toList
  obtain ⟨-, -, -, -, hshort, -⟩ := range_checks_agree.2 (Octets.zero 31).toList
  obtain ⟨key, hdecode⟩ := hread.mpr hgreatest
  obtain ⟨o, hencode, ho⟩ := hwritten key hdecode
  exact ⟨⟨key, o, hdecode, hencode, ho⟩, (hscalar _).mpr (.inr ⟨rfl, horder, rfl⟩),
    (hkey _).mpr (.inr ⟨rfl, hzero, rfl⟩), (hshort _).mpr (.inl ⟨by decide, rfl⟩)⟩

end Secp256r1
