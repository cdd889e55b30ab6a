import Secp256r1.Proofs.Field.Residue

/-!
# Field elements within reach

A caller gets field elements from the constructors and from the operations.  These are exactly the
elements whose words hold an integer below the field prime, so that they match the residues one to
one.

* `Obtainable` — the field elements that a caller can have; `obtainable_iff_lt`.
* `Represents.value_natCast`, `Represents.value_intCast` — what stands for an integer holds its
  remainder.
* `canonical_field` — **the operations return the remainders of the integer results**, equality is
  that of residues, and reading and writing undo each other.
-/

set_option autoImplicit false

namespace Secp256r1

namespace FieldElement

variable {a b : FieldElement}

/-- The field elements that the constructors and the operations produce. -/
inductive Obtainable : FieldElement → Prop
  | zero : Obtainable zero
  | one : Obtainable one
  | ofUInt32 (n : UInt32) : Obtainable (ofUInt32 n)
  | ofOctets {o : Octets 32} {a : FieldElement} : ofOctets o = .ok a → Obtainable a
  | add {a b : FieldElement} : Obtainable a → Obtainable b → Obtainable (a + b)
  | sub {a b : FieldElement} : Obtainable a → Obtainable b → Obtainable (a - b)
  | mul {a b : FieldElement} : Obtainable a → Obtainable b → Obtainable (a * b)
  | double {a : FieldElement} : Obtainable a → Obtainable a.double
  | triple {a : FieldElement} : Obtainable a → Obtainable a.triple
  | negate {a : FieldElement} : Obtainable a → Obtainable a.negate
  | square {a : FieldElement} : Obtainable a → Obtainable a.square
  | invert {a b : FieldElement} : Obtainable a → a.invert = .ok b → Obtainable b
  | select {a b : FieldElement} (choice : Bool) :
      Obtainable a → Obtainable b → Obtainable (a.select b choice)
  | wipe {a : FieldElement} : Obtainable a → Obtainable a.wipe

theorem value_ofUInt32 (n : UInt32) : (ofUInt32 n).value = n.toNat := by
  show n.toNat + UInt32.size * littleEndian (List.replicate 7 0) = n.toNat
  rw [littleEndian_replicate_zero, Nat.mul_zero, Nat.add_zero]

theorem ofUInt32_lt (n : UInt32) : (ofUInt32 n).value < fieldPrime := by
  have hprime : UInt32.size < fieldPrime := by decide +kernel
  rw [value_ofUInt32]
  exact n.toNat_lt.trans hprime

theorem lt_of_invert (ha : a.value < fieldPrime) (h : a.invert = .ok b) : b.value < fieldPrime := by
  unfold invert at h
  split at h
  · cases h
  · rw [← Except.ok.inj h]
    exact (represents_of_lt ha).invertTotal.lt

theorem wipe_eq_zero (a : FieldElement) : a.wipe = zero := rfl

/-- **Every step keeps elements reduced.** -/
theorem Obtainable.lt (h : Obtainable a) : a.value < fieldPrime := by
  induction h with
  | zero => exact represents_zero.lt
  | one => exact represents_one.lt
  | ofUInt32 n => exact ofUInt32_lt n
  | ofOctets h => exact (ofOctets_eq_ok_iff.mp h).1
  | add _ _ ha hb => exact ((represents_of_lt ha).add (represents_of_lt hb)).lt
  | sub _ _ ha hb => exact ((represents_of_lt ha).sub (represents_of_lt hb)).lt
  | mul _ _ ha hb => exact ((represents_of_lt ha).mul (represents_of_lt hb)).lt
  | double _ ha => exact (represents_of_lt ha).double.lt
  | triple _ ha => exact (represents_of_lt ha).triple.lt
  | negate _ ha => exact (represents_of_lt ha).negate.lt
  | square _ ha => exact (represents_of_lt ha).square.lt
  | invert _ h ha => exact lt_of_invert ha h
  | select choice _ _ ha hb =>
    cases choice with
    | false => rwa [select_false]
    | true => rwa [select_true]
  | wipe _ _ =>
    rw [wipe_eq_zero]
    exact represents_zero.lt

/-- **The elements within reach are the reduced ones.** -/
theorem obtainable_iff_lt : Obtainable a ↔ a.value < fieldPrime := by
  constructor
  · exact Obtainable.lt
  · intro h
    exact .ofOctets (ofOctets_eq_ok_iff.mpr ⟨h, rfl⟩)

theorem Obtainable.represents (h : Obtainable a) : a.Represents a.value := represents_of_lt h.lt

/-- Octets are read exactly if their integer is reduced. -/
theorem exists_ofOctets_iff (o : Octets 32) :
    (∃ a, ofOctets o = .ok a) ↔ o.value < fieldPrime := by
  rw [ofOctets_eq]
  constructor
  · rintro ⟨a, ha⟩
    split at ha
    · assumption
    · cases ha
  · intro h
    exact ⟨_, if_pos h⟩

/-! ## Remainders -/

/-- What stands for a natural number holds its remainder. -/
theorem Represents.value_natCast {v : ℕ} (h : a.Represents v) : a.value = v % fieldPrime :=
  h.trans (ZMod.val_natCast _ v)

/-- What stands for an integer holds its remainder, which is not negative. -/
theorem Represents.value_intCast {z : ℤ} (h : a.Represents z) : (a.value : ℤ) = z % fieldPrime := by
  rw [h]
  exact ZMod.val_intCast z

/-- **Field elements are the integers modulo the field prime in canonical form.**

* Every element within reach holds an integer in `[0, p)`.
* Each operation returns the remainder of the integer result.
* Two elements compare equal exactly if they are the same residue.
* Exactly the octets of an integer below `p` are read, and reading and writing undo each other. -/
theorem canonical_field :
    (∀ a : FieldElement, Obtainable a →
      a.value < fieldPrime ∧
      a.double.value = 2 * a.value % fieldPrime ∧
      a.triple.value = 3 * a.value % fieldPrime ∧
      (a.negate.value : ℤ) = -a.value % fieldPrime ∧
      a.square.value = a.value ^ 2 % fieldPrime ∧
      ofOctets a.toOctets = .ok a) ∧
    (∀ a b : FieldElement, Obtainable a → Obtainable b →
      (a + b).value = (a.value + b.value) % fieldPrime ∧
      ((a - b).value : ℤ) = (a.value - b.value) % fieldPrime ∧
      (a * b).value = a.value * b.value % fieldPrime ∧
      (a.equal b = true ↔ (a.value : ZMod fieldPrime) = b.value)) ∧
    ∀ o : Octets 32,
      ((∃ a, ofOctets o = .ok a) ↔ o.value < fieldPrime) ∧
      (fieldPrime ≤ o.value →
        ofOctets o = .error (.parameter "FieldElement P-256" "Value ≥ modulus")) ∧
      ∀ a, ofOctets o = .ok a → a.value = o.value ∧ a.toOctets = o := by
  refine ⟨fun a ha => ?_, fun a b ha hb => ?_, fun o => ?_⟩
  · have h := ha.represents
    refine ⟨ha.lt, ?_, ?_, ?_, ?_, ofOctets_eq_ok_iff.mpr ⟨ha.lt, rfl⟩⟩
    · apply Represents.value_natCast
      rw [Nat.cast_mul, Nat.cast_ofNat]
      exact h.double
    · apply Represents.value_natCast
      rw [Nat.cast_mul, Nat.cast_ofNat]
      exact h.triple
    · apply Represents.value_intCast
      rw [Int.cast_neg, Int.cast_natCast]
      exact h.negate
    · apply Represents.value_natCast
      rw [Nat.cast_pow]
      exact h.square
  · refine ⟨?_, ?_, value_mul a b, ha.represents.equal_iff hb.represents⟩
    · apply Represents.value_natCast
      rw [Nat.cast_add]
      exact ha.represents.add hb.represents
    · apply Represents.value_intCast
      rw [Int.cast_sub, Int.cast_natCast, Int.cast_natCast]
      exact ha.represents.sub hb.represents
  · refine ⟨exists_ofOctets_iff o, ?_, ?_⟩
    · intro hle
      rw [ofOctets_eq, if_neg (Nat.not_lt.mpr hle)]
    · intro a ha
      obtain ⟨-, hwritten⟩ := ofOctets_eq_ok_iff.mp ha
      rw [← value_toOctets, hwritten]
      exact ⟨rfl, rfl⟩

/-- The greatest element by itself and with one: every result wraps; and the octets of the prime are
refused. -/
theorem canonical_field_greatest :
    one.negate.value = fieldPrime - 1 ∧
    (one.negate + one).value = 0 ∧
    ((one - one.negate).value : ℤ) = 2 ∧
    one.negate.triple.value = fieldPrime - 3 ∧
    one.negate.square.value = 1 ∧
    ofOctets one.negate.toOctets = .ok one.negate ∧
    one.negate.equal one = false ∧
    ofOctets (.ofNat 32 fieldPrime) =
      .error (.parameter "FieldElement P-256" "Value ≥ modulus") := by
  have hreach : Obtainable one.negate := .negate .one
  have hgreatest : one.negate.value = fieldPrime - 1 := by decide +kernel
  have hone : one.value = 1 := rfl
  obtain ⟨-, -, htriple, -, hsquare, hread⟩ := canonical_field.1 _ hreach
  obtain ⟨hadd, -, -, hequal⟩ := canonical_field.2.1 _ _ hreach .one
  obtain ⟨-, hsub, -, -⟩ := canonical_field.2.1 _ _ .one hreach
  rw [hgreatest, hone] at hadd hsub
  rw [hgreatest] at htriple hsquare
  refine ⟨hgreatest, hadd.trans (by decide +kernel), hsub.trans (by decide +kernel),
    htriple.trans (by decide +kernel), hsquare.trans (by decide +kernel), hread, ?_,
    (canonical_field.2.2 _).2.1 (by decide +kernel)⟩
  rw [Bool.eq_false_iff, Ne, hequal]
  decide +kernel

end FieldElement

end Secp256r1
