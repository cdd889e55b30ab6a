import Secp256r1.Proofs.Scalar.Residue

/-!
# Scalars within reach

A caller gets scalars from the checked constructors, from reduction and from the operations.
These are exactly the scalars whose integer lies below the group order.

* `Obtainable` — the scalars that a caller can have.
* `obtainable_iff_lt` — they are the reduced ones.
* `Represents.value_natCast`, `Represents.value_intCast` — what stands for an integer holds its
  remainder.
* `canonical_ring` — **the operations return the remainders of the integer results**, and the
  comparisons are those of residues.
-/

set_option autoImplicit false

namespace Secp256r1

namespace Scalar

variable {k l : Scalar}

/-- The scalars that the constructors and the operations produce. -/
inductive Obtainable : Scalar → Prop
  | zero : Obtainable zero
  | one : Obtainable one
  | ofCanonical {o : Octets 32} {k : Scalar} : ofCanonical o = .ok k → Obtainable k
  | decode {bs : List UInt8} {k : Scalar} : decode bs = .ok k → Obtainable k
  | reduce (o : Octets 32) : Obtainable (reduce o)
  | add {k l : Scalar} : Obtainable k → Obtainable l → Obtainable (k + l)
  | sub {k l : Scalar} : Obtainable k → Obtainable l → Obtainable (k - l)
  | mul {k l : Scalar} : Obtainable k → Obtainable l → Obtainable (k * l)
  | negate {k : Scalar} : Obtainable k → Obtainable k.negate
  | inverse {k l : Scalar} : Obtainable k → k.inverse = .ok l → Obtainable l
  | wipe {k : Scalar} : Obtainable k → Obtainable k.wipe

theorem lt_of_decode {bs : List UInt8} (h : decode bs = .ok k) : k.value < groupOrder := by
  unfold decode at h
  split at h
  · cases h
  · exact (ofCanonical_eq_ok_iff.mp h).2.2

theorem lt_of_inverse (h : k.inverse = .ok l) : l.value < groupOrder := by
  rw [inverse_eq] at h
  split at h
  · cases h
  · rw [← Except.ok.inj h]
    exact (represents_inverseTotal k).lt

/-- **Every step keeps scalars reduced.** -/
theorem Obtainable.lt (h : Obtainable k) : k.value < groupOrder := by
  induction h with
  | zero => exact represents_zero.lt
  | one => exact represents_one.lt
  | ofCanonical h => exact (ofCanonical_eq_ok_iff.mp h).2.2
  | decode h => exact lt_of_decode h
  | reduce o => exact (represents_reduce o).lt
  | add _ _ hk hl => exact ((represents_of_lt hk).add (represents_of_lt hl)).lt
  | sub _ _ hk hl => exact ((represents_of_lt hk).sub (represents_of_lt hl)).lt
  | mul _ _ hk _ => exact (represents_mul (.inl hk)).lt
  | negate _ hk => exact (represents_of_lt hk).negate.lt
  | inverse _ h => exact lt_of_inverse h
  | wipe _ => exact represents_zero.lt

/-- **The scalars within reach are the reduced ones.** -/
theorem obtainable_iff_lt : Obtainable k ↔ k.value < groupOrder := by
  constructor
  · exact Obtainable.lt
  · intro h
    rcases Nat.eq_zero_or_pos k.value with hzero | hpos
    · rw [value_eq_zero_iff.mp hzero]
      exact .zero
    · exact .ofCanonical (ofCanonical_eq_ok_iff.mpr ⟨rfl, hpos, h⟩)

theorem Obtainable.represents (h : Obtainable k) : k.Represents k.value := represents_of_lt h.lt

/-! ## Remainders -/

/-- What stands for a natural number holds its remainder. -/
theorem Represents.value_natCast {v : ℕ} (h : k.Represents v) : k.value = v % groupOrder :=
  h.trans (ZMod.val_natCast _ v)

/-- What stands for an integer holds its remainder, which is not negative. -/
theorem Represents.value_intCast {z : ℤ} (h : k.Represents z) : (k.value : ℤ) = z % groupOrder := by
  rw [h]
  exact ZMod.val_intCast z

theorem equal_iff (k l : Scalar) : k.equal l = true ↔ k = l := by
  unfold equal SecretBuffer.equal
  rw [ConstantTime.equal_iff, ← Octets.ext_iff, ← SecretBuffer.ext_iff, ← Scalar.ext_iff]

theorem Represents.equal_iff {x y : ZMod groupOrder} (hk : k.Represents x) (hl : l.Represents y) :
    k.equal l = true ↔ x = y := by
  rw [Scalar.equal_iff, hk.inj hl]

/-- **Scalars are the integers modulo the group order in canonical form.**

* Every scalar within reach is written as an integer in `[0, n)`.
* Any 32 octets are reduced to the remainder of their integer.
* Each operation returns the remainder of the integer result.
* Two scalars compare equal exactly if they are the same residue, and the zero test is that of the
  residue. -/
theorem canonical_ring :
    (∀ k : Scalar, Obtainable k →
      k.toOctets.value < groupOrder ∧
      (k.negate.value : ℤ) = -k.value % groupOrder ∧
      (k.isZero = true ↔ (k.value : ZMod groupOrder) = 0)) ∧
    (∀ o : Octets 32, (reduce o).value = o.value % groupOrder) ∧
    ∀ k l : Scalar, Obtainable k → Obtainable l →
      (k + l).value = (k.value + l.value) % groupOrder ∧
      ((k - l).value : ℤ) = (k.value - l.value) % groupOrder ∧
      (k * l).value = k.value * l.value % groupOrder ∧
      (k.equal l = true ↔ (k.value : ZMod groupOrder) = l.value) := by
  refine ⟨fun k hk => ⟨hk.lt, ?_, hk.represents.isZero_iff⟩,
    fun o => (represents_reduce o).value_natCast, fun k l hk hl => ⟨?_, ?_, ?_, ?_⟩⟩
  · apply Represents.value_intCast
    rw [Int.cast_neg, Int.cast_natCast]
    exact hk.represents.negate
  · apply Represents.value_natCast
    rw [Nat.cast_add]
    exact hk.represents.add hl.represents
  · apply Represents.value_intCast
    rw [Int.cast_sub, Int.cast_natCast, Int.cast_natCast]
    exact hk.represents.sub hl.represents
  · apply Represents.value_natCast
    rw [Nat.cast_mul]
    exact hk.represents.mul hl.represents
  · exact hk.represents.equal_iff hl.represents

/-- The greatest scalar by itself and with one: every result wraps; a sum overflows the octets, and a
wiped scalar is zero. -/
theorem canonical_ring_greatest :
    one.negate.toOctets.value = groupOrder - 1 ∧
    (one.negate + one.negate).value = groupOrder - 2 ∧
    ((one - one.negate).value : ℤ) = 2 ∧
    (one.negate * one.negate).value = 1 ∧
    (one.negate + one).isZero = true ∧
    one.wipe.isZero = true ∧
    one.negate.equal one = false ∧
    (reduce (.ofNat 32 (2 ^ 256 - 1))).value = 2 ^ 256 - 1 - groupOrder := by
  have hreach : Obtainable one.negate := .negate .one
  have hgreatest : one.negate.value = groupOrder - 1 := by decide +kernel
  have hone : one.value = 1 := rfl
  obtain ⟨hadd, -, hmul, -⟩ := canonical_ring.2.2 _ _ hreach hreach
  obtain ⟨hzero, -, -, hequal⟩ := canonical_ring.2.2 _ _ hreach .one
  obtain ⟨-, hsub, -, -⟩ := canonical_ring.2.2 _ _ .one hreach
  rw [hgreatest] at hadd hmul
  rw [hgreatest, hone] at hzero hsub
  refine ⟨hgreatest, hadd.trans (by decide +kernel), hsub.trans (by decide +kernel),
    hmul.trans (by decide +kernel), ?_, ?_, ?_, (canonical_ring.2.1 _).trans (by decide +kernel)⟩
  · have hsum : (one.negate + one).value = 0 := hzero.trans (by decide +kernel)
    rw [(canonical_ring.1 _ (.add hreach .one)).2.2, hsum, Nat.cast_zero]
  · rw [(canonical_ring.1 _ (.wipe .one)).2.2]
    decide +kernel
  · rw [Bool.eq_false_iff, Ne, hequal]
    decide +kernel

end Scalar

end Secp256r1
