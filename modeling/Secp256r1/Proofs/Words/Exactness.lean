import Secp256r1.Field
import Secp256r1.Proofs.Comparison
import Secp256r1.Scalar

/-!
# Carry chains are exact, and their flags are flags

A sum of words comes with a carry and a difference with a borrow; the words and the flag together
are the exact integer.  The choice by a mask rests on such a flag being 0 or 1, since any other value
would mix its operands.  The operations on field elements and scalars, written once more with a
choice that stops at any other flag, never stop.

* `maskedAddChain_eq` — a low word may be cut off by a mask before it is narrowed.
* `select?` — the choice by a flag that has to be 0 or 1.
* `addMod?_eq`, `subMod?_eq`, `lowered?_eq` — the choices made on the way to a residue, which never
  stop for any operands, reduced or not.
* `chains_exact` — **the chains are exact and every flag is 0 or 1.**
-/

set_option autoImplicit false

namespace Secp256r1

/-! ## Low words by a mask -/

/-- A carry through all words, where each sum is masked to its low word before it is narrowed. -/
def maskedAddChain : List UInt32 → List UInt32 → UInt64 → List UInt32 × UInt64
  | a :: as, b :: bs, carry =>
    let sum := a.toUInt64 + b.toUInt64 + carry
    let (rest, out) := maskedAddChain as bs (sum >>> 32)
    ((sum &&& 0xFFFFFFFF).toUInt32 :: rest, out)
  | _, _, carry => ([], carry)

theorem toUInt32_and_mask (w : UInt64) : (w &&& 0xFFFFFFFF).toUInt32 = w.toUInt32 := by
  have hmask : (w &&& 0xFFFFFFFF).toNat = w.toNat % 2 ^ 32 := Nat.and_two_pow_sub_one_eq_mod _ 32
  apply UInt32.toNat_inj.mp
  rw [UInt64.toNat_toUInt32, UInt64.toNat_toUInt32, hmask, Nat.mod_mod]

/-- **The mask changes nothing.** -/
theorem maskedAddChain_eq : ∀ (as bs : List UInt32) (c : UInt64),
    maskedAddChain as bs c = addChain as bs c
  | [], _, _ => rfl
  | _ :: _, [], _ => rfl
  | a :: as, b :: bs, c => by
    simp only [maskedAddChain, addChain, maskedAddChain_eq as bs, toUInt32_and_mask]

namespace Words

variable {n : ℕ}

/-! ## Choices that stop at any other flag -/

/-- The choice between two operands by a flag, if that is 0 or 1. -/
def select? (flag : UInt32) (a b : Words n) : Option (Words n) :=
  if flag = 0 ∨ flag = 1 then some (select flag a b) else none

/-- The words less `m` if they reach it or a word `top` above them says so. -/
def lowered? (top : UInt32) (w m : Words n) : Option (Words n) :=
  select? ((top ||| ((w.sub m).2 ^^^ 1)) &&& 1) w (w.sub m).1

/-- The words less `m` if they reach it. -/
def loweredZero? (w m : Words n) : Option (Words n) :=
  select? ((w.sub m).2 ^^^ 1) w (w.sub m).1

/-- The sum, less `m` if the words overflowed or reached it. -/
def addMod? (a b m : Words n) : Option (Words n) := lowered? (a.add b).2 (a.add b).1 m

/-- The difference, and `m` added back if the words went below zero. -/
def subMod? (a b m : Words n) : Option (Words n) :=
  select? (a.sub b).2 (a.sub b).1 ((a.sub b).1.add m).1

theorem select?_eq {flag : UInt32} (h : flag = 0 ∨ flag = 1) (a b : Words n) :
    select? flag a b = some (select flag a b) := if_pos h

theorem and_one_eq (w : UInt32) : w &&& 1 = 0 ∨ w &&& 1 = 1 := by
  have hbit : (w &&& 1).toNat = w.toNat % 2 := by simp [Nat.and_one_is_mod]
  rcases Nat.mod_two_eq_zero_or_one w.toNat with h | h
  · exact .inl (UInt32.toNat_inj.mp (hbit.trans h))
  · exact .inr (UInt32.toNat_inj.mp (hbit.trans h))

/-- The last bit alone decides, whatever stands above the words. -/
theorem lowered?_eq (top : UInt32) (w m : Words n) : lowered? top w m =
    some (select ((top ||| ((w.sub m).2 ^^^ 1)) &&& 1) w (w.sub m).1) :=
  select?_eq (and_one_eq _) _ _

theorem loweredZero?_eq (w m : Words n) :
    loweredZero? w m = some (select ((w.sub m).2 ^^^ 1) w (w.sub m).1) := by
  apply select?_eq
  rcases borrow_eq_zero_or_one w m with h | h <;> rw [h] <;> decide

theorem addMod?_eq (a b m : Words n) : addMod? a b m =
    some (select (((a.add b).2 ||| (((a.add b).1.sub m).2 ^^^ 1)) &&& 1) (a.add b).1
      ((a.add b).1.sub m).1) := lowered?_eq _ _ _

theorem subMod?_eq (a b m : Words n) :
    subMod? a b m = some (select (a.sub b).2 (a.sub b).1 ((a.sub b).1.add m).1) :=
  select?_eq (borrow_eq_zero_or_one a b) _ _

/-! ## Eight words -/

theorem size_pow_eight : UInt32.size ^ 8 = 2 ^ 256 := by decide

/-- The sum as an integer, with what the carry stands for. -/
theorem value_add (a b : Words 8) :
    (a.add b).1.value + (a.add b).2.toNat * 2 ^ 256 = a.value + b.value := by
  rw [← (add_spec a b).1, size_pow_eight, mul_comm]

/-- The difference as an integer, with what the borrow stands for. -/
theorem value_sub (a b : Words 8) :
    ((a.sub b).1.value : ℤ) = a.value - b.value + (a.sub b).2.toNat * 2 ^ 256 := by
  have h := (sub_spec a b).1
  rw [size_pow_eight] at h
  omega

theorem borrow_eq_one_iff (a b : Words n) : (a.sub b).2 = 1 ↔ a.value < b.value := by
  rw [borrow_sub]
  split <;> simp [*]

/-- **The carry chains of eight words are exact, and every choice by a flag has 0 or 1 for it.**

* A sum with its carry is the sum of the integers, with the low words narrowed or masked alike.  A
  difference with its borrow is the difference of the integers, and the borrow is set exactly if that
  is negative.
* The sum, the difference and the reduction of field elements and of scalars, the Montgomery product
  and the comparison of octets meet no flag but 0 and 1, whatever the operands. -/
theorem chains_exact :
    (∀ a b : Words 8,
      ((a.add b).2 = 0 ∨ (a.add b).2 = 1) ∧
      (a.add b).1.value + (a.add b).2.toNat * 2 ^ 256 = a.value + b.value ∧
      ((a.sub b).2 = 0 ∨ (a.sub b).2 = 1) ∧
      ((a.sub b).1.value : ℤ) = a.value - b.value + (a.sub b).2.toNat * 2 ^ 256 ∧
      ((a.sub b).2 = 1 ↔ a.value < b.value) ∧
      maskedAddChain a.toList b.toList 0 = addChain a.toList b.toList 0) ∧
    (∀ a b : FieldElement,
      (addMod? a.limbs b.limbs Reduction.modulus).map FieldElement.mk = some (a + b) ∧
      (subMod? a.limbs b.limbs Reduction.modulus).map FieldElement.mk = some (a - b)) ∧
    (∀ c : Words 16,
      loweredZero? (Reduction.settledWords c) Reduction.modulus = some (Reduction.reduce c)) ∧
    (∀ k l : Scalar,
      (addMod? k.limbs l.limbs Montgomery.order).map Scalar.ofLimbs = some (k + l) ∧
      (subMod? k.limbs l.limbs Montgomery.order).map Scalar.ofLimbs = some (k - l)) ∧
    (∀ o : Octets 32, (loweredZero? (.ofOctets o) Montgomery.order).map Scalar.ofLimbs =
      some (Scalar.reduce o)) ∧
    (∀ a b : Words 8, lowered? (Montgomery.accumulate a b).top (Montgomery.accumulate a b).low
      Montgomery.order = some (Montgomery.product a b)) ∧
    ∀ a b : Octets 32, ConstantTime.borrow a.toList b.toList = 0 ∨
      ConstantTime.borrow a.toList b.toList = 1 := by
  refine ⟨fun a b => ⟨carry_eq_zero_or_one a b, value_add a b, borrow_eq_zero_or_one a b,
    value_sub a b, borrow_eq_one_iff a b, maskedAddChain_eq _ _ _⟩, fun a b => ⟨?_, ?_⟩,
    fun c => loweredZero?_eq _ _, fun k l => ⟨?_, ?_⟩, fun o => ?_, fun a b => lowered?_eq _ _ _,
    fun a b => ?_⟩
  · rw [addMod?_eq]
    rfl
  · rw [subMod?_eq]
    rfl
  · rw [addMod?_eq]
    rfl
  · rw [subMod?_eq]
    rfl
  · rw [loweredZero?_eq]
    rfl
  · rw [ConstantTime.borrow_eq (a.length_toList.trans b.length_toList.symm)]
    split <;> simp

end Words

end Secp256r1
