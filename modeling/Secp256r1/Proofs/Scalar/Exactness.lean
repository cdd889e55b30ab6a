import Secp256r1.Proofs.CheckedArithmetic
import Secp256r1.Proofs.Scalar.Obtainable

/-!
# Montgomery products overflow nowhere

The algorithm of a Montgomery product, written once more with arithmetic that stops at an
overflow.  It never stops, for any operands: a word, a product of words and a carry reach the
largest integer of 64 bits and no more.

* `step?`, `product?` — the checked algorithms; only the multiple of the order that clears a word
  is taken modulo the radix.
* `step?_eq`, `product?_eq` — they never stop.
* `value_product_eq` — the product as the residue `a·b·R⁻¹`.
* `product_mul_exact` — **products in and out of the Montgomery domain are exact.**
-/

set_option autoImplicit false

namespace Secp256r1

namespace Montgomery

/-- A multiple of words added to words, with a carry in and out. -/
def addMultiple? (x : UInt32) :
    List UInt32 → List UInt32 → UInt64 → Option (List UInt32 × UInt64)
  | a :: as, t :: ts, carry => do
    let product ← checkedMul a.toUInt64 x.toUInt64
    let uv ← checkedAdd (← checkedAdd t.toUInt64 product) carry
    let (rest, out) ← addMultiple? x as ts (uv >>> 32)
    return (uv.toUInt32 :: rest, out)
  | _, _, carry => some ([], carry)

/-- One row and one dropped word. -/
def step? (a : Words 8) (t : Running) (b : UInt32) : Option Running := do
  let (row, rowCarry) ← addMultiple? b a.toList t.low.toList 0
  let rowTop ← checkedAdd t.top.toUInt64 rowCarry
  let (cleared, clearedCarry) ← addMultiple? (row.headD 0 * orderInverse) order.toList row 0
  let clearedTop ← checkedAdd rowTop.toUInt32.toUInt64 clearedCarry
  let top ← checkedAdd (rowTop >>> 32).toUInt32 (clearedTop >>> 32).toUInt32
  return ⟨← Words.ofList? 8 (cleared.tail ++ [clearedTop.toUInt32]), top⟩

/-- All eight rows and at most one subtraction of the order. -/
def product? (a b : Words 8) : Option (Words 8) := do
  let t ← b.toList.foldlM (step? a) .zero
  let (lowered, borrow) := t.low.sub order
  return .select ((t.top ||| (borrow ^^^ 1)) &&& 1) t.low lowered

/-! ## Nothing overflows -/

theorem addMultiple?_eq (x : UInt32) : ∀ (as ts : List UInt32) (c : UInt64),
    c.toNat < UInt32.size → addMultiple? x as ts c = some (addMultiple x as ts c)
  | [], _, _, _ => rfl
  | _ :: _, [], _, _ => rfl
  | a :: as, t :: ts, c, hc => by
    have hfits := row_fits t a x hc
    have hmul : checkedMul a.toUInt64 x.toUInt64 = some (a.toUInt64 * x.toUInt64) := by
      apply checkedMul_long
      simp only [UInt32.toNat_toUInt64]
      omega
    have hproduct : (a.toUInt64 * x.toUInt64).toNat = a.toNat * x.toNat := by
      simp only [UInt64.toNat_mul, UInt32.toNat_toUInt64]
      simp only [UInt64.size] at hfits
      omega
    have hadd : checkedAdd t.toUInt64 (a.toUInt64 * x.toUInt64) =
        some (t.toUInt64 + a.toUInt64 * x.toUInt64) := by
      apply checkedAdd_long
      rw [hproduct, UInt32.toNat_toUInt64]
      omega
    have hcarry : checkedAdd (t.toUInt64 + a.toUInt64 * x.toUInt64) c =
        some (t.toUInt64 + a.toUInt64 * x.toUInt64 + c) := by
      apply checkedAdd_long
      rw [UInt64.toNat_add, hproduct, UInt32.toNat_toUInt64]
      simp only [UInt64.size] at *
      omega
    simp [addMultiple?, addMultiple, hmul, hadd, hcarry, addMultiple?_eq x as ts _ (carry_lt _)]

/-- The sum of a word and a carry, and what is left of it above the word. -/
theorem top_bounds (top : UInt32) {c : UInt64} (hc : c.toNat < UInt32.size) :
    checkedAdd top.toUInt64 c = some (top.toUInt64 + c) ∧
      ((top.toUInt64 + c) >>> 32).toUInt32.toNat ≤ 1 := by
  have htop := top.toNat_lt
  simp only [UInt32.size] at hc
  constructor
  · apply checkedAdd_long
    simp only [UInt32.toNat_toUInt64, UInt64.size]
    omega
  · simp [Nat.shiftRight_eq_div_pow]
    omega

/-- **No sum of a row overflows.** -/
theorem step?_eq (a : Words 8) (t : Running) (b : UInt32) : step? a t b = some (step a t b) := by
  have hlen := a.length_toList.trans t.low.length_toList.symm
  have hrow := addMultiple?_eq b a.toList t.low.toList 0 (by decide)
  have hrc := (addMultiple_spec b a.toList t.low.toList 0 hlen (by decide)).2
  obtain ⟨row, hr⟩ : ∃ row, row = addMultiple b a.toList t.low.toList 0 := ⟨_, rfl⟩
  have hrowlen : order.toList.length = row.1.length := by
    rw [hr, length_addMultiple, a.length_toList, t.low.length_toList, order.length_toList, min_self]
  have hclear := addMultiple?_eq (row.1.headD 0 * orderInverse) order.toList row.1 0 (by decide)
  have hcc := (addMultiple_spec (row.1.headD 0 * orderInverse) order.toList row.1 0 hrowlen
    (by decide)).2
  rw [← hr] at hrow hrc
  obtain ⟨hrowTop, hhigh⟩ := top_bounds t.top hrc
  obtain ⟨hclearedTop, hhigh'⟩ := top_bounds (t.top.toUInt64 + row.2).toUInt32 hcc
  have htop := checkedAdd_word (Nat.lt_of_le_of_lt (Nat.add_le_add hhigh hhigh') (by decide))
  have hlow := (step a t b).low.ofList?_toList
  simp only [step, ← hr] at hlow
  simp only [step?, step, ← hr, hrow, hrowTop, hclear, hclearedTop, htop, hlow,
    Option.bind_eq_bind, Option.bind_some]
  rfl

/-- **No sum of a Montgomery product overflows.** -/
theorem product?_eq (a b : Words 8) : product? a b = some (product a b) := by
  have hrows : b.toList.foldlM (step? a) .zero = some (accumulate a b) := by
    have hstep : step? a = fun t b => pure (step a t b) := funext fun t => funext (step?_eq a t)
    rw [hstep, List.foldlM_pure]
    rfl
  unfold product?
  rw [hrows]
  rfl

/-! ## The product as a residue -/

/-- **The product is the residue** of the product of the operands, divided by `R`. -/
theorem value_product_eq {a b : Words 8} (h : a.value * b.value < modulusR * groupOrder) :
    (product a b).value = (a.value * b.value * (2 ^ 256 : ZMod groupOrder)⁻¹).val := by
  obtain ⟨hlt, hproduct⟩ := product_spec h
  have hR : (modulusR : ZMod groupOrder) = 2 ^ 256 := by
    rw [show modulusR = 2 ^ 256 by decide, Nat.cast_pow, Nat.cast_ofNat]
  rw [← hproduct, ← hR, mul_inv_cancel_right₀ modulusR_ne_zero, ZMod.val_cast_of_lt hlt]

end Montgomery

namespace Scalar

/-- **Montgomery products are exact, and so are products of scalars.**  No sum overflows, for any
words.  If one operand is reduced, then the running integer lies below `2n` after every row, and
the product is the residue `a·b·2⁻²⁵⁶`.  The product of two scalars is the residue of the product
of their integers. -/
theorem product_mul_exact :
    (∀ a b : Words 8,
      Montgomery.product? a b = some (Montgomery.product a b) ∧
      (a.value < groupOrder →
        (∀ i ≤ 8, ((b.toList.take i).foldl (Montgomery.step a) .zero).value < 2 * groupOrder) ∧
        (Montgomery.product a b).value =
          (a.value * b.value * (2 ^ 256 : ZMod groupOrder)⁻¹).val)) ∧
    ∀ k l : Scalar, k.Obtainable → l.Obtainable →
      (k * l).value = k.value * l.value % groupOrder := by
  constructor
  · intro a b
    refine ⟨Montgomery.product?_eq a b, fun ha => ⟨fun i _ => ?_, ?_⟩⟩
    · exact Montgomery.foldl_step_lt ha _ (by decide +kernel)
    · exact Montgomery.value_product_eq (Montgomery.mul_lt_of_lt (.inl ha))
  · intro k l hk _
    have hproduct := represents_mul (.inl hk.lt : k.value < groupOrder ∨ l.value < groupOrder)
    rw [Represents, ← Nat.cast_mul, ZMod.val_natCast] at hproduct
    exact hproduct

/-- The largest residue by itself: as words after four rows, and as the negative of one. -/
theorem product_mul_exact_greatest :
    (Words.ofNat 8 (groupOrder - 1)).value < groupOrder ∧
    (((Words.ofNat 8 (groupOrder - 1)).toList.take 4).foldl
      (Montgomery.step (.ofNat 8 (groupOrder - 1))) .zero).value < 2 * groupOrder ∧
    (one.negate * one.negate).value = one.negate.value * one.negate.value % groupOrder := by
  have hlt : (Words.ofNat 8 (groupOrder - 1)).value < groupOrder := by decide +kernel
  obtain ⟨hrunning, -⟩ := (product_mul_exact.1 (.ofNat 8 (groupOrder - 1))
    (.ofNat 8 (groupOrder - 1))).2 hlt
  exact ⟨hlt, hrunning 4 (by decide), product_mul_exact.2 _ _ (.negate .one) (.negate .one)⟩

end Scalar

end Secp256r1
