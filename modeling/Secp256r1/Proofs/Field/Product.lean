import Secp256r1.Field.Reduction
import Secp256r1.Proofs.Words.Chains

/-!
# Products in columns are exact

A column collects at most eight products of words, far below `2 ^ 128`, so that no accumulator
wraps and the columns stand for the product.

* `addRow_spec`, `addProducts_spec` — what rows add to the columns, with a bound on each column.
* `columns_spec` — the columns of a product of two eight-word integers.
* `littleEndian_carryColumns` — carrying keeps the integer.
* `value_product` — the sixteen words stand for the product of two eight-word integers.
-/

set_option autoImplicit false

namespace Secp256r1

namespace DoubleWord

theorem toNat_lowWord (x : DoubleWord) : x.lowWord.toNat = x.value % UInt32.size := by
  simp only [lowWord, value, UInt64.toNat_toUInt32, UInt32.size, UInt64.size]
  omega

theorem value_dropWord (x : DoubleWord) : x.dropWord.value = x.value / UInt32.size := by
  have hlo := x.lo.toNat_lt
  have hhi := x.hi.toNat_lt
  -- the shifted halves share no bit
  have hor : x.lo.toNat / 2 ^ 32 ||| 2 ^ 32 * (x.hi.toNat % 2 ^ 32) =
      2 ^ 32 * (x.hi.toNat % 2 ^ 32) + x.lo.toNat / 2 ^ 32 := by
    rw [Nat.or_comm, ← Nat.two_pow_add_eq_or_of_lt (by omega)]
  have hshift : x.hi.toNat <<< 32 % 2 ^ 64 = 2 ^ 32 * (x.hi.toNat % 2 ^ 32) := by
    rw [Nat.shiftLeft_eq]; omega
  have hlow : ((x.lo >>> 32) ||| (x.hi <<< 32)).toNat =
      2 ^ 32 * (x.hi.toNat % 2 ^ 32) + x.lo.toNat / 2 ^ 32 := by
    rw [← hor, ← hshift, ← Nat.shiftRight_eq_div_pow]
    simp
  have hhigh : (x.hi >>> 32).toNat = x.hi.toNat / 2 ^ 32 := by
    simp [Nat.shiftRight_eq_div_pow]
  simp only [dropWord, value, hlow, hhigh, UInt32.size, UInt64.size]
  omega

theorem value_add_of_lt {x y : DoubleWord} (h : x.value + y.value < 2 ^ 128) :
    (x.add y).value = x.value + y.value := by
  rw [value_add]
  exact Nat.mod_eq_of_lt h

end DoubleWord

namespace Reduction

/-- The integer that columns stand for, least significant first. -/
def columnsValue : List DoubleWord → ℕ
  | [] => 0
  | t :: ts => t.value + UInt32.size * columnsValue ts

def maxProduct : ℕ := (UInt32.size - 1) * (UInt32.size - 1)

theorem mul_le_maxProduct (a b : UInt32) : a.toNat * b.toNat ≤ maxProduct :=
  Nat.mul_le_mul (Nat.le_pred_of_lt a.toNat_lt) (Nat.le_pred_of_lt b.toNat_lt)

theorem columnsValue_replicate_zero (n : ℕ) : columnsValue (List.replicate n .zero) = 0 := by
  induction n with
  | zero => rfl
  | succ n ih =>
    rw [List.replicate_succ, columnsValue, ih]; rfl

theorem value_of_mem_replicate_zero {n : ℕ} : ∀ t ∈ List.replicate n DoubleWord.zero, t.value ≤ 0 := by
  intro t ht
  rw [List.eq_of_mem_replicate ht]
  rfl

theorem addRow_spec (a : UInt32) : ∀ (bs : List UInt32) (ts : List DoubleWord) {B : ℕ},
    bs.length ≤ ts.length → (∀ t ∈ ts, t.value ≤ B) → B + maxProduct < 2 ^ 128 →
    columnsValue (addRow a bs ts) = columnsValue ts + a.toNat * littleEndian bs ∧
      ∀ t ∈ addRow a bs ts, t.value ≤ B + maxProduct
  | [], ts, B, _, hB, _ => by
    rw [addRow.eq_2 _ _ _ (by simp), littleEndian]
    exact ⟨by ring, fun t ht => (hB t ht).trans (Nat.le_add_right _ _)⟩
  | b :: bs, t :: ts, B, hl, hB, hmax => by
    rw [List.forall_mem_cons] at hB
    have hab := mul_le_maxProduct a b
    have ht : (t.add (.mul a b)).value = t.value + a.toNat * b.toNat := by
      rw [DoubleWord.value_add_of_lt, DoubleWord.value_mul]
      rw [DoubleWord.value_mul]; omega
    obtain ⟨ih, hbound⟩ := addRow_spec a bs ts (by simpa using hl) hB.2 hmax
    unfold addRow
    rw [columnsValue, columnsValue, ih, ht, littleEndian, List.forall_mem_cons, ht]
    exact ⟨by ring, by omega, hbound⟩

/-- **Every pairwise product lands in its column.** -/
theorem addProducts_spec (as bs : List UInt32) (ts : List DoubleWord) {B : ℕ}
    (hl : as.length + bs.length ≤ ts.length) (hB : ∀ t ∈ ts, t.value ≤ B)
    (hmax : B + as.length * maxProduct < 2 ^ 128) :
    columnsValue (addProducts as bs ts) = columnsValue ts + littleEndian as * littleEndian bs ∧
      ∀ t ∈ addProducts as bs ts, t.value ≤ B + as.length * maxProduct := by
  induction as generalizing ts B with
  | nil =>
    unfold addProducts
    rw [littleEndian]
    exact ⟨by ring, fun t ht => (hB t ht).trans (Nat.le_add_right _ _)⟩
  | cons a as ih =>
    rw [List.length_cons] at hl
    rw [List.length_cons, add_mul, one_mul] at hmax
    obtain ⟨hrow, hbound⟩ := addRow_spec a bs ts (by omega) hB (by omega)
    have hlen := length_addRow a bs ts
    cases hr : addRow a bs ts with
    | nil => rw [hr] at hlen; simp only [List.length_nil] at hlen; omega
    | cons t rest =>
      rw [hr] at hrow hbound hlen
      rw [List.forall_mem_cons] at hbound
      rw [List.length_cons] at hlen
      obtain ⟨hvalue, hrest⟩ := ih rest (B := B + maxProduct) (by omega) hbound.2 (by omega)
      have hcols : addProducts (a :: as) bs ts = t :: addProducts as bs rest := by
        rw [addProducts, hr]
      rw [columnsValue] at hrow
      rw [hcols, columnsValue, hvalue, littleEndian, List.length_cons, List.forall_mem_cons]
      refine ⟨?_, ?_, fun u hu => ?_⟩
      · calc t.value + UInt32.size * (columnsValue rest + littleEndian as * littleEndian bs)
            = t.value + UInt32.size * columnsValue rest +
              UInt32.size * littleEndian as * littleEndian bs := by ring
          _ = _ := by rw [hrow]; ring
      · rw [add_mul, one_mul]; omega
      · rw [add_mul, one_mul]
        have hu' := hrest u hu
        omega

/-- **Carrying keeps the integer**: columns below `2 ^ 127` leave room for the carry. -/
theorem littleEndian_carryColumns (ts : List DoubleWord) (carry : DoubleWord)
    (hts : ∀ t ∈ ts, t.value < 2 ^ 127) (hc : carry.value < 2 ^ 96) :
    littleEndian (carryColumns ts carry) =
      (columnsValue ts + carry.value) % UInt32.size ^ ts.length := by
  induction ts generalizing carry with
  | nil => simp [carryColumns, littleEndian, Nat.mod_one]
  | cons t ts ih =>
    rw [List.forall_mem_cons] at hts
    have hv : (t.add carry).value = t.value + carry.value :=
      DoubleWord.value_add_of_lt (by omega)
    have hdrop : (t.add carry).dropWord.value < 2 ^ 96 := by
      rw [DoubleWord.value_dropWord, hv]; simp only [UInt32.size]; omega
    obtain ⟨v, hvv⟩ : ∃ v, v = t.value + carry.value := ⟨_, rfl⟩
    have hsum : columnsValue (t :: ts) + carry.value = v + UInt32.size * columnsValue ts := by
      rw [columnsValue, hvv]; ring
    have hpos : 0 < UInt32.size := by decide
    unfold carryColumns
    rw [littleEndian, DoubleWord.toNat_lowWord, ih _ hts.2 hdrop, DoubleWord.value_dropWord, hv,
      ← hvv, hsum,
      List.length_cons, pow_succ', Nat.mod_mul, Nat.add_mul_mod_self_left,
      Nat.add_mul_div_left _ _ hpos, add_comm (v / UInt32.size)]

/-- **The columns stand for the product**, and each leaves room for a carry. -/
theorem columns_spec (a b : Words 8) :
    columnsValue (columns a b) = a.value * b.value ∧ ∀ t ∈ columns a b, t.value < 2 ^ 127 := by
  obtain ⟨hcols, hbound⟩ := addProducts_spec a.toList b.toList (List.replicate 16 .zero)
    (by simp [a.length_toList, b.length_toList]) value_of_mem_replicate_zero
    (by rw [a.length_toList]; decide)
  rw [columnsValue_replicate_zero, zero_add] at hcols
  rw [a.length_toList] at hbound
  exact ⟨hcols, fun t ht => (hbound t ht).trans_lt (by decide)⟩

theorem value_product (a b : Words 8) : (product a b).value = a.value * b.value := by
  obtain ⟨hcols, hbound⟩ := columns_spec a b
  have hlen : (columns a b).length = 16 := by simp [columns, length_addProducts]
  have hcarry := littleEndian_carryColumns (columns a b) .zero hbound (by decide)
  have hlt : a.value * b.value < UInt32.size ^ 16 := by
    rw [show UInt32.size ^ 16 = UInt32.size ^ 8 * UInt32.size ^ 8 by decide]
    exact Nat.mul_lt_mul'' a.value_lt b.value_lt
  rw [hlen, hcols] at hcarry
  exact hcarry.trans (Nat.mod_eq_of_lt hlt)

end Reduction

end Secp256r1
