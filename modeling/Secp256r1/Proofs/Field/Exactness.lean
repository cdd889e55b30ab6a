import Secp256r1.Proofs.CheckedArithmetic
import Secp256r1.Proofs.Field.Residue

/-!
# Products and reduction overflow nowhere

The algorithm of a product modulo the field prime, written once more with arithmetic that stops
at an overflow, and with a stop where the last carry of the reduction is not zero.  It never
stops, so that every accumulator of the program holds the exact integer.

* `product?`, `reduce?`, `FieldElement.mul?` — the checked algorithms.
* `addRow?_eq`, `carrySweep?_eq`, … — no step of them stops, within the bounds that the program
  keeps.
* `product?_eq` — the 128-bit columns and their carries, for any two operands.
* `reduce?_eq` — the signed accumulators, for any integer of sixteen words.
* `reduce_mul_exact` — **the result is the residue**, and nothing overflows on the way.
-/

set_option autoImplicit false

namespace Secp256r1

namespace Reduction

/-! ## The product in columns -/

/-- A row of products added to the columns. -/
def addRow? (a : UInt32) : List UInt32 → List DoubleWord → Option (List DoubleWord)
  | b :: bs, t :: ts => do return (← checkedAdd t (.mul a b)) :: (← addRow? a bs ts)
  | _, ts => some ts

/-- Every pairwise product added to its column. -/
def addProducts? : List UInt32 → List UInt32 → List DoubleWord → Option (List DoubleWord)
  | a :: as, bs, ts => do
    match ← addRow? a bs ts with
    | [] => return []
    | t :: rest => return t :: (← addProducts? as bs rest)
  | [], _, ts => some ts

/-- Columns carried into words. -/
def carryColumns? : List DoubleWord → DoubleWord → Option (List UInt32)
  | [], _ => some []
  | t :: ts, carry => do
    let v ← checkedAdd t carry
    return v.lowWord :: (← carryColumns? ts v.dropWord)

/-- The sixteen words of a product. -/
def product? (a b : Words 8) : Option (Words 16) := do
  let columns ← addProducts? a.toList b.toList (List.replicate 16 .zero)
  Words.ofList? 16 (← carryColumns? columns .zero)

theorem addRow?_eq (a : UInt32) : ∀ (bs : List UInt32) (ts : List DoubleWord) {B : ℕ},
    (∀ t ∈ ts, t.value ≤ B) → B + maxProduct < 2 ^ 128 → addRow? a bs ts = some (addRow a bs ts)
  | [], ts, _, _, _ => by rw [addRow.eq_2 _ _ _ (by simp), addRow?.eq_2 _ _ _ (by simp)]
  | _ :: _, [], _, _, _ => rfl
  | b :: bs, t :: ts, B, hB, hmax => by
    rw [List.forall_mem_cons] at hB
    have hab := mul_le_maxProduct a b
    have hsum : checkedAdd t (.mul a b) = some (t.add (.mul a b)) := by
      apply checkedAdd_doubleWord
      rw [DoubleWord.value_mul]
      exact lt_of_le_of_lt (Nat.add_le_add hB.1 hab) hmax
    simp [addRow?, addRow, hsum, addRow?_eq a bs ts hB.2 hmax]

theorem addProducts?_eq (as bs : List UInt32) (ts : List DoubleWord) {B : ℕ}
    (hl : as.length + bs.length ≤ ts.length) (hB : ∀ t ∈ ts, t.value ≤ B)
    (hmax : B + as.length * maxProduct < 2 ^ 128) :
    addProducts? as bs ts = some (addProducts as bs ts) := by
  induction as generalizing ts B with
  | nil => rfl
  | cons a as ih =>
    rw [List.length_cons] at hl
    rw [List.length_cons, add_mul, one_mul] at hmax
    obtain ⟨-, hbound⟩ := addRow_spec a bs ts (by omega) hB (by omega)
    have hlen := length_addRow a bs ts
    have hrow := addRow?_eq a bs ts hB (by omega)
    cases hr : addRow a bs ts with
    | nil => simp [addProducts?, addProducts, hrow, hr]
    | cons t rest =>
      rw [hr] at hbound hlen
      rw [List.forall_mem_cons] at hbound
      rw [List.length_cons] at hlen
      have hrest := ih rest (B := B + maxProduct) (by omega) hbound.2 (by omega)
      simp [addProducts?, addProducts, hrow, hr, hrest]

theorem carryColumns?_eq (ts : List DoubleWord) (carry : DoubleWord)
    (hts : ∀ t ∈ ts, t.value < 2 ^ 127) (hc : carry.value < 2 ^ 96) :
    carryColumns? ts carry = some (carryColumns ts carry) := by
  induction ts generalizing carry with
  | nil => rfl
  | cons t ts ih =>
    rw [List.forall_mem_cons] at hts
    have hfits : t.value + carry.value < 2 ^ 128 := by omega
    have hsum : checkedAdd t carry = some (t.add carry) := checkedAdd_doubleWord hfits
    have hdrop : (t.add carry).dropWord.value < 2 ^ 96 := by
      rw [DoubleWord.value_dropWord, DoubleWord.value_add_of_lt hfits]
      simp only [UInt32.size]
      omega
    simp [carryColumns?, carryColumns, hsum, ih _ hts.2 hdrop]

/-- **No column and no carry of a product overflows.** -/
theorem product?_eq (a b : Words 8) : product? a b = some (product a b) := by
  have hcolumns := addProducts?_eq a.toList b.toList (List.replicate 16 .zero)
    (by simp [a.length_toList, b.length_toList]) value_of_mem_replicate_zero
    (by rw [a.length_toList]; decide)
  have hcarry := carryColumns?_eq (columns a b) .zero (columns_spec a b).2 (by decide)
  unfold product?
  rw [hcolumns, Option.bind_eq_bind, Option.bind_some]
  change (carryColumns? (columns a b) .zero).bind (Words.ofList? 16) = _
  rw [hcarry, Option.bind_some]
  exact (product a b).ofList?_toList

/-! ## Folding and carrying -/

/-- Limbs added to the first one, and then limbs subtracted, one after the other. -/
def signedSum? (first : Int64) (added subtracted : List Int64) : Option Int64 := do
  subtracted.foldlM checkedSub (← added.foldlM checkedAdd first)

/-- The signed sums that fold words 8 to 15 onto words 0 to 7. -/
def foldedLimbs? (c : Words 16) : Option (List Int64) :=
  match c.toList.map limbOfWord with
  | [w0, w1, w2, w3, w4, w5, w6, w7, w8, w9, w10, w11, w12, w13, w14, w15] => do
    let a0 ← signedSum? w0 [w8, w9] [w11, w12, w13, w14]
    let a1 ← signedSum? w1 [w9, w10] [w12, w13, w14, w15]
    let a2 ← signedSum? w2 [w10, w11] [w13, w14, w15]
    let a3 ← signedSum? w3 [← checkedMul 2 w11, ← checkedMul 2 w12, w13] [w15, w8, w9]
    let a4 ← signedSum? w4 [← checkedMul 2 w12, ← checkedMul 2 w13, w14] [w9, w10]
    let a5 ← signedSum? w5 [← checkedMul 2 w13, ← checkedMul 2 w14, w15] [w10, w11]
    let a6 ← signedSum? w6 [← checkedMul 3 w14, ← checkedMul 2 w15, w13] [w8, w9]
    let a7 ← signedSum? w7 [← checkedMul 3 w15, w8] [w10, w11, w12, w13]
    return [a0, a1, a2, a3, a4, a5, a6, a7]
  | _ => none

/-- A sweep that hands out the signed carry. -/
def carrySweep? : List Int64 → Int64 → Option (List Int64 × Int64)
  | [], carry => some ([], carry)
  | a :: as, carry => do
    let t ← checkedAdd a carry
    let (rest, out) ← carrySweep? as (t >>> 32)
    return ((t &&& 0xFFFFFFFF) :: rest, out)

/-- A carry out of the top added to and subtracted from the limbs that it goes back to. -/
def foldCarry? (carry : Int64) : List Int64 → Option (List Int64)
  | [a0, a1, a2, a3, a4, a5, a6, a7] => do
    let a0 ← checkedAdd a0 carry
    let a3 ← checkedSub a3 carry
    let a6 ← checkedSub a6 carry
    let a7 ← checkedAdd a7 carry
    return [a0, a1, a2, a3, a4, a5, a6, a7]
  | _ => none

/-- One sweep with the carry folded back. -/
def sweepAndFold? (limbs : List Int64) : Option (List Int64) := do
  let (swept, carry) ← carrySweep? limbs 0
  foldCarry? carry swept

/-- The limbs after three sweeps, of which the last has to leave no carry. -/
def settled? (c : Words 16) : Option (List Int64) := do
  let once ← sweepAndFold? (← foldedLimbs? c)
  let twice ← sweepAndFold? once
  let (swept, carry) ← carrySweep? twice 0
  if carry = 0 then some swept else none

/-- The residue of sixteen words modulo the prime. -/
def reduce? (c : Words 16) : Option (Words 8) := do
  let out ← Words.ofList? 8 ((← settled? c).map fun a => a.toUInt64.toUInt32)
  let (lowered, borrow) := out.sub modulus
  return .select (borrow ^^^ 1) out lowered

variable {a b : Int64} {z y : ℤ} {k l : ℕ}

theorem Holds.checkedAdd (ha : Holds a z k) (hb : Holds b y l) (h : k + l < 2 ^ 31 := by decide) :
    checkedAdd a b = some (a + b) := by
  apply checkedAdd_eq
  rw [toInt_limb, toInt_limb, toInt_limb, (ha.add hb h).1, ha.1, hb.1]

theorem Holds.checkedSub (ha : Holds a z k) (hb : Holds b y l) (h : k + l < 2 ^ 31 := by decide) :
    checkedSub a b = some (a - b) := by
  apply checkedSub_eq
  rw [toInt_limb, toInt_limb, toInt_limb, (ha.sub hb h).1, ha.1, hb.1]

theorem Holds.checkedMul {m : Int64} {c : ℕ} (ha : Holds a z k) (hm : m.toInt = c)
    (h : c * k < 2 ^ 31 := by decide) : checkedMul m a = some (m * a) := by
  apply checkedMul_eq
  rw [toInt_limb, toInt_limb, toInt_limb, (ha.mul hm h).1, hm, ha.1]

theorem Holds.self (ha : Holds a z k) : Holds a a.toInt k := ⟨rfl, ha.1 ▸ ha.2⟩

/-- The accumulator is at most three words large. -/
def Small (a : Int64) : Prop := Holds a a.toInt 3

theorem Holds.small (ha : Holds a z k) (h : k ≤ 3 := by decide) : Small a := by
  obtain ⟨rfl, h1, h2⟩ := ha
  exact ⟨rfl, by omega, by omega⟩

/-- A chain of operations that grow an accumulator by at most three words each. -/
theorem foldlM_eq_some (op? : Int64 → Int64 → Option Int64) (op : Int64 → Int64 → Int64)
    (hop : ∀ {a b : Int64} {k : ℕ}, Holds a a.toInt k → Small b → k + 3 < 2 ^ 31 →
      op? a b = some (op a b) ∧ Holds (op a b) (op a b).toInt (k + 3))
    (bs : List Int64) {a : Int64} {k : ℕ} (ha : Holds a a.toInt k) (hbs : ∀ b ∈ bs, Small b)
    (h : k + 3 * bs.length < 2 ^ 31) :
    bs.foldlM op? a = some (bs.foldl op a) ∧
      Holds (bs.foldl op a) (bs.foldl op a).toInt (k + 3 * bs.length) := by
  induction bs generalizing a k with
  | nil => exact ⟨rfl, ha⟩
  | cons b bs ih =>
    obtain ⟨hb, hbs⟩ := List.forall_mem_cons.mp hbs
    rw [List.length_cons] at h
    obtain ⟨hstep, hholds⟩ := hop ha hb (by omega)
    obtain ⟨hrest, hbound⟩ := ih hholds hbs (by omega)
    rw [List.foldlM_cons, hstep, List.foldl_cons, List.length_cons,
      show k + 3 * (bs.length + 1) = k + 3 + 3 * bs.length by ring]
    exact ⟨hrest, hbound⟩

theorem signedSum?_eq {first : Int64} {added subtracted : List Int64} (hfirst : Small first)
    (hadded : ∀ a ∈ added, Small a) (hsubtracted : ∀ a ∈ subtracted, Small a)
    (h : 3 + 3 * added.length + 3 * subtracted.length < 2 ^ 31 := by simp) :
    signedSum? first added subtracted =
      some (subtracted.foldl (· - ·) (added.foldl (· + ·) first)) := by
  obtain ⟨hsum, hbound⟩ := foldlM_eq_some checkedAdd (· + ·)
    (fun ha hb h => ⟨ha.checkedAdd hb h, (ha.add hb h).self⟩) added hfirst hadded (by omega)
  obtain ⟨hdiff, -⟩ := foldlM_eq_some checkedSub (· - ·)
    (fun ha hb h => ⟨ha.checkedSub hb h, (ha.sub hb h).self⟩) subtracted hbound hsubtracted h
  unfold signedSum?
  rw [hsum]
  exact hdiff

/-- **No signed sum of a reduction overflows.** -/
theorem foldedLimbs?_eq (c : Words 16) : foldedLimbs? c = some (foldedLimbs c) := by
  obtain ⟨ws, hl⟩ := c
  match ws, hl with
  | [w0, w1, w2, w3, w4, w5, w6, w7, w8, w9, w10, w11, w12, w13, w14, w15], _ =>
    have x (w : UInt32) : Small (limbOfWord w) := (holds_limbOfWord w).small
    have x2 (w : UInt32) : Small (2 * limbOfWord w) := ((holds_limbOfWord w).mul (c := 2) rfl).small
    have x3 (w : UInt32) : Small (3 * limbOfWord w) := ((holds_limbOfWord w).mul (c := 3) rfl).small
    have h2 (w : UInt32) : checkedMul 2 (limbOfWord w) = some (2 * limbOfWord w) :=
      (holds_limbOfWord w).checkedMul (c := 2) rfl
    have h3 (w : UInt32) : checkedMul 3 (limbOfWord w) = some (3 * limbOfWord w) :=
      (holds_limbOfWord w).checkedMul (c := 3) rfl
    simp only [foldedLimbs?, foldedLimbs, List.map_cons, List.map_nil, h2, h3,
      Option.bind_eq_bind, Option.bind_some]
    rw [signedSum?_eq (x w0) (by simp [x]) (by simp [x]),
      signedSum?_eq (x w1) (by simp [x]) (by simp [x]),
      signedSum?_eq (x w2) (by simp [x]) (by simp [x]),
      signedSum?_eq (x w3) (by simp [x, x2]) (by simp [x]),
      signedSum?_eq (x w4) (by simp [x, x2]) (by simp [x]),
      signedSum?_eq (x w5) (by simp [x, x2]) (by simp [x]),
      signedSum?_eq (x w6) (by simp [x, x2, x3]) (by simp [x]),
      signedSum?_eq (x w7) (by simp [x, x3]) (by simp [x])]
    rfl

/-- **No sweep overflows**, whatever the carry into it. -/
theorem carrySweep?_eq (as : List Int64) (c : Int64) (h : Bounded as)
    (hc : -2 ^ 40 ≤ c.toInt ∧ c.toInt ≤ 2 ^ 40) : carrySweep? as c = some (carrySweep as c) := by
  induction as generalizing c with
  | nil => rfl
  | cons a as ih =>
    obtain ⟨ha, has⟩ := List.forall_mem_cons.mp h
    have hsum : (a + c).toInt = a.toInt + c.toInt := toInt_add_of_lt (by omega) (by omega)
    have hadd : checkedAdd a c = some (a + c) := checkedAdd_eq hsum
    have hcarry := shiftRight_bounds (t := a + c) (by omega)
    simp [carrySweep?, carrySweep, hadd, ih _ has hcarry]

theorem foldCarry?_eq (q : Int64) (limbs : List Int64) (hl : limbs.length = 8)
    (hr : InRange limbs) (hq : -2 ^ 10 ≤ q.toInt ∧ q.toInt ≤ 2 ^ 10) :
    foldCarry? q limbs = some (foldCarry q limbs) := by
  match limbs, hl with
  | [a0, a1, a2, a3, a4, a5, a6, a7], _ =>
    have hword {a : Int64} (ha : a ∈ [a0, a1, a2, a3, a4, a5, a6, a7]) := hr.holds ha
    have hc : Holds q q.toInt 1 := ⟨rfl, by omega, by omega⟩
    have e0 := (hword (a := a0) (by simp)).checkedAdd hc
    have e3 := (hword (a := a3) (by simp)).checkedSub hc
    have e6 := (hword (a := a6) (by simp)).checkedSub hc
    have e7 := (hword (a := a7) (by simp)).checkedAdd hc
    simp [foldCarry?, foldCarry, e0, e3, e6, e7, Int64.sub_eq_add_neg]

theorem sweepAndFold?_eq (limbs : List Int64) (hl : limbs.length = 8) (h : Bounded limbs) :
    sweepAndFold? limbs = some (sweepAndFold limbs) := by
  obtain ⟨-, hrange⟩ := carrySweep_spec limbs 0 h (by decide)
  have hfold := foldCarry?_eq _ _ ((length_carrySweep limbs 0).trans hl) hrange (carry_bounds hl h)
  unfold sweepAndFold?
  rw [carrySweep?_eq limbs 0 h (by decide)]
  exact hfold

/-- **The three sweeps end without a carry**, and none overflows. -/
theorem settled?_eq (c : Words 16) : settled? c = some (settled c).1 := by
  obtain ⟨-, hb0⟩ := foldedLimbs_spec c
  have hl0 := length_foldedLimbs c
  have hl1 := length_sweepAndFold hl0
  obtain ⟨-, -, -, -, hb1⟩ := sweepAndFold_spec _ hl0 hb0
  obtain ⟨-, -, -, -, hb2⟩ := sweepAndFold_spec _ hl1 hb1
  obtain ⟨-, -, hcarry⟩ := settled_spec c
  unfold settled at hcarry
  unfold settled? settled
  simp only [foldedLimbs?_eq, sweepAndFold?_eq _ hl0 hb0, sweepAndFold?_eq _ hl1 hb1,
    carrySweep?_eq _ 0 hb2 (by decide), Option.bind_eq_bind, Option.bind_some]
  rw [if_pos hcarry]

/-- **No accumulator of a reduction overflows**, for any integer of sixteen words. -/
theorem reduce?_eq (c : Words 16) : reduce? c = some (reduce c) := by
  have hwords := (settledWords c).ofList?_toList
  unfold reduce?
  rw [settled?_eq, Option.bind_eq_bind, Option.bind_some]
  change (Words.ofList? 8 (settledWords c).toList).bind _ = _
  rw [hwords]
  rfl

end Reduction

namespace FieldElement

/-- The product, unless something overflows on the way. -/
def mul? (a b : FieldElement) : Option FieldElement := do
  return ⟨← Reduction.reduce? (← Reduction.product? a.limbs b.limbs)⟩

theorem mul?_eq (a b : FieldElement) : mul? a b = some (a * b) := by
  unfold mul?
  rw [Reduction.product?_eq, Option.bind_eq_bind, Option.bind_some, Reduction.reduce?_eq]
  rfl

/-- **Reduction is exact for every integer of sixteen words, and products for any two elements.**
No accumulator of a reduction overflows; the third sweep leaves no carry; what it leaves is
congruent and below twice the prime, so that one subtraction gives the residue.  No column sum and
no carry of a product overflows, and the product is the residue of the product of the operands. -/
theorem reduce_mul_exact :
    (∀ c : Words 16,
      Reduction.reduce? c = some (Reduction.reduce c) ∧
      (Reduction.settled c).2 = 0 ∧
      (Reduction.settledWords c).value % fieldPrime = c.value % fieldPrime ∧
      (Reduction.settledWords c).value < 2 * fieldPrime ∧
      (Reduction.reduce c).value = c.value % fieldPrime) ∧
    ∀ a b : FieldElement,
      Reduction.product? a.limbs b.limbs = some (Reduction.product a.limbs b.limbs) ∧
      mul? a b = some (a * b) ∧
      (a * b).value = a.value * b.value % fieldPrime := by
  constructor
  · intro c
    obtain ⟨-, -, hcarry⟩ := Reduction.settled_spec c
    rw [← value_modulus_eq]
    exact ⟨Reduction.reduce?_eq c, hcarry, Reduction.settledWords_mod c,
      Reduction.settledWords_lt c, Reduction.value_reduce c⟩
  · intro a b
    exact ⟨Reduction.product?_eq _ _, mul?_eq a b, value_mul a b⟩

end FieldElement

end Secp256r1
