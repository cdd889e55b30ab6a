import Secp256r1.DoubleWord
import Secp256r1.Words

/-!
# Products and reduction modulo the field prime

A product of two field elements is formed in columns of 128 bits, carried into sixteen
words, and folded modulo `p = 2²⁵⁶ − 2²²⁴ + 2¹⁹² + 2⁹⁶ − 1` in signed 64-bit accumulators.

* `Reduction.product` — the sixteen words of a product of eight-word integers.
* `Reduction.foldedLimbs` — the upper eight words folded onto the lower eight: each is a
  signed sum of words with the coefficients of `2 ^ (256 + 32 i)` modulo `p`.
* `Reduction.carrySweep`, `Reduction.foldCarry` — limbs brought into range, and the carry
  out of the top folded back.
* `Reduction.reduce` — the residue of sixteen words in `[0, p)`.
-/

set_option autoImplicit false

namespace Secp256r1

namespace Reduction

/-- The field prime as words. -/
def modulus : Words 8 :=
  ⟨[0xFFFFFFFF, 0xFFFFFFFF, 0xFFFFFFFF, 0, 0, 0, 1, 0xFFFFFFFF], rfl⟩

/-! ## The product in columns -/

/-- Adds `a` times each word to the columns, one column per word. -/
def addRow (a : UInt32) : List UInt32 → List DoubleWord → List DoubleWord
  | b :: bs, t :: ts => t.add (.mul a b) :: addRow a bs ts
  | _, ts => ts

/-- Adds every pairwise product to the columns: word `i` times word `j` to column `i + j`. -/
def addProducts : List UInt32 → List UInt32 → List DoubleWord → List DoubleWord
  | a :: as, bs, ts =>
    match addRow a bs ts with
    | [] => []
    | t :: rest => t :: addProducts as bs rest
  | [], _, ts => ts

/-- Carries columns into words. -/
def carryColumns : List DoubleWord → DoubleWord → List UInt32
  | [], _ => []
  | t :: ts, carry =>
    let v := t.add carry
    v.lowWord :: carryColumns ts v.dropWord

theorem length_addRow (a : UInt32) : ∀ (bs : List UInt32) (ts : List DoubleWord),
    (addRow a bs ts).length = ts.length
  | [], _ => by simp [addRow]
  | _ :: _, [] => by simp [addRow]
  | b :: bs, t :: ts => by simp [addRow, length_addRow a bs ts]

theorem length_addProducts : ∀ (as bs : List UInt32) (ts : List DoubleWord),
    (addProducts as bs ts).length = ts.length
  | [], _, _ => by simp [addProducts]
  | a :: as, bs, ts => by
    have h := length_addRow a bs ts
    unfold addProducts
    split
    · next heq => simpa [heq] using h
    · next t rest heq =>
      rw [heq] at h
      simpa [length_addProducts as bs rest] using h

theorem length_carryColumns : ∀ (ts : List DoubleWord) (carry : DoubleWord),
    (carryColumns ts carry).length = ts.length
  | [], _ => rfl
  | t :: ts, carry => by simp [carryColumns, length_carryColumns ts]

/-- The columns of a product of two eight-word integers. -/
def columns (a b : Words 8) : List DoubleWord :=
  addProducts a.toList b.toList (List.replicate 16 .zero)

/-- The sixteen words of a product. -/
def product (a b : Words 8) : Words 16 :=
  ⟨carryColumns (columns a b) .zero, by
    simp [length_carryColumns, columns, length_addProducts]⟩

/-! ## Folding and carrying -/

/-- A word as a signed accumulator. -/
def limbOfWord (w : UInt32) : Int64 := w.toUInt64.toInt64

/-- The signed sums that fold words 8 to 15 onto words 0 to 7 modulo the prime. -/
def foldedLimbs (c : Words 16) : List Int64 :=
  match c.toList.map limbOfWord with
  | [w0, w1, w2, w3, w4, w5, w6, w7, w8, w9, w10, w11, w12, w13, w14, w15] =>
    [w0 + w8 + w9 - w11 - w12 - w13 - w14,
     w1 + w9 + w10 - w12 - w13 - w14 - w15,
     w2 + w10 + w11 - w13 - w14 - w15,
     w3 + 2 * w11 + 2 * w12 + w13 - w15 - w8 - w9,
     w4 + 2 * w12 + 2 * w13 + w14 - w9 - w10,
     w5 + 2 * w13 + 2 * w14 + w15 - w10 - w11,
     w6 + 3 * w14 + 2 * w15 + w13 - w8 - w9,
     w7 + 3 * w15 + w8 - w10 - w11 - w12 - w13]
  | _ => List.replicate 8 0

/-- Brings every limb into `[0, 2³²)`, least significant first, and hands out the signed
carry. -/
def carrySweep : List Int64 → Int64 → List Int64 × Int64
  | [], carry => ([], carry)
  | a :: as, carry =>
    let t := a + carry
    let (rest, out) := carrySweep as (t >>> 32)
    ((t &&& 0xFFFFFFFF) :: rest, out)

/-- Adds a carry out of the top back in, as `2²⁵⁶ ≡ 2²²⁴ − 2¹⁹² − 2⁹⁶ + 1`. -/
def foldCarry (carry : Int64) (limbs : List Int64) : List Int64 :=
  List.zipWith (· + ·) limbs [carry, 0, 0, -carry, 0, 0, -carry, carry]

/-- One sweep with the carry folded back. -/
def sweepAndFold (limbs : List Int64) : List Int64 :=
  let (swept, carry) := carrySweep limbs 0
  foldCarry carry swept

theorem length_foldedLimbs (c : Words 16) : (foldedLimbs c).length = 8 := by
  unfold foldedLimbs
  split <;> simp

theorem length_carrySweep : ∀ (as : List Int64) (c : Int64),
    (carrySweep as c).1.length = as.length
  | [], _ => rfl
  | a :: as, c => by simp [carrySweep, length_carrySweep as]

theorem length_sweepAndFold {limbs : List Int64} (h : limbs.length = 8) :
    (sweepAndFold limbs).length = 8 := by
  simp [sweepAndFold, foldCarry, length_carrySweep, h]

/-- The limbs after two sweeps, and the carry out of the third. -/
def settled (c : Words 16) : List Int64 × Int64 :=
  carrySweep (sweepAndFold (sweepAndFold (foldedLimbs c))) 0

theorem length_settled (c : Words 16) : (settled c).1.length = 8 := by
  simp [settled, length_carrySweep,
    length_sweepAndFold (length_sweepAndFold (length_foldedLimbs c))]

/-- The settled limbs as words. -/
def settledWords (c : Words 16) : Words 8 :=
  ⟨(settled c).1.map fun a => a.toUInt64.toUInt32, by simp [length_settled]⟩

/-- The residue of sixteen words modulo the prime: the settled words lie below `2p`, so
at most one subtraction is left. -/
def reduce (c : Words 16) : Words 8 :=
  let out := settledWords c
  let (lowered, borrow) := out.sub modulus
  .select (borrow ^^^ 1) out lowered

end Reduction

end Secp256r1
