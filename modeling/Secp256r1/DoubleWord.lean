/-!
# 128-bit accumulators

`DoubleWord` holds an integer modulo `2 ^ 128` in two halves.  It sums the products of
32-bit words in one column of a long multiplication.

* `DoubleWord.value` — the integer held.
* `value_add` — addition wraps at `2 ^ 128`; `value_mul` — a product of words is exact.
-/

set_option autoImplicit false

namespace Secp256r1

/-- An unsigned 128-bit integer. -/
@[ext]
structure DoubleWord where
  hi : UInt64
  lo : UInt64
deriving DecidableEq, Repr

namespace DoubleWord

/-- The integer held. -/
def value (x : DoubleWord) : Nat := x.lo.toNat + UInt64.size * x.hi.toNat

/-- The accumulator before anything is added. -/
def zero : DoubleWord := ⟨0, 0⟩

/-- The sum modulo `2 ^ 128`. -/
def add (x y : DoubleWord) : DoubleWord :=
  let lo := x.lo + y.lo
  ⟨x.hi + y.hi + (if lo < x.lo then 1 else 0), lo⟩

/-- The product of two 32-bit words. -/
def mul (a b : UInt32) : DoubleWord := ⟨0, a.toUInt64 * b.toUInt64⟩

/-- The least significant 32 bits. -/
def lowWord (x : DoubleWord) : UInt32 := x.lo.toUInt32

/-- The integer without its least significant 32 bits. -/
def dropWord (x : DoubleWord) : DoubleWord :=
  ⟨x.hi >>> 32, (x.lo >>> 32) ||| (x.hi <<< 32)⟩

theorem value_add (x y : DoubleWord) :
    (x.add y).value = (x.value + y.value) % (UInt64.size * UInt64.size) := by
  have hxl := x.lo.toNat_lt
  have hyl := y.lo.toNat_lt
  have hxh := x.hi.toNat_lt
  have hyh := y.hi.toNat_lt
  simp only [add, value, UInt64.lt_iff_toNat_lt, UInt64.toNat_add, UInt64.size]
  split <;> simp only [UInt64.toNat_one, UInt64.toNat_zero] <;> omega

theorem value_mul (a b : UInt32) : (mul a b).value = a.toNat * b.toNat := by
  have ha : a.toNat ≤ 2 ^ 32 - 1 := Nat.le_of_lt_succ a.toNat_lt
  have hb : b.toNat ≤ 2 ^ 32 - 1 := Nat.le_of_lt_succ b.toNat_lt
  have h : a.toNat * b.toNat < 2 ^ 64 := Nat.lt_of_le_of_lt (Nat.mul_le_mul ha hb) (by decide)
  simp only [mul, value, UInt64.toNat_mul, UInt32.toNat_toUInt64, Nat.mod_eq_of_lt h,
    UInt64.toNat_zero, Nat.mul_zero, Nat.add_zero]

end DoubleWord

end Secp256r1
