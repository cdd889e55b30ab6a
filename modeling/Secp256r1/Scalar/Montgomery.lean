import Secp256r1.Words

/-!
# Montgomery products modulo the group order

For `R = 2²⁵⁶`, the Montgomery product of `a` and `b` is `a·b·R⁻¹` modulo the group order
`n`.  Each word of `b` adds one row `a·bᵢ` to a running integer, makes its lowest word
vanish by adding a multiple of `n`, and drops that word.

* `Montgomery.order`, `Montgomery.orderInverse` — `n`, and `−n⁻¹` modulo `2³²`.
* `Montgomery.step` — one row and one dropped word.
* `Montgomery.product` — all eight rows and at most one subtraction of `n`.
-/

set_option autoImplicit false

namespace Secp256r1

namespace Montgomery

/-- The group order as words. -/
def order : Words 8 :=
  ⟨[0xFC632551, 0xF3B9CAC2, 0xA7179E84, 0xBCE6FAAD, 0xFFFFFFFF, 0xFFFFFFFF, 0, 0xFFFFFFFF], rfl⟩

/-- The negated inverse of the group order modulo `2³²`. -/
def orderInverse : UInt32 := 0xEE00BC4F

/-- `R²` modulo the group order: a product with it enters the Montgomery domain. -/
def radixSquared : Words 8 :=
  ⟨[0xBE79EEA2, 0x83244C95, 0x49BD6FA6, 0x4699799C, 0x2B6BEC59, 0x2845B239, 0xF3D95620,
    0x66E12D94], rfl⟩

/-- `R` modulo the group order: the image of 1 in the Montgomery domain. -/
def radix : Words 8 :=
  ⟨[0x039CDAAF, 0x0C46353D, 0x58E8617B, 0x43190552, 0, 0, 0xFFFFFFFF, 0], rfl⟩

/-- Adds `x` times the words `as` to the words `ts`, with a carry in and out. -/
def addMultiple (x : UInt32) : List UInt32 → List UInt32 → UInt64 → List UInt32 × UInt64
  | a :: as, t :: ts, carry =>
    let uv := t.toUInt64 + a.toUInt64 * x.toUInt64 + carry
    let (rest, out) := addMultiple x as ts (uv >>> 32)
    (uv.toUInt32 :: rest, out)
  | _, _, carry => ([], carry)

theorem length_addMultiple (x : UInt32) : ∀ (as ts : List UInt32) (c : UInt64),
    (addMultiple x as ts c).1.length = min as.length ts.length
  | [], _, _ => by simp [addMultiple]
  | _ :: _, [], _ => by simp [addMultiple]
  | a :: as, t :: ts, c => by simp [addMultiple, length_addMultiple x as ts]

/-- A running integer of nine words. -/
structure Running where
  low : Words 8
  top : UInt32
deriving DecidableEq, Repr

/-- The running integer. -/
def Running.value (t : Running) : Nat := littleEndian (t.low.toList ++ [t.top])

/-- The running integer zero. -/
def Running.zero : Running := ⟨.zero 8, 0⟩

/-- Adds the row `a·b`, then the multiple of the order that clears the lowest word, and
drops that word. -/
def step (a : Words 8) (t : Running) (b : UInt32) : Running :=
  let row := addMultiple b a.toList t.low.toList 0
  let rowTop := t.top.toUInt64 + row.2
  let m := row.1.headD 0 * orderInverse
  let cleared := addMultiple m order.toList row.1 0
  let clearedTop := rowTop.toUInt32.toUInt64 + cleared.2
  { low := ⟨cleared.1.tail ++ [clearedTop.toUInt32], by
      simp [cleared, row, length_addMultiple, a.length_toList, t.low.length_toList,
        order.length_toList]⟩
    top := (rowTop >>> 32).toUInt32 + (clearedTop >>> 32).toUInt32 }

/-- The running integer after a row for every word of `b`. -/
def accumulate (a b : Words 8) : Running := b.toList.foldl (step a) .zero

/-- The Montgomery product, fully reduced: the running integer lies below `2n`, so at most
one subtraction is left. -/
def product (a b : Words 8) : Words 8 :=
  let t := accumulate a b
  let (lowered, borrow) := t.low.sub order
  .select ((t.top ||| (borrow ^^^ 1)) &&& 1) t.low lowered

/-- The power of `base` in the Montgomery domain for binary digits, most significant
first. -/
def power (base : Words 8) (digits : List Bool) : Words 8 :=
  digits.foldl
    (fun r bit => if bit then product (product r r) base else product r r) radix

end Montgomery

end Secp256r1
