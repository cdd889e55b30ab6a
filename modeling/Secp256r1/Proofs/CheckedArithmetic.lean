import Mathlib.Data.Int.Notation
import Mathlib.Data.Nat.Notation
import Secp256r1.DoubleWord
import Secp256r1.Words

/-!
# Arithmetic that stops at an overflow

Machine integers wrap.  `checkedAdd`, `checkedSub` and `checkedMul` have the same results, but none
where the result differs from that of the integers held.  An algorithm written with them has a
result exactly if no operation on its way overflows, and then the one of the wrapping algorithm.

* `MachineInteger` — the integer that a word or an accumulator holds.
* `checkedAdd_eq`, `checkedSub_eq`, `checkedMul_eq` — an exact operation passes its check.
* `checkedAdd_word`, `checkedAdd_long`, … — unsigned operations whose exact result fits.
* `Words.ofList?` — words of a width that is checked.
-/

set_option autoImplicit false

namespace Secp256r1

/-- Machine integers, with the integer that each holds. -/
class MachineInteger (α : Type) where
  toInt : α → ℤ

instance : MachineInteger UInt32 := ⟨fun a => a.toNat⟩
instance : MachineInteger UInt64 := ⟨fun a => a.toNat⟩
instance : MachineInteger Int16 := ⟨Int16.toInt⟩
instance : MachineInteger Int64 := ⟨Int64.toInt⟩
instance : MachineInteger DoubleWord := ⟨fun a => a.value⟩

instance : Add DoubleWord := ⟨DoubleWord.add⟩

@[simp] theorem toInt_word (a : UInt32) : MachineInteger.toInt a = a.toNat := rfl

@[simp] theorem toInt_long (a : UInt64) : MachineInteger.toInt a = a.toNat := rfl

@[simp] theorem toInt_short (a : Int16) : MachineInteger.toInt a = a.toInt := rfl

@[simp] theorem toInt_limb (a : Int64) : MachineInteger.toInt a = a.toInt := rfl

@[simp] theorem toInt_doubleWord (x : DoubleWord) : MachineInteger.toInt x = x.value := rfl

section

open MachineInteger (toInt)

variable {α : Type} [MachineInteger α]

/-- The result of an operation, unless it differs from the exact integer. -/
def checked (result : α) (exact : ℤ) : Option α := if toInt result = exact then some result else none

/-- The sum, unless it overflows. -/
def checkedAdd [Add α] (a b : α) : Option α := checked (a + b) (toInt a + toInt b)

/-- The difference, unless it overflows. -/
def checkedSub [Sub α] (a b : α) : Option α := checked (a - b) (toInt a - toInt b)

/-- The product, unless it overflows. -/
def checkedMul [Mul α] (a b : α) : Option α := checked (a * b) (toInt a * toInt b)

variable {a b : α}

theorem checkedAdd_eq [Add α] (h : toInt (a + b) = toInt a + toInt b) :
    checkedAdd a b = some (a + b) := if_pos h

theorem checkedSub_eq [Sub α] (h : toInt (a - b) = toInt a - toInt b) :
    checkedSub a b = some (a - b) := if_pos h

theorem checkedMul_eq [Mul α] (h : toInt (a * b) = toInt a * toInt b) :
    checkedMul a b = some (a * b) := if_pos h

end

/-! ## Unsigned integers -/

theorem checkedAdd_word {a b : UInt32} (h : a.toNat + b.toNat < UInt32.size) :
    checkedAdd a b = some (a + b) := by
  apply checkedAdd_eq
  have hsum : (a + b).toNat = a.toNat + b.toNat := by
    rw [UInt32.toNat_add]
    exact Nat.mod_eq_of_lt h
  simp only [toInt_word, hsum, Int.natCast_add]

theorem checkedAdd_long {a b : UInt64} (h : a.toNat + b.toNat < UInt64.size) :
    checkedAdd a b = some (a + b) := by
  apply checkedAdd_eq
  have hsum : (a + b).toNat = a.toNat + b.toNat := by
    rw [UInt64.toNat_add]
    exact Nat.mod_eq_of_lt h
  simp only [toInt_long, hsum, Int.natCast_add]

theorem checkedMul_long {a b : UInt64} (h : a.toNat * b.toNat < UInt64.size) :
    checkedMul a b = some (a * b) := by
  apply checkedMul_eq
  have hproduct : (a * b).toNat = a.toNat * b.toNat := by
    rw [UInt64.toNat_mul]
    exact Nat.mod_eq_of_lt h
  simp only [toInt_long, hproduct, Int.natCast_mul]

theorem checkedAdd_doubleWord {x y : DoubleWord}
    (h : x.value + y.value < UInt64.size * UInt64.size) : checkedAdd x y = some (x.add y) := by
  apply checkedAdd_eq
  have hsum : (x + y).value = x.value + y.value :=
    (DoubleWord.value_add x y).trans (Nat.mod_eq_of_lt h)
  simp only [toInt_doubleWord, hsum, Int.natCast_add]

/-! ## Words of a checked width -/

/-- The words, if there are exactly `n` of them. -/
def Words.ofList? (n : ℕ) (ws : List UInt32) : Option (Words n) :=
  if h : ws.length = n then some ⟨ws, h⟩ else none

theorem Words.ofList?_toList {n : ℕ} (w : Words n) : Words.ofList? n w.toList = some w :=
  dif_pos w.length_toList

end Secp256r1
