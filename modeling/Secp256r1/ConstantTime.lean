import Secp256r1.Octets

/-!
# Comparisons that look at every octet

Equality, vanishing and order of octet strings, each decided by one pass over all octets.

* `ConstantTime.equal` — strings of different lengths are never equal.
* `ConstantTime.isZero` — whether all octets are zero.
* `ConstantTime.borrow`, `ConstantTime.lessThan` — numeric order of big-endian strings,
  from the borrow of a subtraction that starts at the last octet.
-/

set_option autoImplicit false

namespace Secp256r1

namespace ConstantTime

/-- Whether two strings agree. -/
def equal (a b : List UInt8) : Bool :=
  if a.length = b.length then (List.zipWith (· ^^^ ·) a b).foldl (· ||| ·) 0 == 0 else false

/-- Whether every octet is zero. -/
def isZero (a : List UInt8) : Bool := a.foldl (· ||| ·) 0 == 0

/-- One octet of a subtraction with a borrow of 0 or 1 coming in. -/
def octetDifference (a b : UInt8) (borrow : Int16) : Int16 :=
  a.toUInt16.toInt16 - b.toUInt16.toInt16 - borrow

/-- The borrow out of the first octet when `b` is subtracted from `a`. -/
def borrow : List UInt8 → List UInt8 → Int16
  | a :: as, b :: bs => (octetDifference a b (borrow as bs) >>> 8) &&& 1
  | _, _ => 0

/-- Whether `a` is the smaller of two big-endian integers of one width. -/
def lessThan {n : Nat} (a b : Octets n) : Bool := borrow a.toList b.toList == 1

end ConstantTime

end Secp256r1
