/-!
# Little-endian words

`Words n` is an integer below `2 ^ (32 * n)` held as `n` words of 32 bits, least significant
first.  Addition and subtraction run one carry through all words and hand it out as a
flag; `select` picks one of two operands by such a flag without branching.

* `Words.value` — the integer held.
* `Words.add`, `Words.sub` — the wrapped result with the carry or the borrow out.
* `Words.select` — the first operand at flag 0, the second at flag 1
  (`select_zero`, `select_one`).
* `Words.ofNat` — the low words of an integer.
-/

set_option autoImplicit false

namespace Secp256r1

/-- The integer that words stand for, least significant first. -/
def littleEndian : List UInt32 → Nat
  | [] => 0
  | w :: ws => w.toNat + UInt32.size * littleEndian ws

/-- Adds word by word, least significant first, with a carry in and out. -/
def addChain : List UInt32 → List UInt32 → UInt64 → List UInt32 × UInt64
  | a :: as, b :: bs, carry =>
    let sum := a.toUInt64 + b.toUInt64 + carry
    let (rest, out) := addChain as bs (sum >>> 32)
    (sum.toUInt32 :: rest, out)
  | _, _, carry => ([], carry)

/-- Subtracts word by word, least significant first; the borrow is the sign bit of the
wrapped 64-bit difference. -/
def subChain : List UInt32 → List UInt32 → UInt64 → List UInt32 × UInt64
  | a :: as, b :: bs, borrow =>
    let diff := a.toUInt64 - b.toUInt64 - borrow
    let (rest, out) := subChain as bs ((diff >>> 63) &&& 1)
    (diff.toUInt32 :: rest, out)
  | _, _, borrow => ([], borrow)

theorem length_addChain : ∀ (as bs : List UInt32) (c : UInt64),
    (addChain as bs c).1.length = min as.length bs.length
  | [], _, _ => by simp [addChain]
  | _ :: _, [], _ => by simp [addChain]
  | a :: as, b :: bs, c => by simp [addChain, length_addChain as bs]

theorem length_subChain : ∀ (as bs : List UInt32) (c : UInt64),
    (subChain as bs c).1.length = min as.length bs.length
  | [], _, _ => by simp [subChain]
  | _ :: _, [], _ => by simp [subChain]
  | a :: as, b :: bs, c => by simp [subChain, length_subChain as bs]

/-- The low `n` words of an integer. -/
def digitsOfNat : Nat → Nat → List UInt32
  | 0, _ => []
  | n + 1, v => UInt32.ofNat v :: digitsOfNat n (v / UInt32.size)

theorem length_digitsOfNat : ∀ n v : Nat, (digitsOfNat n v).length = n
  | 0, _ => rfl
  | n + 1, v => by simp [digitsOfNat, length_digitsOfNat n]

/-- Picks `a` at flag 0 and `b` at flag 1 through an all-zero or all-one mask. -/
def selectWord (flag a b : UInt32) : UInt32 := a ^^^ ((0 - flag) &&& (a ^^^ b))

/-- An integer as exactly `n` words, least significant first. -/
@[ext]
structure Words (n : Nat) where
  toList : List UInt32
  length_toList : toList.length = n
deriving DecidableEq, Repr

namespace Words

variable {n : Nat}

/-- The integer held. -/
def value (w : Words n) : Nat := littleEndian w.toList

/-- The low words of an integer; faithful below `2 ^ (32 * n)`. -/
def ofNat (n v : Nat) : Words n := ⟨digitsOfNat n v, length_digitsOfNat n v⟩

/-- All words zero. -/
def zero (n : Nat) : Words n := ⟨List.replicate n 0, List.length_replicate⟩

/-- The sum modulo `2 ^ (32 * n)`, and 1 if it overflowed, else 0. -/
def add (a b : Words n) : Words n × UInt32 :=
  (⟨(addChain a.toList b.toList 0).1, by
      simp [length_addChain, a.length_toList, b.length_toList]⟩,
   (addChain a.toList b.toList 0).2.toUInt32)

/-- The difference modulo `2 ^ (32 * n)`, and 1 if it was negative, else 0. -/
def sub (a b : Words n) : Words n × UInt32 :=
  (⟨(subChain a.toList b.toList 0).1, by
      simp [length_subChain, a.length_toList, b.length_toList]⟩,
   (subChain a.toList b.toList 0).2.toUInt32)

/-- The first operand at flag 0, the second at flag 1. -/
def select (flag : UInt32) (a b : Words n) : Words n :=
  ⟨List.zipWith (selectWord flag) a.toList b.toList, by
    simp [a.length_toList, b.length_toList]⟩

/-- Whether all words are zero, looking at every one. -/
def isZero (w : Words n) : Bool := w.toList.foldl (· ||| ·) 0 == 0

/-- Whether two word strings agree, looking at every word. -/
def equal (a b : Words n) : Bool :=
  (List.zipWith (· ^^^ ·) a.toList b.toList).foldl (· ||| ·) 0 == 0

theorem zipWith_select_zero : ∀ {as bs : List UInt32}, as.length = bs.length →
    List.zipWith (selectWord 0) as bs = as
  | [], [], _ => rfl
  | a :: as, b :: bs, h => by
    have hs : as.length = bs.length := by simpa using h
    simp [selectWord, zipWith_select_zero hs]

theorem selectWord_one (a b : UInt32) : selectWord 1 a b = b := by
  have h : (0 - 1 : UInt32) = -1 := by decide
  rw [selectWord, h, UInt32.neg_one_and, ← UInt32.xor_assoc, UInt32.xor_self, UInt32.zero_xor]

theorem zipWith_select_one : ∀ {as bs : List UInt32}, as.length = bs.length →
    List.zipWith (selectWord 1) as bs = bs
  | [], [], _ => rfl
  | a :: as, b :: bs, h => by
    have hs : as.length = bs.length := by simpa using h
    simp [selectWord_one, zipWith_select_one hs]

@[simp] theorem select_zero (a b : Words n) : select 0 a b = a := by
  ext1
  exact zipWith_select_zero (a.length_toList.trans b.length_toList.symm)

@[simp] theorem select_one (a b : Words n) : select 1 a b = b := by
  ext1
  exact zipWith_select_one (a.length_toList.trans b.length_toList.symm)

end Words

end Secp256r1
