import Secp256r1.Proofs.CheckedArithmetic
import Secp256r1.Proofs.Comparison

/-!
# Comparisons are exact, and their differences small

The order of two octet strings is the last borrow of a subtraction that runs from the last octet to
the first.  The same loop, written once more with differences that must neither overflow nor leave
nine bits, never stops.  Equality and vanishing do not depend on how two octets are compared, as long
as the answer is a flag.

* `borrow?` — the checked loop; `borrowOut?_eq` for one turn, `borrow?_eq` for a whole run.
* `ComparesOctets` — a comparison of octets that answers 1 or 0; `equalBy_eq`, `isZeroBy_eq` —
  what strings make of it.
* `comparisons_exact` — **order, equality and vanishing are decided exactly.**
-/

set_option autoImplicit false

namespace Secp256r1

namespace ConstantTime

/-! ## The loop of differences -/

/-- The difference, unless it overflows or leaves `[-256, 255]`. -/
def smallDifference? (x y : Int16) : Option Int16 := do
  let d ← checkedSub x y
  if -256 ≤ d.toInt ∧ d.toInt ≤ 255 then some d else none

/-- The borrow out of two octets at one place. -/
def borrowOut? (borrow : Int16) (octets : UInt8 × UInt8) : Option Int16 := do
  let d ← smallDifference? octets.1.toUInt16.toInt16 octets.2.toUInt16.toInt16
  return ((← smallDifference? d borrow) >>> 8) &&& 1

/-- The borrow out of the first octet, by a loop that starts at the last one. -/
def borrow? (as bs : List UInt8) : Option Int16 := (as.zip bs).reverse.foldlM borrowOut? 0

theorem smallDifference?_eq {x y : Int16} (hexact : (x - y).toInt = x.toInt - y.toInt)
    (hbounds : -256 ≤ (x - y).toInt ∧ (x - y).toInt ≤ 255) : smallDifference? x y = some (x - y) := by
  have hsub : checkedSub x y = some (x - y) := checkedSub_eq hexact
  unfold smallDifference?
  rw [hsub, Option.bind_eq_bind, Option.bind_some, if_pos hbounds]

/-- **One turn of the loop** does not stop if a flag comes in. -/
theorem borrowOut?_eq {c : Int16} (hc : c = 0 ∨ c = 1) (a b : UInt8) :
    borrowOut? c (a, b) = some ((octetDifference a b c >>> 8) &&& 1) := by
  have ha := a.toNat_lt
  have hb := b.toNat_lt
  have hoctets := toInt_sub_octet a b
  have hfirst : smallDifference? a.toUInt16.toInt16 b.toUInt16.toInt16 =
      some (a.toUInt16.toInt16 - b.toUInt16.toInt16) := by
    apply smallDifference?_eq
    · rw [hoctets, toInt_octet, toInt_octet]
    · rw [hoctets]
      omega
  have hsecond : smallDifference? (a.toUInt16.toInt16 - b.toUInt16.toInt16) c =
      some (octetDifference a b c) := by
    apply smallDifference?_eq
    · rw [hoctets]
      exact toInt_octetDifference a b hc
    · exact octetDifference_bounds a b hc
  unfold borrowOut?
  rw [hfirst, Option.bind_eq_bind, Option.bind_some, hsecond]
  rfl

/-- **The loop never stops**, and its last borrow is that of the whole subtraction. -/
theorem borrow?_eq : ∀ {as bs : List UInt8}, as.length = bs.length →
    borrow? as bs = some (borrow as bs)
  | [], [], _ => rfl
  | a :: as, b :: bs, h => by
    have hl : as.length = bs.length := by simpa using h
    have hrest : (as.zip bs).reverse.foldlM borrowOut? 0 = some (borrow as bs) := borrow?_eq hl
    unfold borrow?
    rw [List.zip_cons_cons, List.reverse_cons, List.foldlM_append, hrest, Option.bind_eq_bind,
      Option.bind_some, List.foldlM_cons, borrowOut?_eq (borrow_eq_zero_or_one hl)]
    rfl

/-! ## Flags of octets -/

/-- Answers 1 for equal octets and 0 for any others. -/
def ComparesOctets (same : UInt8 → UInt8 → UInt8) : Prop :=
  ∀ a b, same a b = if a = b then 1 else 0

/-- Equality of strings by the flags of their octets; strings of different lengths are not
looked at. -/
def equalBy (same : UInt8 → UInt8 → UInt8) (as bs : List UInt8) : UInt8 :=
  if as.length = bs.length then (List.zipWith same as bs).foldl (· &&& ·) 1 else 0

/-- Vanishing of all octets by the flag of one. -/
def isZeroBy (same : UInt8 → UInt8 → UInt8) (as : List UInt8) : UInt8 :=
  same (as.foldl (· ||| ·) 0) 0

theorem foldl_and_zero (flags : List UInt8) : flags.foldl (· &&& ·) 0 = 0 := by
  induction flags with
  | nil => rfl
  | cons f flags ih => rw [List.foldl_cons, UInt8.zero_and, ih]

section

variable {same : UInt8 → UInt8 → UInt8}

/-- The flags of two strings are all set exactly if the strings agree. -/
theorem ComparesOctets.foldl_flags (h : ComparesOctets same) : ∀ {as bs : List UInt8},
    as.length = bs.length →
      (List.zipWith same as bs).foldl (· &&& ·) 1 = if as = bs then 1 else 0
  | [], [], _ => rfl
  | a :: as, b :: bs, hl => by
    rw [List.zipWith_cons_cons, List.foldl_cons, h a b]
    by_cases hab : a = b
    · rw [if_pos hab, UInt8.and_self, h.foldl_flags (by simpa using hl), hab]
      simp
    · rw [if_neg hab, UInt8.and_zero, foldl_and_zero, if_neg (by simp [hab])]

theorem ComparesOctets.equalBy_eq (h : ComparesOctets same) (as bs : List UInt8) :
    equalBy same as bs = if equal as bs then 1 else 0 := by
  have hflags : equalBy same as bs = if as = bs then 1 else 0 := by
    unfold equalBy
    split
    · rename_i hl
      exact h.foldl_flags hl
    · rename_i hl
      rw [if_neg fun hab => hl (congrArg List.length hab)]
  rw [hflags]
  exact if_congr (equal_iff as bs).symm rfl rfl

theorem ComparesOctets.isZeroBy_eq (h : ComparesOctets same) (as : List UInt8) :
    isZeroBy same as = if isZero as then 1 else 0 := by
  unfold isZeroBy isZero
  rw [h]
  exact if_congr beq_iff_eq.symm rfl rfl

end

/-- **Order, equality and vanishing of octet strings are decided exactly.**

* The last borrow of two strings of one width is set exactly if the first integer is the smaller
  one, which is to say that its string comes first in the lexicographic order.  No difference on
  the way overflows or leaves `[-256, 255]`.
* Strings of any lengths are equal exactly if they agree, and vanish exactly if all their octets
  are zero.  Any other comparison of octets that answers by a flag comes to the same answers. -/
theorem comparisons_exact :
    (∀ (n : ℕ) (a b : Octets n),
      borrow? a.toList b.toList = some (borrow a.toList b.toList) ∧
      borrow a.toList b.toList = (if a.value < b.value then 1 else 0) ∧
      (lessThan a b = true ↔ a.value < b.value) ∧
      (a.value < b.value ↔ List.Lex (· < ·) a.toList b.toList)) ∧
    (∀ as bs : List UInt8, equal as bs = true ↔ as = bs) ∧
    (∀ as : List UInt8, isZero as = true ↔ ∀ b ∈ as, b = 0) ∧
    ∀ same : UInt8 → UInt8 → UInt8, ComparesOctets same → ∀ as bs : List UInt8,
      equalBy same as bs = (if equal as bs then 1 else 0) ∧
      isZeroBy same as = (if isZero as then 1 else 0) := by
  refine ⟨fun n a b => ?_, equal_iff, isZero_iff_forall, fun same h as bs =>
    ⟨h.equalBy_eq as bs, h.isZeroBy_eq as⟩⟩
  have hl : a.toList.length = b.toList.length := a.length_toList.trans b.length_toList.symm
  exact ⟨borrow?_eq hl, borrow_eq hl, lessThan_iff a b, bigEndian_lt_iff_lex hl⟩

/-- The flag of two octets without a branch, from the top bit of their difference and its
negative. -/
def maskedFlag (a b : UInt8) : UInt8 := (((a ^^^ b) ||| (0 - (a ^^^ b))) >>> 7) ^^^ 1

theorem comparesOctets_maskedFlag : ComparesOctets maskedFlag := by
  have htop : ∀ k : Fin 256, UInt8.ofNat k ≠ 0 →
      ((UInt8.ofNat k ||| (0 - UInt8.ofNat k)) >>> 7) ^^^ 1 = 0 := by decide +kernel
  intro a b
  unfold maskedFlag
  split
  · rename_i hab
    rw [hab, UInt8.xor_self]
    rfl
  · rename_i hab
    have h := htop ⟨(a ^^^ b).toNat, (a ^^^ b).toNat_lt⟩
    rw [UInt8.ofNat_toNat] at h
    exact h (mt UInt8.xor_eq_zero_iff.mp hab)

/-- A borrow that runs through 31 octets, strings that differ in length or in one octet, and flags
made without a branch. -/
theorem comparisons_exact_masked :
    ComparesOctets maskedFlag ∧
    borrow? (Octets.ofNat 32 (2 ^ 248 - 1)).toList (Octets.ofNat 32 (2 ^ 248)).toList = some 1 ∧
    lessThan (Octets.ofNat 32 (2 ^ 248 - 1)) (Octets.ofNat 32 (2 ^ 248)) = true ∧
    List.Lex (· < ·) (Octets.ofNat 32 (2 ^ 248 - 1)).toList (Octets.ofNat 32 (2 ^ 248)).toList ∧
    equal [0] [0, 0] = false ∧
    isZero [0, 0x80] = false ∧
    equalBy maskedFlag [7, 1] [7, 2] = 0 ∧
    isZeroBy maskedFlag [0, 0] = 1 := by
  obtain ⟨horder, hequal, hzero, hflags⟩ := comparisons_exact
  obtain ⟨hloop, hborrow, hless, hlex⟩ :=
    horder 32 (Octets.ofNat 32 (2 ^ 248 - 1)) (Octets.ofNat 32 (2 ^ 248))
  have hlt : (Octets.ofNat 32 (2 ^ 248 - 1)).value < (Octets.ofNat 32 (2 ^ 248)).value := by
    rw [Octets.value_ofNat, Octets.value_ofNat]
    decide
  refine ⟨comparesOctets_maskedFlag, ?_, hless.mpr hlt, hlex.mp hlt, ?_, ?_, ?_, ?_⟩
  · rw [hloop, hborrow, if_pos hlt]
  · rw [Bool.eq_false_iff, ne_eq, hequal]
    decide
  · rw [Bool.eq_false_iff, ne_eq, hzero]
    simp
  · rw [(hflags maskedFlag comparesOctets_maskedFlag [7, 1] [7, 2]).1]
    decide
  · rw [(hflags maskedFlag comparesOctets_maskedFlag [0, 0] [0, 0]).2]
    decide

end ConstantTime

end Secp256r1
