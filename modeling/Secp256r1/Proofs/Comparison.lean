import Secp256r1.ConstantTime
import Secp256r1.Proofs.Words.Codec

/-!
# Comparisons decide what they look at

One pass over all octets or words answers equality, vanishing and order.

* `foldl_or_eq_zero` — an accumulated "or" vanishes exactly if everything in it does.
* `Words.isZero_iff`, `Words.equal_iff`, `ConstantTime.isZero_iff`, `ConstantTime.equal_iff` —
  the zero test and the equality test of words and of octets.
* `ConstantTime.octetDifference_bounds` — a difference on the way stays within nine bits.
* `ConstantTime.borrow_eq`, `ConstantTime.lessThan_iff` — the signed borrow chain is the order
  of big-endian integers.
-/

set_option autoImplicit false

namespace Secp256r1

/-! ## Zero tests -/

theorem foldl_or_eq_zero {α : Type} [OrOp α] [OfNat α 0]
    (hor : ∀ a b : α, a ||| b = 0 ↔ a = 0 ∧ b = 0) (ws : List α) (v : α) :
    ws.foldl (· ||| ·) v = 0 ↔ v = 0 ∧ ∀ w ∈ ws, w = 0 := by
  induction ws generalizing v with
  | nil => simp
  | cons w ws ih =>
    rw [List.foldl_cons, ih, hor]
    simp [and_assoc]

theorem foldl_or_zero_eq_zero {α : Type} [OrOp α] [OfNat α 0]
    (hor : ∀ a b : α, a ||| b = 0 ↔ a = 0 ∧ b = 0) (ws : List α) :
    ws.foldl (· ||| ·) 0 = 0 ↔ ∀ w ∈ ws, w = 0 := by
  rw [foldl_or_eq_zero hor]
  exact and_iff_right rfl

theorem forall_zipWith_eq_zero {α : Type} [OfNat α 0] {f : α → α → α}
    (hf : ∀ a b : α, f a b = 0 ↔ a = b) :
    ∀ {as bs : List α}, as.length = bs.length →
      ((∀ w ∈ List.zipWith f as bs, w = 0) ↔ as = bs)
  | [], [], _ => by simp
  | a :: as, b :: bs, h => by
    rw [List.zipWith_cons_cons, List.forall_mem_cons, hf,
      forall_zipWith_eq_zero hf (by simpa using h), List.cons.injEq]

namespace Words

variable {n : ℕ}

theorem isZero_iff (w : Words n) : w.isZero = true ↔ w.value = 0 := by
  unfold isZero
  rw [beq_iff_eq, foldl_or_zero_eq_zero fun _ _ => UInt32.or_eq_zero_iff]
  constructor
  · intro h
    unfold value
    rw [List.eq_replicate_of_mem h, littleEndian_replicate_zero]
  · intro h v hv
    have hw : w = zero n := value_injective (h.trans value_zero.symm)
    exact List.eq_of_mem_replicate (by rwa [hw] at hv)

theorem equal_iff (a b : Words n) : a.equal b = true ↔ a = b := by
  unfold equal
  rw [beq_iff_eq, foldl_or_zero_eq_zero fun _ _ => UInt32.or_eq_zero_iff,
    forall_zipWith_eq_zero (fun _ _ => UInt32.xor_eq_zero_iff)
      (a.length_toList.trans b.length_toList.symm), Words.ext_iff]

end Words

namespace ConstantTime

theorem isZero_iff_forall (as : List UInt8) : isZero as = true ↔ ∀ b ∈ as, b = 0 := by
  unfold isZero
  rw [beq_iff_eq, foldl_or_zero_eq_zero fun _ _ => UInt8.or_eq_zero_iff]

theorem isZero_iff (as : List UInt8) : isZero as = true ↔ bigEndian as = 0 := by
  rw [isZero_iff_forall]
  constructor
  · intro h
    rw [List.eq_replicate_of_mem h, bigEndian_replicate_zero]
  · intro h b hb
    have has : as = List.replicate as.length 0 :=
      bigEndian_injective (by simp) (h.trans (bigEndian_replicate_zero _).symm)
    exact List.eq_of_mem_replicate (by rwa [has] at hb)

/-- **Equality of octet strings of any lengths.** -/
theorem equal_iff (as bs : List UInt8) : equal as bs = true ↔ as = bs := by
  unfold equal
  split
  · rename_i h
    rw [beq_iff_eq, foldl_or_zero_eq_zero fun _ _ => UInt8.or_eq_zero_iff,
      forall_zipWith_eq_zero (fun _ _ => UInt8.xor_eq_zero_iff) h]
  · rename_i h
    exact iff_of_false (by simp) (fun h' => h (congrArg List.length h'))

/-! ## Order -/

theorem toInt_octet (a : UInt8) : a.toUInt16.toInt16.toInt = a.toNat := by
  have ha := a.toNat_lt
  rw [← Int16.toInt_toBitVec, UInt16.toBitVec_toInt16, BitVec.toInt_eq_toNat_of_lt]
  · simp
  · simp; omega

/-- The difference of two octets is exact. -/
theorem toInt_sub_octet (a b : UInt8) :
    (a.toUInt16.toInt16 - b.toUInt16.toInt16).toInt = a.toNat - b.toNat := by
  have ha := a.toNat_lt
  have hb := b.toNat_lt
  rw [Int16.toInt_sub, toInt_octet, toInt_octet]
  exact Int.bmod_eq_of_le (by omega) (by omega)

theorem toInt_flag {c : Int16} (hc : c = 0 ∨ c = 1) : 0 ≤ c.toInt ∧ c.toInt ≤ 1 := by
  rcases hc with rfl | rfl <;> decide

/-- The difference of two octets and a borrow is exact. -/
theorem toInt_octetDifference (a b : UInt8) {c : Int16} (hc : c = 0 ∨ c = 1) :
    (octetDifference a b c).toInt = a.toNat - b.toNat - c.toInt := by
  have ha := a.toNat_lt
  have hb := b.toNat_lt
  have hflag := toInt_flag hc
  unfold octetDifference
  rw [Int16.toInt_sub, toInt_sub_octet]
  exact Int.bmod_eq_of_le (by omega) (by omega)

theorem octetDifference_bounds (a b : UInt8) {c : Int16} (hc : c = 0 ∨ c = 1) :
    -256 ≤ (octetDifference a b c).toInt ∧ (octetDifference a b c).toInt ≤ 255 := by
  have ha := a.toNat_lt
  have hb := b.toNat_lt
  have hflag := toInt_flag hc
  rw [toInt_octetDifference a b hc]
  omega

/-- The bit above an octet is the sign of such a difference. -/
theorem shiftRight_and_one {d : Int16} (h1 : -256 ≤ d.toInt) (h2 : d.toInt < 256) :
    (d >>> 8) &&& 1 = if d.toInt < 0 then 1 else 0 := by
  have hs : (d >>> 8).toInt = d.toInt / 256 := by
    rw [← Int16.toInt_toBitVec, Int16.toBitVec_shiftRight]
    simp [BitVec.toInt_sshiftRight, Int.shiftRight_eq_div_pow]
  split
  · have hneg : d >>> 8 = -1 := by
      apply Int16.toInt_inj.mp
      rw [hs]; simp; omega
    rw [hneg]; decide
  · have hzero : d >>> 8 = 0 := by
      apply Int16.toInt_inj.mp
      rw [hs]; simp; omega
    rw [hzero]; decide

/-- **The borrow chain is the order of the integers.** -/
theorem borrow_eq : ∀ {as bs : List UInt8}, as.length = bs.length →
    borrow as bs = if bigEndian as < bigEndian bs then 1 else 0
  | [], [], _ => rfl
  | a :: as, b :: bs, h => by
    have hl : as.length = bs.length := by simpa using h
    have hrest : borrow as bs = 0 ∨ borrow as bs = 1 := by
      rw [borrow_eq hl]; split <;> simp
    have hr : (borrow as bs).toInt = if bigEndian as < bigEndian bs then 1 else 0 := by
      rw [borrow_eq hl]; split <;> rfl
    obtain ⟨hlow, hhigh⟩ := octetDifference_bounds a b hrest
    unfold borrow
    rw [shiftRight_and_one hlow (by omega), toInt_octetDifference a b hrest, hr]
    -- the difference is negative exactly if the first octets, or else the rests, say so
    refine if_congr ?_ rfl rfl
    rw [bigEndian_cons_lt_cons_iff hl, UInt8.lt_iff_toNat_lt, ← UInt8.toNat_inj]
    split <;> omega

theorem borrow_eq_zero_or_one {as bs : List UInt8} (h : as.length = bs.length) :
    borrow as bs = 0 ∨ borrow as bs = 1 := by
  rw [borrow_eq h]
  split <;> simp

theorem lessThan_iff {n : ℕ} (a b : Octets n) : lessThan a b = true ↔ a.value < b.value := by
  unfold lessThan
  rw [borrow_eq (a.length_toList.trans b.length_toList.symm)]
  split
  · rename_i h; exact iff_of_true rfl h
  · rename_i h; exact iff_of_false (by decide) h

end ConstantTime

end Secp256r1
