import Mathlib.Tactic.LinearCombination
import Secp256r1.Proofs.Primality
import Secp256r1.Proofs.Words.Chains
import Secp256r1.Scalar.Montgomery

/-!
# Montgomery products are exact

With `R` one more than the largest integer of eight words, a row turns the running integer `t`
into `(t + a·b + m·n) / R₁`, where `R₁` is the radix of one word and `m` is chosen to make the
division exact.

* `addMultiple_spec` — the chain of one row, with its carry.
* `step_spec` — the value equation of one row; `accumulate_spec` — of all rows.
* `step_lt`, `foldl_step_lt` — the running integer stays below `2n`.
* `product_spec` — the product is reduced, and `R` times it is `a·b` modulo `n`, provided `a·b`
  lies below `R·n`; one reduced operand is enough.
* `InDomain.product`, `InDomain.power` — products and powers in the Montgomery domain.
-/

set_option autoImplicit false

namespace Secp256r1

namespace Montgomery

theorem value_order : order.value = groupOrder := by decide +kernel

/-! ## One row -/

/-- A word, a product of words and a carry just fit into 64 bits. -/
theorem row_fits (t a x : UInt32) {c : UInt64} (hc : c.toNat < UInt32.size) :
    t.toNat + a.toNat * x.toNat + c.toNat < UInt64.size := by
  have ht : t.toNat ≤ UInt32.size - 1 := Nat.le_pred_of_lt t.toNat_lt
  have hprod : a.toNat * x.toNat ≤ (UInt32.size - 1) * (UInt32.size - 1) :=
    Nat.mul_le_mul (Nat.le_pred_of_lt a.toNat_lt) (Nat.le_pred_of_lt x.toNat_lt)
  simp only [UInt32.size, UInt64.size] at *
  omega

theorem carry_lt (v : UInt64) : (v >>> 32).toNat < UInt32.size := by
  have hv := v.toNat_lt
  simp only [UInt64.toNat_shiftRight, Nat.shiftRight_eq_div_pow, UInt32.size]
  simp
  omega

/-- **The chain of a row**: words and carry stand for the multiple added to what was there. -/
theorem addMultiple_spec (x : UInt32) : ∀ (as ts : List UInt32) (c : UInt64),
    as.length = ts.length → c.toNat < UInt32.size →
    littleEndian (addMultiple x as ts c).1 +
        UInt32.size ^ as.length * (addMultiple x as ts c).2.toNat =
      littleEndian ts + littleEndian as * x.toNat + c.toNat ∧
      (addMultiple x as ts c).2.toNat < UInt32.size
  | [], [], c, _, hc => by simpa [addMultiple, littleEndian] using hc
  | a :: as, t :: ts, c, hl, hc => by
    have hfits := row_fits t a x hc
    obtain ⟨v, hv⟩ : ∃ v, v = t.toUInt64 + a.toUInt64 * x.toUInt64 + c := ⟨_, rfl⟩
    have hsum : v.toNat = t.toNat + a.toNat * x.toNat + c.toNat := by
      rw [hv]
      simp only [UInt64.toNat_add, UInt64.toNat_mul, UInt32.toNat_toUInt64]
      simp only [UInt64.size] at hfits
      omega
    have hcarry : (v >>> 32).toNat = v.toNat / UInt32.size := by
      simp [Nat.shiftRight_eq_div_pow, UInt32.size]
    have hlow : v.toUInt32.toNat = v.toNat % UInt32.size := by simp [UInt32.size]
    obtain ⟨ih, hout⟩ := addMultiple_spec x as ts (v >>> 32) (by simpa using hl) (carry_lt v)
    refine ⟨?_, by simpa [addMultiple, ← hv] using hout⟩
    simp only [addMultiple, ← hv, littleEndian, List.length_cons, pow_succ, hlow]
    calc v.toNat % UInt32.size + UInt32.size * littleEndian (addMultiple x as ts (v >>> 32)).1 +
          UInt32.size ^ as.length * UInt32.size * (addMultiple x as ts (v >>> 32)).2.toNat
        = v.toNat % UInt32.size + UInt32.size * (littleEndian (addMultiple x as ts (v >>> 32)).1 +
          UInt32.size ^ as.length * (addMultiple x as ts (v >>> 32)).2.toNat) := by ring
      _ = (v.toNat % UInt32.size + UInt32.size * (v.toNat / UInt32.size)) +
          UInt32.size * littleEndian ts + UInt32.size * littleEndian as * x.toNat := by
        rw [ih, hcarry]; ring
      _ = _ := by rw [Nat.mod_add_div, hsum]; ring

theorem littleEndian_eq_headD_add (ws : List UInt32) :
    littleEndian ws = (ws.headD 0).toNat + UInt32.size * littleEndian ws.tail := by
  cases ws <;> rfl

theorem headD_mod (ws : List UInt32) : littleEndian ws % UInt32.size = (ws.headD 0).toNat := by
  rw [littleEndian_eq_headD_add, Nat.add_mul_mod_self_left]
  exact Nat.mod_eq_of_lt (UInt32.toNat_lt _)

/-- The multiple `m` of the order makes the lowest word vanish. -/
theorem dvd_add_order_mul (v : ℕ) {h m : UInt32} (hh : h.toNat = v % UInt32.size)
    (hm : m = h * orderInverse) : UInt32.size ∣ v + groupOrder * m.toNat := by
  have hinv : UInt32.size ∣ 1 + groupOrder * orderInverse.toNat := by decide +kernel
  have hmod : m.toNat ≡ v * orderInverse.toNat [MOD UInt32.size] := by
    rw [hm, UInt32.toNat_mul, hh]
    exact (Nat.mod_modEq _ _).trans ((Nat.mod_modEq _ _).mul_right _)
  have hsum : v + groupOrder * m.toNat ≡ v * (1 + groupOrder * orderInverse.toNat)
      [MOD UInt32.size] := by
    rw [show v * (1 + groupOrder * orderInverse.toNat) =
      v + groupOrder * (v * orderInverse.toNat) by ring]
    exact (hmod.mul_left _).add_left _
  exact (Nat.modEq_zero_iff_dvd).mp (hsum.trans
    (Nat.modEq_zero_iff_dvd.mpr (hinv.mul_left v)))

/-- A row with the multiple of the order that clears its lowest word. -/
theorem clear_spec {row : List UInt32} (hl : row.length = 8) {m : UInt32}
    (hm : m = row.headD 0 * orderInverse) :
    UInt32.size * littleEndian (addMultiple m order.toList row 0).1.tail +
        UInt32.size ^ 8 * (addMultiple m order.toList row 0).2.toNat =
      littleEndian row + m.toNat * groupOrder ∧
      (addMultiple m order.toList row 0).2.toNat < UInt32.size := by
  obtain ⟨h, hcarry⟩ := addMultiple_spec m order.toList row 0 (order.length_toList.trans hl.symm)
    (by decide)
  have horder : littleEndian order.toList = groupOrder := value_order
  rw [order.length_toList, UInt64.toNat_zero, add_zero, horder] at h
  obtain ⟨cleared, hcleared⟩ : ∃ cleared, cleared = addMultiple m order.toList row 0 := ⟨_, rfl⟩
  rw [← hcleared] at h hcarry ⊢
  have hhead : (cleared.1.headD 0).toNat = 0 := by
    have hdvd := dvd_add_order_mul (littleEndian row) (headD_mod row).symm hm
    have hhigh : UInt32.size ∣ UInt32.size ^ 8 * cleared.2.toNat :=
      (dvd_pow_self _ (by decide)).mul_right _
    rw [← h] at hdvd
    rw [← headD_mod]
    exact Nat.mod_eq_zero_of_dvd ((Nat.dvd_add_iff_left hhigh).mpr hdvd)
  have htail := littleEndian_eq_headD_add cleared.1
  rw [hhead, zero_add] at htail
  rw [← htail, h, mul_comm m.toNat]
  exact ⟨rfl, hcarry⟩

/-- The words above the eight of a row: what two carries leave of the top. -/
theorem tops_spec (top : UInt32) {c d t u : UInt64} (hc : c.toNat < UInt32.size)
    (hd : d.toNat < UInt32.size) (ht : t = top.toUInt64 + c) (hu : u = t.toUInt32.toUInt64 + d) :
    u.toUInt32.toNat + UInt32.size * ((t >>> 32).toUInt32 + (u >>> 32).toUInt32).toNat =
      top.toNat + c.toNat + d.toNat := by
  have htop := top.toNat_lt
  have htn : t.toNat = top.toNat + c.toNat := by
    rw [ht, UInt64.toNat_add, UInt32.toNat_toUInt64]
    simp only [UInt32.size] at hc
    omega
  have hun : u.toNat = t.toNat % UInt32.size + d.toNat := by
    rw [hu, UInt64.toNat_add, UInt32.toNat_toUInt64, UInt64.toNat_toUInt32]
    simp only [UInt32.size] at hd ⊢
    omega
  have hshift (v : UInt64) : (v >>> 32).toUInt32.toNat = v.toNat / UInt32.size % 2 ^ 32 := by
    simp [Nat.shiftRight_eq_div_pow, UInt32.size]
  rw [UInt32.toNat_add, hshift, hshift, UInt64.toNat_toUInt32]
  simp only [UInt32.size] at *
  omega

/-- **The value equation of one row**: the running integer gains the row and the multiple of the
order, and loses the word that vanished. -/
theorem step_spec (a : Words 8) (t : Running) (b : UInt32) : ∃ m < UInt32.size,
    UInt32.size * (step a t b).value = t.value + a.value * b.toNat + m * groupOrder := by
  obtain ⟨row, hrow⟩ : ∃ row, row = addMultiple b a.toList t.low.toList 0 := ⟨_, rfl⟩
  obtain ⟨m, hm⟩ : ∃ m, m = row.1.headD 0 * orderInverse := ⟨_, rfl⟩
  obtain ⟨cleared, hcleared⟩ : ∃ cleared, cleared = addMultiple m order.toList row.1 0 := ⟨_, rfl⟩
  have hrowlen : row.1.length = 8 := by
    rw [hrow, length_addMultiple, a.length_toList, t.low.length_toList, min_self]
  have hclearedlen : cleared.1.length = 8 := by
    rw [hcleared, length_addMultiple, hrowlen, order.length_toList, min_self]
  obtain ⟨hr, hrc⟩ := addMultiple_spec b a.toList t.low.toList 0
    (a.length_toList.trans t.low.length_toList.symm) (by decide)
  obtain ⟨hc, hcc⟩ := clear_spec hrowlen hm
  rw [← hrow] at hr hrc
  rw [← hcleared] at hc hcc
  rw [a.length_toList, UInt64.toNat_zero, add_zero] at hr
  obtain ⟨rowTop, hrowTop⟩ : ∃ rowTop, rowTop = t.top.toUInt64 + row.2 := ⟨_, rfl⟩
  obtain ⟨clearedTop, hclearedTop⟩ :
    ∃ clearedTop, clearedTop = rowTop.toUInt32.toUInt64 + cleared.2 := ⟨_, rfl⟩
  have htops := tops_spec t.top hrc hcc hrowTop hclearedTop
  have hnew : (step a t b).value = littleEndian ((cleared.1.tail ++ [clearedTop.toUInt32]) ++
      [(rowTop >>> 32).toUInt32 + (clearedTop >>> 32).toUInt32]) := by
    simp only [Running.value, step, ← hrow, ← hm, ← hcleared, ← hrowTop, ← hclearedTop]
  refine ⟨m.toNat, m.toNat_lt, ?_⟩
  rw [hnew, Running.value, littleEndian_append, littleEndian_append, littleEndian_append,
    List.length_append, List.length_tail, hclearedlen, t.low.length_toList]
  simp only [littleEndian, List.length_singleton, mul_zero, add_zero, Words.value]
  zify at hr hc htops ⊢
  linear_combination hr + hc + (UInt32.size : ℤ) ^ 8 * htops

/-! ## All rows -/

/-- **A row keeps the running integer below `2n`** if the other operand is reduced. -/
theorem step_lt {a : Words 8} {t : Running} (ha : a.value < groupOrder)
    (ht : t.value < 2 * groupOrder) (b : UInt32) : (step a t b).value < 2 * groupOrder := by
  obtain ⟨m, hm, hstep⟩ := step_spec a t b
  have hb : b.toNat ≤ UInt32.size - 1 := Nat.le_pred_of_lt b.toNat_lt
  have hrow : a.value * b.toNat ≤ groupOrder * (UInt32.size - 1) := Nat.mul_le_mul ha.le hb
  have hmultiple : m * groupOrder ≤ (UInt32.size - 1) * groupOrder :=
    Nat.mul_le_mul_right _ (Nat.le_pred_of_lt hm)
  simp only [UInt32.size] at hstep hrow hmultiple
  omega

theorem foldl_step_lt {a : Words 8} (ha : a.value < groupOrder) (bs : List UInt32) {t : Running}
    (ht : t.value < 2 * groupOrder) : (bs.foldl (step a) t).value < 2 * groupOrder := by
  induction bs generalizing t with
  | nil => exact ht
  | cons b bs ih => exact ih (step_lt ha ht b)

theorem foldl_step_spec (a : Words 8) (bs : List UInt32) (t : Running) :
    ∃ k < UInt32.size ^ bs.length, UInt32.size ^ bs.length * (bs.foldl (step a) t).value =
      t.value + a.value * littleEndian bs + k * groupOrder := by
  induction bs generalizing t with
  | nil => exact ⟨0, by simp, by simp [littleEndian]⟩
  | cons b bs ih =>
    obtain ⟨m, hm, hstep⟩ := step_spec a t b
    obtain ⟨k, hk, hrest⟩ := ih (step a t b)
    refine ⟨m + UInt32.size * k, ?_, ?_⟩
    · have hle : UInt32.size * (k + 1) ≤ UInt32.size * UInt32.size ^ bs.length :=
        Nat.mul_le_mul_left _ hk
      rw [List.length_cons, pow_succ']
      linarith
    · rw [List.length_cons, List.foldl_cons, littleEndian, pow_succ', mul_assoc, hrest]
      linear_combination hstep

/-- One more than the largest integer of eight words. -/
def modulusR : ℕ := UInt32.size ^ 8

/-- **The value equation of all rows.** -/
theorem accumulate_spec (a b : Words 8) : ∃ k < modulusR,
    modulusR * (accumulate a b).value = a.value * b.value + k * groupOrder := by
  obtain ⟨k, hk, h⟩ := foldl_step_spec a b.toList .zero
  rw [b.length_toList, show Running.zero.value = 0 by decide, zero_add] at h
  rw [b.length_toList] at hk
  exact ⟨k, hk, h⟩

/-- **The product is reduced, and `R` times it is the product of the operands**, whenever these
multiply to less than `R·n`. -/
theorem product_spec {a b : Words 8} (h : a.value * b.value < modulusR * groupOrder) :
    (product a b).value < groupOrder ∧
      ((product a b).value : ZMod groupOrder) * modulusR = a.value * b.value := by
  obtain ⟨k, hk, hacc⟩ := accumulate_spec a b
  obtain ⟨t, ht⟩ : ∃ t, t = accumulate a b := ⟨_, rfl⟩
  rw [← ht] at hacc
  have hlt : t.value < 2 * groupOrder := by
    have hkn : k * groupOrder ≤ modulusR * groupOrder := Nat.mul_le_mul_right _ hk.le
    apply lt_of_mul_lt_mul_left (a := modulusR) _ (Nat.zero_le _)
    linarith
  have hsplit : t.value = t.low.value + UInt32.size ^ 8 * t.top.toNat := by
    unfold Running.value
    rw [littleEndian_append, t.low.length_toList]
    simp [littleEndian, Words.value]
  have htop : t.top = 0 ∨ t.top = 1 := by
    have hbound : t.top.toNat < 2 := by
      rw [groupOrder_eq] at hlt
      simp only [UInt32.size] at hsplit
      omega
    have hcases : t.top.toNat = 0 ∨ t.top.toNat = 1 := by omega
    exact hcases.imp (fun h => UInt32.toNat_inj.mp h) fun h => UInt32.toNat_inj.mp h
  have hvalue : (product a b).value = t.value % groupOrder := by
    have hlow := Words.value_lowered t.low order htop (by rw [value_order, ← hsplit]; exact hlt)
    rw [← hsplit, value_order] at hlow
    rw [ht] at hlow ⊢
    exact hlow
  rw [hvalue]
  refine ⟨Nat.mod_lt _ prime_groupOrder.pos, ?_⟩
  have hcast := congrArg (Nat.cast (R := ZMod groupOrder)) hacc
  push_cast at hcast
  rw [ZMod.natCast_self, mul_zero, add_zero] at hcast
  rw [ZMod.natCast_mod, mul_comm, hcast]

theorem mul_lt_of_lt {a b : Words 8} (h : a.value < groupOrder ∨ b.value < groupOrder) :
    a.value * b.value < modulusR * groupOrder := by
  rcases h with h | h
  · rw [mul_comm]
    exact Nat.mul_lt_mul'' b.value_lt h
  · exact Nat.mul_lt_mul'' a.value_lt h

/-! ## The Montgomery domain -/

/-- The words hold the reduced image `x·R` of a residue. -/
def InDomain (w : Words 8) (x : ZMod groupOrder) : Prop :=
  w.value < groupOrder ∧ (w.value : ZMod groupOrder) = x * modulusR

theorem modulusR_ne_zero : (modulusR : ZMod groupOrder) ≠ 0 := by
  rw [Ne, ZMod.natCast_eq_zero_iff]
  decide +kernel

variable {v w : Words 8} {x y : ZMod groupOrder}

theorem inDomain_radix : InDomain radix 1 := by
  refine ⟨by decide +kernel, ?_⟩
  rw [one_mul, ZMod.natCast_eq_natCast_iff]
  decide +kernel

/-- Any integer of eight words enters the domain by a product with `R²`. -/
theorem inDomain_product_radixSquared (w : Words 8) :
    InDomain (product w radixSquared) w.value := by
  obtain ⟨hlt, h⟩ := product_spec (mul_lt_of_lt (a := w) (b := radixSquared)
    (.inr (by decide +kernel)))
  have hsq : (radixSquared.value : ZMod groupOrder) = modulusR * modulusR := by
    rw [← Nat.cast_mul, ZMod.natCast_eq_natCast_iff]
    decide +kernel
  refine ⟨hlt, mul_right_cancel₀ modulusR_ne_zero ?_⟩
  rw [h, hsq, mul_assoc]

theorem InDomain.product (hv : InDomain v x) (hw : InDomain w y) :
    InDomain (Montgomery.product v w) (x * y) := by
  obtain ⟨hlt, h⟩ := product_spec (mul_lt_of_lt (.inr hw.1))
  refine ⟨hlt, mul_right_cancel₀ modulusR_ne_zero ?_⟩
  rw [h, hv.2, hw.2]
  ring

/-- **Binary digits raise to a power inside the domain.** -/
theorem InDomain.power {n : ℕ} (hw : InDomain w x) (o : Octets n) :
    InDomain (Montgomery.power w o.bits) (x ^ o.value) := by
  have hstep : ∀ bit ∈ o.bits, ∀ (r : Words 8) (k : ℕ), InDomain r (x ^ k) →
      InDomain (if bit then Montgomery.product (Montgomery.product r r) w
        else Montgomery.product r r) (x ^ (2 * k + bit.toNat)) := by
    intro bit _ r k hr
    rw [pow_add, pow_mul', pow_two]
    cases bit with
    | false => simpa using hr.product hr
    | true => simpa using (hr.product hr).product hw
  have hone : InDomain radix (x ^ 0) := by
    rw [pow_zero]
    exact inDomain_radix
  rw [← o.value_bits]
  exact foldl_digits o.bits hstep hone

/-- A product with 1 leaves the domain. -/
theorem InDomain.value_product_one (hw : InDomain w x) {u : Words 8} (hu : u.value = 1) :
    (Montgomery.product w u).value = x.val := by
  obtain ⟨hlt, h⟩ := product_spec (mul_lt_of_lt (b := u) (.inl hw.1))
  rw [hw.2, hu, Nat.cast_one, mul_one] at h
  rw [← mul_right_cancel₀ modulusR_ne_zero h, ZMod.val_cast_of_lt hlt]

end Montgomery

end Secp256r1
