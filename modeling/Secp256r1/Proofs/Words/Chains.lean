import Mathlib.Tactic.Linarith
import Mathlib.Tactic.Ring
import Secp256r1.Words

/-!
# Carry chains compute sums and differences

Words stand for the integer `Words.value`; this file says what the chains, the masks and the
zero tests do to it.

* `addChain_spec`, `subChain_spec` — one invariant per chain: the words and the flag that come
  out stand for the exact sum or difference of what goes in.
* `Words.add_spec`, `Words.sub_spec`, `Words.borrow_sub` — the same for words of one width;
  `Words.carry_eq_zero_or_one`, `Words.borrow_eq_zero_or_one` for the flags alone.
* `Words.value_lowered` — subtracting `m` when the borrow or a carry says so leaves the residue
  modulo `m`, for any integer below `2m`.
* `Words.value_addMod`, `Words.value_subMod` — sums and differences modulo `m`.
* `Words.value_injective` — the integer determines the words.
-/

set_option autoImplicit false

namespace Secp256r1

/-! ## Little-endian integers -/

theorem littleEndian_lt (ws : List UInt32) : littleEndian ws < UInt32.size ^ ws.length := by
  induction ws with
  | nil => simp [littleEndian]
  | cons w ws ih =>
    have hw : w.toNat + 1 ≤ UInt32.size := w.toNat_lt
    have hm : UInt32.size * (littleEndian ws + 1) ≤ UInt32.size * UInt32.size ^ ws.length :=
      Nat.mul_le_mul_left _ ih
    rw [List.length_cons, pow_succ, littleEndian]
    linarith

theorem littleEndian_append (us ws : List UInt32) :
    littleEndian (us ++ ws) = littleEndian us + UInt32.size ^ us.length * littleEndian ws := by
  induction us with
  | nil => simp [littleEndian]
  | cons u us ih =>
    rw [List.cons_append, littleEndian, ih, littleEndian, List.length_cons, pow_succ]
    ring

theorem littleEndian_replicate_zero (n : ℕ) : littleEndian (List.replicate n 0) = 0 := by
  induction n with
  | zero => rfl
  | succ n ih => simp [List.replicate_succ, littleEndian, ih]

theorem littleEndian_injective : ∀ {us ws : List UInt32}, us.length = ws.length →
    littleEndian us = littleEndian ws → us = ws
  | [], [], _, _ => rfl
  | u :: us, w :: ws, hl, hv => by
    have hu := u.toNat_lt
    have hw := w.toNat_lt
    simp only [littleEndian, UInt32.size] at hv
    have hhead : u.toNat = w.toNat := by omega
    have htail : littleEndian us = littleEndian ws := by omega
    rw [UInt32.toNat_inj.mp hhead, littleEndian_injective (by simpa using hl) htail]

theorem littleEndian_digitsOfNat (n v : ℕ) :
    littleEndian (digitsOfNat n v) = v % UInt32.size ^ n := by
  induction n generalizing v with
  | zero => simp [digitsOfNat, littleEndian, Nat.mod_one]
  | succ n ih =>
    have hw : (UInt32.ofNat v).toNat = v % UInt32.size := UInt32.toNat_ofNat'
    unfold digitsOfNat
    rw [littleEndian, ih, hw, pow_succ', Nat.mod_mul]

/-! ## The chains -/

/-- **One row of the addition.**  The words and the carry out stand for the sum. -/
theorem addChain_spec : ∀ (as bs : List UInt32) (c : UInt64), as.length = bs.length →
    c.toNat ≤ 1 →
    littleEndian (addChain as bs c).1 + UInt32.size ^ as.length * (addChain as bs c).2.toNat =
      littleEndian as + littleEndian bs + c.toNat ∧ (addChain as bs c).2.toNat ≤ 1
  | [], [], c, _, hc => by simpa [addChain, littleEndian] using hc
  | a :: as, b :: bs, c, hl, hc => by
    have ha := a.toNat_lt
    have hb := b.toNat_lt
    obtain ⟨s, hs⟩ : ∃ s, s = a.toUInt64 + b.toUInt64 + c := ⟨_, rfl⟩
    -- two words and a carry stay far below the wrap of 64 bits
    have hsum : s.toNat = a.toNat + b.toNat + c.toNat := by
      rw [hs]; simp only [UInt64.toNat_add, UInt32.toNat_toUInt64]; omega
    have hcarry : (s >>> 32).toNat = s.toNat / UInt32.size := by
      simp [Nat.shiftRight_eq_div_pow, UInt32.size]
    have hlow : s.toUInt32.toNat = s.toNat % UInt32.size := by simp [UInt32.size]
    obtain ⟨ih, hout⟩ := addChain_spec as bs (s >>> 32) (by simpa using hl)
      (by rw [hcarry, hsum]; simp only [UInt32.size]; omega)
    refine ⟨?_, by simpa [addChain, ← hs] using hout⟩
    simp only [addChain, ← hs, littleEndian, List.length_cons, pow_succ, hlow]
    calc s.toNat % UInt32.size + UInt32.size * littleEndian (addChain as bs (s >>> 32)).1 +
          UInt32.size ^ as.length * UInt32.size * (addChain as bs (s >>> 32)).2.toNat
        = s.toNat % UInt32.size + UInt32.size * (littleEndian (addChain as bs (s >>> 32)).1 +
          UInt32.size ^ as.length * (addChain as bs (s >>> 32)).2.toNat) := by ring
      _ = (s.toNat % UInt32.size + UInt32.size * (s.toNat / UInt32.size)) +
          UInt32.size * littleEndian as + UInt32.size * littleEndian bs := by
        rw [ih, hcarry]; ring
      _ = _ := by rw [Nat.mod_add_div, hsum]; ring

/-- **One row of the subtraction.**  The words stand for the difference, the borrow out for
what it lacks. -/
theorem subChain_spec : ∀ (as bs : List UInt32) (c : UInt64), as.length = bs.length →
    c.toNat ≤ 1 →
    littleEndian (subChain as bs c).1 + littleEndian bs + c.toNat =
      littleEndian as + UInt32.size ^ as.length * (subChain as bs c).2.toNat ∧
      (subChain as bs c).2.toNat ≤ 1
  | [], [], c, _, hc => by simpa [subChain, littleEndian] using hc
  | a :: as, b :: bs, c, hl, hc => by
    have ha := a.toNat_lt
    have hb := b.toNat_lt
    obtain ⟨d, hd⟩ : ∃ d, d = a.toUInt64 - b.toUInt64 - c := ⟨_, rfl⟩
    have hdiff : d.toNat = (2 ^ 64 + a.toNat - b.toNat - c.toNat) % 2 ^ 64 := by
      rw [hd]; simp only [UInt64.toNat_sub, UInt32.toNat_toUInt64]; omega
    -- a wrapped difference has its top bit set, any other is below `2 ^ 32`
    have hborrow : ((d >>> 63) &&& 1).toNat = if a.toNat < b.toNat + c.toNat then 1 else 0 := by
      simp only [UInt64.toNat_and, UInt64.toNat_shiftRight, UInt64.toNat_one, Nat.and_one_is_mod,
        Nat.shiftRight_eq_div_pow, hdiff]
      split <;> simp <;> omega
    have hlow : d.toUInt32.toNat + b.toNat + c.toNat =
        a.toNat + UInt32.size * ((d >>> 63) &&& 1).toNat := by
      rw [hborrow]
      simp only [UInt64.toNat_toUInt32, hdiff, UInt32.size]
      split <;> omega
    obtain ⟨ih, hout⟩ := subChain_spec as bs ((d >>> 63) &&& 1) (by simpa using hl)
      (by rw [hborrow]; split <;> omega)
    refine ⟨?_, by simpa [subChain, ← hd] using hout⟩
    simp only [subChain, ← hd, littleEndian, List.length_cons, pow_succ]
    obtain ⟨k, hk⟩ : ∃ k, k = UInt32.size ^ as.length * (subChain as bs ((d >>> 63) &&& 1)).2.toNat :=
      ⟨_, rfl⟩
    rw [← hk] at ih
    rw [mul_right_comm, ← hk]
    simp only [UInt32.size] at hlow ⊢
    omega

namespace Words

variable {n : ℕ}

/-! ## Words of one width -/

theorem value_lt (w : Words n) : w.value < UInt32.size ^ n := by
  have h := littleEndian_lt w.toList
  rwa [w.length_toList] at h

/-- **The integer determines the words.** -/
theorem value_injective {v w : Words n} (h : v.value = w.value) : v = w :=
  Words.ext (littleEndian_injective (v.length_toList.trans w.length_toList.symm) h)

theorem value_zero : (zero n).value = 0 := littleEndian_replicate_zero n

theorem value_ofNat (v : ℕ) : (ofNat n v).value = v % UInt32.size ^ n :=
  littleEndian_digitsOfNat n v

/-- The sum and its carry, which is at most 1. -/
theorem add_spec (a b : Words n) :
    (a.add b).1.value + UInt32.size ^ n * (a.add b).2.toNat = a.value + b.value ∧
      (a.add b).2.toNat ≤ 1 := by
  obtain ⟨h, hc⟩ := addChain_spec a.toList b.toList 0
    (a.length_toList.trans b.length_toList.symm) (by simp)
  have hflag : (a.add b).2.toNat = (addChain a.toList b.toList 0).2.toNat := by
    simp only [add, UInt64.toNat_toUInt32]; omega
  rw [a.length_toList, UInt64.toNat_zero, add_zero] at h
  rw [hflag]
  exact ⟨h, hc⟩

/-- The difference and its borrow, which is at most 1. -/
theorem sub_spec (a b : Words n) :
    (a.sub b).1.value + b.value = a.value + UInt32.size ^ n * (a.sub b).2.toNat ∧
      (a.sub b).2.toNat ≤ 1 := by
  obtain ⟨h, hc⟩ := subChain_spec a.toList b.toList 0
    (a.length_toList.trans b.length_toList.symm) (by simp)
  have hflag : (a.sub b).2.toNat = (subChain a.toList b.toList 0).2.toNat := by
    simp only [sub, UInt64.toNat_toUInt32]; omega
  rw [a.length_toList, UInt64.toNat_zero, add_zero] at h
  rw [hflag]
  exact ⟨h, hc⟩

/-- The carry tells an overflow. -/
theorem carry_add (a b : Words n) :
    (a.add b).2 = if a.value + b.value < UInt32.size ^ n then 0 else 1 := by
  obtain ⟨h, hflag⟩ := add_spec a b
  have hlt := (a.add b).1.value_lt
  apply UInt32.toNat_inj.mp
  rcases (show (a.add b).2.toNat = 0 ∨ (a.add b).2.toNat = 1 by omega) with h0 | h1
  · rw [h0, mul_zero] at h
    rw [h0, if_pos (by omega)]; rfl
  · rw [h1, mul_one] at h
    rw [h1, if_neg (by omega)]; rfl

/-- **The borrow decides the order.** -/
theorem borrow_sub (a b : Words n) : (a.sub b).2 = if a.value < b.value then 1 else 0 := by
  obtain ⟨h, hflag⟩ := sub_spec a b
  have hlt := (a.sub b).1.value_lt
  have hb := b.value_lt
  apply UInt32.toNat_inj.mp
  rcases (show (a.sub b).2.toNat = 0 ∨ (a.sub b).2.toNat = 1 by omega) with h0 | h1
  · rw [h0, mul_zero] at h
    rw [h0, if_neg (by omega)]; rfl
  · rw [h1, mul_one] at h
    rw [h1, if_pos (by omega)]; rfl

theorem carry_eq_zero_or_one (a b : Words n) : (a.add b).2 = 0 ∨ (a.add b).2 = 1 := by
  rw [carry_add]
  split <;> simp

theorem borrow_eq_zero_or_one (a b : Words n) : (a.sub b).2 = 0 ∨ (a.sub b).2 = 1 := by
  rw [borrow_sub]
  split <;> simp

/-! ## Residues by one subtraction -/

/-- **One subtraction reduces an integer below `2m`**, whose part beyond the words is `top`. -/
theorem value_lowered (w m : Words n) {top : UInt32} (htop : top = 0 ∨ top = 1)
    (h : w.value + UInt32.size ^ n * top.toNat < 2 * m.value) :
    (select ((top ||| ((w.sub m).2 ^^^ 1)) &&& 1) w (w.sub m).1).value =
      (w.value + UInt32.size ^ n * top.toNat) % m.value := by
  have hsub := (sub_spec w m).1
  have hm := m.value_lt
  have hw := w.value_lt
  rw [borrow_sub] at hsub ⊢
  rcases htop with rfl | rfl
  · by_cases hlt : w.value < m.value
    · rw [if_pos hlt, show ((0 : UInt32) ||| (1 ^^^ 1)) &&& 1 = 0 by decide, select_zero]
      simp [Nat.mod_eq_of_lt hlt]
    · rw [if_neg hlt] at hsub
      simp only [UInt32.toNat_zero, mul_zero, add_zero] at h hsub ⊢
      rw [if_neg hlt, show ((0 : UInt32) ||| (0 ^^^ 1)) &&& 1 = 1 by decide, select_one,
        Nat.mod_eq_sub_mod (by omega), Nat.mod_eq_of_lt (by omega)]
      omega
  · -- the words alone lie below `m`, so the borrow is the missing top word
    simp only [UInt32.toNat_one, mul_one] at h ⊢
    have hlt : w.value < m.value := by omega
    rw [if_pos hlt] at hsub ⊢
    simp only [UInt32.toNat_one, mul_one] at hsub
    rw [show ((1 : UInt32) ||| (1 ^^^ 1)) &&& 1 = 1 by decide, select_one,
      Nat.mod_eq_sub_mod (by omega), Nat.mod_eq_of_lt (by omega)]
    omega

theorem value_lowered_zero (w m : Words n) (h : w.value < 2 * m.value) :
    (select ((w.sub m).2 ^^^ 1) w (w.sub m).1).value = w.value % m.value := by
  have hl := value_lowered w m (.inl (rfl : (0 : UInt32) = 0)) (by simpa using h)
  have hflag : ((0 : UInt32) ||| ((w.sub m).2 ^^^ 1)) &&& 1 = (w.sub m).2 ^^^ 1 := by
    rcases borrow_eq_zero_or_one w m with hb | hb <;> rw [hb] <;> decide
  rw [hflag] at hl
  simpa using hl

theorem value_addMod (a b m : Words n) (ha : a.value < m.value) (hb : b.value < m.value) :
    (select (((a.add b).2 ||| (((a.add b).1.sub m).2 ^^^ 1)) &&& 1) (a.add b).1
      ((a.add b).1.sub m).1).value = (a.value + b.value) % m.value := by
  have hadd := (add_spec a b).1
  rw [value_lowered _ m (carry_eq_zero_or_one a b) (by omega), hadd]

theorem value_subMod (a b m : Words n) (ha : a.value < m.value) (hb : b.value < m.value) :
    (select (a.sub b).2 (a.sub b).1 ((a.sub b).1.add m).1).value =
      (a.value + (m.value - b.value)) % m.value := by
  have hsub := (sub_spec a b).1
  have hadd := (add_spec (a.sub b).1 m).1
  have hcarry := carry_add (a.sub b).1 m
  have hlt := (a.sub b).1.value_lt
  have hm := m.value_lt
  rw [borrow_sub] at hsub ⊢
  by_cases h : a.value < b.value
  · rw [if_pos h] at hsub ⊢
    simp only [UInt32.toNat_one, mul_one] at hsub
    rw [if_neg (by omega)] at hcarry
    rw [hcarry, UInt32.toNat_one, mul_one] at hadd
    rw [select_one, Nat.mod_eq_of_lt (by omega)]
    omega
  · rw [if_neg h] at hsub ⊢
    simp only [UInt32.toNat_zero, mul_zero, add_zero] at hsub
    rw [select_zero, Nat.mod_eq_sub_mod (by omega), Nat.mod_eq_of_lt (by omega)]
    omega

end Words

end Secp256r1
