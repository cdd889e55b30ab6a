import Mathlib.Tactic.NthRewrite
import Secp256r1.Proofs.Words.Codec

/-!
# Digits and repeated operations

Powers and multiples are taken digit by digit, either from the most significant digit down, as
the library does, or from the least significant binary digit up, as the certificates of this
theory do.

* `foldl_digits` — a fold over digits stands for the integer that the digits stand for.
* `Octets.value_bits`, `Octets.value_nibbles` — the binary and the hexadecimal digits of an
  octet string stand for its integer.
* `binaryPower_spec` — repeated squaring computes powers, in any representation of them.
-/

set_option autoImplicit false

namespace Secp256r1

/-! ## From the most significant digit down -/

/-- The integer of digits in base `B`, most significant first, after a leading part `k`. -/
def ofDigits {δ : Type} (B : ℕ) (weight : δ → ℕ) (k : ℕ) (digits : List δ) : ℕ :=
  digits.foldl (fun k d => B * k + weight d) k

/-- **A fold over digits** whose step multiplies by the base and adds the digit stands for the
integer. -/
theorem foldl_digits {α δ : Type} {B : ℕ} {weight : δ → ℕ} {step : α → δ → α}
    {stands : α → ℕ → Prop} (digits : List δ) {a : α} {k : ℕ}
    (hstep : ∀ d ∈ digits, ∀ a k, stands a k → stands (step a d) (B * k + weight d))
    (h : stands a k) : stands (digits.foldl step a) (ofDigits B weight k digits) := by
  induction digits generalizing a k with
  | nil => exact h
  | cons d ds ih =>
    obtain ⟨hd, hds⟩ := List.forall_mem_cons.mp hstep
    exact ih hds (hd a k h)

/-- Octets cut into digits stand for the same integer if each octet does. -/
theorem ofDigits_flatMap {δ : Type} {B : ℕ} {weight : δ → ℕ} {cut : UInt8 → List δ}
    (hcut : ∀ b k, ofDigits B weight k (cut b) = UInt8.size * k + b.toNat)
    (bs : List UInt8) (k : ℕ) : ofDigits B weight k (bs.flatMap cut) =
      bs.foldl (fun v b => UInt8.size * v + b.toNat) k := by
  induction bs generalizing k with
  | nil => rfl
  | cons b bs ih =>
    rw [List.flatMap_cons, ofDigits, List.foldl_append, List.foldl_cons, ← hcut b k]
    exact ih _

namespace Octets

variable {n : ℕ}

theorem ofDigits_octetBits (b : UInt8) (k : ℕ) :
    ofDigits 2 Bool.toNat k (octetBits b) = UInt8.size * k + b.toNat := by
  have hb := b.toNat_lt
  have hbit (i : UInt8) (hi : i.toNat < 8) :
      ((b >>> i) &&& 1 == 1).toNat = b.toNat / 2 ^ i.toNat % 2 := by
    have hand : ((b >>> i) &&& 1).toNat = b.toNat / 2 ^ i.toNat % 2 := by
      simp [Nat.shiftRight_eq_div_pow, Nat.mod_eq_of_lt hi]
    rw [Bool.beq_eq_decide_eq, ← hand]
    rcases Nat.mod_two_eq_zero_or_one (b.toNat / 2 ^ i.toNat) with h | h
    · rw [h] at hand
      have h0 : (b >>> i) &&& 1 = 0 := UInt8.toNat_inj.mp hand
      rw [h0]; rfl
    · rw [h] at hand
      have h1 : (b >>> i) &&& 1 = 1 := UInt8.toNat_inj.mp hand
      rw [h1]; rfl
  simp only [octetBits, List.map_cons, List.map_nil, ofDigits, List.foldl_cons, List.foldl_nil]
  rw [hbit 7 (by decide), hbit 6 (by decide), hbit 5 (by decide), hbit 4 (by decide),
    hbit 3 (by decide), hbit 2 (by decide), hbit 1 (by decide), hbit 0 (by decide)]
  simp only [UInt8.size, UInt8.reduceToNat, Nat.reducePow, Nat.div_one]
  -- four bits at a time
  have hhigh : 8 * (b.toNat / 128 % 2) + 4 * (b.toNat / 64 % 2) + 2 * (b.toNat / 32 % 2) +
      b.toNat / 16 % 2 = b.toNat / 16 := by omega
  have hlow : 8 * (b.toNat / 8 % 2) + 4 * (b.toNat / 4 % 2) + 2 * (b.toNat / 2 % 2) +
      b.toNat % 2 = b.toNat % 16 := by omega
  have hsplit := Nat.div_add_mod b.toNat 16
  linarith

theorem toNat_octetNibbles (b : UInt8) :
    (b >>> 4).toNat = b.toNat / 16 ∧ (b &&& 0x0F).toNat = b.toNat % 16 := by
  constructor
  · simp [Nat.shiftRight_eq_div_pow]
  · rw [UInt8.toNat_and]
    exact Nat.and_two_pow_sub_one_eq_mod _ 4

theorem ofDigits_octetNibbles (b : UInt8) (k : ℕ) :
    ofDigits 16 UInt8.toNat k (octetNibbles b) = UInt8.size * k + b.toNat := by
  obtain ⟨hhigh, hlow⟩ := toNat_octetNibbles b
  simp only [octetNibbles, ofDigits, List.foldl_cons, List.foldl_nil, hhigh, hlow, UInt8.size]
  omega

theorem value_bits (o : Octets n) : ofDigits 2 Bool.toNat 0 o.bits = o.value :=
  ofDigits_flatMap ofDigits_octetBits o.toList 0

theorem value_nibbles (o : Octets n) : ofDigits 16 UInt8.toNat 0 o.nibbles = o.value :=
  ofDigits_flatMap ofDigits_octetNibbles o.toList 0

theorem nibbles_lt (o : Octets n) : ∀ d ∈ o.nibbles, d.toNat < 16 := by
  intro d hd
  obtain ⟨b, -, hd⟩ := List.mem_flatMap.mp hd
  obtain ⟨hhigh, hlow⟩ := toNat_octetNibbles b
  have hb := b.toNat_lt
  simp only [octetNibbles, List.mem_cons, List.not_mem_nil, or_false] at hd
  rcases hd with rfl | rfl <;> omega

end Octets

/-! ## From the least significant digit up -/

/-- `acc * a ^ n` by repeated squaring, for exponents of at most `fuel` binary digits. -/
def binaryPower {α : Type} (mul : α → α → α) : ℕ → α → α → ℕ → α
  | 0, acc, _, _ => acc
  | fuel + 1, acc, a, n =>
    binaryPower mul fuel (if n % 2 = 1 then mul acc a else acc) (mul a a) (n / 2)

/-- **Repeated squaring adds exponents**, wherever a product does. -/
theorem binaryPower_spec {α : Type} {mul : α → α → α} {stands : α → ℕ → Prop}
    (hmul : ∀ a c k l, stands a k → stands c l → stands (mul a c) (k + l))
    (fuel : ℕ) {acc a : α} {k l n : ℕ} (hn : n < 2 ^ fuel) (hacc : stands acc k)
    (ha : stands a l) : stands (binaryPower mul fuel acc a n) (k + n * l) := by
  induction fuel generalizing acc a k l n with
  | zero =>
    have h0 : n = 0 := by simpa using hn
    rw [h0, zero_mul, add_zero]
    exact hacc
  | succ fuel ih =>
    have hhalf : n / 2 < 2 ^ fuel := by rw [pow_succ] at hn; omega
    have hacc' : stands (if n % 2 = 1 then mul acc a else acc) (k + n % 2 * l) := by
      split
      · rename_i h
        rw [h, one_mul]
        exact hmul _ _ _ _ hacc ha
      · rename_i h
        rw [show n % 2 = 0 by omega, zero_mul, add_zero]
        exact hacc
    have hsplit : k + n * l = k + n % 2 * l + n / 2 * (l + l) := by
      nth_rewrite 1 [← Nat.mod_add_div n 2]
      ring
    unfold binaryPower
    rw [hsplit]
    exact ih hhalf hacc' (hmul _ _ _ _ ha ha)

end Secp256r1
