import Mathlib.Data.List.Induction
import Secp256r1.Words.Codec
import Secp256r1.Proofs.Words.Chains

/-!
# Octets and words stand for the same integers

* `bigEndian_append`, `bigEndian_lt`, `bigEndian_injective` — octet strings as integers in
  base 256; strings of one width are determined by their integer.
* `bigEndian_lt_iff_lex` — the integers of one width are ordered as the strings are.
* `Octets.ofNat` — the octets of an integer (`value_ofNat`, `ofNat_value`).
* `Words.value_ofOctets`, `Words.value_toOctets` — the codec keeps the integer, so that
  `Words.toOctets_ofOctets` and `Words.ofOctets_toOctets`: each direction undoes the other.
-/

set_option autoImplicit false

namespace Secp256r1

/-! ## Big-endian integers -/

theorem bigEndian_append (as : List UInt8) :
    ∀ bs : List UInt8, bigEndian (as ++ bs) = UInt8.size ^ bs.length * bigEndian as + bigEndian bs := by
  intro bs
  induction bs using List.reverseRecOn with
  | nil => simp
  | append_singleton bs b ih =>
    rw [← List.append_assoc, bigEndian_concat, ih, bigEndian_concat, List.length_append,
      List.length_singleton, pow_succ]
    ring

theorem bigEndian_cons (b : UInt8) (bs : List UInt8) :
    bigEndian (b :: bs) = UInt8.size ^ bs.length * b.toNat + bigEndian bs := by
  have h := bigEndian_append [b] bs
  rwa [List.singleton_append, show bigEndian [b] = b.toNat by simp [bigEndian]] at h

theorem bigEndian_lt (bs : List UInt8) : bigEndian bs < UInt8.size ^ bs.length := by
  induction bs with
  | nil => simp
  | cons b bs ih =>
    have hb : b.toNat + 1 ≤ UInt8.size := b.toNat_lt
    have hm : UInt8.size ^ bs.length * (b.toNat + 1) ≤ UInt8.size ^ bs.length * UInt8.size :=
      Nat.mul_le_mul_left _ hb
    rw [bigEndian_cons, List.length_cons, pow_succ]
    linarith

/-- The first octets decide the order, and the rests where they agree. -/
theorem bigEndian_cons_lt_cons_iff {a b : UInt8} {as bs : List UInt8} (h : as.length = bs.length) :
    bigEndian (a :: as) < bigEndian (b :: bs) ↔ a < b ∨ a = b ∧ bigEndian as < bigEndian bs := by
  have has := bigEndian_lt as
  have hbs := bigEndian_lt bs
  rw [h] at has
  rw [bigEndian_cons, bigEndian_cons, h, UInt8.lt_iff_toNat_lt, ← UInt8.toNat_inj]
  -- the weight of the first octets outweighs the rests
  rcases lt_trichotomy a.toNat b.toNat with hab | hab | hab
  · have hw : UInt8.size ^ bs.length * (a.toNat + 1) ≤ UInt8.size ^ bs.length * b.toNat :=
      Nat.mul_le_mul_left _ hab
    exact iff_of_true (by linarith) (.inl hab)
  · rw [hab]
    simp
  · have hw : UInt8.size ^ bs.length * (b.toNat + 1) ≤ UInt8.size ^ bs.length * a.toNat :=
      Nat.mul_le_mul_left _ hab
    exact iff_of_false (by linarith) (by omega)

/-- **The order of the integers is the lexicographic order** of octet strings of one width. -/
theorem bigEndian_lt_iff_lex : ∀ {as bs : List UInt8}, as.length = bs.length →
    (bigEndian as < bigEndian bs ↔ List.Lex (· < ·) as bs)
  | [], [], _ => by simp
  | a :: as, b :: bs, h => by
    have hl : as.length = bs.length := by simpa using h
    rw [bigEndian_cons_lt_cons_iff hl, bigEndian_lt_iff_lex hl, List.cons_lex_cons_iff]

theorem bigEndian_replicate_zero (n : ℕ) : bigEndian (List.replicate n 0) = 0 := by
  induction n with
  | zero => rfl
  | succ n ih => simp [List.replicate_succ, bigEndian_cons, ih]

theorem bigEndian_injective : ∀ {as bs : List UInt8}, as.length = bs.length →
    bigEndian as = bigEndian bs → as = bs
  | [], [], _, _ => rfl
  | a :: as, b :: bs, hl, hv => by
    have hl' : as.length = bs.length := by simpa using hl
    -- neither string comes first, so that neither do the first octets nor the rests
    have hab := mt (bigEndian_cons_lt_cons_iff hl').mpr hv.not_lt
    have hba := mt (bigEndian_cons_lt_cons_iff hl'.symm).mpr hv.not_gt
    rw [UInt8.lt_iff_toNat_lt, ← UInt8.toNat_inj] at hab hba
    have hhead : a.toNat = b.toNat := by omega
    have htail : bigEndian as = bigEndian bs := by omega
    rw [UInt8.toNat_inj.mp hhead, bigEndian_injective hl' htail]

namespace Octets

variable {m n : ℕ}

theorem value_lt (o : Octets n) : o.value < UInt8.size ^ n := by
  have h := bigEndian_lt o.toList
  rwa [o.length_toList] at h

/-- **The integer determines the octets.** -/
theorem value_injective {a b : Octets n} (h : a.value = b.value) : a = b :=
  Octets.ext (bigEndian_injective (a.length_toList.trans b.length_toList.symm) h)

theorem value_inj {a b : Octets n} : a.value = b.value ↔ a = b :=
  ⟨value_injective, fun h => h ▸ rfl⟩

theorem value_zero : (zero n).value = 0 := bigEndian_replicate_zero n

theorem ofList?_eq_some_iff {bs : List UInt8} {o : Octets n} :
    ofList? n bs = some o ↔ o.toList = bs := by
  unfold ofList?
  split
  · rw [Option.some.injEq, Octets.ext_iff, eq_comm]
  · rename_i h
    refine iff_of_false (by simp) fun ho => h ?_
    rw [← ho, o.length_toList]

/-- A list of the wrong length is not written by any octets. -/
theorem toList_ne_of_ofList?_eq_none {bs : List UInt8} (h : ofList? n bs = none) (o : Octets n) :
    o.toList ≠ bs := by
  intro ho
  rw [ofList?_eq_some_iff.mpr ho] at h
  cases h

theorem append_inj {a c : Octets m} {b d : Octets n} : a.append b = c.append d ↔ a = c ∧ b = d := by
  constructor
  · intro h
    have hsplit := congrArg split h
    rwa [split_append, split_append, Prod.mk.injEq] at hsplit
  · intro h
    rw [h.1, h.2]

theorem exists_eq_append (o : Octets (m + n)) : ∃ (a : Octets m) (b : Octets n), o = a.append b :=
  ⟨o.split.1, o.split.2, Octets.ext (List.take_append_drop m o.toList).symm⟩

/-- The integer as `n` octets, most significant first; faithful below `256 ^ n`. -/
def ofNat : (n : ℕ) → ℕ → Octets n
  | 0, _ => ⟨[], rfl⟩
  | n + 1, v => (ofNat n (v / UInt8.size)).append (replicate 1 (UInt8.ofNat v))

theorem value_ofNat (n v : ℕ) : (ofNat n v).value = v % UInt8.size ^ n := by
  induction n generalizing v with
  | zero => rw [pow_zero, Nat.mod_one]; rfl
  | succ n ih =>
    have hlast : (ofNat (n + 1) v).value =
        UInt8.size * (ofNat n (v / UInt8.size)).value + (UInt8.ofNat v).toNat :=
      bigEndian_concat _ _
    have hoctet : (UInt8.ofNat v).toNat = v % UInt8.size := UInt8.toNat_ofNat'
    rw [hlast, ih, hoctet, pow_succ', Nat.mod_mul, add_comm]

/-- **Octets are written by their integer.** -/
theorem ofNat_value (o : Octets n) : ofNat n o.value = o :=
  value_injective ((value_ofNat n _).trans (Nat.mod_eq_of_lt o.value_lt))

end Octets

/-! ## One word -/

theorem toNat_wordOfOctets (b3 b2 b1 b0 : UInt8) :
    (wordOfOctets b3 b2 b1 b0).toNat = bigEndian [b3, b2, b1, b0] := by
  have h3 := b3.toNat_lt
  have h2 := b2.toNat_lt
  have h1 := b1.toNat_lt
  have h0 := b0.toNat_lt
  -- shifted octets do not overlap, so that "or" adds
  have hor (i a b : ℕ) (h : b < 2 ^ i) : 2 ^ i * a ||| b = 2 ^ i * a + b :=
    (Nat.two_pow_add_eq_or_of_lt h a).symm
  have h32 : (b3.toNat <<< 24 % 2 ^ 32) ||| (b2.toNat <<< 16 % 2 ^ 32) =
      2 ^ 16 * (2 ^ 8 * b3.toNat + b2.toNat) := by
    rw [Nat.shiftLeft_eq, Nat.shiftLeft_eq, Nat.mod_eq_of_lt (by omega), Nat.mod_eq_of_lt (by omega),
      mul_comm b3.toNat, hor _ _ _ (by omega)]
    ring
  have h321 : 2 ^ 16 * (2 ^ 8 * b3.toNat + b2.toNat) ||| (b1.toNat <<< 8 % 2 ^ 32) =
      2 ^ 8 * (2 ^ 8 * (2 ^ 8 * b3.toNat + b2.toNat) + b1.toNat) := by
    rw [Nat.shiftLeft_eq, Nat.mod_eq_of_lt (by omega), hor _ _ _ (by omega)]
    ring
  have hw : (wordOfOctets b3 b2 b1 b0).toNat =
      (((b3.toNat <<< 24 % 2 ^ 32) ||| (b2.toNat <<< 16 % 2 ^ 32)) ||| (b1.toNat <<< 8 % 2 ^ 32)) |||
        b0.toNat := by
    simp [wordOfOctets]
  rw [hw, h32, h321, hor _ _ _ (by omega)]
  simp only [bigEndian, List.foldl, UInt8.size]
  omega

theorem bigEndian_octetsOfWord (w : UInt32) : bigEndian (octetsOfWord w) = w.toNat := by
  have hw := w.toNat_lt
  simp only [octetsOfWord, bigEndian, List.foldl, UInt8.size, UInt32.toNat_toUInt8,
    UInt32.toNat_shiftRight, Nat.shiftRight_eq_div_pow]
  simp
  omega

/-! ## All words -/

theorem littleEndian_wordsOfOctets : ∀ {bs : List UInt8}, bs.length % 4 = 0 →
    littleEndian (wordsOfOctets bs).reverse = bigEndian bs
  | [], _ => rfl
  | [_], h | [_, _], h | [_, _, _], h => by simp at h
  | b3 :: b2 :: b1 :: b0 :: rest, h => by
    have hr : rest.length % 4 = 0 := by simp only [List.length_cons] at h; omega
    have hpow : UInt32.size ^ (rest.length / 4) = UInt8.size ^ rest.length := by
      rw [show UInt32.size = UInt8.size ^ 4 by decide, ← pow_mul]
      congr 1
      omega
    have hsplit := bigEndian_append [b3, b2, b1, b0] rest
    unfold wordsOfOctets
    rw [List.reverse_cons, littleEndian_append, littleEndian_wordsOfOctets hr,
      List.length_reverse, length_wordsOfOctets, hpow]
    simp only [List.cons_append, List.nil_append] at hsplit
    rw [hsplit, ← toNat_wordOfOctets]
    simp only [littleEndian, mul_zero, add_zero]
    ring

theorem bigEndian_flatMap_octetsOfWord (ws : List UInt32) :
    bigEndian (ws.reverse.flatMap octetsOfWord) = littleEndian ws := by
  induction ws with
  | nil => rfl
  | cons w ws ih =>
    have hsize : UInt8.size ^ (octetsOfWord w).length = UInt32.size := by
      simp [octetsOfWord, UInt8.size, UInt32.size]
    rw [List.reverse_cons, List.flatMap_append, List.flatMap_singleton, bigEndian_append, ih,
      bigEndian_octetsOfWord, hsize, littleEndian]
    ring

namespace Words

theorem value_ofOctets (o : Octets 32) : (ofOctets o).value = o.value :=
  littleEndian_wordsOfOctets (by rw [o.length_toList])

theorem value_toOctets (w : Words 8) : w.toOctets.value = w.value :=
  bigEndian_flatMap_octetsOfWord w.toList

@[simp] theorem ofOctets_toOctets (w : Words 8) : ofOctets w.toOctets = w :=
  value_injective ((value_ofOctets _).trans (value_toOctets w))

@[simp] theorem toOctets_ofOctets (o : Octets 32) : (ofOctets o).toOctets = o :=
  Octets.value_injective ((value_toOctets _).trans (value_ofOctets o))

end Words

end Secp256r1
