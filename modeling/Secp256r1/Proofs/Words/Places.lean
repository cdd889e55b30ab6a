import Mathlib.Algebra.BigOperators.Fin
import Secp256r1.Field
import Secp256r1.Proofs.Words.Codec

/-!
# Octets and words, place by place

The codec takes octets four at a time and turns the order of the words round.  Here the same
conversions are spelled out by places: word `i` of eight, counted from the least significant one,
stands in the four octets from place `4 * (7 - i)` on.

* `Words.value_eq_sum` — the integer of words as the sum of their weights.
* `Words.word_ofOctets`, `Words.ofPlaces` — decoding by places.
* `Words.writeFrom`, `Words.toPlaces` — encoding by writing each word at its place, with
  `Words.toList_writeFrom` for the string after any part of the loop.
* `Words.codec_exact` — **all decoders and encoders agree, keep the integer and undo each other.**
-/

set_option autoImplicit false

namespace Secp256r1

open Finset

/-- The octet at a place, counted from the most significant one. -/
def Octets.get {n : ℕ} (o : Octets n) (k : Fin n) : UInt8 :=
  o.toList.get (k.cast o.length_toList.symm)

/-- The word at a place, counted from the least significant one. -/
def Words.get {n : ℕ} (w : Words n) (i : Fin n) : UInt32 :=
  w.toList.get (i.cast w.length_toList.symm)

/-! ## Weights -/

theorem littleEndian_eq_sum (ws : List UInt32) :
    littleEndian ws = ∑ i : Fin ws.length, (ws.get i).toNat * 2 ^ (32 * i.val) := by
  induction ws with
  | nil => rfl
  | cons w ws ih =>
    have hweight (i : Fin ws.length) : (ws.get i).toNat * 2 ^ (32 * (i.val + 1)) =
        UInt32.size * ((ws.get i).toNat * 2 ^ (32 * i.val)) := by
      rw [mul_add, pow_add, show UInt32.size = 2 ^ (32 * 1) by decide]
      ring
    rw [littleEndian, ih, mul_sum]
    change _ = ∑ i : Fin (ws.length + 1), _
    rw [Fin.sum_univ_succ, ← sum_congr rfl fun i _ => hweight i]
    simp

theorem Words.value_eq_sum {n : ℕ} (w : Words n) :
    w.value = ∑ i : Fin n, (w.get i).toNat * 2 ^ (32 * i.val) := by
  obtain ⟨ws, rfl⟩ := w
  exact littleEndian_eq_sum ws

/-! ## Decoding -/

theorem wordOfOctets?_eq_none : ∀ {bs : List UInt8}, bs.length < 4 → wordOfOctets? bs = none
  | [], _ | [_], _ | [_, _], _ | [_, _, _], _ => rfl
  | _ :: _ :: _ :: _ :: _, h => by simp at h; omega

theorem wordOfOctets?_take : ∀ bs : List UInt8, wordOfOctets? (bs.take 4) = wordOfOctets? bs
  | [] | [_] | [_, _] | [_, _, _] | _ :: _ :: _ :: _ :: _ => rfl

/-- Octets taken four at a time give the word at a place to the four octets that stand there. -/
theorem getElem?_wordsOfOctets (bs : List UInt8) (j : ℕ) :
    (wordsOfOctets bs)[j]? = wordOfOctets? (bs.drop (4 * j)) := by
  fun_induction wordsOfOctets bs generalizing j with
  | case1 b3 b2 b1 b0 rest ih =>
    cases j with
    | zero => rfl
    | succ j => exact ih j
  | case2 bs hshort =>
    have hlength := length_wordsOfOctets bs
    rw [wordsOfOctets.eq_2 bs hshort, List.length_nil] at hlength
    rw [List.getElem?_nil, wordOfOctets?_eq_none (by rw [List.length_drop]; omega)]

namespace Octets

variable (o : Octets 32)

/-- The word put together from the four octets that stand from a place on. -/
def wordFrom (k : ℕ) (h : k + 4 ≤ 32) : UInt32 :=
  wordOfOctets (o.get ⟨k, by omega⟩) (o.get ⟨k + 1, by omega⟩) (o.get ⟨k + 2, by omega⟩)
    (o.get ⟨k + 3, by omega⟩)

theorem wordOfOctets?_drop (k : ℕ) (h : k + 4 ≤ 32) :
    wordOfOctets? (o.toList.drop k) = some (o.wordFrom k h) := by
  have hlength := o.length_toList
  rw [List.drop_eq_getElem_cons (by omega), List.drop_eq_getElem_cons (by omega),
    List.drop_eq_getElem_cons (by omega), List.drop_eq_getElem_cons (by omega)]
  rfl

end Octets

namespace Words

/-- Eight words, each from its place. -/
def ofPlaces (o : Octets 32) : Words 8 :=
  ⟨List.ofFn fun i : Fin 8 => o.wordFrom (4 * (7 - i)) (by omega), List.length_ofFn⟩

theorem getElem?_eq_some_get {n : ℕ} (w : Words n) (i : Fin n) :
    w.toList[i.val]? = some (w.get i) :=
  List.getElem?_eq_getElem _

theorem get_ofOctets (o : Octets 32) (i : Fin 8) :
    (ofOctets o).get i = o.wordFrom (4 * (7 - i)) (by omega) := by
  have hlength : (wordsOfOctets o.toList).length = 8 := by
    rw [length_wordsOfOctets, o.length_toList]
  apply Option.some_inj.mp
  rw [← getElem?_eq_some_get, ← o.wordOfOctets?_drop, ← getElem?_wordsOfOctets]
  unfold ofOctets
  rw [List.getElem?_reverse (by omega), hlength]

/-- **Decoding by places is decoding four octets at a time.** -/
theorem ofPlaces_eq (o : Octets 32) : ofPlaces o = ofOctets o := by
  apply Words.ext
  apply List.ext_get ((ofPlaces o).length_toList.trans (ofOctets o).length_toList.symm)
  intro i hi _
  have hi' : i < 8 := (ofPlaces o).length_toList ▸ hi
  exact (List.get_ofFn _ _).trans (get_ofOctets o ⟨i, hi'⟩).symm

/-- A constant that is decoded by its integer has the same words. -/
theorem ofNat_value_eq (o : Octets 32) : ofNat 8 o.value = ofOctets o := by
  apply value_injective
  rw [value_ofNat, value_ofOctets]
  exact Nat.mod_eq_of_lt o.value_lt

end Words

/-! ## Encoding -/

namespace Octets

variable {n : ℕ}

/-- What is written leaves alone what stands before it. -/
theorem take_write_of_le (o : Octets n) {m i : ℕ} {bs : List UInt8} (h : i + bs.length ≤ n)
    (hm : m ≤ i) : (o.write i bs h).toList.take m = o.toList.take m := by
  have hlength : m ≤ (o.toList.take i).length := by
    rw [List.length_take, o.length_toList]; omega
  change (o.toList.take i ++ bs ++ o.toList.drop (i + bs.length)).take m = _
  rw [List.append_assoc, List.take_append_of_le_length hlength, List.take_take, Nat.min_eq_left hm]

/-- What is written stands at its place, before what stood behind it. -/
theorem drop_write (o : Octets n) {i : ℕ} {bs : List UInt8} (h : i + bs.length ≤ n) :
    (o.write i bs h).toList.drop i = bs ++ o.toList.drop (i + bs.length) := by
  have hlength : (o.toList.take i).length = i := by
    rw [List.length_take, o.length_toList]; omega
  change (o.toList.take i ++ bs ++ o.toList.drop (i + bs.length)).drop i = _
  rw [List.append_assoc, List.drop_left' hlength]

end Octets

namespace Words

/-- Words written over a string at their places, from word `i` on. -/
def writeFrom (out : Octets 32) (i : ℕ) : (ws : List UInt32) → i + ws.length ≤ 8 → Octets 32
  | [], _ => out
  | w :: ws, h =>
    writeFrom (out.write (4 * (7 - i)) (octetsOfWord w)
      (by simp only [octetsOfWord, List.length_cons, List.length_nil] at h ⊢; omega)) (i + 1) ws
      (by simp only [List.length_cons] at h; omega)

/-- Eight words, each written at its place. -/
def toPlaces (w : Words 8) : Octets 32 :=
  writeFrom (.zero 32) 0 w.toList (by rw [w.length_toList])

/-- **What the loop leaves behind.**  The words stand one before the other up to the place of the
first one, and around them the string is as it was. -/
theorem toList_writeFrom (out : Octets 32) (i : ℕ) (ws : List UInt32) (h : i + ws.length ≤ 8) :
    (writeFrom out i ws h).toList = out.toList.take (4 * (8 - i - ws.length)) ++
      ws.reverse.flatMap octetsOfWord ++ out.toList.drop (4 * (8 - i)) := by
  induction ws generalizing out i with
  | nil => simp [writeFrom]
  | cons w ws ih =>
    rw [List.length_cons] at h
    have hwidth : (octetsOfWord w).length = 4 := rfl
    have hplace : 4 * (7 - i) + (octetsOfWord w).length ≤ 32 := by omega
    have htake := out.take_write_of_le hplace (m := 4 * (8 - (i + 1) - ws.length)) (by omega)
    have hdrop := out.drop_write hplace
    rw [hwidth, show 4 * (7 - i) + 4 = 4 * (8 - i) by omega] at hdrop
    rw [writeFrom, ih, htake, show 8 - (i + 1) = 7 - i by omega, hdrop, List.length_cons,
      List.reverse_cons, List.flatMap_append, List.flatMap_singleton,
      show 8 - i - (ws.length + 1) = 7 - i - ws.length by omega]
    simp only [List.append_assoc]

/-- **Encoding by places is encoding the words from the last one down.** -/
theorem toPlaces_eq (w : Words 8) : toPlaces w = w.toOctets := by
  apply Octets.ext
  unfold toPlaces
  rw [toList_writeFrom, w.length_toList]
  simp [toOctets, Octets.length_toList]

/-- **The codec is faithful.**

* The words of 32 octets, each weighed by its place, add up to the big-endian integer.  Word `i` is
  the word of the four octets from place `4 * (7 - i)` on, and both other decoders, by places and by
  the integer, give the same words.
* Writing each word at its place gives the same octets as writing the words from the last one down.
* Either direction undoes the other, for any octets and any words. -/
theorem codec_exact :
    (∀ o : Octets 32,
      ∑ i : Fin 8, ((ofOctets o).get i).toNat * 2 ^ (32 * i.val) = o.value ∧
      (∀ i : Fin 8, wordOfOctets? ((o.toList.drop (4 * (7 - i))).take 4) =
        some ((ofOctets o).get i)) ∧
      ofPlaces o = ofOctets o ∧
      (FieldElement.ofConstant o).limbs = ofOctets o ∧
      (ofOctets o).toOctets = o) ∧
    ∀ w : Words 8, toPlaces w = w.toOctets ∧ ofOctets w.toOctets = w := by
  refine ⟨fun o => ⟨?_, fun i => ?_, ofPlaces_eq o, ofNat_value_eq o, toOctets_ofOctets o⟩,
    fun w => ⟨toPlaces_eq w, ofOctets_toOctets w⟩⟩
  · rw [← value_eq_sum, value_ofOctets]
  · rw [wordOfOctets?_take, o.wordOfOctets?_drop _ (by omega), get_ofOctets]

/-- The first octet is the top of the last word, and the last octet the bottom of the first. -/
example : ofOctets ⟨0x80 :: List.replicate 30 0 ++ [1], rfl⟩ =
    ⟨[1, 0, 0, 0, 0, 0, 0, 0x80000000], rfl⟩ := by decide

end Words

end Secp256r1
