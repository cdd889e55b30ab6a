import Mathlib.Data.Nat.NthRoot.Defs
import Secp256r1.Proofs.Words.Codec
import Secp256r1.Sha256.Compression

/-!
# The standard hash

FIPS 180-4 describes the digest of a whole message: the message is padded to whole blocks, and a
chaining value runs through them.  Constants are the first bits of roots of primes, and the
schedule of a block is a recurrence over all its words.

* `Standard.padded` — the message, a one bit, zeros, and the number of bits.
* `Standard.compress` — one block; `compress_eq` — **the sliding window computes the schedule**.
* `Standard.chain`, `Standard.digest` — the chaining values of the blocks, and the digest.
* `initial_eq`, `roundConstants_eq` — the tables hold the bits of the roots.
-/

set_option autoImplicit false

namespace Secp256r1

namespace Sha256

namespace Standard

/-! ## Constants -/

/-- The first sixty-four primes. -/
def primes : List ℕ :=
  [2, 3, 5, 7, 11, 13, 17, 19, 23, 29, 31, 37, 41, 43, 47, 53, 59, 61, 67, 71, 73, 79, 83, 89, 97,
   101, 103, 107, 109, 113, 127, 131, 137, 139, 149, 151, 157, 163, 167, 173, 179, 181, 191, 193,
   197, 199, 211, 223, 227, 229, 233, 239, 241, 251, 257, 263, 269, 271, 277, 281, 283, 293, 307,
   311]

/-- The first 32 bits of the fractional part of a root of a number. -/
def rootBits (degree m : ℕ) : UInt32 := UInt32.ofNat (Nat.nthRoot degree (m * 2 ^ (32 * degree)))

/-- The initial chaining value, from the square roots of the first eight primes. -/
def initial : Chaining :=
  let word (i : ℕ) := (primes.map (rootBits 2)).getD i 0
  ⟨word 0, word 1, word 2, word 3, word 4, word 5, word 6, word 7⟩

/-- The constant of a round, from the cube root of a prime. -/
def constant (t : ℕ) : UInt32 := (primes.map (rootBits 3)).getD t 0

/-! ## The compression function -/

/-- A word rotated right by a number of bits. -/
def rotate (n : ℕ) (w : UInt32) : UInt32 := .ofBitVec (w.toBitVec.rotateRight n)

/-- The function `σ₀` of the schedule. -/
def sigma0 (w : UInt32) : UInt32 := rotate 7 w ^^^ rotate 18 w ^^^ (w >>> 3)

/-- The function `σ₁` of the schedule. -/
def sigma1 (w : UInt32) : UInt32 := rotate 17 w ^^^ rotate 19 w ^^^ (w >>> 10)

/-- The function `Σ₀` of a round. -/
def bigSigma0 (w : UInt32) : UInt32 := rotate 2 w ^^^ rotate 13 w ^^^ rotate 22 w

/-- The function `Σ₁` of a round. -/
def bigSigma1 (w : UInt32) : UInt32 := rotate 6 w ^^^ rotate 11 w ^^^ rotate 25 w

/-- Bits of the second word where the first has a one, of the third elsewhere. -/
def choice (x y z : UInt32) : UInt32 := (x &&& y) ^^^ (~~~x &&& z)

/-- Bits that at least two words have. -/
def majority (x y z : UInt32) : UInt32 := (x &&& y) ^^^ (x &&& z) ^^^ (y &&& z)

/-- A word of a block, most significant octet first. -/
def blockWord (block : List UInt8) (t : ℕ) : UInt32 :=
  UInt32.ofNat (bigEndian ((block.drop (4 * t)).take 4))

/-- A word of the schedule: the words of the block, then a recurrence. -/
def scheduleWord (block : List UInt8) (t : ℕ) : UInt32 :=
  if t < 16 then blockWord block t
  else sigma1 (scheduleWord block (t - 2)) + scheduleWord block (t - 7) +
    sigma0 (scheduleWord block (t - 15)) + scheduleWord block (t - 16)

/-- One round on eight working words, with a word of the schedule. -/
def round (x : Chaining) (constant word : UInt32) : Chaining :=
  let t1 := x.h + bigSigma1 x.e + choice x.e x.f x.g + constant + word
  let t2 := bigSigma0 x.a + majority x.a x.b x.c
  ⟨t1 + t2, x.a, x.b, x.c, x.d + t1, x.e, x.f, x.g⟩

/-- The chaining value after one block: sixty-four rounds, and sums. -/
def compress (x : Chaining) (block : List UInt8) : Chaining :=
  let y := (List.range 64).foldl (fun y t => round y (constant t) (scheduleWord block t)) x
  ⟨x.a + y.a, x.b + y.b, x.c + y.c, x.d + y.d, x.e + y.e, x.f + y.f, x.g + y.g, x.h + y.h⟩

/-! ## The digest of a message -/

/-- The number of zero octets in the padding, the least that leaves the last eight octets of a
block for the number of bits. -/
def zeroCount (length : ℕ) : ℕ := (119 - length % 64) % 64

/-- A message with a one bit and zeros behind it. -/
def marked (message : List UInt8) : List UInt8 :=
  message ++ 0x80 :: List.replicate (zeroCount message.length) 0

/-- A padded message. -/
def padded (message : List UInt8) : List UInt8 :=
  marked message ++ (Octets.ofNat 8 (8 * message.length)).toList

/-- A block of a string of whole blocks. -/
def block (bs : List UInt8) (i : ℕ) : List UInt8 := (bs.drop (64 * i)).take 64

/-- The chaining value after a number of blocks. -/
def chain (x : Chaining) (bs : List UInt8) : ℕ → Chaining
  | 0 => x
  | i + 1 => compress (chain x bs i) (block bs i)

/-- The words of a chaining value, each most significant octet first. -/
def octets (x : Chaining) : Octets 32 :=
  ⟨[x.a, x.b, x.c, x.d, x.e, x.f, x.g, x.h].flatMap fun w => (Octets.ofNat 4 w.toNat).toList,
    by simp [Octets.length_toList]⟩

/-- The digest of a message from a chaining value. -/
def digest (x : Chaining) (message : List UInt8) : Octets 32 :=
  octets (chain x (padded message) ((padded message).length / 64))

end Standard

open Standard

/-! ## The tables -/

theorem initial_eq : Chaining.initial = Standard.initial := by decide +kernel

theorem roundConstants_eq_map : roundConstants = primes.map (rootBits 3) := by decide +kernel

theorem roundConstants_eq : roundConstants = (List.range 64).map constant := by
  unfold constant
  rw [← roundConstants_eq_map]
  decide +kernel

/-! ## Words -/

/-- Two shifts rotate a word. -/
theorem rotateRight_eq (w bits : UInt32) (hpos : 0 < bits.toNat) (hlt : bits.toNat < 32) :
    rotateRight w bits = rotate bits.toNat w := by
  have hsub : (32 - bits).toNat = 32 - bits.toNat :=
    UInt32.toNat_sub_of_le _ _ (UInt32.le_iff_toNat_le.mpr hlt.le)
  have hright : (w >>> bits).toBitVec = w.toBitVec >>> bits.toNat := by
    rw [UInt32.toBitVec_shiftRight, BitVec.ushiftRight_eq', BitVec.toNat_umod]
    exact congrArg (w.toBitVec >>> ·) (Nat.mod_eq_of_lt hlt)
  have hleft : (w <<< (32 - bits)).toBitVec = w.toBitVec <<< (32 - bits.toNat) := by
    rw [UInt32.toBitVec_shiftLeft, BitVec.shiftLeft_eq', BitVec.toNat_umod, UInt32.toNat_toBitVec,
      hsub]
    exact congrArg (w.toBitVec <<< ·) (Nat.mod_eq_of_lt (Nat.sub_lt (by decide) hpos))
  apply UInt32.toBitVec_inj.mp
  rw [rotateRight, UInt32.toBitVec_or, hright, hleft, rotate,
    BitVec.rotateRight_eq_rotateRightAux_of_lt hlt]
  rfl

theorem octetsOfWord_eq (w : UInt32) : octetsOfWord w = (Octets.ofNat 4 w.toNat).toList := by
  have hlt : w.toNat < UInt8.size ^ 4 := w.toNat_lt
  apply bigEndian_injective
  · exact (Octets.length_toList _).symm
  · rw [bigEndian_octetsOfWord]
    exact ((Octets.value_ofNat 4 _).trans (Nat.mod_eq_of_lt hlt)).symm

theorem octets_eq (x : Chaining) : x.octets = Standard.octets x :=
  Octets.ext (congrArg (x.words.flatMap ·) (funext octetsOfWord_eq))

/-! ## The schedule -/

theorem wordsOfOctets_eq : ∀ bs : List UInt8,
    wordsOfOctets bs = (List.range (bs.length / 4)).map (blockWord bs)
  | [] => rfl
  | [_] | [_, _] | [_, _, _] => by simp [wordsOfOctets]
  | b3 :: b2 :: b1 :: b0 :: rest => by
    have hlength : (b3 :: b2 :: b1 :: b0 :: rest).length / 4 = rest.length / 4 + 1 := by
      simp only [List.length_cons]
      omega
    have hhead : wordOfOctets b3 b2 b1 b0 = blockWord (b3 :: b2 :: b1 :: b0 :: rest) 0 := by
      have hlt : bigEndian [b3, b2, b1, b0] < 2 ^ 32 := (bigEndian_lt _).trans_eq (by
        simp [UInt8.size])
      rw [← UInt32.toNat_inj, toNat_wordOfOctets]
      exact (UInt32.toNat_ofNat_of_lt' hlt).symm
    have htail : wordsOfOctets rest = (List.range (rest.length / 4)).map
        (blockWord (b3 :: b2 :: b1 :: b0 :: rest) ∘ Nat.succ) := wordsOfOctets_eq rest
    rw [wordsOfOctets, hlength, List.range_succ_eq_map, List.map_cons, List.map_map, hhead, htail]

/-- Sixteen words of the schedule from one on. -/
def window (block : List UInt8) (t : ℕ) : List UInt32 :=
  (List.range 16).map fun i => scheduleWord block (t + i)

/-- The word that follows a window is the next one of the recurrence. -/
theorem nextWord_window (block : List UInt8) (t : ℕ) :
    nextWord (window block t) = scheduleWord block (t + 16) := by
  have hnext : scheduleWord block (t + 16) = sigma1 (scheduleWord block (t + 14)) +
      scheduleWord block (t + 9) + sigma0 (scheduleWord block (t + 1)) + scheduleWord block t := by
    rw [scheduleWord, if_neg (by omega)]
    rfl
  have hword : nextWord (window block t) = scheduleWord block t +
      sigma0 (scheduleWord block (t + 1)) + scheduleWord block (t + 9) +
      sigma1 (scheduleWord block (t + 14)) := by
    unfold nextWord
    dsimp only
    rw [rotateRight_eq _ 7 (by decide) (by decide), rotateRight_eq _ 18 (by decide) (by decide),
      rotateRight_eq _ 17 (by decide) (by decide), rotateRight_eq _ 19 (by decide) (by decide)]
    rfl
  rw [hnext, hword]
  ac_rfl

theorem tail_window (block : List UInt8) (t : ℕ) :
    (window block t).tail ++ [scheduleWord block (t + 16)] = window block (t + 1) := by
  rfl

/-- **The sliding window computes the schedule.** -/
theorem expand_window (block : List UInt8) (count t : ℕ) :
    expand count (window block t) = (List.range count).map fun i => scheduleWord block (t + i) := by
  induction count generalizing t with
  | zero => rfl
  | succ count ih =>
    have hhead : (window block t).headD 0 = scheduleWord block t := rfl
    rw [expand, nextWord_window, tail_window, ih, hhead, List.range_succ_eq_map, List.map_cons,
      List.map_map, Nat.add_zero]
    congr 1
    refine List.map_congr_left fun i _ => ?_
    rw [Function.comp, Nat.succ_eq_add_one, Nat.add_right_comm, Nat.add_assoc]

theorem schedule_eq {block : List UInt8} (h : block.length = 64) :
    schedule block = (List.range 64).map (scheduleWord block) := by
  have hwindow : wordsOfOctets block = window block 0 := by
    rw [wordsOfOctets_eq, h]
    refine List.map_congr_left fun t ht => ?_
    rw [Nat.zero_add, scheduleWord, if_pos (List.mem_range.mp ht)]
  have hschedule := expand_window block 64 0
  simp only [Nat.zero_add] at hschedule
  rw [schedule, hwindow, hschedule]

/-- A round is that of the standard. -/
theorem round_eq (x : Chaining) (constant word : UInt32) :
    round x (constant, word) = Standard.round x constant word := by
  unfold round
  dsimp only
  rw [rotateRight_eq _ 6 (by decide) (by decide), rotateRight_eq _ 11 (by decide) (by decide),
    rotateRight_eq _ 25 (by decide) (by decide), rotateRight_eq _ 2 (by decide) (by decide),
    rotateRight_eq _ 13 (by decide) (by decide), rotateRight_eq _ 22 (by decide) (by decide)]
  rfl

/-- **The compression function is the standard one.** -/
theorem compress_eq (x : Chaining) {block : List UInt8} (h : block.length = blockSize) :
    compress x block = Standard.compress x block := by
  unfold compress Standard.compress
  rw [schedule_eq h, roundConstants_eq, List.zip_map', List.foldl_map]
  simp only [round_eq]
  rfl

end Sha256

end Secp256r1
