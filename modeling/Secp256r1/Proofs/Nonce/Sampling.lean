import Secp256r1.Proofs.Nonce.Blocks
import Secp256r1.Proofs.Nonce.Range

/-!
# A random nonce is the first block in range

A search for a random nonce on a tape reads whole blocks of 32 octets.  Which block it ends at, and
how much of the tape it has read by then, follows from the tape alone.

* `Generator.tapeBlock`, `Generator.BlockInRange` — a block of a tape by its number, and whether it
  holds an integer that can be a nonce.
* `Generator.HandsOut.exists_rejects` — **the first blocks, if all are out of range, are read and
  rejected**.
* `Generator.HandsOut.exists_accepts`, `Generator.HandsOut.exists_failed` — the search ends at the
  first block in range, or where the tape holds no whole block any more.
* `NonceSource.sampling_exact` — **the three ways in which a call for the next random nonce ends.**
-/

set_option autoImplicit false

namespace Secp256r1

open Rfc6979 (InRange)

namespace Generator

variable {γ : Type} {gen : Generator γ} {left : γ → List UInt8} {g : γ}

/-- A block of a tape, by its number; the last one may be shorter. -/
def tapeBlock (tape : List UInt8) (i : ℕ) : List UInt8 := (tape.drop (32 * i)).take 32

/-- The block holds an integer in `[1, n-1]`. -/
def BlockInRange (tape : List UInt8) (i : ℕ) : Prop :=
  0 < bigEndian (tapeBlock tape i) ∧ bigEndian (tapeBlock tape i) < groupOrder

instance (tape : List UInt8) : DecidablePred (BlockInRange tape) :=
  fun _ => inferInstanceAs (Decidable (_ ∧ _))

theorem tapeBlock_succ (tape : List UInt8) (i : ℕ) :
    tapeBlock tape (i + 1) = tapeBlock (tape.drop 32) i := by
  unfold tapeBlock
  rw [List.drop_drop, Nat.mul_succ, Nat.add_comm]

/-- A tape that starts with the same octet again and again has blocks of that octet. -/
theorem tapeBlock_replicate_append {i n : ℕ} (hi : i < n) (b : UInt8) (rest : List UInt8) :
    tapeBlock (List.replicate (32 * n) b ++ rest) i = List.replicate 32 b := by
  have hdrop : 32 * i ≤ (List.replicate (32 * n) b).length := by
    rw [List.length_replicate]
    omega
  have htake : 32 ≤ (List.replicate (32 * n - 32 * i) b).length := by
    rw [List.length_replicate]
    omega
  unfold tapeBlock
  rw [List.drop_append_of_le_length hdrop, List.drop_replicate,
    List.take_append_of_le_length htake, List.take_replicate, Nat.min_eq_left (by omega)]

theorem blockInRange_succ (tape : List UInt8) (i : ℕ) :
    BlockInRange tape (i + 1) ↔ BlockInRange (tape.drop 32) i := by
  unfold BlockInRange
  rw [tapeBlock_succ]

theorem inRange_iff_blockInRange {o : Octets 32} {tape : List UInt8} {i : ℕ}
    (h : o.toList = tapeBlock tape i) : InRange o ↔ BlockInRange tape i := by
  unfold InRange BlockInRange Octets.value
  rw [h]

/-- A request takes the first block of what is left. -/
theorem HandsOut.exists_fill (hgen : gen.HandsOut left) (hle : 32 ≤ (left g).length) :
    ∃ (o : Octets 32) (g' : γ), gen.fill 32 g = (.ok o, g') ∧ o.toList = tapeBlock (left g) 0 ∧
      left g' = (left g).drop 32 := by
  obtain ⟨o, g', hfill, hleft⟩ := hgen.fills 32 g hle
  refine ⟨o, g', hfill, ?_, ?_⟩
  · rw [tapeBlock, Nat.mul_zero, List.drop_zero, hleft, List.take_left' o.length_toList]
  · rw [hleft, List.drop_left' o.length_toList]

/-- **Blocks out of range are read and rejected**, one after the other. -/
theorem HandsOut.exists_rejects (hgen : gen.HandsOut left) {n : ℕ}
    (hle : 32 * n ≤ (left g).length) (hout : ∀ j < n, ¬ BlockInRange (left g) j) :
    ∃ g', gen.Rejects g n g' ∧ left g' = (left g).drop (32 * n) := by
  induction n generalizing g with
  | zero => exact ⟨g, .zero g, rfl⟩
  | succ n ih =>
    obtain ⟨o, g₁, hfill, ho, hleft⟩ := hgen.exists_fill (g := g) (by omega)
    have hfirst : ¬ InRange o := by
      rw [inRange_iff_blockInRange ho]
      exact hout 0 n.succ_pos
    -- the rest of the blocks are those of the rest of the tape
    have hrest : ∀ j < n, ¬ BlockInRange (left g₁) j := by
      intro j hj
      rw [hleft, ← blockInRange_succ]
      exact hout (j + 1) (Nat.succ_lt_succ hj)
    have hlength : 32 * n ≤ (left g₁).length := by
      rw [hleft, List.length_drop]
      omega
    obtain ⟨g', hrejects, hleft'⟩ := ih hlength hrest
    refine ⟨g', .succ hfill hfirst hrejects, ?_⟩
    rw [hleft', hleft, List.drop_drop, Nat.mul_succ, Nat.add_comm]

/-- **A search ends at the first block in range.** -/
theorem HandsOut.exists_accepts (hgen : gen.HandsOut left) {draws i : ℕ} (hi : i < draws)
    (hle : 32 * (i + 1) ≤ (left g).length) (hout : ∀ j < i, ¬ BlockInRange (left g) j)
    (hin : BlockInRange (left g) i) :
    ∃ k g', gen.Accepts draws g k g' ∧ k.toOctets.toList = tapeBlock (left g) i ∧
      left g' = (left g).drop (32 * (i + 1)) := by
  obtain ⟨g₁, hrejects, hleft⟩ := hgen.exists_rejects (n := i) (by omega) hout
  have hlength : 32 ≤ (left g₁).length := by
    rw [hleft, List.length_drop]
    omega
  obtain ⟨o, g', hfill, ho, hleft'⟩ := hgen.exists_fill hlength
  have hblock : o.toList = tapeBlock (left g) i := by
    rw [ho, hleft]
    rfl
  refine ⟨⟨⟨o⟩⟩, g', ⟨i, g₁, hi, hrejects, hfill, ?_⟩, hblock, ?_⟩
  · exact (inRange_iff_blockInRange hblock).mpr hin
  · rw [hleft', hleft, List.drop_drop]
    rfl

/-- **A search fails where the tape holds no whole block any more**, and reads nothing of the rest. -/
theorem HandsOut.exists_failed (hgen : gen.HandsOut left) {draws : ℕ}
    (hshort : (left g).length < 32 * draws)
    (hout : ∀ j < (left g).length / 32, ¬ BlockInRange (left g) j) :
    ∃ text g', gen.Starves draws g text g' ∧
      left g' = (left g).drop (32 * ((left g).length / 32)) := by
  obtain ⟨g₁, hrejects, hleft⟩ := hgen.exists_rejects (Nat.mul_div_le _ 32) hout
  have hlength : (left g₁).length < 32 := by
    rw [hleft, List.length_drop]
    omega
  obtain ⟨text, g', hfill, hkept⟩ := hgen.refuses 32 g₁ hlength
  exact ⟨text, g', .failed (by omega) hrejects hfill, hkept.trans hleft⟩

end Generator

namespace NonceSource

open Generator

variable {γ : Type} {gen : Generator γ} {left : γ → List UInt8}

theorem next_random_of_candidate {g g' : γ} {r : Except Error Scalar}
    (h : gen.candidate maxRandomDraws g = (r, g')) (limit : ℕ) :
    (random gen).next limit () g = some (r, (), g') := by
  simp only [random, h]

/-- **Rejection sampling is exact.**  On any tape, a call for the next random nonce

* returns the first of the next 64 blocks that lies in `[1, n-1]`, octet by octet, and leaves the
  tape just behind that block;
* fails behind the 64th block if all of them are out of range;
* fails behind the last whole block if the tape ends before that, and leaves the rest unread. -/
theorem sampling_exact (hgen : gen.HandsOut left) (limit : ℕ) (g : γ) :
    (∀ i < 64, 32 * (i + 1) ≤ (left g).length → (∀ j < i, ¬ BlockInRange (left g) j) →
      BlockInRange (left g) i →
      ∃ k g', (random gen).next limit () g = some (.ok k, (), g') ∧
        k.toOctets.toList = tapeBlock (left g) i ∧ left g' = (left g).drop (32 * (i + 1))) ∧
    (32 * 64 ≤ (left g).length → (∀ j < 64, ¬ BlockInRange (left g) j) →
      ∃ g', (random gen).next limit () g = some (.error (.entropyUnavailable
          "RandomNonce::next_nonce" "no candidate in [1, n-1] after 64 draws"), (), g') ∧
        left g' = (left g).drop (32 * 64)) ∧
    ((left g).length < 32 * 64 →
      (∀ j < (left g).length / 32, ¬ BlockInRange (left g) j) →
      ∃ text g', (random gen).next limit () g = some (.error (.entropyUnavailable
          "RandomNonce::next_nonce" text), (), g') ∧
        left g' = (left g).drop (32 * ((left g).length / 32)) ∧ (left g').length < 32) := by
  refine ⟨fun i hi hle hout hin => ?_, fun hle hout => ?_, fun hshort hout => ?_⟩
  · have hdraws : i < maxRandomDraws := hi
    obtain ⟨k, g', haccepts, hblock, hleft⟩ := hgen.exists_accepts hdraws hle hout hin
    exact ⟨k, g', next_random_of_candidate haccepts.candidate_eq limit, hblock, hleft⟩
  · obtain ⟨g', hrejects, hleft⟩ := hgen.exists_rejects hle hout
    have hstarves : gen.Starves maxRandomDraws g _ g' := .exhausted hrejects
    exact ⟨g', next_random_of_candidate hstarves.candidate_eq limit, hleft⟩
  · have hdraws : (left g).length < 32 * maxRandomDraws := hshort
    obtain ⟨text, g', hstarves, hleft⟩ := hgen.exists_failed hdraws hout
    refine ⟨text, g', next_random_of_candidate hstarves.candidate_eq limit, hleft, ?_⟩
    rw [hleft, List.length_drop]
    omega

/-- Sixty-three blocks of zeros before the greatest nonce and three octets; sixty-four blocks of
ones before a block that nobody reads; and one block of zeros before 31 octets. -/
theorem sampling_exact_tapes :
    (∃ k, (random tape).next 0 ()
        (List.replicate (32 * 63) 0 ++ ((Octets.ofNat 32 (groupOrder - 1)).toList ++ [1, 2, 3])) =
      some (.ok k, (), [1, 2, 3]) ∧ k.value = groupOrder - 1) ∧
    (random tape).next 0 () (List.replicate (32 * 64) 0xFF ++ List.replicate 32 1) =
      some (.error (.entropyUnavailable "RandomNonce::next_nonce"
        "no candidate in [1, n-1] after 64 draws"), (), List.replicate 32 1) ∧
    ∃ text, (random tape).next 0 () (List.replicate (32 * 1) 0 ++ List.replicate 31 1) =
      some (.error (.entropyUnavailable "RandomNonce::next_nonce" text), (),
        List.replicate 31 1) := by
  have hzeros (n : ℕ) (rest : List UInt8) :
      ∀ j < n, ¬ BlockInRange (List.replicate (32 * n) 0 ++ rest) j := by
    intro j hj
    rw [BlockInRange, tapeBlock_replicate_append hj, bigEndian_replicate_zero]
    exact fun h => Nat.lt_irrefl 0 h.1
  have hones : ∀ j < 64,
      ¬ BlockInRange (List.replicate (32 * 64) 0xFF ++ List.replicate 32 1) j := by
    intro j hj
    rw [BlockInRange, tapeBlock_replicate_append hj]
    decide +kernel
  refine ⟨?_, ?_, ?_⟩
  · obtain ⟨k, rest, hnext, hblock, hleft⟩ := (sampling_exact handsOut_tape 0 _).1 63
      (by decide) (by decide +kernel)
      (hzeros 63 ((Octets.ofNat 32 (groupOrder - 1)).toList ++ [1, 2, 3])) (by decide +kernel)
    have hread : (List.replicate (32 * 63) 0 ++ (Octets.ofNat 32 (groupOrder - 1)).toList).length =
        32 * (63 + 1) := by
      rw [List.length_append, List.length_replicate, Octets.length_toList]
    rw [id_eq, id_eq, ← List.append_assoc, List.drop_left' hread] at hleft
    rw [hleft] at hnext
    refine ⟨k, hnext, ?_⟩
    rw [Scalar.value, Octets.value, hblock]
    decide +kernel
  · obtain ⟨rest, hnext, hleft⟩ := (sampling_exact handsOut_tape 0 _).2.1 (by decide +kernel) hones
    rw [id_eq, id_eq, List.drop_left' List.length_replicate] at hleft
    rw [hleft] at hnext
    exact hnext
  · have hblocks : (List.replicate (32 * 1) (0 : UInt8) ++ List.replicate 31 1).length / 32 = 1 := by
      decide +kernel
    obtain ⟨text, rest, hnext, hleft, -⟩ := (sampling_exact handsOut_tape 0
      (List.replicate (32 * 1) 0 ++ List.replicate 31 1)).2.2 (by decide +kernel) (by
        rw [id_eq, hblocks]
        exact hzeros 1 _)
    rw [id_eq, id_eq, hblocks, List.drop_left' List.length_replicate] at hleft
    rw [hleft] at hnext
    exact ⟨text, hnext⟩

end NonceSource

end Secp256r1
