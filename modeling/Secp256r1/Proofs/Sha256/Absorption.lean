import Secp256r1.Proofs.Sha256.Standard
import Secp256r1.Sha256

/-!
# A hasher holds what it absorbed

* `Absorbed` — the chaining value of the whole blocks of a message, the rest in the buffer, and the
  number of octets compressed.
* `Absorbed.fill`, `Absorbed.update` — **absorbing appends to the message**, a pass at a time.
* `Absorbed.mark` — the end of the message is marked and followed by zeros.
* `Absorbed.count` — **no counter overflows** below `2⁶¹` octets.
* `Absorbed.digest_eq` — **the digest is the standard one** of the message.
-/

set_option autoImplicit false

namespace Secp256r1

namespace Sha256

open Standard

/-- Blocks of the first part of a string are blocks of the string. -/
theorem chain_append (x : Chaining) {as : List UInt8} (bs : List UInt8) {i : ℕ}
    (h : 64 * i ≤ as.length) : chain x (as ++ bs) i = chain x as i := by
  induction i with
  | zero => rfl
  | succ i ih =>
    have hblock : block (as ++ bs) i = block as i := by
      unfold block
      rw [List.drop_append_of_le_length (by omega), List.take_append_of_le_length]
      rw [List.length_drop]
      omega
    rw [chain, chain, ih (by omega), hblock]

/-- The block behind the whole blocks of a string, filled up by what is appended. -/
theorem block_append {as bs : List UInt8} {i : ℕ} (hi : 64 * i ≤ as.length)
    (hfull : (as ++ bs).length = 64 * i + 64) : block (as ++ bs) i = as.drop (64 * i) ++ bs := by
  unfold block
  rw [List.drop_append_of_le_length hi]
  apply List.take_of_length_le
  rw [List.length_append] at hfull
  rw [List.length_append, List.length_drop]
  omega

/-- The padding leaves eight octets of the last block. -/
theorem length_marked (message : List UInt8) :
    (marked message).length = message.length + 1 + zeroCount message.length ∧
      (marked message).length % 64 = 56 := by
  have hlength : (marked message).length = message.length + 1 + zeroCount message.length := by
    rw [marked, List.length_append, List.length_cons, List.length_replicate]
    omega
  refine ⟨hlength, ?_⟩
  unfold zeroCount at hlength
  omega

theorem bigEndian_lengthOctets (bits : UInt64) : bigEndian (lengthOctets bits) = bits.toNat := by
  have hlt := bits.toNat_lt
  simp only [lengthOctets, List.map_cons, List.map_nil, bigEndian, List.foldl, UInt8.size,
    UInt64.toNat_toUInt8, UInt64.toNat_shiftRight, Nat.shiftRight_eq_div_pow]
  simp
  omega

/-- The hasher started from a chaining value and absorbed a message. -/
structure Absorbed (s : Sha256) (x : Chaining) (message : List UInt8) : Prop where
  chaining_eq : s.chaining = chain x message (message.length / 64)
  buffer_eq : s.buffer.toList.take s.filled = message.drop (64 * (message.length / 64))
  total_eq : s.total = UInt64.ofNat (64 * (message.length / 64))

theorem absorbed_fresh : fresh.Absorbed .initial [] := ⟨rfl, rfl, rfl⟩

theorem absorbed_wipe (s : Sha256) : s.wipe.Absorbed .zero [] := ⟨rfl, rfl, rfl⟩

namespace Absorbed

variable {s : Sha256} {x : Chaining} {message : List UInt8}

theorem filled_eq (h : s.Absorbed x message) : s.filled = message.length % 64 := by
  have hlength := congrArg List.length h.buffer_eq
  have hlt : s.filled < 64 := s.filled_lt
  have hsize : s.buffer.toList.length = 64 := s.buffer.length_toList
  rw [List.length_take, List.length_drop, hsize] at hlength
  omega

/-- **One pass appends the octets it takes.** -/
theorem fill (h : s.Absorbed x message) (input : List UInt8) :
    (s.fill input).Absorbed x (message ++ s.chunk input) := by
  have hfilled := h.filled_eq
  have hfits : s.filled + (s.chunk input).length ≤ 64 := s.filled_add_chunk_le input
  have hlength : (message ++ s.chunk input).length = message.length + (s.chunk input).length :=
    List.length_append
  have hwhole : 64 * (message.length / 64) ≤ message.length := Nat.mul_div_le ..
  unfold Sha256.fill
  dsimp only
  split
  · rename_i hfull
    have hfull' : s.filled + (s.chunk input).length = 64 := hfull
    have hblocks : (message ++ s.chunk input).length / 64 = message.length / 64 + 1 := by omega
    have hbuffer := Octets.toList_write_end s.buffer s.filled (s.chunk input) hfull
    have hblock : block (message ++ s.chunk input) (message.length / 64) =
        s.buffer.toList.take s.filled ++ s.chunk input := by
      rw [h.buffer_eq]
      exact block_append hwhole (by omega)
    refine ⟨?_, ?_, ?_⟩
    · dsimp only
      rw [compress_eq _ (Octets.length_toList _), hbuffer, hblocks, chain,
        chain_append x _ hwhole, hblock, ← h.chaining_eq]
    · rw [hblocks, List.take_zero, List.drop_eq_nil_of_le]
      omega
    · rw [hblocks, h.total_eq, Nat.mul_add, UInt64.ofNat_add]
      rfl
  · rename_i hpartial
    have hpartial' : s.filled + (s.chunk input).length ≠ 64 := hpartial
    have hblocks : (message ++ s.chunk input).length / 64 = message.length / 64 := by omega
    refine ⟨?_, ?_, ?_⟩
    · rw [hblocks, chain_append x _ hwhole]
      exact h.chaining_eq
    · rw [hblocks, List.drop_append_of_le_length hwhole, ← h.buffer_eq]
      exact Octets.take_write s.buffer s.filled (s.chunk input) hfits
    · rw [hblocks]
      exact h.total_eq

/-- **Absorbing appends to the message**, however much is absorbed at once. -/
theorem update (h : s.Absorbed x message) (input : List UInt8) :
    (s.update input).Absorbed x (message ++ input) := by
  -- on the passes: each moves a chunk from the input to the message
  induction s, input using Sha256.update.induct generalizing message with
  | case1 s =>
    rw [Sha256.update, if_pos rfl, List.append_nil]
    exact h
  | case2 s input hne ih =>
    have hsplit : s.chunk input ++ input.drop (s.chunk input).length = input :=
      List.prefix_iff_eq_append.mp (List.take_prefix ..)
    have hrest := ih (h.fill input)
    rw [List.append_assoc, hsplit] at hrest
    rw [Sha256.update, if_neg hne]
    exact hrest

/-- Strings absorbed one after the other are appended joined. -/
theorem foldl_update (h : s.Absorbed x message) (parts : List (List UInt8)) :
    (parts.foldl Sha256.update s).Absorbed x (message ++ parts.flatten) := by
  induction parts generalizing s message with
  | nil =>
    rw [List.flatten_nil, List.append_nil]
    exact h
  | cons part parts ih =>
    have hrest := ih (h.update part)
    rw [List.append_assoc] at hrest
    exact hrest

/-- The one bit and the zeros are written as one string. -/
theorem write_mark (s : Sha256) (zeros : ℕ) (hone : s.filled + [0x80].length ≤ blockSize)
    (hzeros : s.filled + 1 + (List.replicate zeros 0).length ≤ blockSize) :
    (s.buffer.write s.filled [0x80] hone).write (s.filled + 1) (List.replicate zeros 0) hzeros =
      s.buffer.write s.filled (0x80 :: List.replicate zeros 0) (by
        rw [List.length_cons, Nat.add_comm _ 1, ← Nat.add_assoc]
        exact hzeros) :=
  Octets.write_write s.buffer s.filled [0x80] (List.replicate zeros 0) hone hzeros

/-- **The end of the message is marked**, and zeros stand before the place of the bit count. -/
theorem mark (h : s.Absorbed x message) :
    s.mark.1 = chain x (marked message) ((marked message).length / 64) ∧
      s.mark.2.toList.take lengthPlace =
        (marked message).drop (64 * ((marked message).length / 64)) := by
  have hfilled := h.filled_eq
  have hlt : s.filled < 64 := s.filled_lt
  have hwhole : 64 * (message.length / 64) ≤ message.length := Nat.mul_div_le ..
  have hplace : lengthPlace = 56 := rfl
  have hlength (zeros : ℕ) : (0x80 :: List.replicate zeros (0 : UInt8)).length = zeros + 1 := by
    rw [List.length_cons, List.length_replicate]
  have hmarked := length_marked message
  unfold Sha256.mark
  dsimp only
  split
  · -- the bit count has no room left, and the buffer is compressed
    have hzeros : zeroCount message.length = (63 - s.filled) + 56 := by
      unfold zeroCount
      omega
    have hsplit : marked message =
        (message ++ 0x80 :: List.replicate (63 - s.filled) 0) ++ List.replicate 56 0 := by
      rw [marked, hzeros, ← List.replicate_append_replicate, ← List.cons_append, List.append_assoc]
    have hfirst : (message ++ 0x80 :: List.replicate (63 - s.filled) 0).length =
        64 * (message.length / 64) + 64 := by
      rw [List.length_append, hlength]
      omega
    have hblocks : (marked message).length / 64 = message.length / 64 + 1 := by omega
    have hblock := block_append hwhole hfirst
    rw [hblocks, hsplit]
    constructor
    · rw [chain_append x _ hfirst.ge, chain, chain_append x _ hwhole, hblock, ← h.buffer_eq,
        ← h.chaining_eq, write_mark, compress_eq _ (Octets.length_toList _),
        Octets.toList_write_end]
      rw [hlength, blockSize]
      omega
    · rw [List.drop_left' (by omega)]
      rfl
  · have hzeros : zeroCount message.length = 55 - s.filled := by
      unfold zeroCount
      omega
    have hblocks : (marked message).length / 64 = message.length / 64 := by omega
    have hend : lengthPlace =
        s.filled + (0x80 :: List.replicate (55 - s.filled) (0 : UInt8)).length := by
      rw [hlength]
      omega
    rw [hblocks, marked, hzeros, chain_append x _ hwhole, List.drop_append_of_le_length hwhole,
      ← h.buffer_eq, ← h.chaining_eq, write_mark, hend]
    refine ⟨rfl, Octets.take_write s.buffer s.filled _ ?_⟩
    rw [← hend]
    decide

/-- The counters hold the number of bits of the message. -/
theorem bits_eq (h : s.Absorbed x message) :
    (s.total + UInt64.ofNat s.filled) * 8 = UInt64.ofNat (8 * message.length) := by
  have hcount : 64 * (message.length / 64) + s.filled = message.length := by
    rw [h.filled_eq]
    exact Nat.div_add_mod ..
  rw [h.total_eq, ← UInt64.ofNat_add, hcount, Nat.mul_comm 8, UInt64.ofNat_mul]
  rfl

/-- The number of bits that is written is that of the message. -/
theorem lengthOctets_eq (h : s.Absorbed x message) :
    lengthOctets ((s.total + UInt64.ofNat s.filled) * 8) =
      (Octets.ofNat 8 (8 * message.length)).toList := by
  rw [h.bits_eq]
  apply bigEndian_injective
  · exact (Octets.length_toList _).symm
  · rw [bigEndian_lengthOctets]
    exact (UInt64.toNat_ofNat' ..).trans (Octets.value_ofNat 8 _).symm

/-- **Neither counter overflows** as long as the number of bits fits. -/
theorem count (h : s.Absorbed x message) (hshort : message.length < 2 ^ 61) :
    s.total.toNat + s.filled = message.length ∧
      ((s.total + UInt64.ofNat s.filled) * 8).toNat = 8 * message.length := by
  have htotal : s.total.toNat = 64 * (message.length / 64) := by
    rw [h.total_eq, UInt64.toNat_ofNat']
    omega
  rw [h.bits_eq, htotal, h.filled_eq, UInt64.toNat_ofNat']
  omega

/-- **The digest is the standard one** of the message. -/
theorem digest_eq (h : s.Absorbed x message) : s.finalize.1 = digest x message := by
  obtain ⟨hchaining, hbuffer⟩ := h.mark
  have hwhole : 64 * ((marked message).length / 64) ≤ (marked message).length := Nat.mul_div_le ..
  have hmarked := length_marked message
  have hlength : (padded message).length = 64 * ((marked message).length / 64) + 64 := by
    rw [padded, List.length_append, Octets.length_toList]
    omega
  have hblocks : (padded message).length / 64 = (marked message).length / 64 + 1 := by omega
  have hblock := block_append hwhole hlength
  unfold Sha256.finalize digest
  dsimp only
  rw [octets_eq, hblocks, chain, padded, chain_append x _ hwhole, hblock, ← hchaining, ← hbuffer,
    ← h.lengthOctets_eq, compress_eq _ (Octets.length_toList _), Octets.toList_write_end]
  rfl

end Absorbed

end Sha256

end Secp256r1
