import Secp256r1.HashFunction
import Secp256r1.Sha256.Compression

/-!
# SHA-256

A hasher keeps the chaining value of the blocks that are complete, a buffer for the block that is
not, and the number of octets compressed.  The buffer is filled from its start, and what stands
beyond the filled part is left over from earlier blocks.

* `Sha256.update` — absorbs octets, a buffer at a time: each pass is `Sha256.fill`.
* `Sha256.finalize` — marks the end of the input, adds the bit count, and gives the digest and a
  fresh hasher.
* `Sha256.wipe` — the hasher overwritten with zeros.
* `Sha256.copy` — another hasher that has absorbed the same (`copy_eq`).
* `sha256` — the hash function.
-/

set_option autoImplicit false

namespace Secp256r1

/-- A hasher. -/
@[ext]
structure Sha256 where
  chaining : Sha256.Chaining
  /-- The octets of the incomplete block, and behind them left-over ones. -/
  buffer : Octets Sha256.blockSize
  /-- How many octets the incomplete block has. -/
  filled : Nat
  /-- Octets compressed so far, modulo `2⁶⁴`. -/
  total : UInt64
  filled_lt : filled < Sha256.blockSize
deriving DecidableEq, Repr

namespace Sha256

/-- A hasher that has absorbed nothing. -/
def fresh : Sha256 := ⟨.initial, .zero blockSize, 0, 0, by decide⟩

/-- The octets of an input that go into the buffer in one pass. -/
def chunk (s : Sha256) (input : List UInt8) : List UInt8 := input.take (blockSize - s.filled)

/-- A pass stays within the buffer. -/
theorem filled_add_chunk_le (s : Sha256) (input : List UInt8) :
    s.filled + (s.chunk input).length ≤ blockSize := by
  have h := s.filled_lt
  rw [chunk, List.length_take]
  omega

/-- One pass: copies octets of an input behind those of the buffer, and compresses the buffer if
it is full. -/
def fill (s : Sha256) (input : List UInt8) : Sha256 :=
  let chunk := s.chunk input
  have hfits : s.filled + chunk.length ≤ blockSize := s.filled_add_chunk_le input
  let buffer := s.buffer.write s.filled chunk hfits
  if h : s.filled + chunk.length = blockSize then
    { chaining := compress s.chaining buffer.toList
      buffer, filled := 0
      total := s.total + UInt64.ofNat blockSize
      filled_lt := by decide }
  else
    { s with buffer, filled := s.filled + chunk.length, filled_lt := Nat.lt_of_le_of_ne hfits h }

/-- Absorbs octets. -/
def update (s : Sha256) (input : List UInt8) : Sha256 :=
  if input = [] then s else (s.fill input).update (input.drop (s.chunk input).length)
termination_by input.length
decreasing_by
  have hroom := s.filled_lt
  have hinput := List.length_pos_iff.mpr (by assumption)
  rw [List.length_drop, chunk, List.length_take]
  omega

/-- The eight octets of a bit count, most significant first. -/
def lengthOctets (bits : UInt64) : List UInt8 :=
  [56, 48, 40, 32, 24, 16, 8, 0].map fun (i : UInt64) => (bits >>> i).toUInt8

/-- Where the bit count stands in the last block. -/
def lengthPlace : Nat := 56

/-- Marks the end of the input by a one bit and clears the buffer up to the place of the bit count;
if the input reaches beyond that place, the buffer is cleared to its end, compressed, and followed
by an empty one. -/
def mark (s : Sha256) : Chaining × Octets blockSize :=
  have hfilled : s.filled < 64 := s.filled_lt
  let marked := s.buffer.write s.filled [0x80] hfilled
  if h : lengthPlace ≤ s.filled then
    let last := marked.write (s.filled + 1) (List.replicate (63 - s.filled) 0) (by
      simp only [List.length_replicate, blockSize]
      omega)
    (compress s.chaining last.toList, .zero blockSize)
  else
    let last := marked.write (s.filled + 1) (List.replicate (55 - s.filled) 0) (by
      simp only [List.length_replicate, blockSize, lengthPlace] at *
      omega)
    (s.chaining, last)

/-- The digest of what was absorbed, and a fresh hasher. -/
def finalize (s : Sha256) : Octets 32 × Sha256 :=
  let bits := (s.total + UInt64.ofNat s.filled) * 8
  let (chaining, buffer) := s.mark
  let last := buffer.write lengthPlace (lengthOctets bits) (by
    simp [lengthOctets, lengthPlace, blockSize])
  ((compress chaining last.toList).octets, fresh)

/-- The hasher overwritten with zeros: what it absorbs next starts from the zero chaining
value. -/
def wipe (_ : Sha256) : Sha256 := ⟨.zero, .zero blockSize, 0, 0, by decide⟩

/-- Another hasher that has absorbed the same, with left-over octets and all. -/
def copy (s : Sha256) : Sha256 := ⟨s.chaining, s.buffer, s.filled, s.total, s.filled_lt⟩

@[simp] theorem copy_eq (s : Sha256) : s.copy = s := rfl

end Sha256

/-- SHA-256 as a hash function. -/
def sha256 : HashFunction Sha256 where
  name := "SHA-256"
  outputSize := 32
  blockSize := Sha256.blockSize
  fresh := Sha256.fresh
  update := Sha256.update
  finalize := Sha256.finalize
  wipe := Sha256.wipe
  copy := Sha256.copy

end Secp256r1
