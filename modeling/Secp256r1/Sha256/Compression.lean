import Secp256r1.Words.Codec

/-!
# The compression function of SHA-256

One block of 64 octets is expanded to sixty-four schedule words, which drive as many rounds
on eight working words.

* `Sha256.schedule` — the schedule of a block, from a window of its last sixteen words.
* `Sha256.round` — one round.
* `Sha256.compress` — the chaining value after one block.
-/

set_option autoImplicit false

namespace Secp256r1

namespace Sha256

/-- Octets of a block. -/
def blockSize : Nat := 64

/-- Eight words: a chaining value, or the working words of a round. -/
@[ext]
structure Chaining where
  a : UInt32
  b : UInt32
  c : UInt32
  d : UInt32
  e : UInt32
  f : UInt32
  g : UInt32
  h : UInt32
deriving DecidableEq, Repr

namespace Chaining

/-- The chaining value before the first block. -/
def initial : Chaining :=
  ⟨0x6a09e667, 0xbb67ae85, 0x3c6ef372, 0xa54ff53a, 0x510e527f, 0x9b05688c, 0x1f83d9ab,
    0x5be0cd19⟩

/-- All words zero. -/
def zero : Chaining := ⟨0, 0, 0, 0, 0, 0, 0, 0⟩

/-- The sum word by word. -/
def add (x y : Chaining) : Chaining :=
  ⟨x.a + y.a, x.b + y.b, x.c + y.c, x.d + y.d, x.e + y.e, x.f + y.f, x.g + y.g, x.h + y.h⟩

/-- The words in order. -/
def words (x : Chaining) : List UInt32 := [x.a, x.b, x.c, x.d, x.e, x.f, x.g, x.h]

/-- The 32 octets of the words in order. -/
def octets (x : Chaining) : Octets 32 :=
  ⟨x.words.flatMap octetsOfWord, by simp [words, octetsOfWord]⟩

end Chaining

/-- The round constants. -/
def roundConstants : List UInt32 :=
  [0x428a2f98, 0x71374491, 0xb5c0fbcf, 0xe9b5dba5, 0x3956c25b, 0x59f111f1, 0x923f82a4,
   0xab1c5ed5, 0xd807aa98, 0x12835b01, 0x243185be, 0x550c7dc3, 0x72be5d74, 0x80deb1fe,
   0x9bdc06a7, 0xc19bf174, 0xe49b69c1, 0xefbe4786, 0x0fc19dc6, 0x240ca1cc, 0x2de92c6f,
   0x4a7484aa, 0x5cb0a9dc, 0x76f988da, 0x983e5152, 0xa831c66d, 0xb00327c8, 0xbf597fc7,
   0xc6e00bf3, 0xd5a79147, 0x06ca6351, 0x14292967, 0x27b70a85, 0x2e1b2138, 0x4d2c6dfc,
   0x53380d13, 0x650a7354, 0x766a0abb, 0x81c2c92e, 0x92722c85, 0xa2bfe8a1, 0xa81a664b,
   0xc24b8b70, 0xc76c51a3, 0xd192e819, 0xd6990624, 0xf40e3585, 0x106aa070, 0x19a4c116,
   0x1e376c08, 0x2748774c, 0x34b0bcb5, 0x391c0cb3, 0x4ed8aa4a, 0x5b9cca4f, 0x682e6ff3,
   0x748f82ee, 0x78a5636f, 0x84c87814, 0x8cc70208, 0x90befffa, 0xa4506ceb, 0xbef9a3f7,
   0xc67178f2]

/-- A word rotated right by a number of bits strictly between 0 and 32. -/
def rotateRight (w bits : UInt32) : UInt32 := (w >>> bits) ||| (w <<< (32 - bits))

/-- The schedule word that follows sixteen consecutive ones. -/
def nextWord (window : List UInt32) : UInt32 :=
  let w1 := window.getD 1 0
  let w14 := window.getD 14 0
  let s0 := rotateRight w1 7 ^^^ rotateRight w1 18 ^^^ (w1 >>> 3)
  let s1 := rotateRight w14 17 ^^^ rotateRight w14 19 ^^^ (w14 >>> 10)
  window.headD 0 + s0 + window.getD 9 0 + s1

/-- Schedule words from a window of sixteen on: each is the head of its window. -/
def expand : Nat → List UInt32 → List UInt32
  | 0, _ => []
  | count + 1, window => window.headD 0 :: expand count (window.tail ++ [nextWord window])

/-- The sixty-four schedule words of a block. -/
def schedule (block : List UInt8) : List UInt32 := expand 64 (wordsOfOctets block)

/-- One round, with its constant and its schedule word. -/
def round (x : Chaining) (constantAndWord : UInt32 × UInt32) : Chaining :=
  let s1 := rotateRight x.e 6 ^^^ rotateRight x.e 11 ^^^ rotateRight x.e 25
  let choice := (x.e &&& x.f) ^^^ (~~~x.e &&& x.g)
  let t1 := x.h + s1 + choice + constantAndWord.1 + constantAndWord.2
  let s0 := rotateRight x.a 2 ^^^ rotateRight x.a 13 ^^^ rotateRight x.a 22
  let majority := (x.a &&& x.b) ^^^ (x.a &&& x.c) ^^^ (x.b &&& x.c)
  ⟨t1 + (s0 + majority), x.a, x.b, x.c, x.d + t1, x.e, x.f, x.g⟩

/-- The chaining value after one block. -/
def compress (x : Chaining) (block : List UInt8) : Chaining :=
  x.add ((roundConstants.zip (schedule block)).foldl round x)

end Sha256

end Secp256r1
