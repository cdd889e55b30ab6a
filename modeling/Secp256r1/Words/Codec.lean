import Secp256r1.Octets
import Secp256r1.Words

/-!
# Words and octets

Converts between 32 big-endian octets and eight little-endian words.  Inside a word the
octets run from the most significant one down, and the words run the other way.

* `Words.ofOctets`, `Words.toOctets` — the two directions.
* `wordOfOctets?` — one word from the front of a longer string.
-/

set_option autoImplicit false

namespace Secp256r1

/-- The word of four octets, most significant first. -/
def wordOfOctets (b3 b2 b1 b0 : UInt8) : UInt32 :=
  (b3.toUInt32 <<< 24) ||| (b2.toUInt32 <<< 16) ||| (b1.toUInt32 <<< 8) ||| b0.toUInt32

/-- The word of the first four octets; shorter strings have none. -/
def wordOfOctets? : List UInt8 → Option UInt32
  | b3 :: b2 :: b1 :: b0 :: _ => some (wordOfOctets b3 b2 b1 b0)
  | _ => none

/-- The four octets of a word, most significant first. -/
def octetsOfWord (w : UInt32) : List UInt8 :=
  [(w >>> 24).toUInt8, (w >>> 16).toUInt8, (w >>> 8).toUInt8, w.toUInt8]

/-- Octets taken four at a time, in order; a shorter rest is dropped. -/
def wordsOfOctets : List UInt8 → List UInt32
  | b3 :: b2 :: b1 :: b0 :: rest => wordOfOctets b3 b2 b1 b0 :: wordsOfOctets rest
  | _ => []

theorem length_wordsOfOctets : ∀ bs : List UInt8, (wordsOfOctets bs).length = bs.length / 4
  | [] => by simp [wordsOfOctets]
  | [_] => by simp [wordsOfOctets]
  | [_, _] => by simp [wordsOfOctets]
  | [_, _, _] => by simp [wordsOfOctets]
  | _ :: _ :: _ :: _ :: rest => by
    simp only [wordsOfOctets, List.length_cons, length_wordsOfOctets rest]
    omega

theorem length_flatMap_octetsOfWord : ∀ ws : List UInt32,
    (ws.flatMap octetsOfWord).length = 4 * ws.length
  | [] => rfl
  | w :: ws => by
    simp only [List.flatMap_cons, List.length_append, length_flatMap_octetsOfWord ws,
      List.length_cons, octetsOfWord, List.length_nil]
    omega

namespace Words

/-- Eight words of a 256-bit big-endian integer. -/
def ofOctets (o : Octets 32) : Words 8 :=
  ⟨(wordsOfOctets o.toList).reverse, by simp [length_wordsOfOctets, o.length_toList]⟩

/-- The 256-bit big-endian integer held by eight words. -/
def toOctets (w : Words 8) : Octets 32 :=
  ⟨w.toList.reverse.flatMap octetsOfWord, by
    rw [length_flatMap_octetsOfWord, List.length_reverse, w.length_toList]⟩

end Words

end Secp256r1
