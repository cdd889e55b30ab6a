/-!
# White space

The characters that may surround an argument, and cutting them off.

* `Blank.isBlank` — whether a character is white space.
* `Blank.trim` — a text without white space at its ends.
-/

set_option autoImplicit false

namespace Secp256r1

namespace Blank

/-- The ranges of white space, first and last code point. -/
def ranges : List (Nat × Nat) :=
  [(0x09, 0x0D), (0x20, 0x20), (0x85, 0x85), (0xA0, 0xA0), (0x1680, 0x1680), (0x2000, 0x200A),
   (0x2028, 0x2029), (0x202F, 0x202F), (0x205F, 0x205F), (0x3000, 0x3000)]

/-- Whether a character is white space. -/
def isBlank (c : Char) : Bool := ranges.any fun range => range.1 ≤ c.toNat && c.toNat ≤ range.2

/-- A text without white space at its start. -/
def trimStart (cs : List Char) : List Char := cs.dropWhile isBlank

/-- A text without white space at its ends. -/
def trim (cs : List Char) : List Char := (trimStart (trimStart cs).reverse).reverse

end Blank

end Secp256r1
