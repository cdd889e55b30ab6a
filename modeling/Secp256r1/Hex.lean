/-!
# Hexadecimal text

Octets as pairs of hexadecimal digits.  Writing uses lowercase digits; reading accepts
either case and names the first octet of the text that is no digit.

* `Hex.encode`, `Hex.decode` — the two directions.
* `Hex.DecodeError` — what is wrong with a text; an odd length is found first.
-/

set_option autoImplicit false

namespace Secp256r1

namespace Hex

/-- The lowercase digit of a value below 16. -/
def digit (v : UInt8) : Char :=
  if v < 10 then Char.ofNat (48 + v.toNat) else Char.ofNat (87 + v.toNat)

/-- The two digits of every octet, most significant first. -/
def encode (bs : List UInt8) : String :=
  String.ofList (bs.flatMap fun (b : UInt8) => [digit (b >>> 4), digit (b &&& 0x0F)])

/-- The value of a digit given as an octet of the text. -/
def digitValue? (b : UInt8) : Option UInt8 :=
  if 48 ≤ b ∧ b ≤ 57 then some (b - 48)
  else if 97 ≤ b ∧ b ≤ 102 then some (b - 87)
  else if 65 ≤ b ∧ b ≤ 70 then some (b - 55)
  else none

/-- Why a text is not hexadecimal. -/
inductive DecodeError where
  | oddLength
  | invalidDigit (octet : UInt8) (position : Nat)
deriving DecidableEq, Repr

/-- Reads pairs of digits; `position` counts the octets read before. -/
def decodePairs : List UInt8 → Nat → Except DecodeError (List UInt8)
  | hi :: lo :: rest, position =>
    match digitValue? hi, digitValue? lo with
    | none, _ => .error (.invalidDigit hi position)
    | some _, none => .error (.invalidDigit lo (position + 1))
    | some h, some l => (decodePairs rest (position + 2)).map ((h <<< 4 ||| l) :: ·)
  | [_], _ => .error .oddLength
  | [], _ => .ok []

/-- The octets that a text, itself given as octets, writes in hexadecimal. -/
def decode (text : List UInt8) : Except DecodeError (List UInt8) :=
  if text.length % 2 = 1 then .error .oddLength else decodePairs text 0

end Hex

end Secp256r1
