import Secp256r1.Text.Printable

/-!
# Quoted texts

A text or a character between quotes, with escapes for the quote itself, the backslash, the
common control characters and every character that is not shown.

* `Quoted.escape` — one character inside quotes of a given kind.
* `Quoted.text`, `Quoted.character` — between double and single quotes.
-/

set_option autoImplicit false

namespace Secp256r1

namespace Quoted

/-- A character by its code point in hexadecimal. -/
def codePoint (c : Char) : List Char :=
  "\\u\x7b".toList ++ Nat.toDigits 16 c.toNat ++ ['\x7d']

/-- A character inside quotes. -/
def escape (quote c : Char) : List Char :=
  if c = '\x00' then ['\\', '0']
  else if c = '\t' then ['\\', 't']
  else if c = '\r' then ['\\', 'r']
  else if c = '\n' then ['\\', 'n']
  else if c = '\\' ∨ c = quote then ['\\', c]
  else if Printable.isShown c then [c]
  else codePoint c

/-- A text between double quotes. -/
def text (s : String) : String :=
  String.ofList ('"' :: s.toList.flatMap (escape '"') ++ ['"'])

/-- A character between single quotes. -/
def character (c : Char) : String :=
  String.ofList ('\'' :: escape '\'' c ++ ['\''])

end Quoted

end Secp256r1
