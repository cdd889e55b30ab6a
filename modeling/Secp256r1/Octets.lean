/-!
# Octet strings

`Octets n` is a string of exactly `n` octets.  Every fixed-width number of the library
(coordinates, scalars, digests, signature components) travels as one, most significant
octet first.

* `bigEndian`, `Octets.value` — the integer that an octet string stands for.
* `Octets.ofList?` — the only way in for octets of unknown length.
* `Octets.append`, `Octets.split` — joining and cutting at a fixed place
  (`split_append`: cutting undoes joining).
* `Octets.write` — writing over a part of the string, which must lie within it.
* `Octets.bits` — the digits of the integer in base two, most significant first.
-/

set_option autoImplicit false

namespace Secp256r1

/-- The integer that octets stand for, most significant first. -/
def bigEndian (bs : List UInt8) : Nat := bs.foldl (fun v b => UInt8.size * v + b.toNat) 0

@[simp] theorem bigEndian_nil : bigEndian [] = 0 := rfl

/-- One more octet at the end makes the rest weigh more. -/
theorem bigEndian_concat (bs : List UInt8) (b : UInt8) :
    bigEndian (bs ++ [b]) = UInt8.size * bigEndian bs + b.toNat := by
  simp [bigEndian, List.foldl_append]

/-- A string of exactly `n` octets. -/
@[ext]
structure Octets (n : Nat) where
  toList : List UInt8
  length_toList : toList.length = n
deriving DecidableEq, Repr

namespace Octets

variable {m n : Nat}

/-- The octets as a string of width `n`, if there are exactly that many. -/
def ofList? (n : Nat) (bs : List UInt8) : Option (Octets n) :=
  if h : bs.length = n then some ⟨bs, h⟩ else none

theorem ofList?_toList (o : Octets n) : ofList? n o.toList = some o := by
  rw [ofList?, dif_pos o.length_toList]

/-- The same octet `n` times. -/
def replicate (n : Nat) (b : UInt8) : Octets n :=
  ⟨List.replicate n b, List.length_replicate⟩

/-- The string of zero octets. -/
def zero (n : Nat) : Octets n := replicate n 0

/-- The integer that the string stands for. -/
def value (o : Octets n) : Nat := bigEndian o.toList

/-- Two strings one after the other. -/
def append (a : Octets m) (b : Octets n) : Octets (m + n) :=
  ⟨a.toList ++ b.toList, by simp [a.length_toList, b.length_toList]⟩

/-- The first `m` octets and the remaining `n`. -/
def split (o : Octets (m + n)) : Octets m × Octets n :=
  (⟨o.toList.take m, by simp [o.length_toList]⟩,
   ⟨o.toList.drop m, by simp [o.length_toList]⟩)

theorem split_append (a : Octets m) (b : Octets n) : (a.append b).split = (a, b) := by
  simp [append, split, a.length_toList]

/-- The string with octets written over it from place `i` on.  They must fit. -/
def write (o : Octets n) (i : Nat) (bs : List UInt8) (h : i + bs.length ≤ n) : Octets n :=
  ⟨o.toList.take i ++ bs ++ o.toList.drop (i + bs.length), by
    simp only [List.length_append, List.length_take, List.length_drop, o.length_toList]
    omega⟩

theorem length_take_append (o : Octets n) (i : Nat) (bs : List UInt8) (h : i + bs.length ≤ n) :
    (o.toList.take i ++ bs).length = i + bs.length := by
  simp only [List.length_append, List.length_take, o.length_toList]
  omega

/-- What stands before the end of what is written. -/
theorem take_write (o : Octets n) (i : Nat) (bs : List UInt8) (h : i + bs.length ≤ n) :
    (o.write i bs h).toList.take (i + bs.length) = o.toList.take i ++ bs :=
  List.take_left' (o.length_take_append i bs h)

/-- What is written up to the end leaves nothing of the old string behind it. -/
theorem toList_write_end (o : Octets n) (i : Nat) (bs : List UInt8) (h : i + bs.length = n) :
    (o.write i bs (Nat.le_of_eq h)).toList = o.toList.take i ++ bs := by
  have htake := o.take_write i bs (Nat.le_of_eq h)
  rwa [List.take_of_length_le (Nat.le_of_eq ((length_toList _).trans h.symm))] at htake

/-- Two strings written one behind the other are written joined. -/
theorem write_write (o : Octets n) (i : Nat) (as bs : List UInt8) (h : i + as.length ≤ n)
    (h' : i + as.length + bs.length ≤ n) : (o.write i as h).write (i + as.length) bs h' =
      o.write i (as ++ bs) (by rw [List.length_append]; omega) := by
  have hbehind : (o.write i as h).toList.drop (i + as.length + bs.length) =
      o.toList.drop (i + (as ++ bs).length) := by
    rw [← List.drop_drop, write, List.drop_left' (o.length_take_append i as h), List.drop_drop,
      List.length_append, Nat.add_assoc]
  apply Octets.ext
  show (o.write i as h).toList.take (i + as.length) ++ bs ++
    (o.write i as h).toList.drop (i + as.length + bs.length) = _
  rw [take_write, hbehind, List.append_assoc (o.toList.take i)]
  rfl

/-- The eight binary digits of an octet, most significant first. -/
def octetBits (b : UInt8) : List Bool :=
  [7, 6, 5, 4, 3, 2, 1, 0].map fun i => (b >>> i) &&& 1 == 1

/-- The binary digits of the string, most significant first. -/
def bits (o : Octets n) : List Bool := o.toList.flatMap octetBits

/-- The two hexadecimal digits of an octet, most significant first. -/
def octetNibbles (b : UInt8) : List UInt8 := [b >>> 4, b &&& 0x0F]

/-- The hexadecimal digits of the string, most significant first. -/
def nibbles (o : Octets n) : List UInt8 := o.toList.flatMap octetNibbles

end Octets

end Secp256r1
