import Secp256r1.ArithmeticError
import Secp256r1.SecretBuffer
import Secp256r1.Sha256

/-!
# Keyed message authentication

The HMAC of data under a key is `H(K xor opad ∥ H(K xor ipad ∥ data))`, where `K` is the key,
or its digest if it is longer than a block, filled up with zeros to a block.

* `Hmac.keyBlock` — the block `K`, picked octet by octet from the key and its digest.
* `Hmac.new`, `Hmac.update`, `Hmac.finalize`, `Hmac.wipe` — a code computed piece by piece;
  after its tag is taken it refuses both until it is wiped.  Both answer together with the code
  that they leave, whether they refuse or not.
* `Hmac.copy` — another code in the same state.
* `Hmac.updateAll` — several strings, up to one that is refused.
* `Hmac.macParts`, `Hmac.mac` — the tag of several strings, or of one.
-/

set_option autoImplicit false

namespace Secp256r1

/-- Octets of the largest block a code can work with. -/
def Hmac.maxBlockSize : Nat := 64

/-- A code under computation. -/
structure Hmac (η : Type) where
  /-- The inner hasher. -/
  inner : η
  /-- The outer pad, zero beyond the block. -/
  outerPad : SecretBuffer Hmac.maxBlockSize
  /-- How many octets of the outer pad count. -/
  blockSize : Nat
  isFinalized : Bool

namespace Hmac

variable {η : Type}

/-- A string cut or filled with zeros to `n` octets. -/
def fit (n : Nat) (bs : List UInt8) : Octets n :=
  ⟨(bs ++ List.replicate n 0).take n, by simp⟩

/-- The first octet under a mask of ones, the second under a mask of zeros. -/
def selectMasked (mask a b : UInt8) : UInt8 := (a &&& mask) ||| (b &&& ~~~mask)

/-- The key as one block, zero beyond the block.  The key is always hashed, and every octet of the
block is picked from the digest or the key by a mask that tells whether the key is longer than a
block. -/
def keyBlock (H : HashFunction η) (key : List UInt8) : SecretBuffer maxBlockSize :=
  let hashed := (H.digest key).toList
  let long : UInt8 := if H.blockSize < key.length then 1 else 0
  let picked := List.zipWith (selectMasked (0 - long)) (fit H.blockSize hashed).toList
    (fit H.blockSize key).toList
  ⟨fit maxBlockSize picked⟩

/-- The first octets of a block changed by the same bits, zero beyond them. -/
def pad (block : SecretBuffer maxBlockSize) (count : Nat) (bits : UInt8) :
    SecretBuffer maxBlockSize :=
  ⟨fit maxBlockSize ((block.octets.toList.take count).map (· ^^^ bits))⟩

/-- Starts a code under a key. -/
def new (H : HashFunction η) (key : List UInt8) : Except ArithmeticError (Hmac η) :=
  if maxBlockSize < H.blockSize then
    .error (.parameter "hmac_block_size" "hash block size exceeds 64 bytes")
  else
    let block := keyBlock H key
    let innerPad := pad block H.blockSize 0x36
    .ok { inner := H.update H.fresh (innerPad.octets.toList.take H.blockSize)
          outerPad := pad block H.blockSize 0x5c
          blockSize := H.blockSize
          isFinalized := false }

/-- Absorbs data.  A code that handed out its tag refuses and stays as it is. -/
def update (H : HashFunction η) (h : Hmac η) (data : List UInt8) :
    Except ArithmeticError Unit × Hmac η :=
  if h.isFinalized then
    (.error (.parameter "hmac_state" "Cannot update after finalization"), h)
  else (.ok (), { h with inner := H.update h.inner data })

/-- Absorbs strings one after the other, up to one that is refused. -/
def updateAll (H : HashFunction η) (h : Hmac η) :
    List (List UInt8) → Except ArithmeticError Unit × Hmac η
  | [] => (.ok (), h)
  | part :: parts =>
    match update H h part with
    | (.error e, h) => (.error e, h)
    | (.ok (), h) => updateAll H h parts

/-- The tag, which closes the code.  A code that handed out its tag refuses and stays as it is. -/
def finalize (H : HashFunction η) (h : Hmac η) :
    Except ArithmeticError (Octets H.outputSize) × Hmac η :=
  if h.isFinalized then (.error (.parameter "hmac_state" "HMAC already finalized"), h)
  else
    let (innerDigest, rest) := H.finalize h.inner
    let outer := H.update H.fresh (h.outerPad.octets.toList.take h.blockSize)
    (.ok (H.digestAfter outer innerDigest.toList), { h with inner := rest, isFinalized := true })

/-- The code overwritten with zeros: its outer pad is empty and it accepts data again. -/
def wipe (H : HashFunction η) (h : Hmac η) : Hmac η :=
  { inner := H.wipe h.inner, outerPad := h.outerPad.wipe, blockSize := 0, isFinalized := false }

/-- Another code in the same state. -/
def copy (H : HashFunction η) (h : Hmac η) : Hmac η :=
  { inner := H.copy h.inner
    outerPad := h.outerPad
    blockSize := h.blockSize
    isFinalized := h.isFinalized }

/-- The tag of strings taken one after the other. -/
def macParts (H : HashFunction η) (key : List UInt8) (parts : List (List UInt8)) :
    Except ArithmeticError (Octets H.outputSize) := do
  let (fed, h) := updateAll H (← new H key) parts
  fed
  (finalize H h).1

/-- The tag of one string. -/
def mac (H : HashFunction η) (key data : List UInt8) :
    Except ArithmeticError (Octets H.outputSize) :=
  macParts H key [data]

end Hmac

end Secp256r1
