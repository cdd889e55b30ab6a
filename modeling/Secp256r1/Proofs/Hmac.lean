import Mathlib.Order.Basic
import Secp256r1.Hmac
import Secp256r1.Proofs.Sha256.Absorption

/-!
# The streaming code is the keyed hash

Over a hash function that absorbs piece by piece, the code of some strings is
`H(K xor opad ∥ H(K xor ipad ∥ data))` of the strings joined, however they are cut.

* `HashFunction.Lawful` — the digest depends on the joined pieces only, and it fits a block.
* `lawful_sha256` — SHA-256 is lawful.
* `Hmac.blockKey`, `Hmac.tag` — the formula.
* `Hmac.take_keyBlock` — the block picked under a mask is the key or its digest.
* `Hmac.update_of_closed`, `Hmac.finalize_of_closed` — **a code that handed out its tag refuses and
  stays as it is**.
* `Hmac.macParts_eq` — **the streaming code never fails and is the formula**.
* `Hmac.mac_exact` — **a block that is too large is the only failure**, and otherwise each way to
  compute a code gives the formula.
-/

set_option autoImplicit false

namespace Secp256r1

/-- The digest depends on the joined pieces only, and it fits a block. -/
structure HashFunction.Lawful {η : Type} (H : HashFunction η) : Prop where
  digest_flatten : ∀ parts : List (List UInt8),
    (H.finalize (parts.foldl H.update H.fresh)).1 = H.digest parts.flatten
  outputSize_le : H.outputSize ≤ H.blockSize

theorem lawful_sha256 : sha256.Lawful where
  digest_flatten parts :=
    (Sha256.absorbed_fresh.foldl_update parts).digest_eq.trans
      (Sha256.absorbed_fresh.update parts.flatten).digest_eq.symm
  outputSize_le := by decide

namespace Hmac

variable {η : Type} {H : HashFunction η}

/-- The key, or its digest if it is longer than a block, with zeros up to a block. -/
def blockKey (H : HashFunction η) (key : List UInt8) : List UInt8 :=
  let short := if H.blockSize < key.length then (H.digest key).toList else key
  short ++ List.replicate (H.blockSize - short.length) 0

/-- The code of a string under a key. -/
def tag (H : HashFunction η) (key data : List UInt8) : Octets H.outputSize :=
  let inner := H.digest ((blockKey H key).map (· ^^^ 0x36) ++ data)
  H.digest ((blockKey H key).map (· ^^^ 0x5c) ++ inner.toList)

/-! ## The block and the pads -/

/-- Filling with zeros and cutting fills up what is short enough. -/
theorem toList_fit {n : Nat} {bs : List UInt8} (h : bs.length ≤ n) :
    (fit n bs).toList = bs ++ List.replicate (n - bs.length) 0 := by
  show (bs ++ List.replicate n 0).take n = _
  rw [List.take_append, List.take_of_length_le h, List.take_replicate, Nat.min_eq_left (by omega)]

/-- What was filled up is still there. -/
theorem take_fit {n : Nat} {bs : List UInt8} (h : bs.length ≤ n) :
    (fit n bs).toList.take bs.length = bs := by
  rw [toList_fit h]
  exact List.take_left

/-- The mask of a flag picks one octet. -/
theorem selectMasked_flag (p : Prop) [Decidable p] (a b : UInt8) :
    selectMasked (0 - if p then 1 else 0) a b = if p then a else b := by
  unfold selectMasked
  split <;> simp

/-- **The mask of a flag picks one string whole.** -/
theorem zipWith_selectMasked {n : Nat} (p : Prop) [Decidable p] (a b : Octets n) :
    List.zipWith (selectMasked (0 - if p then 1 else 0)) a.toList b.toList =
      (if p then a else b).toList := by
  have hlength := a.length_toList.trans b.length_toList.symm
  apply List.ext_getElem
  · rw [List.length_zipWith, hlength, Nat.min_self, Octets.length_toList, Octets.length_toList]
  · intro i hi hi'
    rw [List.getElem_zipWith, selectMasked_flag]
    split <;> rfl

/-- The key of a block fills it. -/
theorem length_blockKey (hsize : H.outputSize ≤ H.blockSize) (key : List UInt8) :
    (blockKey H key).length = H.blockSize := by
  have hdigest := (H.digest key).length_toList
  unfold blockKey
  dsimp only
  rw [List.length_append, List.length_replicate]
  split <;> omega

/-- **The block holds the key, or its digest exactly if the key is longer than a block.** -/
theorem take_keyBlock (hsize : H.outputSize ≤ H.blockSize) (hB : H.blockSize ≤ maxBlockSize)
    (key : List UInt8) : (keyBlock H key).octets.toList.take H.blockSize = blockKey H key := by
  have hdigest : (H.digest key).toList.length ≤ H.blockSize := by
    rw [Octets.length_toList]
    exact hsize
  have hpicked : (if H.blockSize < key.length then fit H.blockSize (H.digest key).toList
      else fit H.blockSize key).toList = blockKey H key := by
    unfold blockKey
    split
    · exact toList_fit hdigest
    · exact toList_fit (by omega)
  have htake := take_fit ((length_blockKey hsize key).trans_le hB)
  rw [length_blockKey hsize] at htake
  unfold keyBlock
  dsimp only
  rw [zipWith_selectMasked, hpicked]
  exact htake

/-- A pad is the key of a block changed by the same bits. -/
theorem take_pad (hsize : H.outputSize ≤ H.blockSize) (hB : H.blockSize ≤ maxBlockSize)
    (key : List UInt8) (bits : UInt8) :
    (pad (keyBlock H key) H.blockSize bits).octets.toList.take H.blockSize =
      (blockKey H key).map (· ^^^ bits) := by
  have hlength : ((blockKey H key).map (· ^^^ bits)).length = H.blockSize := by
    rw [List.length_map, length_blockKey hsize]
  have htake := take_fit (hlength.trans_le hB)
  rw [hlength] at htake
  unfold pad
  rw [take_keyBlock hsize hB]
  exact htake

/-! ## A code from its start to its tag -/

/-- A code that fits starts with its inner pad absorbed and its outer pad kept. -/
theorem exists_new (hH : H.Lawful) (hB : H.blockSize ≤ maxBlockSize) (key : List UInt8) :
    ∃ opened, new H key = .ok opened ∧ opened.isFinalized = false ∧
      opened.inner = H.update H.fresh ((blockKey H key).map (· ^^^ 0x36)) ∧
      opened.outerPad.octets.toList.take opened.blockSize =
        (blockKey H key).map (· ^^^ 0x5c) := by
  have hpad := take_pad hH.outputSize_le hB key
  unfold new
  rw [if_neg (Nat.not_lt.mpr hB)]
  exact ⟨_, rfl, rfl, congrArg (H.update H.fresh) (hpad 0x36), hpad 0x5c⟩

theorem update_of_open {h : Hmac η} (hopen : h.isFinalized = false) (data : List UInt8) :
    update H h data = (.ok (), { h with inner := H.update h.inner data }) := by
  unfold update
  rw [hopen]
  rfl

/-- **A code that handed out its tag refuses data and stays as it is.** -/
theorem update_of_closed {h : Hmac η} (hclosed : h.isFinalized = true) (data : List UInt8) :
    update H h data =
      (.error (.parameter "hmac_state" "Cannot update after finalization"), h) := by
  unfold update
  rw [hclosed]
  rfl

/-- The tag that a code hands out. -/
theorem finalize_of_open {h : Hmac η} (hopen : h.isFinalized = false) :
    finalize H h = (.ok (H.digestAfter
      (H.update H.fresh (h.outerPad.octets.toList.take h.blockSize))
      (H.finalize h.inner).1.toList),
      { h with inner := (H.finalize h.inner).2, isFinalized := true }) := by
  unfold finalize
  rw [hopen]
  rfl

/-- **A code that handed out its tag refuses another and stays as it is.** -/
theorem finalize_of_closed {h : Hmac η} (hclosed : h.isFinalized = true) :
    finalize H h = (.error (.parameter "hmac_state" "HMAC already finalized"), h) := by
  unfold finalize
  rw [hclosed]
  rfl

/-- A code that has not handed out its tag takes whatever it is given. -/
theorem updateAll_of_open {h : Hmac η} (hopen : h.isFinalized = false)
    (parts : List (List UInt8)) :
    updateAll H h parts = (.ok (), { h with inner := parts.foldl H.update h.inner }) := by
  induction parts generalizing h with
  | nil => rfl
  | cons part parts ih =>
    rw [updateAll, update_of_open hopen]
    exact ih hopen

/-- Two strings absorbed by a new hasher. -/
theorem digestAfter_update (hH : H.Lawful) (a b : List UInt8) :
    H.digestAfter (H.update H.fresh a) b = H.digest (a ++ b) := by
  have hparts := hH.digest_flatten [a, b]
  rwa [List.flatten_cons, List.flatten_cons, List.flatten_nil, List.append_nil] at hparts

/-- **A code that is started, fed and closed hands out the keyed hash of what it was fed.** -/
theorem run_eq (hH : H.Lawful) (hB : H.blockSize ≤ maxBlockSize) (key : List UInt8)
    (parts : List (List UInt8)) :
    ∃ opened fed closed, new H key = .ok opened ∧ updateAll H opened parts = (.ok (), fed) ∧
      finalize H fed = (.ok (tag H key parts.flatten), closed) := by
  obtain ⟨opened, hnew, hopen, hinner, houter⟩ := exists_new hH hB key
  have hclosed := finalize_of_open (H := H)
    (h := { opened with inner := parts.foldl H.update opened.inner }) hopen
  have hdigest : (H.finalize (parts.foldl H.update opened.inner)).1 =
      H.digest ((blockKey H key).map (· ^^^ 0x36) ++ parts.flatten) := by
    rw [hinner]
    exact hH.digest_flatten ((blockKey H key).map (· ^^^ 0x36) :: parts)
  rw [houter, hdigest, digestAfter_update hH] at hclosed
  exact ⟨opened, _, _, hnew, updateAll_of_open hopen parts, hclosed⟩

/-- **The streaming code never fails and is the keyed hash of the joined strings.** -/
theorem macParts_eq (hH : H.Lawful) (hB : H.blockSize ≤ maxBlockSize) (key : List UInt8)
    (parts : List (List UInt8)) : macParts H key parts = .ok (tag H key parts.flatten) := by
  obtain ⟨opened, fed, closed, hnew, hfed, hclosed⟩ := run_eq hH hB key parts
  unfold macParts
  rw [hnew]
  simp only [bind, Except.bind, hfed, hclosed]

/-- A block that is too large is the only reason not to start. -/
theorem new_eq_error_iff (H : HashFunction η) (key : List UInt8) (e : ArithmeticError) :
    new H key = .error e ↔ maxBlockSize < H.blockSize ∧
      e = .parameter "hmac_block_size" "hash block size exceeds 64 bytes" := by
  unfold new
  split
  · rename_i hlarge
    constructor
    · intro h
      cases h
      exact ⟨hlarge, rfl⟩
    · rintro ⟨-, rfl⟩
      rfl
  · rename_i hfits
    constructor
    · intro h
      cases h
    · rintro ⟨hlarge, -⟩
      exact absurd hlarge hfits

/-- **A code fails to start exactly if the block is too large; otherwise the tag of several strings,
the tag of their join, and what any code hands out that was fed the same octets in any pieces are
the keyed hash.** -/
theorem mac_exact (hH : H.Lawful) (key : List UInt8) :
    (∀ e, new H key = .error e ↔ maxBlockSize < H.blockSize ∧
      e = .parameter "hmac_block_size" "hash block size exceeds 64 bytes") ∧
    (H.blockSize ≤ maxBlockSize → ∀ parts : List (List UInt8),
      macParts H key parts = .ok (tag H key parts.flatten) ∧
      mac H key parts.flatten = .ok (tag H key parts.flatten) ∧
      ∀ pieces : List (List UInt8), pieces.flatten = parts.flatten →
        ∃ opened fed closed, new H key = .ok opened ∧
          updateAll H opened pieces = (.ok (), fed) ∧
          finalize H fed = (.ok (tag H key parts.flatten), closed)) := by
  refine ⟨new_eq_error_iff H key, fun hB parts => ⟨macParts_eq hH hB key parts, ?_, ?_⟩⟩
  · have hone := macParts_eq hH hB key [parts.flatten]
    rwa [List.flatten_cons, List.flatten_nil, List.append_nil] at hone
  · intro pieces hpieces
    rw [← hpieces]
    exact run_eq hH hB key pieces

/-- Over SHA-256, a key longer than a block and three octets cut in two ways; and over the same
function with a block that is too large. -/
theorem mac_exact_sha256 :
    (∃ opened fed closed, new sha256 (List.replicate 65 0xaa) = .ok opened ∧
      updateAll sha256 opened [[1], [], [2, 3]] = (.ok (), fed) ∧
      finalize sha256 fed = (.ok (tag sha256 (List.replicate 65 0xaa) [1, 2, 3]), closed)) ∧
    macParts sha256 (List.replicate 65 0xaa) [[1, 2], [3]] =
      .ok (tag sha256 (List.replicate 65 0xaa) [1, 2, 3]) ∧
    new { sha256 with blockSize := 65 } [] =
      .error (.parameter "hmac_block_size" "hash block size exceeds 64 bytes") := by
  obtain ⟨hparts, -, hpieces⟩ :=
    (mac_exact lawful_sha256 (List.replicate 65 0xaa)).2 (by decide) [[1, 2], [3]]
  have hlarge : HashFunction.Lawful { sha256 with blockSize := 65 } :=
    ⟨lawful_sha256.digest_flatten, by decide⟩
  exact ⟨hpieces [[1], [], [2, 3]] rfl, hparts,
    ((mac_exact hlarge []).1 _).mpr ⟨by decide, rfl⟩⟩

end Hmac

end Secp256r1
