import Secp256r1.Proofs.Histories
import Secp256r1.Proofs.Hmac

/-!
# Codes over any history

Codes over SHA-256 are made under keys, copied, fed, closed and wiped in any order.  Each stands for
an account: what its tag is hashed behind, what it absorbed, and whether the tag was handed out.

* `Hmac.codes` — the codes of the library as objects.
* `Hmac.accounts` — accounts as objects, with tags by the standard hash.
* `Hmac.simulates` — a code and its account answer alike.
* `Hmac.answerAll_of_closed` — **a code that handed out its tag refuses everything but a wipe**.
* `Hmac.countP_answerAll_le` — **without a wipe there is at most one tag**.
* `Hmac.answerAll_wiped` — **the tag after a wipe depends on no key**.
* `Hmac.one_shot_histories` — these of each code in every history, its copies included.
-/

set_option autoImplicit false

namespace Secp256r1

namespace Hmac

open Sha256

/-! ## Codes and accounts -/

/-- What can be done to a code. -/
inductive Operation
  | update (data : List UInt8)
  | finalize
  | wipe
deriving DecidableEq

/-- What a code answers: nothing, its tag, or why it refuses. -/
inductive Answer
  | done
  | tag (octets : Octets 32)
  | refused (e : ArithmeticError)
deriving DecidableEq

/-- What data is answered by. -/
def Answer.ofUpdate : Except ArithmeticError Unit → Answer
  | .ok () => .done
  | .error e => .refused e

/-- What the request for a tag is answered by. -/
def Answer.ofFinalize : Except ArithmeticError (Octets 32) → Answer
  | .ok octets => .tag octets
  | .error e => .refused e

def Answer.isTag : Answer → Bool
  | .tag _ => true
  | _ => false

/-- What a code answers that handed out its tag. -/
def refusal : Operation → Answer
  | .update _ => .refused (.parameter "hmac_state" "Cannot update after finalization")
  | .finalize => .refused (.parameter "hmac_state" "HMAC already finalized")
  | .wipe => .done

theorem new_sha256_ne_error (key : List UInt8) (e : ArithmeticError) :
    new sha256 key ≠ .error e := by
  obtain ⟨opened, hnew, -⟩ := exists_new lawful_sha256 (by decide) key
  rw [hnew]
  exact nofun

/-- A code over SHA-256 under a key. -/
def opened (key : List UInt8) : Hmac Sha256 :=
  match hnew : new sha256 key with
  | .ok code => code
  | .error e => absurd hnew (new_sha256_ne_error key e)

theorem new_sha256 (key : List UInt8) : new sha256 key = .ok (opened key) := by
  unfold opened
  split
  · assumption
  · rename_i e hnew
    exact absurd hnew (new_sha256_ne_error key e)

/-- The codes of the library as objects. -/
def codes : Objects (List UInt8) Operation Answer (Hmac Sha256) where
  make := opened
  copy := Hmac.copy sha256
  perform
    | h, .update data =>
      let (result, next) := update sha256 h data
      (next, .ofUpdate result)
    | h, .finalize =>
      let (result, next) := finalize sha256 h
      (next, .ofFinalize result)
    | h, .wipe => (Hmac.wipe sha256 h, .done)

/-- What a code stands for. -/
structure Account where
  /-- What the inner digest is hashed behind. -/
  outer : List UInt8
  /-- The chaining value that the inner digest starts from. -/
  start : Chaining
  /-- The octets absorbed, those of the inner pad included. -/
  octets : List UInt8
  /-- Whether the tag was handed out. -/
  isClosed : Bool

/-- The tag that an account comes to. -/
def Account.tag (a : Account) : Octets 32 :=
  Standard.digest Standard.initial (a.outer ++ (Standard.digest a.start a.octets).toList)

/-- Nothing absorbed, zeros to start from, and nothing to hash behind. -/
def Account.wiped : Account := ⟨[], ⟨0, 0, 0, 0, 0, 0, 0, 0⟩, [], false⟩

/-- Accounts as objects.  A new one has absorbed the inner pad of its key; once it is closed only a
wipe opens it again. -/
def accounts : Objects (List UInt8) Operation Answer Account where
  make key :=
    { outer := (blockKey sha256 key).map (· ^^^ 0x5c)
      start := Standard.initial
      octets := (blockKey sha256 key).map (· ^^^ 0x36)
      isClosed := false }
  copy a := a
  perform
    | a, .update data =>
      if a.isClosed then (a, refusal (.update data))
      else ({ a with octets := a.octets ++ data }, .done)
    | a, .finalize =>
      if a.isClosed then (a, refusal .finalize) else ({ a with isClosed := true }, .tag a.tag)
    | _, .wipe => (.wiped, .done)

/-! ## One operation -/

/-- No field is lost in a copy. -/
theorem codes_copy (h : Hmac Sha256) : codes.copy h = h := rfl

theorem perform_update {h : Hmac Sha256} (hopen : h.isFinalized = false) (data : List UInt8) :
    codes.perform h (.update data) = ({ h with inner := h.inner.update data }, .done) := by
  unfold codes
  dsimp only
  rw [update_of_open hopen]
  rfl

theorem perform_finalize {h : Hmac Sha256} (hopen : h.isFinalized = false) :
    codes.perform h .finalize =
      ({ h with inner := h.inner.finalize.2, isFinalized := true },
       .tag (sha256.digestAfter (fresh.update (h.outerPad.octets.toList.take h.blockSize))
         h.inner.finalize.1.toList)) := by
  unfold codes
  dsimp only
  rw [finalize_of_open hopen]
  rfl

/-- **A code that handed out its tag refuses and stays as it is**, unless it is wiped. -/
theorem perform_of_closed {h : Hmac Sha256} (hclosed : h.isFinalized = true) {operation : Operation}
    (hne : operation ≠ .wipe) : codes.perform h operation = (h, refusal operation) := by
  cases operation with
  | update data =>
    unfold codes
    dsimp only
    rw [update_of_closed hclosed]
    rfl
  | finalize =>
    unfold codes
    dsimp only
    rw [finalize_of_closed hclosed]
    rfl
  | wipe => exact absurd rfl hne

/-- Whether or not it hands out its tag, the code is closed. -/
theorem isFinalized_finalize (h : Hmac Sha256) :
    (codes.perform h .finalize).1.isFinalized = true := by
  cases hfinalized : h.isFinalized with
  | false => rw [perform_finalize hfinalized]
  | true =>
    rw [perform_of_closed hfinalized Operation.noConfusion]
    exact hfinalized

/-- Data is answered by no tag. -/
theorem isTag_update (h : Hmac Sha256) (data : List UInt8) :
    (codes.perform h (.update data)).2.isTag = false := by
  show (Answer.ofUpdate (update sha256 h data).1).isTag = false
  cases (update sha256 h data).1 <;> rfl

theorem isTag_refusal (operation : Operation) : (refusal operation).isTag = false := by
  cases operation <;> rfl

/-! ## A code and its account -/

/-- A code stands for an account.  Nothing is said of the inner hasher of a closed code, which starts
afresh with its digest and is not read again. -/
structure StandsFor (h : Hmac Sha256) (a : Account) : Prop where
  isFinalized_eq : h.isFinalized = a.isClosed
  outer_eq : h.outerPad.octets.toList.take h.blockSize = a.outer
  absorbed : a.isClosed = false → h.inner.Absorbed a.start a.octets

theorem digestAfter_sha256 (earlier later : List UInt8) :
    sha256.digestAfter (fresh.update earlier) later =
      Standard.digest Standard.initial (earlier ++ later) := by
  rw [← initial_eq]
  exact ((absorbed_fresh.update earlier).update later).digest_eq

theorem standsFor_opened (key : List UInt8) : StandsFor (opened key) (accounts.make key) := by
  obtain ⟨code, hnew, hopen, hinner, houter⟩ := exists_new lawful_sha256 (by decide) key
  rw [new_sha256] at hnew
  cases hnew
  refine ⟨hopen, houter, fun _ => ?_⟩
  have habsorbed := absorbed_fresh.update ((blockKey sha256 key).map (· ^^^ 0x36))
  rw [initial_eq] at habsorbed
  rw [hinner]
  exact habsorbed

theorem standsFor_wipe (h : Hmac Sha256) : StandsFor (Hmac.wipe sha256 h) .wiped :=
  ⟨rfl, rfl, fun _ => absorbed_wipe h.inner⟩

theorem accounts_update {a : Account} (hopen : a.isClosed = false) (data : List UInt8) :
    accounts.perform a (.update data) = ({ a with octets := a.octets ++ data }, .done) :=
  if_neg (by rw [hopen]; exact Bool.false_ne_true)

theorem accounts_finalize {a : Account} (hopen : a.isClosed = false) :
    accounts.perform a .finalize = ({ a with isClosed := true }, .tag a.tag) :=
  if_neg (by rw [hopen]; exact Bool.false_ne_true)

theorem accounts_perform_of_closed {a : Account} (hclosed : a.isClosed = true)
    {operation : Operation} (hne : operation ≠ .wipe) :
    accounts.perform a operation = (a, refusal operation) := by
  cases operation with
  | update data => exact if_pos hclosed
  | finalize => exact if_pos hclosed
  | wipe => exact absurd rfl hne

/-- **A code and its account answer alike**, and stay together. -/
theorem simulates : codes.Simulates accounts StandsFor where
  make := standsFor_opened
  copy {h a} hrel := by
    rw [codes_copy]
    exact hrel
  perform {h a} hrel operation := by
    by_cases hwipe : operation = .wipe
    · rw [hwipe]
      exact ⟨standsFor_wipe h, rfl⟩
    · cases hclosed : a.isClosed with
      | true =>
        rw [perform_of_closed (hrel.isFinalized_eq.trans hclosed) hwipe,
          accounts_perform_of_closed hclosed hwipe]
        exact ⟨hrel, rfl⟩
      | false =>
        have hopen := hrel.isFinalized_eq.trans hclosed
        have habsorbed := hrel.absorbed hclosed
        cases operation with
        | update data =>
          rw [perform_update hopen, accounts_update hclosed]
          exact ⟨⟨hrel.isFinalized_eq, hrel.outer_eq, fun _ => habsorbed.update data⟩, rfl⟩
        | finalize =>
          rw [perform_finalize hopen, accounts_finalize hclosed, digestAfter_sha256,
            habsorbed.digest_eq, hrel.outer_eq]
          exact ⟨⟨rfl, hrel.outer_eq, fun h => nomatch h⟩, rfl⟩
        | wipe => exact absurd rfl hwipe

/-! ## Several operations -/

/-- **A code that handed out its tag refuses everything until it is wiped**, and stays as it is. -/
theorem answerAll_of_closed {h : Hmac Sha256} (hclosed : h.isFinalized = true)
    {operations : List Operation} (hwipe : .wipe ∉ operations) :
    codes.performAll h operations = h ∧ codes.answerAll h operations = operations.map refusal := by
  induction operations with
  | nil => exact ⟨rfl, rfl⟩
  | cons operation operations ih =>
    obtain ⟨hperform, hanswer⟩ := ih (List.not_mem_of_not_mem_cons hwipe)
    have hstep := perform_of_closed hclosed (List.ne_of_not_mem_cons hwipe).symm
    constructor
    · rw [Objects.performAll, List.foldl_cons, hstep]
      exact hperform
    · rw [Objects.answerAll, hstep, hanswer]
      rfl

/-- **Without a wipe there is at most one tag.** -/
theorem countP_answerAll_le (h : Hmac Sha256) {operations : List Operation}
    (hwipe : .wipe ∉ operations) : (codes.answerAll h operations).countP Answer.isTag ≤ 1 := by
  induction operations generalizing h with
  | nil => exact Nat.zero_le 1
  | cons operation operations ih =>
    have hrest : .wipe ∉ operations := List.not_mem_of_not_mem_cons hwipe
    rw [Objects.answerAll]
    cases operation with
    | update data =>
      rw [List.countP_cons_of_neg (by rw [isTag_update]; exact Bool.false_ne_true)]
      exact ih _ hrest
    | finalize =>
      -- from here on the code is closed
      have hrefusals : (operations.map refusal).countP Answer.isTag = 0 := by
        rw [List.countP_eq_zero]
        intro answer hanswer
        obtain ⟨operation, -, rfl⟩ := List.mem_map.mp hanswer
        rw [isTag_refusal]
        exact Bool.false_ne_true
      rw [(answerAll_of_closed (isFinalized_finalize h) hrest).2, List.countP_cons, hrefusals]
      split <;> decide
    | wipe => exact absurd rfl (List.ne_of_not_mem_cons hwipe)

/-- An open account absorbs whatever it is given. -/
theorem accounts_pieces {a : Account} (hopen : a.isClosed = false) (pieces : List (List UInt8)) :
    accounts.performAll a (pieces.map .update) = { a with octets := a.octets ++ pieces.flatten } ∧
      accounts.answerAll a (pieces.map .update) = pieces.map fun _ => .done := by
  induction pieces generalizing a with
  | nil =>
    rw [List.flatten_nil, List.append_nil]
    exact ⟨rfl, rfl⟩
  | cons piece pieces ih =>
    have hstep := accounts_update hopen piece
    obtain ⟨hperform, hanswer⟩ := ih (a := { a with octets := a.octets ++ piece }) hopen
    constructor
    · rw [List.map_cons, Objects.performAll, List.foldl_cons, hstep, List.flatten_cons,
        ← List.append_assoc]
      exact hperform
    · rw [List.map_cons, Objects.answerAll, hstep, hanswer]
      rfl

/-- **After a wipe a code accepts data, and its tag depends on that data alone.** -/
theorem answerAll_wiped (h : Hmac Sha256) (pieces : List (List UInt8)) :
    codes.answerAll h (.wipe :: pieces.map .update ++ [.finalize]) =
      .done :: pieces.map (fun _ => .done) ++
        [.tag (Standard.digest Standard.initial
          (Standard.digest ⟨0, 0, 0, 0, 0, 0, 0, 0⟩ pieces.flatten).toList)] := by
  obtain ⟨hperform, hanswer⟩ := accounts_pieces (a := .wiped) rfl pieces
  have hrest := simulates.answerAll (standsFor_wipe h) (pieces.map .update ++ [.finalize])
  rw [accounts.answerAll_append, hperform, hanswer] at hrest
  exact congrArg (Answer.done :: ·) hrest

/-! ## Histories -/

open Objects in
/-- **A code hands out at most one tag between two wipes, whatever happens to it.**

* Every key opens a code, and every history of codes answers as that of their accounts.
* At every stage of a history each code goes on by itself; if it is copied, so do both.  Until it is
  wiped it hands out at most one tag.
* Once it was asked for its tag it refuses everything and stays as it is, until it is wiped.
* A wiped code accepts data, and its next tag is the digest of a digest that starts from zeros and
  saw that data and no key. -/
theorem one_shot_histories :
    (∀ key, new sha256 key = .ok (codes.make key)) ∧
    (∀ commands, (codes.run [] commands).2 = (accounts.run [] commands).2) ∧
    (∀ earlier k h, (codes.run [] earlier).1[k]? = some h →
      codes.BehavesAs (codes.run [] earlier).1 k h ∧
      codes.BehavesAs (codes.run [] (earlier ++ [.copy k])).1 k h ∧
      codes.BehavesAs (codes.run [] (earlier ++ [.copy k])).1 (codes.run [] earlier).1.length h ∧
      ∀ later, .wipe ∉ operationsOn k later →
        (answersOn k later (codes.run (codes.run [] earlier).1 later).2).countP
          Answer.isTag ≤ 1) ∧
    (∀ h operations, .wipe ∉ operations →
      codes.performAll h (.finalize :: operations) = (codes.perform h .finalize).1 ∧
      codes.answerAll h (.finalize :: operations) =
        (codes.perform h .finalize).2 :: operations.map refusal) ∧
    ∀ (h : Hmac Sha256) (pieces : List (List UInt8)),
      codes.answerAll h (.wipe :: pieces.map .update ++ [.finalize]) =
        .done :: pieces.map (fun _ => .done) ++
          [.tag (Standard.digest Standard.initial
            (Standard.digest ⟨0, 0, 0, 0, 0, 0, 0, 0⟩ pieces.flatten).toList)] := by
  refine ⟨new_sha256, fun commands => (simulates.run .nil commands).2, fun earlier k h hk => ?_,
    fun h operations hwipe => ?_, answerAll_wiped⟩
  · have hbehaves := codes.behavesAs_of_getElem? hk
    obtain ⟨horiginal, hcopy⟩ := codes.behavesAs_copy hk
    rw [codes_copy] at hcopy
    rw [run_append]
    refine ⟨hbehaves, horiginal, hcopy, fun later hwipe => ?_⟩
    rw [(hbehaves later).2]
    exact countP_answerAll_le h hwipe
  · obtain ⟨hperform, hanswer⟩ := answerAll_of_closed (isFinalized_finalize h) hwipe
    exact ⟨hperform, congrArg (_ :: ·) hanswer⟩

/-- What is done to a code that was just opened, and to a copy of it: it takes `a` and is copied; both
are closed, the copy behind `ab`; then the code refuses more. -/
def sample : List (Objects.Command (List UInt8) Operation) :=
  [.operate 0 (.update [0x61]), .copy 0, .operate 0 .finalize, .operate 1 (.update [0x62]),
   .operate 1 .finalize, .operate 0 (.update [0x62]), .operate 0 .finalize]

open Objects in
/-- The tags are those of `a` and of `ab`; a wipe and `a` once more give a tag that is that of no
key. -/
theorem one_shot_histories_sample :
    .wipe ∉ operationsOn 0 sample ∧
    (answersOn 0 sample
      (codes.run (codes.run [] [.make [0x6b]]).1 sample).2).countP Answer.isTag = 1 ∧
    codes.performAll (opened [0x6b]) [.finalize, .update [0x62], .finalize] =
      (codes.perform (opened [0x6b]) .finalize).1 ∧
    (accounts.run [] (.make [0x6b] :: sample ++
        [.operate 0 .wipe, .operate 0 (.update [0x61]), .operate 0 .finalize])).2 =
      [none, some .done, none,
       some (.tag (.ofNat 32 0x78da91511e675587f5b9df78bedebaf5560da2abb88162ee875dcdf744951d9e)),
       some .done,
       some (.tag (.ofNat 32 0x7475bb119fe9b74cc0af5014a49d80ab23bd1ac82987e7696cdc242288654436)),
       some (.refused (.parameter "hmac_state" "Cannot update after finalization")),
       some (.refused (.parameter "hmac_state" "HMAC already finalized")), some .done, some .done,
       some (.tag
         (.ofNat 32 0x711275142fbeb4ba7062cf52020997158a53f70fe3f38154afeb667d2bce7c77))] := by
  obtain ⟨-, hanswers, hstages, hclosed, -⟩ := one_shot_histories
  have hwipe : .wipe ∉ operationsOn 0 sample := by decide
  obtain ⟨-, -, -, hone⟩ := hstages [.make [0x6b]] 0 (opened [0x6b]) rfl
  refine ⟨hwipe, le_antisymm (hone sample hwipe) (by decide +kernel),
    (hclosed _ [.update [0x62], .finalize] (by decide)).1, (hanswers _).symm.trans ?_⟩
  decide +kernel

end Hmac

end Secp256r1
