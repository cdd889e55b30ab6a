import Secp256r1.Proofs.Engine.Search
import Secp256r1.Proofs.Nonce.Blocks

/-!
# Randomness is never used twice

An engine with random nonces signs one request after the other from one tape.  The calls may
succeed, skip candidates, run out of octets or be refused; however they go, the tape is tested block
by block, and no call ever comes back to a block.

* `Request`, `Engine.signAll` — what is to be signed, and successive calls on one engine.
* `Engine.audited` — the engine with a log of the blocks that it tests.
* `Engine.Spends` — what one call has to do with the blocks that it tests.
* `Engine.Ledger` — the blocks of successive calls (`Ledger.taken`, `Ledger.tested`).
* `Engine.signAll_returns` — random signing ends, whatever the backend answers.
* `Engine.fresh_nonces` — **random signing ends, and no block is tested twice**.
-/

set_option autoImplicit false

namespace Secp256r1

open Rfc6979 (InRange)

/-- A digest to be signed under a key. -/
structure Request where
  digest : Digest
  key : SecretKey

namespace Engine

variable {ν σ β γ : Type} {limit : ℕ}

/-- Successive calls on one engine, their results in order and what they leave; `none` if one of
them does not come to a result. -/
def signAll (limit : ℕ) (e : Engine ν σ β) :
    List Request → Option (List (Except Error (Signature × ℕ)) × Engine ν σ β)
  | [] => some ([], e)
  | q :: qs =>
    match e.signWithNonceCount limit q.digest q.key with
    | none => none
    | some (r, e) => (signAll limit e qs).map fun (rs, e) => (r :: rs, e)

theorem signAll_cons {e e₁ : Engine ν σ β} {q : Request} {r : Except Error (Signature × ℕ)}
    (h : e.signWithNonceCount limit q.digest q.key = some (r, e₁)) (qs : List Request) :
    e.signAll limit (q :: qs) = (e₁.signAll limit qs).map fun (rs, e) => (r :: rs, e) := by
  rw [signAll, h]

/-- The engine with random nonces that writes down each block that it tests, behind a log. -/
def audited (gen : Generator γ) (log : List (Octets 32)) (e : Engine γ Unit β) :
    Engine (γ × List (Octets 32)) Unit β :=
  ⟨.audited gen, e.backend, (e.nonces, log), e.device⟩

/-! ## The blocks of one call -/

/-- The last of the blocks is the nonce of a signature, which comes from the multiple that the
backend has just answered with. -/
def SignsWithLast (z d : ZMod groupOrder) (g : Signature) (e' : Engine γ Unit β)
    (blocks : List (Octets 32)) : Prop :=
  ∃ (t : Trial) (device : β), blocks.getLast? = some t.k.toOctets ∧
    (e'.backend.mulBase t.k).run device = (t.point, e'.device) ∧ t.Signs z d g

/-- What a call from `e` to `e'` with result `r` has to do with the blocks that it tests: they are
what it takes from the tape.  It takes nothing for a disposed key, and leaves the engine alone.  If
it signs, its nonce is the last block, and it has drawn as many candidates as there are blocks in
range. -/
structure Spends (gen : Generator γ) (left : γ → List UInt8) (limit : ℕ) (e : Engine γ Unit β)
    (q : Request) (r : Except Error (Signature × ℕ)) (e' : Engine γ Unit β)
    (blocks : List (Octets 32)) : Prop where
  answered : e.signWithNonceCount limit q.digest q.key = some (r, e')
  kept : e'.source = e.source ∧ e'.backend = e.backend
  tested : ∀ log, (e.audited gen log).signWithNonceCount limit q.digest q.key =
    some (r, e'.audited gen (log ++ blocks))
  taken : left e.nonces = blocks.flatMap Octets.toList ++ left e'.nonces
  of_disposed : q.key.isDisposed = true →
    r = .error (.keyDisposed signContext) ∧ blocks = [] ∧ e' = e
  of_signed : ∀ g drawn, r = .ok (g, drawn) →
    (blocks.filter InRange).length = drawn ∧
      SignsWithLast q.digest.octets.value q.key.d.value g e' blocks

section Call

variable {gen : Generator γ} {left : γ → List UInt8} (hgen : gen.HandsOut left)
  {e e' : Engine γ Unit β} (hsource : e.source = .random gen) {stream stream' : Unit}
  {q : Request} {r : Except Error (Signature × ℕ)}
include hgen hsource

/-- A run over some trials tests blocks of which those in range are the candidates; the last block
is the last candidate. -/
theorem Examines.exists_blocks {ts : List Trial} (h : Examines limit stream e ts stream' e') :
    ∃ blocks,
      (∀ log, Examines limit stream (e.audited gen log) ts stream'
        (e'.audited gen (log ++ blocks))) ∧
      left e.nonces = blocks.flatMap Octets.toList ++ left e'.nonces ∧
      blocks.filter InRange = ts.map (fun t => t.k.toOctets) ∧
      blocks.getLast? = ts.getLast?.map fun t => t.k.toOctets := by
  -- the log is left open, since the trials after the first find the blocks of the first in it
  induction h with
  | nil stream e =>
    refine ⟨[], fun log => ?_, rfl, rfl, rfl⟩
    rw [List.append_nil]
    exact .nil _ _
  | @cons stream stream₁ stream' e e' nonces device t ts hnext hpoint _ ih =>
    rw [hsource] at hnext
    obtain ⟨tested, haudited, htests⟩ := NonceSource.tests_of_next_random hgen hnext
    obtain ⟨hin, rejected, hout, rfl⟩ := htests.of_ok t.k rfl
    obtain ⟨blocks, hrun, htaken, hfilter, hlast⟩ := ih hsource
    refine ⟨rejected ++ [t.k.toOctets] ++ blocks, fun log => ?_, ?_, ?_, ?_⟩
    · refine .cons (haudited log) hpoint ?_
      have h := hrun (log ++ (rejected ++ [t.k.toOctets]))
      rwa [List.append_assoc log] at h
    · rw [htests.taken, htaken]
      simp only [List.flatMap_append, List.append_assoc]
    · have hnone : rejected.filter InRange = [] := by
        simpa [List.filter_eq_nil_iff] using hout
      simp [hnone, hin, hfilter]
    · rw [List.getLast?_append, hlast]
      cases hts : ts.getLast? <;> simp [List.getLast?_cons, hts]

/-- The end of a search tests the blocks that it takes; a signature takes its nonce as the last. -/
theorem Ends.exists_blocks {z d : ZMod groupOrder} {skipped : ℕ}
    (h : Ends limit z d skipped stream e r e') :
    ∃ blocks,
      (∀ log, Ends limit z d skipped stream (e.audited gen log) r
        (e'.audited gen (log ++ blocks))) ∧
      left e.nonces = blocks.flatMap Octets.toList ++ left e'.nonces ∧
      ∀ g drawn, r = .ok (g, drawn) →
        skipped + (blocks.filter InRange).length = drawn ∧ SignsWithLast z d g e' blocks := by
  cases h with
  | @signed t g stream' e' hone hsign =>
    obtain ⟨blocks, hrun, htaken, hfilter, hlast⟩ := hone.exists_blocks hgen hsource
    refine ⟨blocks, fun log => .signed (hrun log) hsign, htaken, ?_⟩
    rintro g drawn heq
    cases heq
    rw [hfilter]
    cases hone with
    | cons _ hpoint hrest =>
      cases hrest
      exact ⟨rfl, t, _, hlast, hpoint, hsign⟩
  | refused hone hrefuse =>
    obtain ⟨blocks, hrun, htaken, -⟩ := hone.exists_blocks hgen hsource
    exact ⟨blocks, fun log => .refused (hrun log) hrefuse, htaken, by simp⟩
  | failed hnext =>
    rw [hsource] at hnext
    obtain ⟨blocks, haudited, htests⟩ := NonceSource.tests_of_next_random hgen hnext
    exact ⟨blocks, fun log => .failed (haudited log), htests.taken, by simp⟩

/-- A call with a live key is a search through the tape. -/
theorem exists_spends_of_live (hlive : q.key.isDisposed = false)
    (h : e.signWithNonceCount limit q.digest q.key = some (r, e')) :
    ∃ blocks, Spends gen left limit e q r e' blocks := by
  have hstart : e.source.start q.key.d q.digest e.nonces = (.ok (), e.nonces) := by
    rw [hsource]
    rfl
  obtain ⟨skipped, stream₁, e₁, hlt, hall, hrun, hend⟩ :=
    (signWithNonceCount_eq_some_iff hlive hstart).mp h
  have hsource₁ : e₁.source = .random gen := hrun.source_eq.trans hsource
  obtain ⟨passed, hrun', htaken, hfilter, -⟩ := hrun.exists_blocks hgen hsource
  obtain ⟨last, hend', htaken', hsigned⟩ := hend.exists_blocks hgen hsource₁
  refine ⟨passed ++ last, {
    answered := h
    kept := ⟨hend.kept.1.trans hrun.source_eq, hend.kept.2.trans hrun.backend_eq⟩
    tested := fun log => ?_
    taken := ?_
    of_disposed := fun hdisposed => by simp [hlive] at hdisposed
    of_signed := fun g drawn hr => ?_ }⟩
  · rw [← List.append_assoc]
    exact (signWithNonceCount_eq_some_iff hlive rfl).mpr
      ⟨skipped, stream₁, _, hlt, hall, hrun' log, hend' (log ++ passed)⟩
  · rw [htaken, htaken', List.flatMap_append, List.append_assoc]
  · obtain ⟨hdrawn, t, device, hlast, hpoint, hsign⟩ := hsigned g drawn hr
    refine ⟨?_, t, device, ?_, hpoint, hsign⟩
    · rw [List.filter_append, hfilter, List.length_append, List.length_map, ← hdrawn,
        Nat.zero_add]
    · rw [List.getLast?_append, hlast, Option.some_or]

/-- **A call tests the blocks that it takes from the tape.** -/
theorem exists_spends (h : e.signWithNonceCount limit q.digest q.key = some (r, e')) :
    ∃ blocks, Spends gen left limit e q r e' blocks := by
  cases hkey : q.key.isDisposed with
  | false => exact exists_spends_of_live hgen hsource hkey h
  | true =>
    rw [signWithNonceCount_of_disposed hkey] at h
    cases h
    refine ⟨[], {
      answered := signWithNonceCount_of_disposed hkey
      kept := ⟨rfl, rfl⟩
      tested := fun log => ?_
      taken := rfl
      of_disposed := fun _ => ⟨rfl, rfl, rfl⟩
      of_signed := by simp }⟩
    rw [List.append_nil]
    exact signWithNonceCount_of_disposed hkey

/-! ## The end of a call -/

/-- Each candidate costs 32 octets, so that the search ends before the tape does. -/
theorem search_returns {z d : Scalar} {x : ZMod groupOrder} (hz : z.Represents x) {bound drawn : ℕ}
    (hbound : (left e.nonces).length < 32 * bound) :
    ∃ answer, search limit z d bound drawn stream e = some answer := by
  induction bound generalizing e drawn stream with
  | zero => cases hbound
  | succ bound ih =>
    obtain ⟨r, nonces, hnext⟩ : ∃ r nonces,
        e.source.next limit stream e.nonces = some (r, (), nonces) := by
      rw [hsource]
      exact ⟨_, _, rfl⟩
    cases r with
    | error err => exact ⟨_, search_of_error hnext⟩
    | ok k =>
      obtain ⟨⟨point, device⟩, hpoint⟩ : ∃ a : Point × β, e.backend.mulBase k e.device = a :=
        ⟨_, rfl⟩
      have hrest : (left nonces).length < 32 * bound := by
        have hrandom := hnext
        rw [hsource] at hrandom
        obtain ⟨blocks, -, htests⟩ := NonceSource.tests_of_next_random hgen hrandom
        have hcost := htests.length_add_le
        omega
      rcases Trial.cases x d.value ⟨k, point⟩ with hskip | hrefuse | ⟨g, hsign⟩
      · have hsource' : ({ e with nonces, device } : Engine γ Unit β).source = .random gen :=
          hsource
        rw [search_of_skipped hz hnext hpoint hskip]
        exact ih hsource' hrest
      · exact ⟨_, search_of_refused hnext hpoint hrefuse⟩
      · exact ⟨_, search_of_signs hz hnext hpoint hsign⟩

theorem signWithNonceCount_returns (hlimit : (left e.nonces).length < 32 * limit)
    (digest : Digest) (key : SecretKey) :
    ∃ answer, e.signWithNonceCount limit digest key = some answer := by
  cases hkey : key.isDisposed with
  | true => exact ⟨_, signWithNonceCount_of_disposed hkey⟩
  | false =>
    unfold signWithNonceCount
    rw [SecretKey.scalar_eq hkey, hsource]
    exact search_returns hgen rfl (Scalar.represents_reduce digest.octets) hlimit

end Call

/-! ## The blocks of all calls -/

/-- The results of successive calls and the blocks that each of them tests. -/
inductive Ledger (gen : Generator γ) (left : γ → List UInt8) (limit : ℕ) :
    Engine γ Unit β → List Request → List (Except Error (Signature × ℕ)) →
      List (List (Octets 32)) → Engine γ Unit β → Prop
  | nil (e : Engine γ Unit β) : Ledger gen left limit e [] [] [] e
  | cons {e e₁ e' : Engine γ Unit β} {q : Request} {qs : List Request}
      {r : Except Error (Signature × ℕ)} {rs : List (Except Error (Signature × ℕ))}
      {blocks : List (Octets 32)} {rest : List (List (Octets 32))} :
      Spends gen left limit e q r e₁ blocks → Ledger gen left limit e₁ qs rs rest e' →
      Ledger gen left limit e (q :: qs) (r :: rs) (blocks :: rest) e'

namespace Ledger

variable {gen : Generator γ} {left : γ → List UInt8} {e e' : Engine γ Unit β} {qs : List Request}
  {rs : List (Except Error (Signature × ℕ))} {blocks : List (List (Octets 32))}
  (h : Ledger gen left limit e qs rs blocks e')
include h

/-- **The blocks of all calls are what is taken from the tape.** -/
theorem taken : left e.nonces = blocks.flatten.flatMap Octets.toList ++ left e'.nonces := by
  induction h with
  | nil e => rfl
  | cons hcall _ ih =>
    rw [hcall.taken, ih, List.flatten_cons, List.flatMap_append, List.append_assoc]

/-- The engine with a log gives the same results, and its log is that of the ledger. -/
theorem tested (log : List (Octets 32)) : (e.audited gen log).signAll limit qs =
    some (rs, e'.audited gen (log ++ blocks.flatten)) := by
  induction h generalizing log with
  | nil e =>
    rw [List.flatten_nil, List.append_nil]
    rfl
  | cons hcall _ ih =>
    rw [signAll_cons (hcall.tested log), ih, List.flatten_cons, List.append_assoc]
    rfl

end Ledger

section Calls

variable {gen : Generator γ} {left : γ → List UInt8} (hgen : gen.HandsOut left)
  {e e' : Engine γ Unit β} (hsource : e.source = .random gen) {qs : List Request}
  {rs : List (Except Error (Signature × ℕ))}
include hgen hsource

/-- Successive calls have a ledger. -/
theorem exists_ledger (h : e.signAll limit qs = some (rs, e')) :
    ∃ blocks, Ledger gen left limit e qs rs blocks e' := by
  induction qs generalizing e rs with
  | nil =>
    cases h
    exact ⟨[], .nil _⟩
  | cons q qs ih =>
    cases hcall : e.signWithNonceCount limit q.digest q.key with
    | none =>
      rw [signAll, hcall] at h
      cases h
    | some answer =>
      obtain ⟨r, e₁⟩ := answer
      rw [signAll_cons hcall] at h
      obtain ⟨⟨rs', e₂⟩, hrest, heq⟩ := Option.map_eq_some_iff.mp h
      cases heq
      obtain ⟨blocks, hspends⟩ := exists_spends hgen hsource hcall
      obtain ⟨rest, hledger⟩ := ih (hspends.kept.1.trans hsource) hrest
      exact ⟨blocks :: rest, .cons hspends hledger⟩

/-- **Random signing ends**, whatever the backend answers: a limit beyond the blocks of the tape
does for all calls. -/
theorem signAll_returns (hlimit : (left e.nonces).length < 32 * limit) (qs : List Request) :
    ∃ answer, e.signAll limit qs = some answer := by
  induction qs generalizing e with
  | nil => exact ⟨_, rfl⟩
  | cons q qs ih =>
    obtain ⟨⟨r, e₁⟩, hcall⟩ := signWithNonceCount_returns hgen hsource hlimit q.digest q.key
    obtain ⟨blocks, hspends⟩ := exists_spends hgen hsource hcall
    have hrest : (left e₁.nonces).length < 32 * limit := by
      have hlength := congrArg List.length hspends.taken
      rw [List.length_append] at hlength
      omega
    obtain ⟨⟨rs, e'⟩, hcalls⟩ := ih (hspends.kept.1.trans hsource) hrest
    rw [signAll_cons hcall, hcalls]
    exact ⟨_, rfl⟩

end Calls

/-! ## Hedged nonces -/

section Hedged

/-- A derivation draws nothing more, however many candidates are looked at. -/
theorem Examines.nonces_eq {stream stream' : Rfc6979} {e e' : Engine ν Rfc6979 β} {ts : List Trial}
    (hsource : e.source.Derives) (h : Examines limit stream e ts stream' e') :
    e'.nonces = e.nonces := by
  induction h with
  | nil => rfl
  | cons hnext _ _ ih =>
    obtain ⟨-, hnonces⟩ := hsource.next_eq_some_iff.mp hnext
    exact (ih hsource).trans hnonces

theorem Ends.nonces_eq {z d : ZMod groupOrder} {skipped : ℕ} {stream : Rfc6979}
    {e e' : Engine ν Rfc6979 β} {r : Except Error (Signature × ℕ)} (hsource : e.source.Derives)
    (h : Ends limit z d skipped stream e r e') : e'.nonces = e.nonces := by
  cases h with
  | signed hone _ => exact hone.nonces_eq hsource
  | refused hone _ => exact hone.nonces_eq hsource
  | failed hnext => exact (hsource.next_eq_some_iff.mp hnext).2

variable {gen : Generator γ} {left : γ → List UInt8} (hgen : gen.HandsOut left)
  {e : Engine γ Rfc6979 β} (hsource : e.source = .hedged gen) {digest : Digest} {key : SecretKey}
  (hlive : key.isDisposed = false)
include hgen hsource hlive

/-- A call with hedged nonces takes one block, however many candidates it draws. -/
theorem hedged_takes_block (hle : 32 ≤ (left e.nonces).length) {r : Except Error (Signature × ℕ)}
    {e' : Engine γ Rfc6979 β} (h : e.signWithNonceCount limit digest key = some (r, e')) :
    ∃ o : Octets 32, left e.nonces = o.toList ++ left e'.nonces := by
  rcases NonceSource.start_hedged hgen key.d digest e.nonces with
    ⟨o, stream, nonces, -, hstart, hleft⟩ | ⟨_, _, hlt, -⟩
  · rw [← hsource] at hstart
    obtain ⟨_, _, e₁, -, -, hrun, hend⟩ := (signWithNonceCount_eq_some_iff hlive hstart).mp h
    have hderives : ({ e with nonces } : Engine γ Rfc6979 β).source.Derives := by
      rw [hsource]
      exact NonceSource.derives_hedged gen
    have hderives₁ : e₁.source.Derives := by
      rw [hrun.source_eq]
      exact hderives
    refine ⟨o, ?_⟩
    rw [hleft, hend.nonces_eq hderives₁, hrun.nonces_eq hderives]
  · omega

/-- A call with hedged nonces fails if there is no whole block left, and takes nothing. -/
theorem hedged_fails (hlt : (left e.nonces).length < 32) : ∃ (text : String) (nonces : γ),
    e.signWithNonceCount limit digest key =
      some (.error (.entropyUnavailable "HedgedNonce::open" text), { e with nonces }) ∧
    left nonces = left e.nonces := by
  rcases NonceSource.start_hedged hgen key.d digest e.nonces with
    ⟨_, _, _, hle, -⟩ | ⟨text, nonces, -, hstart, hleft⟩
  · omega
  · rw [← hsource] at hstart
    exact ⟨text, nonces, signWithNonceCount_of_closed hlive hstart, hleft⟩

end Hedged

/-- **Random signing ends, and no block is tested twice.**  Let a generator hand out a finite tape
in order.  However many calls are made on an engine with random nonces, for whatever digests and
keys and on whatever backend, a limit beyond the blocks of the tape does for all of them.  Calls that
return have a ledger, in which a call with a disposed key takes nothing and leaves the engine alone,
and the nonce of a signature is a block that its own call has taken.  The blocks of the ledger are
what is taken from the tape, and exactly the blocks that are tested, in the same order.

With hedged nonces a call with a live key that returns takes one block, or fails for want of entropy
and takes nothing if there is no whole block left. -/
theorem fresh_nonces {gen : Generator γ} {left : γ → List UInt8} (hgen : gen.HandsOut left) :
    (∀ (e : Engine γ Unit β) (qs : List Request), e.source = .random gen →
      (∀ limit, (left e.nonces).length < 32 * limit → ∃ answer, e.signAll limit qs = some answer) ∧
      ∀ limit rs e', e.signAll limit qs = some (rs, e') → ∃ blocks,
        Ledger gen left limit e qs rs blocks e' ∧
        left e.nonces = blocks.flatten.flatMap Octets.toList ++ left e'.nonces ∧
        (e.audited gen []).signAll limit qs = some (rs, e'.audited gen blocks.flatten)) ∧
    ∀ (e : Engine γ Rfc6979 β) (digest : Digest) (key : SecretKey), e.source = .hedged gen →
      key.isDisposed = false → ∀ limit,
      (32 ≤ (left e.nonces).length → ∀ r e', e.signWithNonceCount limit digest key = some (r, e') →
        ∃ o : Octets 32, left e.nonces = o.toList ++ left e'.nonces) ∧
      ((left e.nonces).length < 32 → ∃ (text : String) (nonces : γ),
        e.signWithNonceCount limit digest key =
          some (.error (.entropyUnavailable "HedgedNonce::open" text), { e with nonces }) ∧
        left nonces = left e.nonces) := by
  constructor
  · intro e qs hsource
    refine ⟨fun limit hlimit => signAll_returns hgen hsource hlimit qs, ?_⟩
    intro limit rs e' h
    obtain ⟨blocks, hledger⟩ := exists_ledger hgen hsource h
    exact ⟨blocks, hledger, hledger.taken, hledger.tested []⟩
  · intro e digest key hsource hlive limit
    exact ⟨fun hle r e' => hedged_takes_block hgen hsource hlive hle,
      hedged_fails hgen hsource hlive⟩

/-- A tape of two blocks and one more octet; the first block is out of range. -/
def shortTape : List UInt8 := (Octets.zero 32).toList ++ Scalar.one.toOctets.toList ++ [7]

/-- A backend that takes every multiple for the identity. -/
def absorbing : Backend Unit := { Backend.software with mulBase := fun _ => pure .identity }

/-- On a backend that answers with the identity only, a call with a disposed and one with a live key
come to an end; and there is not a whole block in a single octet. -/
theorem fresh_nonces_absorbing :
    (∃ rs e' blocks,
      signAll 3 ⟨.random .tape, absorbing, shortTape, ()⟩
        [⟨⟨.zero 32⟩, ⟨.one, true⟩⟩, ⟨⟨.zero 32⟩, ⟨.one, false⟩⟩] = some (rs, e') ∧
      Ledger .tape id 3 ⟨.random .tape, absorbing, shortTape, ()⟩
        [⟨⟨.zero 32⟩, ⟨.one, true⟩⟩, ⟨⟨.zero 32⟩, ⟨.one, false⟩⟩] rs blocks e' ∧
      shortTape = blocks.flatten.flatMap Octets.toList ++ e'.nonces) ∧
    ∃ text nonces, signWithNonceCount 1 ⟨.hedged .tape, absorbing, [7], ()⟩ ⟨.zero 32⟩
        ⟨.one, false⟩ =
      some (.error (.entropyUnavailable "HedgedNonce::open" text),
        ⟨.hedged .tape, absorbing, nonces, ()⟩) ∧ nonces = [7] := by
  obtain ⟨hrandom, hhedged⟩ := fresh_nonces (β := Unit) Generator.handsOut_tape
  obtain ⟨hreturns, hledger⟩ := hrandom ⟨.random .tape, absorbing, shortTape, ()⟩
    [⟨⟨.zero 32⟩, ⟨.one, true⟩⟩, ⟨⟨.zero 32⟩, ⟨.one, false⟩⟩] rfl
  obtain ⟨⟨rs, e'⟩, hrun⟩ := hreturns 3 (by decide)
  obtain ⟨blocks, hblocks, htaken, -⟩ := hledger 3 rs e' hrun
  obtain ⟨-, hfails⟩ :=
    hhedged ⟨.hedged .tape, absorbing, [7], ()⟩ ⟨.zero 32⟩ ⟨.one, false⟩ rfl rfl 1
  exact ⟨⟨rs, e', blocks, hrun, hblocks, htaken⟩, hfails (by decide)⟩

end Engine

end Secp256r1
