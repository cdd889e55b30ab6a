import Secp256r1.Proofs.Nonce.Derivation

/-!
# Random nonces use up a tape block by block

A generator that hands out a finite tape in order gives every octet once.  The rejection sampling
of random nonces tests each block of 32 octets that it is given, so that no block is tested twice.

* `Generator.HandsOut` — the generator hands out what is left of a tape (`handsOut_tape`).
* `Generator.auditedCandidate` — the search for a candidate, with a log of the blocks it tests.
* `Generator.Tests` — what one search has to do with the blocks that it tests.
* `Generator.HandsOut.exists_tests` — **a search tests the blocks that it takes from the tape, each
  once**.
* `NonceSource.audited` — the source of random nonces, with such a log in its state.
* `NonceSource.start_hedged` — a hedged stream opens with one block.
-/

set_option autoImplicit false

namespace Secp256r1

open Rfc6979 (InRange)

namespace Generator

variable {γ : Type} {gen : Generator γ} {left : γ → List UInt8} {g g' : γ}

/-- The generator hands out a tape in order, of which `left` is what a state still holds.  A request
for more than that fails and takes nothing. -/
structure HandsOut (gen : Generator γ) (left : γ → List UInt8) : Prop where
  fills : ∀ n g, n ≤ (left g).length →
    ∃ (o : Octets n) (g' : γ), gen.fill n g = (.ok o, g') ∧ left g = o.toList ++ left g'
  refuses : ∀ n g, (left g).length < n →
    ∃ (text : String) (g' : γ), gen.fill n g = (.error text, g') ∧ left g' = left g

theorem handsOut_tape : tape.HandsOut id where
  fills := by
    intro n bs hle
    have htake : (bs.take n).length = n := List.length_take_of_le hle
    refine ⟨⟨bs.take n, htake⟩, bs.drop n, ?_, (List.take_append_drop n bs).symm⟩
    simp only [tape, Octets.ofList?, dif_pos htake]
  refuses := by
    intro n bs hlt
    have htake : (bs.take n).length ≠ n := ((List.length_take_le' n bs).trans_lt hlt).ne
    refine ⟨"tape exhausted", bs, ?_, rfl⟩
    simp only [tape, Octets.ofList?, dif_neg htake]

/-- Drawing takes the next octets, or fails and takes nothing if there are too few. -/
theorem HandsOut.draw (hgen : gen.HandsOut left) (context : String) (n : ℕ) (g : γ) :
    (∃ (o : Octets n) (g' : γ), n ≤ (left g).length ∧ gen.draw context n g = (.ok o, g') ∧
      left g = o.toList ++ left g') ∨
    ∃ (text : String) (g' : γ), (left g).length < n ∧
      gen.draw context n g = (.error (.entropyUnavailable context text), g') ∧
      left g' = left g := by
  rcases Nat.lt_or_ge (left g).length n with hlt | hle
  · obtain ⟨text, g', hfill, hleft⟩ := hgen.refuses n g hlt
    exact .inr ⟨text, g', hlt, draw_of_failed hfill context, hleft⟩
  · obtain ⟨o, g', hfill, hleft⟩ := hgen.fills n g hle
    exact .inl ⟨o, g', hle, draw_of_fill hfill context, hleft⟩

/-! ## One candidate -/

/-- The search for a candidate with a log: each block is written down as it is tested. -/
def auditedCandidate (gen : Generator γ) :
    ℕ → γ × List (Octets 32) → Except Error Scalar × γ × List (Octets 32)
  | 0, s => (.error (.entropyUnavailable "RandomNonce::next_nonce"
      s!"no candidate in [1, n-1] after {maxRandomDraws} draws"), s)
  | draws + 1, (g, log) =>
    match gen.draw "RandomNonce::next_nonce" 32 g with
    | (.error e, g) => (.error e, g, log)
    | (.ok o, g) =>
      match Scalar.ofCanonical o with
      | .ok k => (.ok k, g, log ++ [o])
      | .error _ => auditedCandidate gen draws (g, log ++ [o])

/-- What a search from `g` to `g'` with result `r` has to do with the blocks that it tests: they are
what it takes from the tape.  The candidate is the last of them and the only one in range; if there
is no candidate, none is in range. -/
structure Tests (left : γ → List UInt8) (g : γ) (r : Except Error Scalar) (g' : γ)
    (blocks : List (Octets 32)) : Prop where
  taken : left g = blocks.flatMap Octets.toList ++ left g'
  of_ok : ∀ k, r = .ok k → InRange k.toOctets ∧
    ∃ rejected, (∀ o ∈ rejected, ¬ InRange o) ∧ blocks = rejected ++ [k.toOctets]
  of_error : ∀ err, r = .error err → ∀ o ∈ blocks, ¬ InRange o

/-- A block out of range only makes the tape shorter. -/
theorem Tests.cons {r : Except Error Scalar} {o : Octets 32} {g₁ : γ} {blocks : List (Octets 32)}
    (hleft : left g = o.toList ++ left g₁) (hout : ¬ InRange o)
    (h : Tests left g₁ r g' blocks) : Tests left g r g' (o :: blocks) where
  taken := by rw [hleft, h.taken, List.flatMap_cons, List.append_assoc]
  of_ok := by
    intro k hk
    obtain ⟨hin, rejected, hall, rfl⟩ := h.of_ok k hk
    exact ⟨hin, o :: rejected, List.forall_mem_cons.mpr ⟨hout, hall⟩, rfl⟩
  of_error := by
    intro err hr
    exact List.forall_mem_cons.mpr ⟨hout, h.of_error err hr⟩

/-- A candidate costs a whole block at least. -/
theorem Tests.length_add_le {k : Scalar} {blocks : List (Octets 32)}
    (h : Tests left g (.ok k) g' blocks) : (left g').length + 32 ≤ (left g).length := by
  obtain ⟨-, rejected, -, rfl⟩ := h.of_ok k rfl
  have hlength := congrArg List.length h.taken
  simp only [List.flatMap_append, List.flatMap_singleton, List.length_append,
    k.toOctets.length_toList] at hlength
  omega

/-- **A search tests the blocks that it takes from the tape, each once and in order.**  Its log says
so, and the search without a log gives the same result. -/
theorem HandsOut.exists_tests (hgen : gen.HandsOut left) (draws : ℕ) (g : γ) :
    ∃ r g' blocks, gen.candidate draws g = (r, g') ∧
      (∀ log, gen.auditedCandidate draws (g, log) = (r, g', log ++ blocks)) ∧
      Tests left g r g' blocks := by
  induction draws generalizing g with
  | zero =>
    refine ⟨_, g, [], rfl, fun log => ?_, ?_⟩
    · rw [List.append_nil]
      rfl
    · exact ⟨rfl, by simp, by simp⟩
  | succ draws ih =>
    unfold candidate auditedCandidate
    rcases hgen.draw "RandomNonce::next_nonce" 32 g with
      ⟨o, g₁, -, hdraw, hleft⟩ | ⟨text, g₁, -, hdraw, hleft⟩
    · rw [hdraw]
      dsimp only
      rw [Rfc6979.ofCanonical_eq_inRange]
      by_cases hin : InRange o
      · rw [if_pos hin]
        refine ⟨_, g₁, [o], rfl, fun log => rfl, ?_, ?_, by simp⟩
        · rw [hleft, List.flatMap_singleton]
        · rintro k hk
          cases hk
          exact ⟨hin, [], by simp, rfl⟩
      · rw [if_neg hin]
        obtain ⟨r, g', blocks, hcandidate, haudited, htests⟩ := ih g₁
        refine ⟨r, g', o :: blocks, hcandidate, fun log => ?_, htests.cons hleft hin⟩
        dsimp only
        rw [haudited, List.append_assoc]
        rfl
    · rw [hdraw]
      refine ⟨_, g₁, [], rfl, fun log => ?_, ?_⟩
      · rw [List.append_nil]
      · exact ⟨hleft.symm, by simp, by simp⟩

end Generator

namespace NonceSource

variable {γ : Type}

/-- Random nonces whose source writes down each block that it tests. -/
def audited (gen : Generator γ) : NonceSource (γ × List (Octets 32)) Unit where
  debugText? := (random gen).debugText?
  start _ _ s := (.ok (), s)
  next _ _ s :=
    let (r, s) := gen.auditedCandidate maxRandomDraws s
    some (r, (), s)

/-- A call for the next random nonce tests the blocks that it takes, and the source with a log
answers the same. -/
theorem tests_of_next_random {gen : Generator γ} {left : γ → List UInt8} (hgen : gen.HandsOut left)
    {limit : ℕ} {stream stream' : Unit} {g g' : γ} {r : Except Error Scalar}
    (h : (random gen).next limit stream g = some (r, stream', g')) :
    ∃ blocks, (∀ log, (audited gen).next limit stream (g, log) =
      some (r, stream', g', log ++ blocks)) ∧ Generator.Tests left g r g' blocks := by
  obtain ⟨r₁, g₁, blocks, hcandidate, haudited, htests⟩ := hgen.exists_tests maxRandomDraws g
  simp only [random, hcandidate] at h
  cases h
  refine ⟨blocks, fun log => ?_, htests⟩
  simp only [audited, haudited]

/-- A hedged stream opens with one block of the tape, or fails and takes nothing if there is no
whole block left. -/
theorem start_hedged {gen : Generator γ} {left : γ → List UInt8} (hgen : gen.HandsOut left)
    (x : Scalar) (digest : Digest) (g : γ) :
    (∃ (o : Octets 32) (stream : Rfc6979) (g' : γ), 32 ≤ (left g).length ∧
      (hedged gen).start x digest g = (.ok stream, g') ∧ left g = o.toList ++ left g') ∨
    ∃ (text : String) (g' : γ), (left g).length < 32 ∧
      (hedged gen).start x digest g = (.error (.entropyUnavailable "HedgedNonce::open" text), g') ∧
      left g' = left g := by
  rcases hgen.draw "HedgedNonce::open" 32 g with
    ⟨o, g', hle, hdraw, hleft⟩ | ⟨text, g', hlt, hdraw, hleft⟩
  · have hstart : (hedged gen).start x digest g =
        (.ok (Rfc6979.stateAfter x.value digest.octets.value o.toList 0), g') := by
      simp only [hedged, hdraw, Rfc6979.seed_eq]
    exact .inl ⟨o, _, g', hle, hstart, hleft⟩
  · refine .inr ⟨text, g', hlt, ?_, hleft⟩
    simp only [hedged, hdraw]

end NonceSource

end Secp256r1
