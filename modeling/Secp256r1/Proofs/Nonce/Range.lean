import Secp256r1.Proofs.Nonce.Derivation

/-!
# Nonces are in range

Whatever a source goes through, the candidates that it hands out lie in `[1, n-1]`, so that each has
an inverse.  A derivation cannot fail at all: its codes hold a block of the hash, and no code is
used after its tag is taken.  Rejection sampling rests on a generator, which may give any octets and
may fail at any request.

* `Rfc6979.exists_draw`, `Rfc6979.next_in_range` — drawing never fails, from any state.
* `Generator.Rejects` — successive requests that give octets out of range; `Generator.Accepts` and
  `Generator.Starves` — what comes after them (`starves_or_accepts`).
* `Generator.candidate_eq_ok_iff`, `Generator.candidate_eq_error_iff` — **what rejection sampling
  comes to**, for every generator.
* `NonceSource.Canonical` — every candidate has an inverse (`Derives.canonical`,
  `canonical_random`).
-/

set_option autoImplicit false

namespace Secp256r1

open Rfc6979 (InRange)

namespace Rfc6979

/-- Drawing never fails, whatever the state. -/
theorem exists_draw (s : Rfc6979) : ∃ s', s.draw = (.ok (), s') := ⟨_, draw_eq s⟩

/-- What comes out of a derivation is a candidate in range, never an error. -/
theorem next_in_range {limit : ℕ} {s s' : Rfc6979} {r : Except Error Scalar}
    (h : s.next limit = some (r, s')) : ∃ k, r = .ok k ∧ InRange k.toOctets := by
  induction limit generalizing s with
  | zero => cases h
  | succ limit ih =>
    obtain ⟨s₁, hdraw⟩ := exists_draw s
    rw [next_succ hdraw] at h
    split at h
    · rename_i hin
      cases h
      exact ⟨_, rfl, hin⟩
    · exact ih h

/-- A nonce has an inverse. -/
theorem InRange.inverse_eq {k : Scalar} (h : InRange k.toOctets) :
    k.inverse = .ok k.inverseTotal := by
  have hne : k.value ≠ 0 := Nat.ne_of_gt h.1
  rw [Scalar.inverse_eq, if_neg hne]

end Rfc6979

namespace Generator

variable {γ : Type} {gen : Generator γ} {g g₁ g' : γ}

theorem draw_eq_error_iff {context : String} {width : ℕ} {err : Error} :
    gen.draw context width g = (.error err, g') ↔
      ∃ text, gen.fill width g = (.error text, g') ∧ err = .entropyUnavailable context text := by
  constructor
  · intro h
    obtain ⟨⟨answer, g₁⟩, hfill⟩ : ∃ a, gen.fill width g = a := ⟨_, rfl⟩
    cases answer with
    | error text =>
      rw [draw_of_failed hfill] at h
      cases h
      exact ⟨text, hfill, rfl⟩
    | ok o =>
      rw [draw_of_fill hfill] at h
      cases h
  · rintro ⟨text, hfill, rfl⟩
    exact draw_of_failed hfill context

/-! ## Rejection sampling -/

/-- So many successive requests for 32 octets are filled, each with octets out of range. -/
inductive Rejects (gen : Generator γ) : γ → ℕ → γ → Prop
  | zero (g : γ) : Rejects gen g 0 g
  | succ {g g₁ g' : γ} {o : Octets 32} {n : ℕ} :
      gen.fill 32 g = (.ok o, g₁) → ¬ InRange o → Rejects gen g₁ n g' → Rejects gen g (n + 1) g'

/-- A search within a number of draws finds a candidate: some draws are out of range and the next one
is in range. -/
def Accepts (gen : Generator γ) (draws : ℕ) (g : γ) (k : Scalar) (g' : γ) : Prop :=
  ∃ n g₁, n < draws ∧ gen.Rejects g n g₁ ∧ gen.fill 32 g₁ = (.ok k.toOctets, g') ∧
    InRange k.toOctets

/-- Why a search within a number of draws comes to nothing: some draws are out of range and the next
one fails, with its text, or all draws are out of range. -/
inductive Starves (gen : Generator γ) (draws : ℕ) (g : γ) : String → γ → Prop
  | failed {n : ℕ} {g₁ g' : γ} {text : String} : n < draws → gen.Rejects g n g₁ →
      gen.fill 32 g₁ = (.error text, g') → Starves gen draws g text g'
  | exhausted {g' : γ} : gen.Rejects g draws g' →
      Starves gen draws g s!"no candidate in [1, n-1] after {maxRandomDraws} draws" g'

theorem candidate_succ_of_filled {o : Octets 32} (hfill : gen.fill 32 g = (.ok o, g₁))
    (draws : ℕ) : gen.candidate (draws + 1) g =
      if InRange o then (.ok ⟨⟨o⟩⟩, g₁) else gen.candidate draws g₁ := by
  conv_lhs => unfold candidate
  rw [draw_of_fill hfill]
  dsimp only
  rw [Rfc6979.ofCanonical_eq_inRange]
  by_cases hin : InRange o
  · rw [if_pos hin, if_pos hin]
  · rw [if_neg hin, if_neg hin]

theorem candidate_succ_of_failed {text : String} (hfill : gen.fill 32 g = (.error text, g₁))
    (draws : ℕ) : gen.candidate (draws + 1) g =
      (.error (.entropyUnavailable "RandomNonce::next_nonce" text), g₁) := by
  unfold candidate
  rw [draw_of_failed hfill]

/-- Draws out of range only use up the search. -/
theorem Rejects.candidate_add {n : ℕ} (h : gen.Rejects g n g') (draws : ℕ) :
    gen.candidate (n + draws) g = gen.candidate draws g' := by
  induction h with
  | zero g => rw [Nat.zero_add]
  | succ hfill hout _ ih =>
    rw [Nat.add_right_comm, candidate_succ_of_filled hfill, if_neg hout, ih]

/-- A search that accepts ends with the candidate. -/
theorem Accepts.candidate_eq {draws : ℕ} {k : Scalar} (h : gen.Accepts draws g k g') :
    gen.candidate draws g = (.ok k, g') := by
  obtain ⟨n, g₁, hlt, hrejects, hfill, hin⟩ := h
  obtain ⟨m, rfl⟩ := Nat.exists_eq_add_of_lt hlt
  rw [Nat.add_assoc, hrejects.candidate_add, candidate_succ_of_filled hfill, if_pos hin]
  rfl

/-- A search that starves ends with the text. -/
theorem Starves.candidate_eq {draws : ℕ} {text : String} (h : gen.Starves draws g text g') :
    gen.candidate draws g =
      (.error (.entropyUnavailable "RandomNonce::next_nonce" text), g') := by
  cases h with
  | failed hlt hrejects hfill =>
    obtain ⟨m, rfl⟩ := Nat.exists_eq_add_of_lt hlt
    rw [Nat.add_assoc, hrejects.candidate_add, candidate_succ_of_failed hfill]
  | exhausted hrejects => exact hrejects.candidate_add 0

/-- Every search starves or accepts. -/
theorem starves_or_accepts (gen : Generator γ) (draws : ℕ) (g : γ) :
    (∃ text g', gen.Starves draws g text g') ∨ ∃ k g', gen.Accepts draws g k g' := by
  induction draws generalizing g with
  | zero => exact .inl ⟨_, g, .exhausted (.zero g)⟩
  | succ draws ih =>
    obtain ⟨⟨answer, g₁⟩, hfill⟩ : ∃ a, gen.fill 32 g = a := ⟨_, rfl⟩
    cases answer with
    | error text => exact .inl ⟨text, g₁, .failed draws.succ_pos (.zero g) hfill⟩
    | ok o =>
      by_cases hin : InRange o
      · exact .inr ⟨⟨⟨o⟩⟩, g₁, 0, g, draws.succ_pos, .zero g, hfill, hin⟩
      -- the draw stands before those that the rest of the search rejects
      · rcases ih g₁ with ⟨text, g', hstarves⟩ | ⟨k, g', n, g₂, hlt, hrejects, hfound⟩
        · refine .inl ⟨text, g', ?_⟩
          cases hstarves with
          | failed hlt hrejects hfail =>
            exact .failed (Nat.succ_lt_succ hlt) (.succ hfill hin hrejects) hfail
          | exhausted hrejects => exact .exhausted (.succ hfill hin hrejects)
        · exact .inr ⟨k, g', n + 1, g₂, Nat.succ_lt_succ hlt, .succ hfill hin hrejects, hfound⟩

/-- **A candidate is the first draw in range**, after fewer draws than the search allows. -/
theorem candidate_eq_ok_iff {draws : ℕ} {k : Scalar} :
    gen.candidate draws g = (.ok k, g') ↔ gen.Accepts draws g k g' := by
  constructor
  · intro h
    rcases gen.starves_or_accepts draws g with ⟨text, g₁, hstarves⟩ | ⟨k₁, g₁, haccepts⟩
    · rw [hstarves.candidate_eq] at h
      cases h
    · rw [haccepts.candidate_eq] at h
      cases h
      exact haccepts
  · intro haccepts
    exact haccepts.candidate_eq

/-- **Rejection sampling fails exactly if a request fails or all draws are out of range.** -/
theorem candidate_eq_error_iff {draws : ℕ} {err : Error} :
    gen.candidate draws g = (.error err, g') ↔
      ∃ text, gen.Starves draws g text g' ∧
        err = .entropyUnavailable "RandomNonce::next_nonce" text := by
  constructor
  · intro h
    rcases gen.starves_or_accepts draws g with ⟨text, g₁, hstarves⟩ | ⟨k₁, g₁, haccepts⟩
    · rw [hstarves.candidate_eq] at h
      cases h
      exact ⟨text, hstarves, rfl⟩
    · rw [haccepts.candidate_eq] at h
      cases h
  · rintro ⟨text, hstarves, rfl⟩
    exact hstarves.candidate_eq

end Generator

/-! ## Sources -/

namespace NonceSource

variable {ν σ γ : Type}

/-- Every candidate lies in `[1, n-1]`, and has an inverse. -/
def Canonical (source : NonceSource ν σ) : Prop :=
  ∀ ⦃limit : ℕ⦄ ⦃stream stream' : σ⦄ ⦃nonces nonces' : ν⦄ ⦃k : Scalar⦄,
    source.next limit stream nonces = some (.ok k, stream', nonces') →
      InRange k.toOctets ∧ k.inverse = .ok k.inverseTotal

theorem canonical_random (gen : Generator γ) : (random gen).Canonical := by
  intro limit stream stream' g g' k h
  obtain ⟨⟨r, g₁⟩, hcandidate⟩ : ∃ a, gen.candidate maxRandomDraws g = a := ⟨_, rfl⟩
  simp only [random, hcandidate] at h
  cases h
  obtain ⟨_, _, _, _, _, hin⟩ := Generator.candidate_eq_ok_iff.mp hcandidate
  exact ⟨hin, hin.inverse_eq⟩

section Derives

variable {source : NonceSource ν Rfc6979} (hsource : source.Derives)
include hsource

theorem Derives.canonical : source.Canonical := by
  intro limit s s' nonces nonces' k h
  obtain ⟨hdrawn, -⟩ := hsource.next_eq_some_iff.mp h
  obtain ⟨k', hk, hin⟩ := Rfc6979.next_in_range hdrawn
  cases hk
  exact ⟨hin, hin.inverse_eq⟩

/-- An open derivation never fails. -/
theorem Derives.next_ne_error {limit : ℕ} {s s' : Rfc6979} {nonces nonces' : ν} {err : Error} :
    source.next limit s nonces ≠ some (.error err, s', nonces') := by
  intro h
  obtain ⟨hdrawn, -⟩ := hsource.next_eq_some_iff.mp h
  obtain ⟨k, hk, -⟩ := Rfc6979.next_in_range hdrawn
  cases hk

end Derives

/-- A random stream fails as rejection sampling does. -/
theorem next_random_eq_error_iff {gen : Generator γ} {limit : ℕ} {stream stream' : Unit} {g g' : γ}
    {err : Error} : (random gen).next limit stream g = some (.error err, stream', g') ↔
      ∃ text, gen.Starves maxRandomDraws g text g' ∧
        err = .entropyUnavailable "RandomNonce::next_nonce" text := by
  rw [← Generator.candidate_eq_error_iff]
  obtain ⟨⟨r, g₁⟩, hcandidate⟩ : ∃ a, gen.candidate maxRandomDraws g = a := ⟨_, rfl⟩
  simp [random, hcandidate]

/-- A deterministic stream always opens. -/
theorem exists_start_rfc6979 (x : Scalar) (digest : Digest) (nonces : Unit) :
    ∃ stream, rfc6979.start x digest nonces = (.ok stream, nonces) :=
  ⟨_, Prod.ext (Rfc6979.seed_eq x digest []) rfl⟩

/-- A hedged stream does not open exactly if the generator fails. -/
theorem start_hedged_eq_error_iff {gen : Generator γ} {x : Scalar} {digest : Digest} {g g' : γ}
    {err : Error} : (hedged gen).start x digest g = (.error err, g') ↔
      ∃ text, gen.fill 32 g = (.error text, g') ∧
        err = .entropyUnavailable "HedgedNonce::open" text := by
  rw [← Generator.draw_eq_error_iff]
  obtain ⟨⟨r, g₁⟩, hdraw⟩ : ∃ a, gen.draw "HedgedNonce::open" 32 g = a := ⟨_, rfl⟩
  cases r with
  | error e => simp [hedged, hdraw]
  | ok extra => simp [hedged, hdraw, Rfc6979.seed_eq]

end NonceSource

end Secp256r1
