import Secp256r1.Proofs.Engine.Search
import Secp256r1.Proofs.Nonce.Range

/-!
# How signing fails

Signing reads a key, opens a stream, draws candidates and inverts them, and each of these steps
could fail.  Only two of them ever do: a disposed key is refused before anything else happens, and
a generator may leave the source of nonces without a candidate.  No candidate of a source is zero,
so that the inversion never fails.

* `Engine.Skips`, `Engine.RunsDry` — the engine passes over candidates, and then the stream fails.
* `finds_error_iff` — with candidates in range, a search fails exactly if the stream does.
* `Engine.Refused` — how a call with a disposed key ends.
* `sign_eq_error_iff` — signing fails exactly for a disposed key, a stream that does not open or one
  that runs dry.
* `sign_errors_exact` — **signing fails exactly for a disposed key or for want of entropy**.
-/

set_option autoImplicit false

namespace Secp256r1

namespace Engine

variable {ν σ β γ : Type} {limit : ℕ}

/-- The engine skips some candidates of a stream, fewer than the bound. -/
def Skips (limit bound : ℕ) (z d : ZMod groupOrder) (stream : σ) (e : Engine ν σ β) (stream' : σ)
    (e' : Engine ν σ β) : Prop :=
  ∃ skipped : List Trial, skipped.length < bound ∧ (∀ t ∈ skipped, t.Skipped z d) ∧
    Examines limit stream e skipped stream' e'

/-- The engine skips some candidates of a stream, and then the stream fails. -/
def RunsDry (limit bound : ℕ) (z d : ZMod groupOrder) (stream : σ) (e : Engine ν σ β) (err : Error)
    (e' : Engine ν σ β) : Prop :=
  ∃ (stream₁ stream' : σ) (e₁ : Engine ν σ β) (nonces : ν),
    Skips limit bound z d stream e stream₁ e₁ ∧
    e₁.source.next limit stream₁ e₁.nonces = some (.error err, stream', nonces) ∧
    e' = { e₁ with nonces }

/-- A call with a disposed key reports it and leaves the engine alone. -/
def Refused (e : Engine ν σ β) (key : SecretKey) (err : Error) (e' : Engine ν σ β) : Prop :=
  key.isDisposed = true ∧ err = .keyDisposed signContext ∧ e' = e

/-! ## Any source of candidates in range -/

section Canonical

variable {e e' : Engine ν σ β} {err : Error}

theorem Skips.source_eq {bound : ℕ} {z d : ZMod groupOrder} {stream stream' : σ}
    (h : Skips limit bound z d stream e stream' e') : e'.source = e.source := by
  obtain ⟨_, _, _, hrun⟩ := h
  exact hrun.source_eq

/-- No candidate in range is refused, so that a search fails exactly if the stream does. -/
theorem finds_error_iff (hsource : e.source.Canonical) {bound drawn : ℕ} {z d : ZMod groupOrder}
    {stream : σ} : Finds limit bound z d drawn stream e (.error err) e' ↔
      RunsDry limit bound z d stream e err e' := by
  constructor
  · rintro ⟨skipped, stream₁, e₁, hlt, hall, hrun, hend⟩
    cases hend with
    | refused hone hrefuse =>
      cases hone with
      | cons hnext _ _ =>
        rw [hrun.source_eq] at hnext
        obtain ⟨hin, -⟩ := hsource hnext
        exact absurd hrefuse.2 (Nat.ne_of_gt hin.1)
    | failed hnext => exact ⟨stream₁, _, e₁, _, ⟨skipped, hlt, hall, hrun⟩, hnext, rfl⟩
  · rintro ⟨stream₁, stream', e₁, nonces, ⟨skipped, hlt, hall, hrun⟩, hnext, rfl⟩
    exact ⟨skipped, stream₁, e₁, hlt, hall, hrun, .failed hnext⟩

variable {digest : Digest} {key : SecretKey}

/-- Signing fails as it does with the count. -/
theorem sign_eq_error_iff_count : e.sign limit digest key = some (.error err, e') ↔
    e.signWithNonceCount limit digest key = some (.error err, e') := by
  unfold sign
  rw [Option.map_eq_some_iff]
  constructor
  · rintro ⟨⟨r, e₁⟩, hcount, heq⟩
    cases r with
    | error err₁ =>
      cases heq
      exact hcount
    | ok signed => cases heq
  · intro hcount
    exact ⟨_, hcount, rfl⟩

/-- **Signing fails exactly for a disposed key, a stream that does not open or one that runs dry.** -/
theorem sign_eq_error_iff (hsource : e.source.Canonical) :
    e.sign limit digest key = some (.error err, e') ↔ e.Refused key err e' ∨
      key.isDisposed = false ∧
        ((∃ nonces, e.source.start key.d digest e.nonces = (.error err, nonces) ∧
            e' = { e with nonces }) ∨
          ∃ stream nonces, e.source.start key.d digest e.nonces = (.ok stream, nonces) ∧
            RunsDry limit limit digest.octets.value key.d.value stream { e with nonces } err
              e') := by
  rw [sign_eq_error_iff_count]
  cases hkey : key.isDisposed with
  | true =>
    rw [signWithNonceCount_of_disposed hkey]
    simp [Refused, hkey, eq_comm]
  | false =>
    obtain ⟨⟨opened, nonces⟩, hstart⟩ : ∃ a, e.source.start key.d digest e.nonces = a := ⟨_, rfl⟩
    cases opened with
    | error err₁ =>
      rw [signWithNonceCount_of_closed hkey hstart]
      simp [Refused, hkey, hstart, eq_comm]
    | ok stream =>
      have hsource' : ({ e with nonces } : Engine ν σ β).source.Canonical := hsource
      rw [signWithNonceCount_eq_some_iff hkey hstart, finds_error_iff hsource']
      simp [Refused, hkey, hstart]

end Canonical

/-! ## The strategies -/

section Strategies

variable {z d : ZMod groupOrder} {err : Error} {bound : ℕ}

/-- A derivation never runs dry. -/
theorem not_runsDry {stream : Rfc6979} {e e' : Engine ν Rfc6979 β} (hsource : e.source.Derives) :
    ¬ RunsDry limit bound z d stream e err e' := by
  rintro ⟨stream₁, stream', e₁, nonces, hskips, hnext, -⟩
  rw [hskips.source_eq] at hnext
  exact hsource.next_ne_error hnext

/-- A random stream runs dry exactly if the generator starves it of one candidate. -/
theorem runsDry_random_iff {gen : Generator γ} {e e' : Engine γ Unit β}
    (hsource : e.source = .random gen) : RunsDry limit bound z d () e err e' ↔
      ∃ e₁ text g', Skips limit bound z d () e () e₁ ∧
        gen.Starves maxRandomDraws e₁.nonces text g' ∧
        err = .entropyUnavailable "RandomNonce::next_nonce" text ∧
        e' = { e₁ with nonces := g' } := by
  constructor
  · rintro ⟨_, _, e₁, g', hskips, hnext, rfl⟩
    rw [hskips.source_eq, hsource, NonceSource.next_random_eq_error_iff] at hnext
    obtain ⟨text, hstarves, rfl⟩ := hnext
    exact ⟨e₁, text, g', hskips, hstarves, rfl, rfl⟩
  · rintro ⟨e₁, text, g', hskips, hstarves, rfl, rfl⟩
    refine ⟨(), (), e₁, g', hskips, ?_, rfl⟩
    rw [hskips.source_eq, hsource, NonceSource.next_random_eq_error_iff]
    exact ⟨text, hstarves, rfl⟩

variable {digest : Digest} {key : SecretKey}

theorem sign_rfc6979_eq_error_iff {e e' : Engine Unit Rfc6979 β} (hsource : e.source = .rfc6979) :
    e.sign limit digest key = some (.error err, e') ↔ e.Refused key err e' := by
  have hderives : e.source.Derives := hsource ▸ NonceSource.derives_rfc6979
  rw [sign_eq_error_iff hderives.canonical, or_iff_left]
  rintro ⟨-, ⟨nonces, hstart, -⟩ | ⟨stream, nonces, -, hdry⟩⟩
  · obtain ⟨stream, hopen⟩ := NonceSource.exists_start_rfc6979 key.d digest e.nonces
    rw [hsource, hopen] at hstart
    cases hstart
  · have hderives' : ({ e with nonces } : Engine Unit Rfc6979 β).source.Derives := hderives
    exact not_runsDry hderives' hdry

variable {gen : Generator γ}

theorem sign_hedged_eq_error_iff {e e' : Engine γ Rfc6979 β} (hsource : e.source = .hedged gen) :
    e.sign limit digest key = some (.error err, e') ↔ e.Refused key err e' ∨
      key.isDisposed = false ∧ ∃ text g', gen.fill 32 e.nonces = (.error text, g') ∧
        err = .entropyUnavailable "HedgedNonce::open" text ∧ e' = { e with nonces := g' } := by
  have hderives : e.source.Derives := hsource ▸ NonceSource.derives_hedged gen
  rw [sign_eq_error_iff hderives.canonical]
  refine or_congr_right (and_congr_right fun _ => ?_)
  constructor
  · rintro (⟨g', hstart, rfl⟩ | ⟨stream, nonces, -, hdry⟩)
    · rw [hsource, NonceSource.start_hedged_eq_error_iff] at hstart
      obtain ⟨text, hfill, rfl⟩ := hstart
      exact ⟨text, g', hfill, rfl, rfl⟩
    · have hderives' : ({ e with nonces } : Engine γ Rfc6979 β).source.Derives := hderives
      exact absurd hdry (not_runsDry hderives')
  · rintro ⟨text, g', hfill, rfl, rfl⟩
    refine .inl ⟨g', ?_, rfl⟩
    rw [hsource, NonceSource.start_hedged_eq_error_iff]
    exact ⟨text, hfill, rfl⟩

theorem sign_random_eq_error_iff {e e' : Engine γ Unit β} (hsource : e.source = .random gen) :
    e.sign limit digest key = some (.error err, e') ↔ e.Refused key err e' ∨
      key.isDisposed = false ∧ ∃ e₁ text g',
        Skips limit limit digest.octets.value key.d.value () e () e₁ ∧
        gen.Starves maxRandomDraws e₁.nonces text g' ∧
        err = .entropyUnavailable "RandomNonce::next_nonce" text ∧
        e' = { e₁ with nonces := g' } := by
  have hcanonical : e.source.Canonical := hsource ▸ NonceSource.canonical_random gen
  have hstart : e.source.start key.d digest e.nonces = (.ok (), e.nonces) := by
    rw [hsource]
    rfl
  rw [sign_eq_error_iff hcanonical, hstart, ← runsDry_random_iff hsource]
  refine or_congr_right (and_congr_right fun _ => ?_)
  constructor
  · rintro (⟨_, hclosed, -⟩ | ⟨_, _, hopen, hdry⟩)
    · cases hclosed
    · cases hopen
      exact hdry
  · intro hdry
    exact .inr ⟨(), e.nonces, rfl, hdry⟩

end Strategies

/-- **Signing fails exactly for a disposed key or for want of entropy**, for every key and digest,
every generator and every backend.  A disposed key is refused before anything is drawn or computed,
and nothing else is refused.  With a live key

* an engine with deterministic nonces never fails;
* one with random nonces fails exactly if, after some candidates that it skips, the generator
  starves the next one: a request for it fails, or 64 draws in a row are out of `[1, n-1]`;
* one with hedged nonces fails exactly if the generator does not fill the one request of the call.

No other step can fail: every candidate has an inverse, and every code has a tag.  With the count of
candidates signing fails alike. -/
theorem sign_errors_exact (limit : ℕ) (digest : Digest) (key : SecretKey) (gen : Generator γ) :
    (∀ e : Engine Unit Rfc6979 β, e.source = .rfc6979 → ∀ err e',
      e.sign limit digest key = some (.error err, e') ↔ e.Refused key err e') ∧
    (∀ e : Engine γ Unit β, e.source = .random gen → ∀ err e',
      e.sign limit digest key = some (.error err, e') ↔ e.Refused key err e' ∨
        key.isDisposed = false ∧ ∃ e₁ text g',
          Skips limit limit digest.octets.value key.d.value () e () e₁ ∧
          gen.Starves maxRandomDraws e₁.nonces text g' ∧
          err = .entropyUnavailable "RandomNonce::next_nonce" text ∧
          e' = { e₁ with nonces := g' }) ∧
    (∀ e : Engine γ Rfc6979 β, e.source = .hedged gen → ∀ err e',
      e.sign limit digest key = some (.error err, e') ↔ e.Refused key err e' ∨
        key.isDisposed = false ∧ ∃ text g', gen.fill 32 e.nonces = (.error text, g') ∧
          err = .entropyUnavailable "HedgedNonce::open" text ∧ e' = { e with nonces := g' }) ∧
    (NonceSource.rfc6979.Canonical ∧ (NonceSource.random gen).Canonical ∧
      (NonceSource.hedged gen).Canonical) ∧
    (∀ (secret : SecretBuffer 32) (parts : List (List UInt8)),
      ∃ tag, Rfc6979.hmac secret parts = .ok tag) ∧
    ∀ (ν σ : Type) (e : Engine ν σ β) err e', e.sign limit digest key = some (.error err, e') ↔
      e.signWithNonceCount limit digest key = some (.error err, e') := by
  refine ⟨?_, ?_, ?_, ⟨NonceSource.derives_rfc6979.canonical, NonceSource.canonical_random gen,
    (NonceSource.derives_hedged gen).canonical⟩, ?_, ?_⟩
  · intro e hsource err e'
    exact sign_rfc6979_eq_error_iff hsource
  · intro e hsource err e'
    exact sign_random_eq_error_iff hsource
  · intro e hsource err e'
    exact sign_hedged_eq_error_iff hsource
  · intro secret parts
    exact ⟨_, Rfc6979.hmac_eq secret parts⟩
  · intro ν σ e err e'
    exact sign_eq_error_iff_count

/-- A tape of zero blocks with octets after them gives so many draws out of range. -/
theorem rejects_zero_blocks (n : ℕ) (rest : List UInt8) :
    Generator.tape.Rejects ((List.replicate n (Octets.zero 32).toList).flatten ++ rest) n rest := by
  induction n with
  | zero => exact .zero rest
  | succ n ih =>
    rw [List.replicate_succ, List.flatten_cons, List.append_assoc]
    have hfill : Generator.tape.fill 32 ((Octets.zero 32).toList ++
        ((List.replicate n (Octets.zero 32).toList).flatten ++ rest)) =
        (.ok (.zero 32), (List.replicate n (Octets.zero 32).toList).flatten ++ rest) := rfl
    exact .succ hfill (by decide) ih

/-- A tape of 64 zero blocks and one more octet. -/
def zeroTape : List UInt8 := (List.replicate 64 (Octets.zero 32).toList).flatten ++ [7]

/-- Each failure occurs: with a disposed key, with a tape that holds no candidate, with an empty one
and with one that is too short for a hedged stream. -/
theorem sign_errors_exact_on_tapes :
    (∃ e' : Engine Unit Rfc6979 Unit, sign 1 ⟨.rfc6979, .software, (), ()⟩ ⟨.zero 32⟩ ⟨.one, true⟩ =
      some (.error (.keyDisposed signContext), e')) ∧
    sign 1 ⟨.random .tape, Backend.software, zeroTape, ()⟩ ⟨.zero 32⟩ ⟨.one, false⟩ =
      some (.error (.entropyUnavailable "RandomNonce::next_nonce"
        "no candidate in [1, n-1] after 64 draws"), ⟨.random .tape, .software, [7], ()⟩) ∧
    sign 1 ⟨.random .tape, Backend.software, [], ()⟩ ⟨.zero 32⟩ ⟨.one, false⟩ =
      some (.error (.entropyUnavailable "RandomNonce::next_nonce" "tape exhausted"),
        ⟨.random .tape, .software, [], ()⟩) ∧
    sign 1 ⟨.hedged .tape, Backend.software, [7], ()⟩ ⟨.zero 32⟩ ⟨.one, false⟩ =
      some (.error (.entropyUnavailable "HedgedNonce::open" "tape exhausted"),
        ⟨.hedged .tape, .software, [7], ()⟩) := by
  obtain ⟨hdisposed, -⟩ := sign_errors_exact (β := Unit) 1 ⟨.zero 32⟩ ⟨.one, true⟩ .tape
  obtain ⟨-, hrandom, hhedged, -⟩ :=
    sign_errors_exact (β := Unit) 1 ⟨.zero 32⟩ ⟨.one, false⟩ .tape
  have hnone (e : Engine (List UInt8) Unit Unit) :
      Skips 1 1 (Octets.zero 32).value Scalar.one.value () e () e :=
    ⟨[], by decide, by simp, .nil _ _⟩
  refine ⟨⟨_, (hdisposed _ rfl _ _).mpr ⟨rfl, rfl, rfl⟩⟩, ?_, ?_, ?_⟩
  · refine (hrandom _ rfl _ _).mpr (.inr ⟨rfl, _, _, _, hnone _, ?_, rfl, rfl⟩)
    exact .exhausted (rejects_zero_blocks 64 [7])
  · refine (hrandom _ rfl _ _).mpr (.inr ⟨rfl, _, _, _, hnone _, ?_, rfl, rfl⟩)
    exact .failed (by decide) (.zero []) rfl
  · exact (hhedged _ rfl _ _).mpr (.inr ⟨rfl, _, _, rfl, rfl, rfl⟩)

end Engine

end Secp256r1
