import Secp256r1.Nonce.Listed
import Secp256r1.Nonce.Random

/-!
# Streams of nonces

* `NonceSource.Steady` — a higher limit never changes an answer (`steady_listed`, `steady_random`).
* `NonceSource.Derives` — the nonces are those of a deterministic derivation (`derives_rfc6979`,
  `derives_hedged`), and the source is steady (`Derives.steady`).
* `NonceSource.calls` — what successive calls of an open stream return, one after the other
  (`calls_cons_eq_some_iff`).
-/

set_option autoImplicit false

namespace Secp256r1

/-- The next candidate in range is the same within every higher limit. -/
theorem Rfc6979.next_mono {limit limit' : Nat} (hle : limit ≤ limit') {s : Rfc6979}
    {answer : Except Error Scalar × Rfc6979} (h : s.next limit = some answer) :
    s.next limit' = some answer := by
  induction limit generalizing limit' s with
  | zero => cases h
  | succ limit ih =>
    cases limit' with
    | zero => cases hle
    | succ limit' =>
      unfold next at h ⊢
      rcases hdraw : s.draw with ⟨result, s'⟩
      rw [hdraw] at h
      cases result with
      | error e => exact h
      | ok _ =>
        dsimp only at h ⊢
        cases hread : Scalar.ofCanonical s'.v.octets with
        | ok k => rwa [hread] at h
        | error e =>
          rw [hread] at h
          exact ih (Nat.le_of_succ_le_succ hle) h

/-- A generator that fills is drawn from without an error. -/
theorem Generator.draw_of_fill {γ : Type} {gen : Generator γ} {width : Nat} {before after : γ}
    {drawn : Octets width} (hfill : gen.fill width before = (.ok drawn, after))
    (context : String) : gen.draw context width before = (.ok drawn, after) := by
  unfold draw
  rw [hfill]
  rfl

/-- A generator that fails is drawn from with its text. -/
theorem Generator.draw_of_failed {γ : Type} {gen : Generator γ} {width : Nat} {before after : γ}
    {text : String} (hfill : gen.fill width before = (.error text, after)) (context : String) :
    gen.draw context width before = (.error (.entropyUnavailable context text), after) := by
  unfold draw
  rw [hfill]
  rfl

namespace NonceSource

variable {ν σ γ : Type}

/-- A higher limit never changes an answer. -/
def Steady (source : NonceSource ν σ) : Prop :=
  ∀ ⦃limit limit' : Nat⦄, limit ≤ limit' → ∀ ⦃stream : σ⦄ ⦃nonces : ν⦄
    ⦃answer : Except Error Scalar × σ × ν⦄,
    source.next limit stream nonces = some answer → source.next limit' stream nonces = some answer

theorem steady_listed : listed.Steady := fun _ _ _ _ _ _ h => h

theorem steady_random (gen : Generator γ) : (random gen).Steady :=
  fun _ _ _ _ _ _ h => h

/-- The source draws from a derivation and leaves its own state alone. -/
def Derives (source : NonceSource ν Rfc6979) : Prop :=
  ∀ (limit : Nat) (s : Rfc6979) (nonces : ν),
    source.next limit s nonces = (s.next limit).map fun (r, s) => (r, s, nonces)

theorem derives_rfc6979 : rfc6979.Derives := fun _ _ _ => rfl

theorem derives_hedged (gen : Generator γ) : (hedged gen).Derives := fun _ _ _ => rfl

variable {source : NonceSource ν Rfc6979} (hsource : source.Derives)
include hsource

theorem Derives.next_eq_some_iff {limit : Nat} {s s' : Rfc6979} {nonces nonces' : ν}
    {r : Except Error Scalar} : source.next limit s nonces = some (r, s', nonces') ↔
      s.next limit = some (r, s') ∧ nonces' = nonces := by
  rw [hsource, Option.map_eq_some_iff]
  constructor
  · rintro ⟨⟨r', s''⟩, hdrawn, heq⟩
    cases heq
    exact ⟨hdrawn, rfl⟩
  · rintro ⟨hdrawn, rfl⟩
    exact ⟨_, hdrawn, rfl⟩

theorem Derives.steady : source.Steady := by
  rintro limit limit' hle stream nonces ⟨r, stream', nonces'⟩ h
  rw [hsource.next_eq_some_iff] at h ⊢
  exact ⟨Rfc6979.next_mono hle h.1, h.2⟩

omit hsource

/-- What successive calls of an open stream return, each within a limit of its own, and what they
leave; `none` if one of them does not return. -/
def calls (source : NonceSource ν σ) :
    List Nat → σ → ν → Option (List (Except Error Scalar) × σ × ν)
  | [], stream, nonces => some ([], stream, nonces)
  | limit :: limits, stream, nonces =>
    match source.next limit stream nonces with
    | none => none
    | some (r, stream, nonces) =>
      (calls source limits stream nonces).map fun (rs, rest) => (r :: rs, rest)

/-- The first call answers, and then the others do from what it leaves. -/
theorem calls_cons_eq_some_iff {source : NonceSource ν σ} {limit : Nat} {limits : List Nat}
    {stream : σ} {nonces : ν} {answer : List (Except Error Scalar) × σ × ν} :
    source.calls (limit :: limits) stream nonces = some answer ↔
      ∃ r stream₁ nonces₁ rs rest, source.next limit stream nonces = some (r, stream₁, nonces₁) ∧
        source.calls limits stream₁ nonces₁ = some (rs, rest) ∧ answer = (r :: rs, rest) := by
  rw [calls]
  constructor
  · intro h
    split at h
    · cases h
    · rename_i r stream₁ nonces₁ hnext
      obtain ⟨⟨rs, rest⟩, hrest, rfl⟩ := Option.map_eq_some_iff.mp h
      exact ⟨r, stream₁, nonces₁, rs, rest, hnext, hrest, rfl⟩
  · rintro ⟨r, stream₁, nonces₁, rs, rest, hnext, hrest, rfl⟩
    rw [hnext]
    dsimp only
    rw [hrest]
    rfl

end NonceSource

end Secp256r1
