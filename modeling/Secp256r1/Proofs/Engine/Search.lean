import Secp256r1.Backend.Scripted
import Secp256r1.Engine
import Secp256r1.Proofs.Keys
import Secp256r1.Proofs.Nonce.Stream

/-!
# The search for a nonce

Signing looks through the candidates of a stream in order and has the backend multiply the base
point by each.  A candidate is skipped if one component vanishes, ends the search with an error if
it is zero while the first component is not, and is signed with otherwise.  The laws hold for every
stream and every backend, whatever points it answers with.

* `Trial` — a candidate with the answer of the backend; `Trial.Skipped`, `Trial.Refused` and
  `Trial.Signs` say in residues modulo `n` what comes of it (`Trial.cases`).
* `Examines` — a run of the stream and the backend over some trials.
* `search_eq_some_iff` — the search comes to a result exactly through a run of skipped trials.
* `signWithNonceCount_exact` — **signing takes the first candidate that is not skipped**.
-/

set_option autoImplicit false

namespace Secp256r1

/-- A candidate of a stream and the point that a backend answers with for it. -/
structure Trial where
  k : Scalar
  point : Point

namespace Trial

variable (z d : ZMod groupOrder) (t : Trial)

/-- The first component: the abscissa modulo `n`. -/
def r : ZMod groupOrder := t.point.x.value

/-- The second component, `k⁻¹(z + r·d)` modulo `n`. -/
def s : ZMod groupOrder := (t.k.value : ZMod groupOrder)⁻¹ * (z + t.r * d)

/-- A component vanishes; a candidate that is zero has no second component. -/
def Skipped : Prop := t.r = 0 ∨ t.k.value ≠ 0 ∧ t.s z d = 0

/-- The candidate has no inverse, and the first component calls for one. -/
def Refused : Prop := t.r ≠ 0 ∧ t.k.value = 0

/-- The trial gives a signature: no component vanishes, and each is the least residue. -/
structure Signs (g : Signature) : Prop where
  candidate_ne_zero : t.k.value ≠ 0
  r_ne_zero : t.r ≠ 0
  s_ne_zero : t.s z d ≠ 0
  r_eq : g.r.value = t.r.val
  s_eq : g.s.value = (t.s z d).val

variable {z d t}

theorem Signs.in_range {g : Signature} (h : t.Signs z d g) :
    (0 < g.r.value ∧ g.r.value < groupOrder) ∧ (0 < g.s.value ∧ g.s.value < groupOrder) := by
  rw [h.r_eq, h.s_eq]
  exact ⟨⟨ZMod.val_pos.mpr h.r_ne_zero, t.r.val_lt⟩,
    ⟨ZMod.val_pos.mpr h.s_ne_zero, (t.s z d).val_lt⟩⟩

/-- A trial is skipped, refused or signed with. -/
theorem cases (z d : ZMod groupOrder) (t : Trial) :
    t.Skipped z d ∨ t.Refused ∨ ∃ g, t.Signs z d g := by
  by_cases hr : t.r = 0
  · exact .inl (.inl hr)
  by_cases hk : t.k.value = 0
  · exact .inr (.inl ⟨hr, hk⟩)
  by_cases hs : t.s z d = 0
  · exact .inl (.inr ⟨hk, hs⟩)
  have hvalue (x : ZMod groupOrder) : (Octets.ofNat 32 x.val).value = x.val :=
    (Octets.value_ofNat 32 x.val).trans
      (Nat.mod_eq_of_lt (x.val_lt.trans Curve.secp256r1.n.value_lt))
  exact .inr (.inr ⟨⟨.ofNat 32 t.r.val, .ofNat 32 (t.s z d).val⟩, hk, hr, hs, hvalue _, hvalue _⟩)

/-! ## The components as the engine computes them -/

/-- The first component as a scalar. -/
def first (t : Trial) : Scalar := .reduce t.point.x.toOctets

theorem represents_first (t : Trial) : t.first.Represents t.r := by
  have h := Scalar.represents_reduce t.point.x.toOctets
  rwa [FieldElement.value_toOctets] at h

theorem represents_second {z' : Scalar} (hz : z'.Represents z) (d' : Scalar) (t : Trial) :
    (t.k.inverseTotal * (z' + t.first * d')).Represents (t.s z d'.value) := by
  have hfirst := represents_first t
  have hproduct : (t.first * d').Represents (t.r * d'.value) := by
    have h := Scalar.represents_mul (k := t.first) (l := d') (.inl hfirst.lt)
    rwa [hfirst.cast] at h
  exact (Scalar.represents_inverseTotal t.k).mul (hz.add hproduct)

theorem Signs.first_isZero {g : Signature} (h : t.Signs z d g) : t.first.isZero = false := by
  rw [Bool.eq_false_iff, Ne, t.represents_first.isZero_iff]
  exact h.r_ne_zero

section Components

variable {z' d' : Scalar} {g : Signature} (hz : z'.Represents z) (h : t.Signs z d'.value g)
include hz h

theorem Signs.second_isZero : (t.k.inverseTotal * (z' + t.first * d')).isZero = false := by
  rw [Bool.eq_false_iff, Ne, (t.represents_second hz d').isZero_iff]
  exact h.s_ne_zero

/-- The signature of a trial holds the components as the engine computes them. -/
theorem Signs.eq :
    g = ⟨t.first.toOctets, (t.k.inverseTotal * (z' + t.first * d')).toOctets⟩ :=
  Signature.ext (Octets.value_injective (h.r_eq.trans t.represents_first.symm))
    (Octets.value_injective (h.s_eq.trans (t.represents_second hz d').symm))

end Components

/-- The nonce 1 gives the key 1 and the digest 0 a signature with the abscissa of the base point
twice. -/
theorem signs_one : Signs (Octets.zero 32).value Scalar.one.value ⟨.one, .generator⟩
    ⟨Curve.secp256r1.gx, Curve.secp256r1.gx⟩ := by
  have hone : (Scalar.one.value : ZMod groupOrder) = 1 := by
    rw [show Scalar.one.value = 1 by decide, Nat.cast_one]
  have hfirst : (Trial.mk .one .generator).r = Curve.secp256r1.gx.value := by
    rw [← FieldElement.value_ofConstant Curve.secp256r1.gx]
    rfl
  have hsecond : (Trial.mk .one .generator).s (Octets.zero 32).value Scalar.one.value =
      Curve.secp256r1.gx.value := by
    rw [s, hfirst, hone, Octets.value_zero, Nat.cast_zero, inv_one, one_mul, zero_add, mul_one]
  have hlt : Curve.secp256r1.gx.value < groupOrder := by decide +kernel
  have hne : (Curve.secp256r1.gx.value : ZMod groupOrder) ≠ 0 := by
    rw [Ne, ZMod.natCast_eq_zero_iff]
    exact Nat.not_dvd_of_pos_of_lt (by decide +kernel) hlt
  exact {
    candidate_ne_zero := by decide
    r_ne_zero := hfirst ▸ hne
    s_ne_zero := hsecond ▸ hne
    r_eq := by rw [hfirst, ZMod.val_cast_of_lt hlt]
    s_eq := by rw [hsecond, ZMod.val_cast_of_lt hlt] }

end Trial

namespace Engine

variable {ν σ β : Type} {limit : ℕ}

theorem secondComponent_eq (k z r d : Scalar) : secondComponent k z r d =
    if k.value = 0 then .error (.invalidOperand signContext "zero has no inverse")
    else .ok (k.inverseTotal * (z + r * d)) := by
  unfold secondComponent
  rw [Scalar.inverse_eq]
  split <;> rfl

/-! ## One trial -/

section Trial

variable {z d : Scalar} {x : ZMod groupOrder} {candidates drawn : ℕ} {stream stream' : σ}
  {e : Engine ν σ β} {nonces : ν} {device : β} {t : Trial}

/-- The engine answers a candidate by its components. -/
theorem search_succ (hnext : e.source.next limit stream e.nonces = some (.ok t.k, stream', nonces))
    (hpoint : e.backend.mulBase t.k e.device = (t.point, device)) :
    search limit z d (candidates + 1) drawn stream e =
      if t.first.isZero then
        search limit z d candidates (drawn + 1) stream' { e with nonces, device }
      else if t.k.value = 0 then
        some (.error (.invalidOperand signContext "zero has no inverse"), { e with nonces, device })
      else if (t.k.inverseTotal * (z + t.first * d)).isZero then
        search limit z d candidates (drawn + 1) stream' { e with nonces, device }
      else
        some (.ok (⟨t.first.toOctets, (t.k.inverseTotal * (z + t.first * d)).toOctets⟩, drawn + 1),
          { e with nonces, device }) := by
  have hdevice : onDevice { e with nonces } (e.backend.mulBase t.k) =
      (t.point, { e with nonces, device }) := by
    unfold onDevice StateT.run
    rw [hpoint]
  conv_lhs => unfold search
  rw [hnext]
  simp only [hdevice, secondComponent_eq]
  unfold Trial.first
  split
  · rfl
  · by_cases hk : t.k.value = 0
    · rw [if_pos hk, if_pos hk]
    · rw [if_neg hk, if_neg hk]

variable (hz : z.Represents x)
  (hnext : e.source.next limit stream e.nonces = some (.ok t.k, stream', nonces))
  (hpoint : e.backend.mulBase t.k e.device = (t.point, device))
include hz hnext hpoint

theorem search_of_skipped (h : t.Skipped x d.value) :
    search limit z d (candidates + 1) drawn stream e =
      search limit z d candidates (drawn + 1) stream' { e with nonces, device } := by
  rw [search_succ hnext hpoint]
  split
  · rfl
  · rename_i hr
    rw [t.represents_first.isZero_iff] at hr
    obtain ⟨hk, hs⟩ := h.resolve_left hr
    rw [if_neg hk, if_pos ((t.represents_second hz d).isZero_iff.mpr hs)]

omit hz in
theorem search_of_refused (h : t.Refused) :
    search limit z d (candidates + 1) drawn stream e =
      some (.error (.invalidOperand signContext "zero has no inverse"),
        { e with nonces, device }) := by
  have hr : ¬ t.first.isZero = true := by
    rw [t.represents_first.isZero_iff]
    exact h.1
  rw [search_succ hnext hpoint, if_neg hr, if_pos h.2]

theorem search_of_signs {g : Signature} (h : t.Signs x d.value g) :
    search limit z d (candidates + 1) drawn stream e =
      some (.ok (g, drawn + 1), { e with nonces, device }) := by
  rw [search_succ hnext hpoint, h.first_isZero, h.second_isZero hz, if_neg h.candidate_ne_zero,
    ← h.eq hz]
  rfl

end Trial

theorem search_of_error {z d : Scalar} {candidates drawn : ℕ} {stream stream' : σ}
    {e : Engine ν σ β} {err : Error} {nonces : ν}
    (hnext : e.source.next limit stream e.nonces = some (.error err, stream', nonces)) :
    search limit z d (candidates + 1) drawn stream e = some (.error err, { e with nonces }) := by
  unfold search
  rw [hnext]

/-! ## All trials -/

/-- A run over some trials: the stream gives their candidates in order, and for each the backend
multiplies the base point once and answers with the point of the trial. -/
inductive Examines (limit : ℕ) : σ → Engine ν σ β → List Trial → σ → Engine ν σ β → Prop
  | nil (stream : σ) (e : Engine ν σ β) : Examines limit stream e [] stream e
  | cons {stream stream₁ stream' : σ} {e e' : Engine ν σ β} {nonces : ν} {device : β} {t : Trial}
      {ts : List Trial} :
      e.source.next limit stream e.nonces = some (.ok t.k, stream₁, nonces) →
      e.backend.mulBase t.k e.device = (t.point, device) →
      Examines limit stream₁ { e with nonces, device } ts stream' e' →
      Examines limit stream e (t :: ts) stream' e'

/-- How a search ends that has skipped a number of candidates: with a signature from one more
candidate, with one more candidate that is refused, or with an error of the stream. -/
inductive Ends (limit : ℕ) (z d : ZMod groupOrder) (skipped : ℕ) (stream : σ) (e : Engine ν σ β) :
    Except Error (Signature × ℕ) → Engine ν σ β → Prop
  | signed {t : Trial} {g : Signature} {stream' : σ} {e' : Engine ν σ β} :
      Examines limit stream e [t] stream' e' → t.Signs z d g →
      Ends limit z d skipped stream e (.ok (g, skipped + 1)) e'
  | refused {t : Trial} {stream' : σ} {e' : Engine ν σ β} :
      Examines limit stream e [t] stream' e' → t.Refused →
      Ends limit z d skipped stream e
        (.error (.invalidOperand signContext "zero has no inverse")) e'
  | failed {err : Error} {stream' : σ} {nonces : ν} :
      e.source.next limit stream e.nonces = some (.error err, stream', nonces) →
      Ends limit z d skipped stream e (.error err) { e with nonces }

/-- A search that looks at fewer candidates than `bound` before it ends: all of them are skipped. -/
def Finds (limit bound : ℕ) (z d : ZMod groupOrder) (drawn : ℕ) (stream : σ) (e : Engine ν σ β)
    (result : Except Error (Signature × ℕ)) (e' : Engine ν σ β) : Prop :=
  ∃ skipped stream₁ e₁, skipped.length < bound ∧ (∀ t ∈ skipped, t.Skipped z d) ∧
    Examines limit stream e skipped stream₁ e₁ ∧
    Ends limit z d (drawn + skipped.length) stream₁ e₁ result e'

section Search

variable {z d : Scalar} {x : ZMod groupOrder} {result : Except Error (Signature × ℕ)}
  {e' : Engine ν σ β}

theorem finds_of_search (hz : z.Represents x) {bound drawn : ℕ} {stream : σ} {e : Engine ν σ β}
    (h : search limit z d bound drawn stream e = some (result, e')) :
    Finds limit bound x d.value drawn stream e result e' := by
  induction bound generalizing drawn stream e with
  | zero => cases h
  | succ bound ih =>
    cases hnext : e.source.next limit stream e.nonces with
    | none =>
      unfold search at h
      rw [hnext] at h
      cases h
    | some answer =>
      obtain ⟨r, stream', nonces⟩ := answer
      cases r with
      | error err =>
        rw [search_of_error hnext] at h
        cases h
        exact ⟨[], _, _, bound.succ_pos, by simp, .nil _ _, .failed hnext⟩
      | ok k =>
        obtain ⟨⟨point, device⟩, hpoint⟩ : ∃ a : Point × β, e.backend.mulBase k e.device = a :=
          ⟨_, rfl⟩
        have hone : Examines limit stream e [⟨k, point⟩] stream' { e with nonces, device } :=
          .cons hnext hpoint (.nil _ _)
        rcases Trial.cases x d.value ⟨k, point⟩ with hskip | hrefuse | ⟨g, hsign⟩
        · rw [search_of_skipped hz hnext hpoint hskip] at h
          obtain ⟨skipped, stream₁, e₁, hlt, hall, hrun, hend⟩ := ih h
          refine ⟨⟨k, point⟩ :: skipped, stream₁, e₁, Nat.succ_lt_succ hlt,
            List.forall_mem_cons.mpr ⟨hskip, hall⟩, .cons hnext hpoint hrun, ?_⟩
          rwa [List.length_cons, Nat.add_comm skipped.length, ← Nat.add_assoc]
        · rw [search_of_refused hnext hpoint hrefuse] at h
          cases h
          exact ⟨[], _, _, bound.succ_pos, by simp, .nil _ _, .refused hone hrefuse⟩
        · rw [search_of_signs hz hnext hpoint hsign] at h
          cases h
          exact ⟨[], _, _, bound.succ_pos, by simp, .nil _ _, .signed hone hsign⟩

theorem search_of_finds (hz : z.Represents x) {bound drawn : ℕ} {stream : σ} {e : Engine ν σ β}
    (h : Finds limit bound x d.value drawn stream e result e') :
    search limit z d bound drawn stream e = some (result, e') := by
  obtain ⟨skipped, stream₁, e₁, hlt, hall, hrun, hend⟩ := h
  induction hrun generalizing bound drawn with
  | nil stream e =>
    obtain ⟨bound, rfl⟩ := Nat.exists_eq_succ_of_ne_zero hlt.ne'
    cases hend with
    | signed hone hsign =>
      cases hone with
      | cons hnext hpoint hrest =>
        cases hrest
        exact search_of_signs hz hnext hpoint hsign
    | refused hone hrefuse =>
      cases hone with
      | cons hnext hpoint hrest =>
        cases hrest
        exact search_of_refused hnext hpoint hrefuse
    | failed hnext => exact search_of_error hnext
  | @cons stream stream₁ stream' e e₁ nonces device t ts hnext hpoint hrun ih =>
    obtain ⟨bound, rfl⟩ := Nat.exists_eq_succ_of_ne_zero (Nat.ne_zero_of_lt hlt)
    obtain ⟨hskip, hall⟩ := List.forall_mem_cons.mp hall
    rw [search_of_skipped hz hnext hpoint hskip]
    rw [List.length_cons, Nat.add_comm ts.length, ← Nat.add_assoc] at hend
    exact ih (Nat.lt_of_succ_lt_succ hlt) hall hend

/-- **The search comes to a result exactly through a run of skipped trials.** -/
theorem search_eq_some_iff (hz : z.Represents x) {bound drawn : ℕ} {stream : σ}
    {e : Engine ν σ β} : search limit z d bound drawn stream e = some (result, e') ↔
      Finds limit bound x d.value drawn stream e result e' :=
  ⟨finds_of_search hz, search_of_finds hz⟩

end Search

/-! ## Higher limits -/

variable {stream stream' : σ} {e e' : Engine ν σ β}

theorem Examines.source_eq {ts : List Trial} (h : Examines limit stream e ts stream' e') :
    e'.source = e.source := by
  induction h with
  | nil => rfl
  | cons _ _ _ ih => exact ih

theorem Examines.backend_eq {ts : List Trial} (h : Examines limit stream e ts stream' e') :
    e'.backend = e.backend := by
  induction h with
  | nil => rfl
  | cons _ _ _ ih => exact ih

/-- However a search ends, it keeps the source and the backend. -/
theorem Ends.kept {z d : ZMod groupOrder} {skipped : ℕ} {result : Except Error (Signature × ℕ)}
    (h : Ends limit z d skipped stream e result e') :
    e'.source = e.source ∧ e'.backend = e.backend := by
  cases h with
  | signed hone _ => exact ⟨hone.source_eq, hone.backend_eq⟩
  | refused hone _ => exact ⟨hone.source_eq, hone.backend_eq⟩
  | failed _ => exact ⟨rfl, rfl⟩

theorem Examines.mono {limit' : ℕ} (hsource : e.source.Steady) (hle : limit ≤ limit')
    {ts : List Trial} (h : Examines limit stream e ts stream' e') :
    Examines limit' stream e ts stream' e' := by
  induction h with
  | nil => exact .nil _ _
  | cons hnext hpoint _ ih => exact .cons (hsource hle hnext) hpoint (ih hsource)

theorem Ends.mono {limit' skipped : ℕ} {z d : ZMod groupOrder} (hsource : e.source.Steady)
    (hle : limit ≤ limit') {result : Except Error (Signature × ℕ)}
    (h : Ends limit z d skipped stream e result e') :
    Ends limit' z d skipped stream e result e' := by
  cases h with
  | signed hone hsign => exact .signed (hone.mono hsource hle) hsign
  | refused hone hrefuse => exact .refused (hone.mono hsource hle) hrefuse
  | failed hnext => exact .failed (hsource hle hnext)

theorem Finds.mono {limit' bound bound' drawn : ℕ} {z d : ZMod groupOrder}
    (hsource : e.source.Steady) (hle : limit ≤ limit') (hbound : bound ≤ bound')
    {result : Except Error (Signature × ℕ)} (h : Finds limit bound z d drawn stream e result e') :
    Finds limit' bound' z d drawn stream e result e' := by
  obtain ⟨skipped, stream₁, e₁, hlt, hall, hrun, hend⟩ := h
  have hsource₁ : e₁.source.Steady := by
    rw [hrun.source_eq]
    exact hsource
  exact ⟨skipped, stream₁, e₁, hlt.trans_le hbound, hall, hrun.mono hsource hle,
    hend.mono hsource₁ hle⟩

/-! ## Signing -/

section Signing

variable {digest : Digest} {key : SecretKey} {nonces : ν}

/-- A disposed key is refused before anything is drawn or computed. -/
theorem signWithNonceCount_of_disposed (h : key.isDisposed = true) :
    e.signWithNonceCount limit digest key = some (.error (.keyDisposed signContext), e) := by
  unfold signWithNonceCount
  rw [SecretKey.scalar_of_disposed h]

/-- A stream that does not open is the result. -/
theorem signWithNonceCount_of_closed (hlive : key.isDisposed = false) {err : Error}
    (hstart : e.source.start key.d digest e.nonces = (.error err, nonces)) :
    e.signWithNonceCount limit digest key = some (.error err, { e with nonces }) := by
  unfold signWithNonceCount
  rw [SecretKey.scalar_eq hlive]
  dsimp only
  rw [hstart]

/-- Signing is a search through the stream that opens. -/
theorem signWithNonceCount_eq_some_iff (hlive : key.isDisposed = false)
    (hstart : e.source.start key.d digest e.nonces = (.ok stream, nonces))
    {result : Except Error (Signature × ℕ)} :
    e.signWithNonceCount limit digest key = some (result, e') ↔
      Finds limit limit digest.octets.value key.d.value 0 stream { e with nonces } result e' := by
  unfold signWithNonceCount
  rw [SecretKey.scalar_eq hlive]
  dsimp only
  rw [hstart]
  exact search_eq_some_iff (Scalar.represents_reduce digest.octets)

theorem Finds.in_range {bound drawn m : ℕ} {z d : ZMod groupOrder} {g : Signature}
    (h : Finds limit bound z d drawn stream e (.ok (g, m)) e') :
    (0 < g.r.value ∧ g.r.value < groupOrder) ∧ (0 < g.s.value ∧ g.s.value < groupOrder) := by
  obtain ⟨_, _, _, _, _, _, hend⟩ := h
  cases hend with
  | signed _ hsign => exact hsign.in_range

/-- **Signing takes the first candidate that is not skipped**, for a live key, every digest, every
source of nonces and every backend.  A stream that does not open is the result.  Otherwise the
engine comes to a result exactly if it skips some candidates, fewer than the limit, each
multiplied once on the backend, and then signs with one more, refuses one more that is zero, or
meets an error of the stream; the count is the position of the candidate.  Both components lie in
`[1, n-1]`, and a higher limit changes nothing. -/
theorem signWithNonceCount_exact (e : Engine ν σ β) (digest : Digest) {key : SecretKey}
    (hlive : key.isDisposed = false) (limit : ℕ) :
    (∀ err nonces, e.source.start key.d digest e.nonces = (.error err, nonces) →
      e.signWithNonceCount limit digest key = some (.error err, { e with nonces })) ∧
    (∀ stream nonces, e.source.start key.d digest e.nonces = (.ok stream, nonces) →
      ∀ result e', e.signWithNonceCount limit digest key = some (result, e') ↔
        Finds limit limit digest.octets.value key.d.value 0 stream { e with nonces } result e') ∧
    (∀ g drawn e', e.signWithNonceCount limit digest key = some (.ok (g, drawn), e') →
      (0 < g.r.value ∧ g.r.value < groupOrder) ∧ (0 < g.s.value ∧ g.s.value < groupOrder)) ∧
    (e.source.Steady → ∀ limit', limit ≤ limit' → ∀ answer,
      e.signWithNonceCount limit digest key = some answer →
        e.signWithNonceCount limit' digest key = some answer) := by
  refine ⟨fun err nonces => signWithNonceCount_of_closed hlive,
    fun stream nonces hstart result e' => signWithNonceCount_eq_some_iff hlive hstart, ?_, ?_⟩
  · intro g drawn e' h
    obtain ⟨⟨opened, nonces⟩, hstart⟩ : ∃ a, e.source.start key.d digest e.nonces = a := ⟨_, rfl⟩
    cases opened with
    | error err =>
      rw [signWithNonceCount_of_closed hlive hstart] at h
      cases h
    | ok stream => exact ((signWithNonceCount_eq_some_iff hlive hstart).mp h).in_range
  · rintro hsource limit' hle ⟨result, e'⟩ h
    obtain ⟨⟨opened, nonces⟩, hstart⟩ : ∃ a, e.source.start key.d digest e.nonces = a := ⟨_, rfl⟩
    cases opened with
    | error err =>
      rw [signWithNonceCount_of_closed hlive hstart] at h ⊢
      exact h
    | ok stream =>
      rw [signWithNonceCount_eq_some_iff hlive hstart] at h ⊢
      have hsource' : ({ e with nonces } : Engine ν σ β).source.Steady := hsource
      exact h.mono hsource' hle hle

/-- An engine whose nonces are 1 and 1, and whose backend answers with the identity and then with
the base point. -/
def scriptedSigner : Engine (List (Octets 32)) Unit Script :=
  ⟨.listed, .scripted, [Scalar.one.toOctets, Scalar.one.toOctets],
    ⟨[.identity, .generator], [], none, []⟩⟩

/-- The first candidate is skipped and the second one taken, with two calls of the backend. -/
theorem signWithNonceCount_exact_scripted :
    scriptedSigner.signWithNonceCount 2 ⟨.zero 32⟩ ⟨.one, false⟩ =
      some (.ok (⟨Curve.secp256r1.gx, Curve.secp256r1.gx⟩, 2),
        { scriptedSigner with nonces := [], device := ⟨[], [], none, [.mulBase, .mulBase]⟩ }) ∧
    scriptedSigner.signWithNonceCount 3 ⟨.zero 32⟩ ⟨.one, false⟩ =
      scriptedSigner.signWithNonceCount 2 ⟨.zero 32⟩ ⟨.one, false⟩ := by
  have hlive : (⟨.one, false⟩ : SecretKey).isDisposed = false := rfl
  obtain ⟨-, hiff, -, hmono⟩ := signWithNonceCount_exact scriptedSigner ⟨.zero 32⟩ hlive 2
  have hone : Scalar.reduce Scalar.one.toOctets = .one := by decide +kernel
  have hskip : Trial.Skipped (Octets.zero 32).value Scalar.one.value ⟨.one, .identity⟩ := by
    refine .inl ?_
    rw [Trial.r, show Point.identity.x.value = 0 by decide +kernel, Nat.cast_zero]
  have hresult := (hiff () _ rfl _ _).mpr ⟨[⟨.one, .identity⟩], (), _, by decide,
    List.forall_mem_singleton.mpr hskip, .cons (by rw [← hone]; rfl) rfl (.nil _ _),
    .signed (.cons (by rw [← hone]; rfl) rfl (.nil _ _)) Trial.signs_one⟩
  exact ⟨hresult, (hmono NonceSource.steady_listed 3 (by decide) _ hresult).trans hresult.symm⟩

end Signing

end Engine

end Secp256r1
