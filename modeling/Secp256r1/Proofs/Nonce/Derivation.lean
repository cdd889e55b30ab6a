import Mathlib.Data.Nat.Count
import Secp256r1.Proofs.Hmac
import Secp256r1.Proofs.Nonce.Stream
import Secp256r1.Proofs.Scalar.Residue

/-!
# Deterministic nonces are the standard sequence

RFC 6979 describes an eager generator: from a key `K` and a value `V` it takes the candidate
`T = HMAC_K(V)` and at once renews both, whether `T` is used or not.  The streams of this library
renew them only when another candidate is wanted, inside a loop that passes over candidates out of
range.  Both give the same scalars, however the calls are spread.

* `Generation` — the eager generator: `seeded` (steps B to G), `candidate`, `advance` (step H.3).
* `candidates` — the sequence `T₁, T₂, …`, counted from 0.
* `draw_eq` — drawing never fails, and renews what the last draw left undone.
* `seed_eq`, `draw_stateAfter` — a stream that has looked at `j` candidates is in `stateAfter j`.
* `NonceSource.Yields` — a stream returns the elements in range of a sequence, one by one.
* `derived_streams_exact` — **deterministic and hedged streams yield the standard sequence**.
-/

set_option autoImplicit false

namespace Secp256r1

namespace Rfc6979

/-! ## The eager generator -/

/-- `HMAC_K(m)` with SHA-256. -/
def tag (k : Octets 32) (m : List UInt8) : Octets 32 := Hmac.tag sha256 k.toList m

/-- The key and the value of the eager generator. -/
@[ext]
structure Generation where
  k : Octets 32
  v : Octets 32

namespace Generation

/-- `K = HMAC_K(V ∥ m)`, then `V = HMAC_K(V)`. -/
def renew (g : Generation) (m : List UInt8) : Generation :=
  let k := tag g.k (g.v.toList ++ m)
  ⟨k, tag k g.v.toList⟩

/-- Steps B to G for a private integer, the integer of a digest and extra input. -/
def seeded (x h : ℕ) (extra : List UInt8) : Generation :=
  let material := (Octets.ofNat 32 x).toList ++ (Octets.ofNat 32 (h % groupOrder)).toList ++ extra
  let blank : Generation := ⟨.replicate 32 0x00, .replicate 32 0x01⟩
  (blank.renew (0x00 :: material)).renew (0x01 :: material)

/-- The next candidate, `HMAC_K(V)`. -/
def candidate (g : Generation) : Octets 32 := tag g.k g.v.toList

/-- After a candidate, used or not: `V` becomes the candidate, `K = HMAC_K(V ∥ 0x00)` and
`V = HMAC_K(V)`. -/
def advance (g : Generation) : Generation := renew ⟨g.k, g.candidate⟩ [0x00]

end Generation

/-- The generator after a number of candidates. -/
def generation (x h : ℕ) (extra : List UInt8) (j : ℕ) : Generation :=
  Generation.advance^[j] (.seeded x h extra)

/-- The candidates `T₁, T₂, …` of the standard, counted from 0. -/
def candidates (x h : ℕ) (extra : List UInt8) (j : ℕ) : Octets 32 :=
  (generation x h extra j).candidate

/-! ## One step of a stream -/

/-- A stream as the generator sees it. -/
def toGeneration (s : Rfc6979) : Generation := ⟨s.k.octets, s.v.octets⟩

theorem hmac_eq (key : SecretBuffer 32) (parts : List (List UInt8)) :
    hmac key parts = .ok ⟨tag key.octets parts.flatten⟩ := by
  unfold hmac
  rw [Hmac.macParts_eq lawful_sha256 (by decide)]
  rfl

theorem retag_eq (s : Rfc6979) :
    s.retag = (.ok (), { s with v := ⟨tag s.k.octets s.v.octets.toList⟩ }) := by
  unfold retag
  rw [hmac_eq, List.flatten_cons, List.flatten_nil, List.append_nil]

theorem rekey_eq (s : Rfc6979) (parts : List (List UInt8)) : s.rekey parts =
    (.ok (), { s with k := ⟨(s.toGeneration.renew parts.flatten).k⟩
                      v := ⟨(s.toGeneration.renew parts.flatten).v⟩ }) := by
  unfold rekey
  rw [hmac_eq]
  exact retag_eq _

/-- **Drawing never fails and takes the candidate of the generator**, which is renewed before if a
candidate was drawn. -/
theorem draw_eq (s : Rfc6979) :
    let g := if s.drawn then s.toGeneration.renew [0x00] else s.toGeneration
    s.draw = (.ok (), ⟨⟨g.k⟩, ⟨g.candidate⟩, true⟩) := by
  unfold draw
  cases s.drawn with
  | false =>
    simp only [Bool.false_eq_true, if_false, retag_eq]
    rfl
  | true =>
    simp only [if_true, rekey_eq, retag_eq]
    rfl

/-- The octets of a private scalar and of a digest are those of their integers. -/
theorem octets_eq_ofNat (x : Scalar) (digest : Digest) : x.toOctets = .ofNat 32 x.value ∧
    (Scalar.reduce digest.octets).toOctets = .ofNat 32 (digest.octets.value % groupOrder) := by
  constructor
  · exact (Octets.ofNat_value x.toOctets).symm
  · have hreduce := Scalar.represents_reduce digest.octets
    rw [Scalar.Represents, ZMod.val_natCast] at hreduce
    rw [← hreduce]
    exact (Octets.ofNat_value _).symm

variable {x h : ℕ} {extra : List UInt8}

/-- A stream after a number of candidates: before the first it holds the seeded generator, later
the key under which the last candidate was made, and that candidate. -/
def stateAfter (x h : ℕ) (extra : List UInt8) : ℕ → Rfc6979
  | 0 => ⟨⟨(generation x h extra 0).k⟩, ⟨(generation x h extra 0).v⟩, false⟩
  | j + 1 => ⟨⟨(generation x h extra j).k⟩, ⟨candidates x h extra j⟩, true⟩

/-- **Seeding never fails and is steps B to G.** -/
theorem seed_eq (x : Scalar) (digest : Digest) (extra : List UInt8) :
    seed x digest extra = .ok (stateAfter x.value digest.octets.value extra 0) := by
  obtain ⟨hx, hdigest⟩ := octets_eq_ofNat x digest
  unfold seed
  simp only [bind, Except.bind, pure, Except.pure, rekey_eq, hx, hdigest, List.flatten_cons,
    List.flatten_nil, List.append_nil, List.singleton_append, ← List.append_assoc]
  rfl

/-- **Drawing makes the next candidate**: the renewal that is late for one candidate comes just in
time for the next. -/
theorem draw_stateAfter (j : ℕ) :
    (stateAfter x h extra j).draw = (.ok (), stateAfter x h extra (j + 1)) := by
  rw [draw_eq]
  cases j with
  | zero => rfl
  | succ j =>
    have hadvance : generation x h extra (j + 1) = (generation x h extra j).advance :=
      Function.iterate_succ_apply' ..
    simp only [stateAfter, candidates, hadvance]
    rfl

/-! ## Candidates in range -/

/-- The octets hold an integer that can be a nonce. -/
def InRange (o : Octets 32) : Prop := 0 < o.value ∧ o.value < groupOrder

instance : DecidablePred InRange := fun _ => inferInstanceAs (Decidable (_ ∧ _))

/-- How many elements of a sequence before place `j` are in range. -/
def rank (T : ℕ → Octets 32) (j : ℕ) : ℕ := Nat.count (fun j => InRange (T j)) j

/-- Place `j` holds the element in range that has `i` such elements before it. -/
def Place (T : ℕ → Octets 32) (i j : ℕ) : Prop := InRange (T j) ∧ rank T j = i

theorem rank_succ (T : ℕ → Octets 32) (j : ℕ) :
    rank T (j + 1) = rank T j + if InRange (T j) then 1 else 0 := Nat.count_succ _ _

theorem le_of_rank_le {T : ℕ → Octets 32} {j m : ℕ} (hm : InRange (T m))
    (hle : rank T j ≤ rank T m) : j ≤ m := by
  by_contra hlt
  exact absurd (Nat.count_strict_mono (p := fun j => InRange (T j)) hm (Nat.lt_of_not_le hlt))
    (Nat.not_lt.mpr hle)

/-- One place at most holds an element. -/
theorem Place.unique {T : ℕ → Octets 32} {i j m : ℕ} (hj : Place T i j) (hm : Place T i m) :
    j = m :=
  Nat.le_antisymm (le_of_rank_le hm.1 (hj.2.trans hm.2.symm).le)
    (le_of_rank_le hj.1 (hm.2.trans hj.2.symm).le)

theorem place_zero {T : ℕ → Octets 32} (h : InRange (T 0)) : Place T 0 0 :=
  ⟨h, Nat.count_zero _⟩

/-- Octets in range are those that make a nonce. -/
theorem ofCanonical_eq_inRange (o : Octets 32) : Scalar.ofCanonical o =
    if InRange o then .ok ⟨⟨o⟩⟩ else .error (.scalarRange "P-256 Scalar") :=
  Scalar.ofCanonical_eq o

/-- A drawn value in range is returned, and one out of range passed over. -/
theorem next_succ {s s' : Rfc6979} (hdraw : s.draw = (.ok (), s')) (limit : ℕ) :
    s.next (limit + 1) = if InRange s'.v.octets then some (.ok ⟨s'.v⟩, s') else s'.next limit := by
  conv_lhs => unfold next
  rw [hdraw]
  dsimp only
  rw [ofCanonical_eq_inRange]
  by_cases hin : InRange s'.v.octets
  · rw [if_pos hin, if_pos hin]
  · rw [if_neg hin, if_neg hin]

theorem v_stateAfter_succ (j : ℕ) :
    (stateAfter x h extra (j + 1)).v = ⟨candidates x h extra j⟩ := rfl

/-- A candidate in range is returned, and one out of range passed over. -/
theorem next_stateAfter_succ (limit j : ℕ) : (stateAfter x h extra j).next (limit + 1) =
    if InRange (candidates x h extra j) then
      some (.ok ⟨⟨candidates x h extra j⟩⟩, stateAfter x h extra (j + 1))
    else (stateAfter x h extra (j + 1)).next limit := by
  rw [next_succ (draw_stateAfter j), v_stateAfter_succ]

/-- What is returned is the next element in range. -/
theorem next_stateAfter {limit j : ℕ} {r : Except Error Scalar} {s : Rfc6979}
    (hnext : (stateAfter x h extra j).next limit = some (r, s)) :
    ∃ m, Place (candidates x h extra) (rank (candidates x h extra) j) m ∧
      r = .ok ⟨⟨candidates x h extra m⟩⟩ ∧ s = stateAfter x h extra (m + 1) := by
  induction limit generalizing j with
  | zero => cases hnext
  | succ limit ih =>
    rw [next_stateAfter_succ] at hnext
    split at hnext
    · rename_i hin
      cases hnext
      exact ⟨j, ⟨hin, rfl⟩, rfl, rfl⟩
    · rename_i hout
      obtain ⟨m, hplace, hr, hs⟩ := ih hnext
      rw [rank_succ, if_neg hout, Nat.add_zero] at hplace
      exact ⟨m, hplace, hr, hs⟩

/-- An element in range is found within every limit that reaches it. -/
theorem exists_next_stateAfter {limit j m : ℕ} (hin : InRange (candidates x h extra m))
    (hle : j ≤ m) (hlt : m < j + limit) :
    ∃ answer, (stateAfter x h extra j).next limit = some answer := by
  induction limit generalizing j with
  | zero => omega
  | succ limit ih =>
    rw [next_stateAfter_succ]
    split
    · exact ⟨_, rfl⟩
    · rename_i hout
      have hne : j ≠ m := by
        rintro rfl
        exact hout hin
      exact ih (by omega) (by omega)

end Rfc6979

/-! ## Successive calls -/

namespace NonceSource

open Rfc6979

variable {ν : Type}

/-- An open stream returns the elements in range of a sequence, one by one: the call that has `i`
calls before it returns the element in range that has `i` such elements before it, never an error,
and it does return if there is one that its limit reaches. -/
structure Yields (source : NonceSource ν Rfc6979) (stream : Rfc6979) (nonces : ν)
    (T : ℕ → Octets 32) : Prop where
  returned : ∀ limits rs stream' nonces',
    source.calls limits stream nonces = some (rs, stream', nonces') →
      rs.length = limits.length ∧ nonces' = nonces ∧
        ∀ i r, rs[i]? = some r → ∃ j k, Place T i j ∧ r = .ok k ∧ k.toOctets = T j
  returns : ∀ i j, Place T i j → ∀ limits : List ℕ, limits.length = i + 1 →
    (∀ limit ∈ limits, j < limit) → ∃ answer, source.calls limits stream nonces = some answer

variable {source : NonceSource ν Rfc6979} (hsource : source.Derives) {x h : ℕ} {extra : List UInt8}
include hsource

theorem Derives.returned {limits : List ℕ} {j : ℕ} {nonces nonces' : ν}
    {rs : List (Except Error Scalar)} {s : Rfc6979}
    (hcalls : source.calls limits (stateAfter x h extra j) nonces = some (rs, s, nonces')) :
    rs.length = limits.length ∧ nonces' = nonces ∧ ∀ i r, rs[i]? = some r →
      ∃ m, Place (candidates x h extra) (rank (candidates x h extra) j + i) m ∧
        r = .ok ⟨⟨candidates x h extra m⟩⟩ := by
  induction limits generalizing j rs with
  | nil =>
    cases hcalls
    exact ⟨rfl, rfl, by simp⟩
  | cons limit limits ih =>
    obtain ⟨r, s', nonces₁, rs', rest, hnext, hrest, heq⟩ := calls_cons_eq_some_iff.mp hcalls
    obtain ⟨hdrawn, rfl⟩ := hsource.next_eq_some_iff.mp hnext
    obtain ⟨m, hplace, rfl, rfl⟩ := next_stateAfter hdrawn
    cases heq
    obtain ⟨hlength, hnonces, hall⟩ := ih hrest
    refine ⟨congrArg (· + 1) hlength, hnonces, fun i r hr => ?_⟩
    cases i with
    | zero =>
      cases hr
      exact ⟨m, hplace, rfl⟩
    | succ i =>
      obtain ⟨m', hplace', hr'⟩ := hall i r hr
      rw [rank_succ, if_pos hplace.1, hplace.2, Nat.add_assoc, Nat.add_comm 1] at hplace'
      exact ⟨m', hplace', hr'⟩

theorem Derives.returns {limits : List ℕ} {i j m : ℕ} {nonces : ν}
    (hplace : Place (candidates x h extra) (rank (candidates x h extra) j + i) m)
    (hlength : limits.length = i + 1) (hlimits : ∀ limit ∈ limits, m < limit) :
    ∃ answer, source.calls limits (stateAfter x h extra j) nonces = some answer := by
  induction limits generalizing i j with
  | nil => cases hlength
  | cons limit limits ih =>
    obtain ⟨hlimit, hlimits⟩ := List.forall_mem_cons.mp hlimits
    have hle : j ≤ m := le_of_rank_le hplace.1 (by rw [hplace.2]; exact Nat.le_add_right ..)
    obtain ⟨⟨r, s⟩, hnext⟩ :=
      exists_next_stateAfter hplace.1 hle (hlimit.trans_le (Nat.le_add_left ..))
    obtain ⟨m', hplace', rfl, rfl⟩ := next_stateAfter hnext
    have hcall : source.next limit (stateAfter x h extra j) nonces =
        some (.ok ⟨⟨candidates x h extra m'⟩⟩, stateAfter x h extra (m' + 1), nonces) :=
      hsource.next_eq_some_iff.mpr ⟨hnext, rfl⟩
    cases i with
    | zero =>
      rw [List.length_eq_zero_iff.mp (Nat.succ.inj hlength)]
      exact ⟨_, calls_cons_eq_some_iff.mpr ⟨_, _, _, _, _, hcall, rfl, rfl⟩⟩
    | succ i =>
      -- the first call has moved the stream past one element in range
      have hrank : rank (candidates x h extra) j + (i + 1) =
          rank (candidates x h extra) (m' + 1) + i := by
        rw [rank_succ, if_pos hplace'.1, hplace'.2]
        omega
      obtain ⟨⟨rs, rest⟩, hrest⟩ := ih (hrank ▸ hplace) (Nat.succ.inj hlength) hlimits
      exact ⟨_, calls_cons_eq_some_iff.mpr ⟨_, _, _, _, _, hcall, hrest, rfl⟩⟩

/-- A seeded stream yields the standard sequence. -/
theorem Derives.yields (nonces : ν) :
    source.Yields (stateAfter x h extra 0) nonces (candidates x h extra) where
  returned limits rs stream' nonces' hcalls := by
    obtain ⟨hlength, hnonces, hall⟩ := hsource.returned hcalls
    refine ⟨hlength, hnonces, fun i r hr => ?_⟩
    obtain ⟨m, hplace, rfl⟩ := hall i r hr
    rw [rank, Nat.count_zero, Nat.zero_add] at hplace
    exact ⟨m, _, hplace, rfl, rfl⟩
  returns i j hplace limits hlength hlimits := by
    apply hsource.returns (j := 0) (i := i) _ hlength hlimits
    rwa [rank, Nat.count_zero, Nat.zero_add]

omit hsource

/-- **Deterministic and hedged streams yield the standard sequence.**  Opening never fails, but for
the generator of a hedged stream.  What is drawn from then on, with any calls, are the candidates
of the standard in `[1, n-1]`, one by one: for a deterministic stream those without extra input,
for a hedged one those with the octets that were drawn. -/
theorem derived_streams_exact (x : Scalar) (digest : Digest) :
    (∃ stream, rfc6979.start x digest () = (.ok stream, ()) ∧
      rfc6979.Yields stream () (candidates x.value digest.octets.value [])) ∧
    ∀ (γ : Type) (gen : Generator γ) (before after : γ) (drawn : Octets 32),
      gen.fill 32 before = (.ok drawn, after) →
      ∃ stream, (hedged gen).start x digest before = (.ok stream, after) ∧
        (hedged gen).Yields stream after (candidates x.value digest.octets.value drawn.toList) := by
  constructor
  · have hstart : rfc6979.start x digest () =
        (.ok (stateAfter x.value digest.octets.value [] 0), ()) :=
      Prod.ext (seed_eq x digest []) rfl
    exact ⟨_, hstart, derives_rfc6979.yields ()⟩
  · intro γ gen before after drawn hfill
    have hstart : (hedged gen).start x digest before =
        (.ok (stateAfter x.value digest.octets.value drawn.toList 0), after) := by
      dsimp only [hedged]
      rw [Generator.draw_of_fill hfill]
      exact Prod.ext (seed_eq x digest drawn.toList) rfl
    exact ⟨_, hstart, (derives_hedged gen).yields after⟩

/-! The vector of RFC 6979, A.2.5, for the message "sample". -/

/-- The private key. -/
def sampleKey : Scalar :=
  ⟨⟨.ofNat 32 0xc9afa9d845ba75166b5c215767b1d6934e50c3db36e89b127b8a622b120f6721⟩⟩

/-- The digest of the message. -/
def sampleDigest : Digest :=
  ⟨.ofNat 32 0xaf2bdbe1aa9b6ec1e2ade1d694f41fc71a831d0268e9891562113d8a62add1bf⟩

/-- The nonce. -/
def sampleNonce : Scalar :=
  ⟨⟨.ofNat 32 0xa6e3c57dd01abe90086538398355dd4c3b17aa873382b0f24d6129493d8aad60⟩⟩

/-- For the key and the digest of the vector the first call returns its nonce; and a hedged stream
opens on a tape of zeros. -/
theorem derived_streams_exact_sample :
    (∃ stream stream', rfc6979.start sampleKey sampleDigest () = (.ok stream, ()) ∧
      rfc6979.calls [1] stream () = some ([.ok sampleNonce], stream', ())) ∧
    Generator.tape.fill 32 (List.replicate 32 0) = (.ok (.zero 32), []) ∧
    ∃ stream, (hedged Generator.tape).start sampleKey sampleDigest (List.replicate 32 0) =
        (.ok stream, []) ∧
      (hedged Generator.tape).Yields stream [] (candidates sampleKey.value
        sampleDigest.octets.value (Octets.zero 32).toList) := by
  obtain ⟨⟨stream, hstart, hyields⟩, hhedged⟩ := derived_streams_exact sampleKey sampleDigest
  refine ⟨?_, rfl, hhedged _ Generator.tape _ _ (.zero 32) rfl⟩
  have hfirst : candidates sampleKey.value sampleDigest.octets.value [] 0 =
      sampleNonce.toOctets := by decide +kernel
  have hplace : Place (candidates sampleKey.value sampleDigest.octets.value []) 0 0 :=
    place_zero (hfirst ▸ by decide +kernel)
  obtain ⟨⟨rs, stream', _⟩, hcalls⟩ := hyields.returns 0 0 hplace [1] rfl (by decide)
  obtain ⟨hlength, -, hall⟩ := hyields.returned _ _ _ _ hcalls
  obtain ⟨r, rfl⟩ := List.length_eq_one_iff.mp hlength
  obtain ⟨j, k, hj, rfl, hk⟩ := hall 0 r rfl
  rw [hj.unique hplace, hfirst] at hk
  have heq : k = sampleNonce := Scalar.ext (SecretBuffer.ext hk)
  exact ⟨stream, stream', hstart, heq ▸ hcalls⟩

end NonceSource

end Secp256r1
