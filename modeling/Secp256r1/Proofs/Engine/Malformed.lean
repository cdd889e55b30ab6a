import Secp256r1.Backend.Scripted
import Secp256r1.Proofs.Engine.Acceptance

/-!
# Malformed signatures are told from wrong ones

A signature comes as octets.  Decoding looks at their number and verification at the range of both
halves, before the backend is asked for anything.  What passes gets a yes or a no.

* `Signature.decode_eq_ok_iff` — a signature is read exactly from the octets that it writes.
* `Signature.Malformed`, `Signature.fault?` — octets that are refused, and the error that says why.
* `BackendCall.recorded`, `Engine.recorded` — the engine with a record of what its backend is asked.
* `Engine.verifyEncoded` — decoding and then verifying.
* `Engine.verifyEncoded_of_fault`, `Engine.verifyEncoded_of_sound` — the two outcomes.
* `Engine.malformed_exact` — **the only errors are those of malformed octets, and they cost the
  backend nothing**.
-/

set_option autoImplicit false

namespace Secp256r1

variable {ν σ β α : Type}

namespace Signature

variable {bs : List UInt8} {g : Signature}

/-! ## The written form -/

/-- **A signature is read exactly from the octets that it writes.** -/
theorem decode_eq_ok_iff : decode bs = .ok g ↔ g.encode.toList = bs := by
  constructor
  · intro h
    unfold decode at h
    split at h
    · cases h
    · rename_i o ho
      obtain ⟨r, s, rfl⟩ := Octets.exists_eq_append (m := 32) (n := 32) o
      rw [Octets.split_append] at h
      cases h
      exact Octets.ofList?_eq_some_iff.mp ho
  · rintro rfl
    exact decode_encode g

/-- Octets of another number are not decoded. -/
theorem decode_of_length_ne (h : bs.length ≠ 64) : decode bs = .error
    (.malformedSignature "ECDSA signature decoding" "signature must be exactly 64 bytes") := by
  unfold decode Octets.ofList?
  rw [dif_neg h]

/-- Octets of the right number are decoded, and their halves are the components. -/
theorem exists_decode_eq_ok (h : bs.length = 64) :
    ∃ g, decode bs = .ok g ∧ g.r.toList = bs.take 32 ∧ g.s.toList = bs.drop 32 := by
  obtain ⟨r, s, heq⟩ := Octets.exists_eq_append (m := 32) (n := 32) ⟨bs, h⟩
  have hbs : r.toList ++ s.toList = bs := (congrArg Octets.toList heq).symm
  refine ⟨⟨r, s⟩, decode_eq_ok_iff.mpr hbs, ?_, ?_⟩
  · rw [← hbs, List.take_left' r.length_toList]
  · rw [← hbs, List.drop_left' r.length_toList]

/-! ## What is wrong with it -/

/-- The octets stand for no integer in `[1, n-1]`. -/
def OutOfRange (half : List UInt8) : Prop := bigEndian half = 0 ∨ groupOrder ≤ bigEndian half

instance : DecidablePred OutOfRange := fun _ => inferInstanceAs (Decidable (_ ∨ _))

theorem not_outOfRange_iff {half : List UInt8} :
    ¬ OutOfRange half ↔ 0 < bigEndian half ∧ bigEndian half < groupOrder := by
  unfold OutOfRange
  omega

/-- There are not 64 octets, or one half of them is out of range. -/
def Malformed (bs : List UInt8) : Prop :=
  bs.length ≠ 64 ∨ OutOfRange (bs.take 32) ∨ OutOfRange (bs.drop 32)

/-- What is wrong with octets: their number is looked at first, then the first half, then the
second. -/
def fault? (bs : List UInt8) : Option Error :=
  if bs.length ≠ 64 then
    some (.malformedSignature "ECDSA signature decoding" "signature must be exactly 64 bytes")
  else if OutOfRange (bs.take 32) then
    some (.malformedSignature "EcdsaP256::verify" "r is zero or not below the group order")
  else if OutOfRange (bs.drop 32) then
    some (.malformedSignature "EcdsaP256::verify" "s is zero or not below the group order")
  else none

/-- Nothing is wrong with octets exactly if they are not malformed. -/
theorem fault?_eq_none_iff : fault? bs = none ↔ ¬ Malformed bs := by
  unfold fault? Malformed
  split_ifs <;> simp_all

/-- What is wrong with octets is a malformed signature. -/
theorem exists_fault?_eq_some_iff :
    (∃ context reason, fault? bs = some (.malformedSignature context reason)) ↔ Malformed bs := by
  unfold fault? Malformed
  split_ifs <;> simp_all

end Signature

/-! ## A record of what the backend is asked -/

/-- The operation that writes itself down behind the calls before it. -/
def BackendCall.recorded (call : BackendCall) (op : StateM β α) : StateM (β × List BackendCall) α :=
  fun (device, calls) =>
    let (a, device) := op.run device
    (a, device, calls ++ [call])

/-- The backend that writes down every operation that it is asked for. -/
def Backend.recorded (backend : Backend β) : Backend (β × List BackendCall) where
  name := backend.name
  debugText? := backend.debugText?
  mulBase k := BackendCall.mulBase.recorded (backend.mulBase k)
  mul k p := BackendCall.mul.recorded (backend.mul k p)
  mulAddBase u₁ u₂ q := BackendCall.mulAddBase.recorded (backend.mulAddBase u₁ u₂ q)
  validatePoint p := BackendCall.validatePoint.recorded (backend.validatePoint p)

namespace Engine

open Signature (fault? Malformed OutOfRange)

/-- The engine whose backend writes down its calls, behind some that it has seen. -/
def recorded (calls : List BackendCall) (e : Engine ν σ β) : Engine ν σ (β × List BackendCall) :=
  ⟨e.source, e.backend.recorded, e.nonces, (e.device, calls)⟩

/-- Decodes a signature and verifies it. -/
def verifyEncoded (e : Engine ν σ β) (digest : Digest) (key : PublicKey) (bs : List UInt8) :
    Except Error Bool × Engine ν σ β :=
  match Signature.decode bs with
  | .error err => (.error err, e)
  | .ok g => e.verify digest key g

/-! ## The two outcomes -/

/-- The second component is looked at next: out of range, it stops the reading. -/
theorem readSignature_of_second {r s : Octets 32} (hr : 0 < r.value ∧ r.value < groupOrder)
    (hs : ¬(0 < s.value ∧ s.value < groupOrder)) :
    readSignature ⟨r, s⟩ = .error
      (.malformedSignature "EcdsaP256::verify" "s is zero or not below the group order") := by
  unfold readSignature
  rw [component_eq, if_pos hr, component_eq, if_neg hs]
  rfl

/-- **Malformed octets are refused with what is wrong with them**, and the engine is left alone. -/
theorem verifyEncoded_of_fault (e : Engine ν σ β) (digest : Digest) (key : PublicKey)
    {bs : List UInt8} {err : Error} (h : fault? bs = some err) :
    e.verifyEncoded digest key bs = (.error err, e) := by
  unfold fault? at h
  unfold verifyEncoded
  by_cases hlength : bs.length = 64
  · obtain ⟨⟨r, s⟩, hdecode, hr, hs⟩ := Signature.exists_decode_eq_ok hlength
    rw [if_neg (not_not_intro hlength), ← hr, ← hs] at h
    rw [hdecode]
    dsimp only
    unfold verify
    by_cases hfirst : OutOfRange r.toList
    · rw [if_pos hfirst] at h
      rw [readSignature_of_first fun hrange => Signature.not_outOfRange_iff.mpr hrange hfirst]
      cases h
      rfl
    · rw [if_neg hfirst] at h
      by_cases hsecond : OutOfRange s.toList
      · rw [if_pos hsecond] at h
        rw [readSignature_of_second (Signature.not_outOfRange_iff.mp hfirst) fun hrange =>
          Signature.not_outOfRange_iff.mpr hrange hsecond]
        cases h
        rfl
      · rw [if_neg hsecond] at h
        cases h
  · rw [if_pos hlength] at h
    rw [Signature.decode_of_length_ne hlength]
    cases h
    rfl

/-- **Octets with nothing wrong get a yes or a no**: the second component has an inverse, and the
backend is asked for one sum of multiples. -/
theorem verifyEncoded_of_sound (digest : Digest) (key : PublicKey) {bs : List UInt8}
    (h : fault? bs = none) :
    ∃ (u₁ u₂ : Scalar) (r : Octets 32), ∀ {β : Type} (e : Engine ν σ β),
      e.verifyEncoded digest key bs =
        (e.onDevice (e.backend.mulAddBase u₁ u₂ key.point)).map (fun p => .ok (accepts p r)) id := by
  have hsound := Signature.fault?_eq_none_iff.mp h
  unfold Malformed at hsound
  rw [not_or, not_or, not_not] at hsound
  obtain ⟨hlength, hfirst, hsecond⟩ := hsound
  obtain ⟨g, hdecode, hr, hs⟩ := Signature.exists_decode_eq_ok hlength
  rw [← hr, Signature.not_outOfRange_iff] at hfirst
  rw [← hs, Signature.not_outOfRange_iff] at hsecond
  refine ⟨Scalar.reduce digest.octets * Scalar.inverseTotal ⟨⟨g.s⟩⟩,
    ⟨⟨g.r⟩⟩ * Scalar.inverseTotal ⟨⟨g.s⟩⟩, g.r, fun e => ?_⟩
  unfold verifyEncoded
  rw [hdecode]
  dsimp only
  unfold verify
  rw [readSignature_eq hfirst hsecond]
  rfl

/-- What the backend is asked for is written down, and changes nothing else. -/
theorem onDevice_recorded (e : Engine ν σ β) (calls : List BackendCall) (u₁ u₂ : Scalar)
    (q : Point) :
    (e.recorded calls).onDevice ((e.recorded calls).backend.mulAddBase u₁ u₂ q) =
      (e.onDevice (e.backend.mulAddBase u₁ u₂ q)).map id (recorded (calls ++ [.mulAddBase])) := rfl

/-- **The only errors are those of malformed octets, and they cost the backend nothing.**  For all
octets, every digest, every public key and every backend, decoding and verifying fails exactly with
what is wrong with the octets: there are not 64 of them, or one half of them is zero or not below
the group order.  Then the backend has not been asked for anything and the engine is as it was.  In
every other case the answer is yes or no, after one call of the backend.  A signature is decoded
exactly from the 64 octets that it writes, whatever they are. -/
theorem malformed_exact (e : Engine ν σ β) (digest : Digest) (key : PublicKey) (bs : List UInt8) :
    (∃ result e' calls, e.verifyEncoded digest key bs = (result, e') ∧
      (e.recorded []).verifyEncoded digest key bs = (result, e'.recorded calls) ∧
      ((∃ context reason, result = .error (.malformedSignature context reason)) ↔ Malformed bs) ∧
      ((∃ accepted, result = .ok accepted) ↔ ¬ Malformed bs) ∧
      (∀ err, result = .error err ↔ fault? bs = some err) ∧
      (calls = [] ∧ e' = e ↔ Malformed bs) ∧
      (calls = [.mulAddBase] ↔ ¬ Malformed bs)) ∧
    ((∃ g, Signature.decode bs = .ok g) ↔ bs.length = 64) ∧
    ∀ g, Signature.decode bs = .ok g ↔ g.encode.toList = bs := by
  refine ⟨?_, ?_, fun g => Signature.decode_eq_ok_iff⟩
  · cases hfault : fault? bs with
    | some err =>
      have hmalformed : Malformed bs := by
        by_contra hsound
        rw [Signature.fault?_eq_none_iff.mpr hsound] at hfault
        cases hfault
      obtain ⟨context, reason, hkind⟩ := Signature.exists_fault?_eq_some_iff.mpr hmalformed
      rw [hfault, Option.some.injEq] at hkind
      refine ⟨.error err, e, [], verifyEncoded_of_fault e digest key hfault,
        verifyEncoded_of_fault (e.recorded []) digest key hfault, ?_, ?_, ?_, ?_, ?_⟩
      · exact iff_of_true ⟨context, reason, congrArg Except.error hkind⟩ hmalformed
      · exact iff_of_false (by simp) (not_not_intro hmalformed)
      · simp
      · exact iff_of_true ⟨rfl, rfl⟩ hmalformed
      · exact iff_of_false (by simp) (not_not_intro hmalformed)
    | none =>
      have hsound := Signature.fault?_eq_none_iff.mp hfault
      obtain ⟨u₁, u₂, r, hverify⟩ := verifyEncoded_of_sound (ν := ν) (σ := σ) digest key hfault
      obtain ⟨⟨p, e'⟩, hdevice⟩ : ∃ a, e.onDevice (e.backend.mulAddBase u₁ u₂ key.point) = a :=
        ⟨_, rfl⟩
      have hplain := hverify e
      have hrecorded := hverify (e.recorded [])
      rw [onDevice_recorded] at hrecorded
      rw [hdevice] at hplain hrecorded
      refine ⟨.ok (accepts p r), e', [.mulAddBase], hplain, hrecorded, ?_, ?_, ?_, ?_, ?_⟩
      · exact iff_of_false (by simp) hsound
      · exact iff_of_true ⟨_, rfl⟩ hsound
      · simp
      · exact iff_of_false (by simp) hsound
      · exact iff_of_true rfl hsound
  · constructor
    · rintro ⟨g, hg⟩
      rw [← Signature.decode_eq_ok_iff.mp hg]
      exact g.encode.length_toList
    · intro hlength
      obtain ⟨g, hg, -⟩ := Signature.exists_decode_eq_ok hlength
      exact ⟨g, hg⟩

end Engine

end Secp256r1
