import Mathlib.Logic.Function.Basic
import Secp256r1.Proofs.Engine.Search

/-!
# The life of a secret key

A secret key is read once and then read out, turned into public keys, used for signatures on several
engines and disposed of, in any order and any number of times.  Most of this can be asked of the key
and of a signature scheme, by functions of their own; each is an operation here.

* `Custody` — the key and the engines, each with its source of nonces, its backend and their states.
* `Custody.step` — one operation; `none` if it signs and does not come to a result in its limit.
* `Custody.run` — a history of operations.
* `Custody.Operation.disposes` — the three operations that dispose of the key.
* `Custody.key_run` — only a disposal changes the key.
* `Custody.step_of_disposed` — **a disposed key refuses every operation and changes nothing**.
* `Custody.lifecycle` — **the scalar is the one that was read until the first disposal, and zero
  ever after**.
-/

set_option autoImplicit false

namespace Secp256r1

/-- An engine of any kind: some source of nonces, some backend, and their states. -/
structure Signer : Type 1 where
  {ν σ β : Type}
  engine : Engine ν σ β

/-- A secret key and the engines that it is used on. -/
structure Custody : Type 1 where
  key : SecretKey
  engines : ℕ → Signer

namespace Custody

/-- What is done with a secret key. -/
inductive Operation
  | encode
  /-- The octets by the name that every scheme has. -/
  | serialize
  /-- The public key by the definitions of this library. -/
  | publicKey
  /-- The public key by the backend of an engine. -/
  | publicKeyOn (engine : ℕ)
  /-- The public key by the name that every scheme has. -/
  | derivePublicKey
  | sign (engine limit : ℕ) (digest : Digest)
  /-- A signature by the name that every scheme has. -/
  | signDigest (engine limit : ℕ) (digest : Digest)
  | dispose
  /-- Disposal by the name that every scheme has. -/
  | disposeKey
  /-- Disposal as of any secret. -/
  | wipe
deriving DecidableEq

/-- Whether an operation disposes of the key. -/
def Operation.disposes : Operation → Bool
  | .dispose | .disposeKey | .wipe => true
  | .encode | .serialize | .publicKey | .publicKeyOn _ | .derivePublicKey | .sign ..
  | .signDigest .. => false

/-- What an operation answers. -/
inductive Answer
  | octets (result : Except Error (Octets 32))
  | string (result : Except Error (List UInt8))
  | publicKey (result : Except Error PublicKey)
  | signature (result : Except Error Signature)
  | disposed

/-- What an operation on a disposed key answers. -/
def Operation.refusal : Operation → Answer
  | .encode => .octets (.error (.keyDisposed "EcdsaP256SecretKey::export"))
  | .serialize => .string (.error (.keyDisposed "EcdsaP256SecretKey::export"))
  | .publicKey | .publicKeyOn _ | .derivePublicKey =>
    .publicKey (.error (.keyDisposed "EcdsaP256SecretKey::public_key"))
  | .sign .. | .signDigest .. => .signature (.error (.keyDisposed Engine.signContext))
  | .dispose | .disposeKey | .wipe => .disposed

variable {w w' : Custody} {ops : List Operation}

/-- The same key after an engine has worked. -/
def withEngine (w : Custody) (i : ℕ) {ν σ β : Type} (e : Engine ν σ β) : Custody :=
  { w with engines := Function.update w.engines i ⟨e⟩ }

/-- What is answered and left when an engine has signed. -/
def signed (w : Custody) (i : ℕ) {ν σ β : Type} (result : Except Error Signature × Engine ν σ β) :
    Answer × Custody :=
  (.signature result.1, w.withEngine i result.2)

/-- One operation: its answer, and what it leaves. -/
def step (w : Custody) : Operation → Option (Answer × Custody)
  | .encode => some (.octets w.key.encode, w)
  | .serialize => some (.string (Engine.serializeSecretKey w.key), w)
  | .publicKey => some (.publicKey w.key.publicKey, w)
  | .publicKeyOn i =>
    let (result, e) := (w.engines i).engine.publicKey w.key
    some (.publicKey result, w.withEngine i e)
  | .derivePublicKey => some (.publicKey (Engine.derivePublicKey w.key), w)
  | .sign i limit digest => ((w.engines i).engine.sign limit digest w.key).map (w.signed i)
  | .signDigest i limit digest =>
    ((w.engines i).engine.signDigest limit digest w.key).map (w.signed i)
  | .dispose => some (.disposed, { w with key := w.key.dispose })
  | .disposeKey => some (.disposed, { w with key := Engine.disposeKey w.key })
  | .wipe => some (.disposed, { w with key := w.key.wipe })

/-- What a history of operations leaves; `none` if one of them does not come to a result. -/
def run (w : Custody) : List Operation → Option Custody
  | [] => some w
  | op :: ops => (w.step op).bind fun (_, w) => run w ops

/-! ## One operation -/

/-- An operation leaves the key alone unless it is a disposal. -/
theorem key_step {op : Operation} {answer : Answer} (h : w.step op = some (answer, w')) :
    w'.key = if op.disposes then w.key.dispose else w.key := by
  cases op with
  | encode | serialize | publicKey | publicKeyOn i | derivePublicKey | dispose | disposeKey | wipe =>
    cases h
    rfl
  | sign i limit digest | signDigest i limit digest =>
    obtain ⟨result, -, heq⟩ := Option.map_eq_some_iff.mp h
    cases heq
    rfl

/-- To put back the engine that was there changes nothing. -/
theorem withEngine_self (w : Custody) (i : ℕ) : w.withEngine i (w.engines i).engine = w := by
  unfold withEngine
  rw [Function.update_eq_self]

/-- An engine refuses to sign with a disposed key and stays as it is. -/
theorem map_signed_of_disposed (h : w.key.isDisposed = true) (i limit : ℕ) (digest : Digest) :
    ((w.engines i).engine.sign limit digest w.key).map (w.signed i) =
      some (.signature (.error (.keyDisposed Engine.signContext)), w) := by
  rw [Engine.sign, Engine.signWithNonceCount_of_disposed h]
  exact congrArg (fun w => some (_, w)) (w.withEngine_self i)

/-- **A disposed key refuses every operation, and neither the key nor an engine changes.** -/
theorem step_of_disposed (h : w.key.isDisposed = true) (hzero : w.key.dispose = w.key)
    (op : Operation) : w.step op = some (op.refusal, w) := by
  -- a function of the scheme is that of the key or the engine that it is handed on to
  cases op with
  | encode =>
    rw [step, SecretKey.encode_of_disposed h]
    rfl
  | serialize =>
    rw [step, Engine.serializeSecretKey, SecretKey.encode_of_disposed h]
    rfl
  | publicKey | derivePublicKey =>
    show some (Answer.publicKey w.key.publicKey, w) = _
    rw [SecretKey.publicKey_of_disposed h]
    rfl
  | publicKeyOn i =>
    have hengine : (w.engines i).engine.publicKey w.key =
        (.error (.keyDisposed "EcdsaP256SecretKey::public_key"), (w.engines i).engine) := by
      rw [Engine.publicKey, SecretKey.publicKeyWith_of_disposed h]
      rfl
    simp only [step, hengine, withEngine_self]
    rfl
  | sign i limit digest | signDigest i limit digest => exact map_signed_of_disposed h i limit digest
  | dispose | disposeKey | wipe =>
    show some (Answer.disposed, { w with key := w.key.dispose }) = _
    rw [hzero]
    rfl

/-! ## Histories -/

theorem run_cons_eq_some_iff {op : Operation} : w.run (op :: ops) = some w' ↔
    ∃ answer w₁, w.step op = some (answer, w₁) ∧ w₁.run ops = some w' := by
  rw [run, Option.bind_eq_some_iff, Prod.exists]

/-- **Only a disposal changes the key**, and it does so once for all. -/
theorem key_run (h : w.run ops = some w') :
    w'.key = if ops.any Operation.disposes then w.key.dispose else w.key := by
  induction ops generalizing w with
  | nil =>
    cases h
    rfl
  | cons op ops ih =>
    obtain ⟨answer, w₁, hstep, hrun⟩ := run_cons_eq_some_iff.mp h
    rw [ih hrun, key_step hstep, List.any_cons]
    cases op.disposes with
    | true => rw [if_pos rfl, Bool.true_or, if_pos rfl, SecretKey.dispose_dispose, ite_self]
    | false => rw [if_neg Bool.false_ne_true, Bool.false_or]

/-- **The scalar is the one that was read until the first disposal, and zero ever after**, whatever
the operations are, their order and the engines.  Before the first disposal it lies in `[1, n-1]`,
the key is live, and the octets written are those that were read.  From then on the key is disposed,
and each operation answers with its refusal and changes nothing, neither the key nor the source or
the backend of an engine; so does another disposal. -/
theorem lifecycle {bs : List UInt8} {key : SecretKey} (hkey : SecretKey.decode bs = .ok key)
    (engines : ℕ → Signer) (ops : List Operation) {w : Custody}
    (hrun : run ⟨key, engines⟩ ops = some w) :
    ((∀ op ∈ ops, op.disposes = false) → w.key = key ∧ w.key.isDisposed = false ∧
      (0 < w.key.d.value ∧ w.key.d.value < groupOrder) ∧
      (∃ o : Octets 32, o.toList = bs ∧ w.step .encode = some (.octets (.ok o), w)) ∧
      w.step .serialize = some (.string (.ok bs), w)) ∧
    ((∃ op ∈ ops, op.disposes = true) → w.key.isDisposed = true ∧ w.key.d.value = 0 ∧
      ∀ op, w.step op = some (op.refusal, w)) := by
  obtain ⟨hlive, hpos, hlt, hoctets⟩ := SecretKey.decode_eq_ok_iff.mp hkey
  have hfinal := key_run hrun
  constructor
  · intro hnever
    have hany : ops.any Operation.disposes = false := by
      simpa only [List.any_eq_false, Bool.not_eq_true] using hnever
    rw [hany, if_neg Bool.false_ne_true] at hfinal
    have hencode : w.key.encode = .ok key.d.toOctets := by
      rw [hfinal, SecretKey.encode, SecretKey.scalar_eq hlive]
      rfl
    refine ⟨hfinal, by rw [hfinal, hlive], by rw [hfinal]; exact ⟨hpos, hlt⟩,
      ⟨key.d.toOctets, hoctets, ?_⟩, ?_⟩
    · rw [step, hencode]
    · rw [step, Engine.serializeSecretKey, hencode, ← hoctets]
      rfl
  · intro hdisposed
    rw [if_pos (List.any_eq_true.mpr hdisposed)] at hfinal
    refine ⟨by rw [hfinal]; rfl, ?_, step_of_disposed (by rw [hfinal]; rfl) ?_⟩
    · rw [hfinal]
      exact Octets.value_zero
    · rw [hfinal, SecretKey.dispose_dispose]

/-- The key 1 is read, derived from and written, and then disposed of twice: it has forgotten 1. -/
theorem lifecycle_one : ∃ w w' : Custody,
    run ⟨⟨.one, false⟩, fun _ => ⟨Engine.scriptedSigner⟩⟩ [.publicKeyOn 0, .serialize] = some w ∧
    run ⟨⟨.one, false⟩, fun _ => ⟨Engine.scriptedSigner⟩⟩
      [.publicKeyOn 0, .serialize, .wipe, .signDigest 1 2 ⟨.zero 32⟩, .disposeKey] = some w' ∧
    w.step .encode = some (.octets (.ok Scalar.one.toOctets), w) ∧
    w'.step .encode = some (.octets (.error (.keyDisposed "EcdsaP256SecretKey::export")), w') := by
  have hkey : SecretKey.decode Scalar.one.toOctets.toList = .ok ⟨.one, false⟩ := by decide +kernel
  obtain ⟨hbefore, -⟩ := lifecycle hkey (fun _ => ⟨Engine.scriptedSigner⟩)
    [.publicKeyOn 0, .serialize] rfl
  obtain ⟨-, hafter⟩ := lifecycle hkey (fun _ => ⟨Engine.scriptedSigner⟩)
    [.publicKeyOn 0, .serialize, .wipe, .signDigest 1 2 ⟨.zero 32⟩, .disposeKey] rfl
  obtain ⟨-, -, -, ⟨o, ho, hencode⟩, -⟩ := hbefore (by decide)
  obtain ⟨-, -, hrefuse⟩ := hafter (by decide)
  rw [Octets.ext ho] at hencode
  exact ⟨_, _, rfl, rfl, hencode, hrefuse .encode⟩

end Custody

end Secp256r1
