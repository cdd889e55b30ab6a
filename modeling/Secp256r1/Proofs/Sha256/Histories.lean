import Mathlib.Data.List.Infix
import Secp256r1.Proofs.Histories
import Secp256r1.Proofs.Sha256.Absorption

/-!
# Hashers over any history

Hashers are made, copied, fed, closed and wiped in any order.  Each stands for a message: the
octets absorbed since it was last started afresh or wiped, and the chaining value it started from.

* `Sha256.hashers` — the hashers of the library as objects.
* `Sha256.messages` — messages as objects, hashed by the standard in one go.
* `Sha256.simulates` — a hasher and its message answer alike.
* `Sha256.histories_exact` — **over every history the digests are the standard ones**, no counter
  overflows, no place lies outside the buffer, and copies do not disturb each other.
-/

set_option autoImplicit false

namespace Secp256r1

namespace Sha256

/-- What can be done to a hasher. -/
inductive Operation
  | update (input : List UInt8)
  | finalize
  | wipe

/-- The hashers of the library as objects; an operation may answer with a digest. -/
def hashers : Objects Unit Operation (Option (Octets 32)) Sha256 where
  make _ := fresh
  copy := copy
  perform
    | s, .update input => (s.update input, none)
    | s, .finalize => (s.finalize.2, some s.finalize.1)
    | s, .wipe => (s.wipe, none)

/-- A message under way: the chaining value that it starts from, and its octets. -/
structure Message where
  start : Chaining
  octets : List UInt8

/-- Messages as objects.  Absorbing appends, a digest is that of the standard and is followed by an
empty message, and wiping leaves an empty message that starts from zeros. -/
def messages : Objects Unit Operation (Option (Octets 32)) Message where
  make _ := ⟨Standard.initial, []⟩
  copy m := m
  perform
    | m, .update input => ({ m with octets := m.octets ++ input }, none)
    | m, .finalize => (⟨Standard.initial, []⟩, some (Standard.digest m.start m.octets))
    | _, .wipe => (⟨⟨0, 0, 0, 0, 0, 0, 0, 0⟩, []⟩, none)

/-- **A hasher and its message answer alike**, and stay together. -/
theorem simulates : hashers.Simulates messages fun s m => s.Absorbed m.start m.octets where
  make _ := by
    have hfresh := absorbed_fresh
    rwa [initial_eq] at hfresh
  copy {s m} h := by
    show s.copy.Absorbed m.start m.octets
    rwa [copy_eq]
  perform {s m} h operation := by
    cases operation with
    | update input => exact ⟨h.update input, rfl⟩
    | finalize =>
      refine ⟨?_, congrArg some h.digest_eq⟩
      have hfresh := absorbed_fresh
      rwa [initial_eq] at hfresh
    | wipe => exact ⟨absorbed_wipe s, rfl⟩

open Objects in
/-- **Every history of hashers answers as the standard.**  As long as fewer than `2⁶¹` octets are
absorbed between two resets,

* each digest is the standard one of the octets absorbed since the last reset;
* at every stage the counters tell how many octets that is, without overflow;
* a hasher that has handed out its digest is a new one;
* a copy and its original are each changed by the later operations on it alone;
* every range that a hasher writes lies in its buffer. -/
theorem histories_exact (commands : List (Command Unit Operation))
    (hshort : ∀ earlier, earlier <+: commands →
      ∀ m ∈ (messages.run [] earlier).1, m.octets.length < 2 ^ 61) :
    (hashers.run [] commands).2 = (messages.run [] commands).2 ∧
    (∀ earlier, earlier <+: commands →
      List.Forall₂ (fun s m => s.total.toNat + s.filled = m.octets.length ∧
          ((s.total + UInt64.ofNat s.filled) * 8).toNat = 8 * m.octets.length)
        (hashers.run [] earlier).1 (messages.run [] earlier).1) ∧
    (∀ s, (hashers.perform s .finalize).1 = hashers.make ()) ∧
    (∀ earlier later i s, commands = earlier ++ .copy i :: later →
      (hashers.run [] earlier).1[i]? = some s →
        (hashers.run [] commands).1[i]? = some (hashers.performAll s (operationsOn i later)) ∧
        (hashers.run [] commands).1[(hashers.run [] earlier).1.length]? =
          some (hashers.performAll s
            (operationsOn (hashers.run [] earlier).1.length later))) ∧
    ∀ s : Sha256, (∀ input, s.filled + (s.chunk input).length ≤ blockSize) ∧
      s.filled < blockSize ∧
      (s.filled + 1 ≤ if lengthPlace ≤ s.filled then blockSize else lengthPlace) ∧
      ∀ bits, lengthPlace + (lengthOctets bits).length ≤ blockSize := by
  refine ⟨(simulates.run .nil commands).2, ?_, fun _ => rfl, ?_, ?_⟩
  · intro earlier hearlier
    have hrelated := (simulates.run .nil earlier).1
    rw [List.forall₂_iff_get] at hrelated ⊢
    refine ⟨hrelated.1, fun i hi hi' => (hrelated.2 i hi hi').count ?_⟩
    exact hshort earlier hearlier _ (List.getElem_mem hi')
  · rintro earlier later i s rfl hi
    exact hashers.getElem?_run_copy earlier later hi
  · intro s
    have hlt := s.filled_lt
    refine ⟨s.filled_add_chunk_le, hlt, ?_, fun _ => Nat.le_refl 64⟩
    split <;> omega

/-- A hasher takes `a` and is copied and wiped; then the copy takes `bc`. -/
def sample : List (Objects.Command Unit Operation) :=
  [.make (), .operate 0 (.update [0x61]), .copy 0, .operate 0 .wipe,
   .operate 1 (.update [0x62, 0x63]), .operate 1 .finalize, .operate 1 .finalize,
   .operate 0 .finalize]

/-- The copy answers with the digests of `abc` and of no octets, its wiped original with that of no
octets from zeros. -/
theorem histories_exact_sample :
    (∀ earlier, earlier <+: sample →
      ∀ m ∈ (messages.run [] earlier).1, m.octets.length < 2 ^ 61) ∧
    (messages.run [] sample).2 =
      [none, some none, none, some none, some none,
       some (some (.ofNat 32 0xba7816bf8f01cfea414140de5dae2223b00361a396177a9cb410ff61f20015ad)),
       some (some (.ofNat 32 0xe3b0c44298fc1c149afbf4c8996fb92427ae41e4649b934ca495991b7852b855)),
       some (some (.ofNat 32 0x361ab6322fa9e7a7bb23818d839e01bddafdf47305426edd297aedb9f6202bae))] := by
  have hshort : ∀ earlier, earlier <+: sample →
      ∀ m ∈ (messages.run [] earlier).1, m.octets.length < 2 ^ 61 := by
    have hall : ∀ earlier ∈ sample.inits,
        ∀ m ∈ (messages.run [] earlier).1, m.octets.length < 2 ^ 61 := by decide +kernel
    exact fun earlier hearlier => hall earlier ((List.mem_inits ..).mpr hearlier)
  refine ⟨hshort, (histories_exact sample hshort).1.symm.trans ?_⟩
  decide +kernel

end Sha256

end Secp256r1
