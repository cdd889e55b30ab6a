import Mathlib.Algebra.BigOperators.Associated
import Mathlib.FieldTheory.Finite.Basic
import Mathlib.Tactic.NormNum.Prime
import Secp256r1.Curve
import Secp256r1.Proofs.Digits

/-!
# The field prime and the group order are prime

If `q` is a prime, `b ^ q` is 1 modulo `N` and `b − 1` is a unit modulo `N`, then `b` has order
`q` modulo every prime divisor of `N`, so that every prime divisor is 1 modulo `q`.  Enough such
`q` leave no room for a divisor up to the square root of `N`.  A certificate is a list of numbers
with their witnesses, each `q` certified by an earlier entry.

* `Certificate.prime_of_check` — every number of a checked certificate is prime.
* `prime_fieldPrime`, `prime_groupOrder` — the two primes of the curve.
-/

set_option autoImplicit false

namespace Secp256r1

/-- The field prime. -/
def fieldPrime : ℕ := Curve.secp256r1.p.value

/-- The order of the base point. -/
def groupOrder : ℕ := Curve.secp256r1.n.value

theorem groupOrder_eq : groupOrder =
    115792089210356248762697446949407573529996955224135760342422259061068512044369 := by
  decide +kernel

def powMod (N b n : ℕ) : ℕ := binaryPower (fun a c => a * c % N) (n.log2 + 1) 1 b n

theorem cast_powMod (N b n : ℕ) : (powMod N b n : ZMod N) = (b : ZMod N) ^ n := by
  have hmul : ∀ a c k l : ℕ, (a : ZMod N) = (b : ZMod N) ^ k → (c : ZMod N) = (b : ZMod N) ^ l →
      ((a * c % N : ℕ) : ZMod N) = (b : ZMod N) ^ (k + l) := by
    intro a c k l ha hc
    rw [ZMod.natCast_mod, Nat.cast_mul, ha, hc, pow_add]
  have h := binaryPower_spec hmul (n.log2 + 1) (k := 0) Nat.lt_log2_self
    (by rw [Nat.cast_one, pow_zero]) (pow_one (b : ZMod N)).symm
  rwa [zero_add, mul_one] at h

/-- **A power inverts**: modulo a prime `q`, the exponent `q − 2`, which keeps zero. -/
theorem pow_sub_two_eq_inv {q : ℕ} [Fact q.Prime] (hq : 2 < q) (x : ZMod q) : x ^ (q - 2) = x⁻¹ := by
  rcases eq_or_ne x 0 with rfl | hx
  · rw [zero_pow (by omega), inv_zero]
  · apply eq_inv_of_mul_eq_one_left
    rw [← pow_succ, show q - 2 + 1 = q - 1 by omega, ZMod.pow_card_sub_one_eq_one hx]

namespace Certificate

/-- A number with its witnesses: pairs of a prime `q` and an element `b` of order `q`. -/
structure Entry where
  number : ℕ
  witnesses : List (ℕ × ℕ)

/-- Whether `b` has order `q` modulo every prime divisor of `N`. -/
def checkWitness (N q b : ℕ) : Bool := powMod N b q == 1 && Nat.gcd (b - 1) N == 1

/-- Whether the witnesses of an entry are certified, distinct, good and large enough. -/
def checkEntry (proven : List ℕ) (e : Entry) : Bool :=
  2 ≤ e.number && decide (e.witnesses.map Prod.fst).Nodup &&
    e.witnesses.all (fun w => decide (w.1 ∈ proven) && checkWitness e.number w.1 w.2) &&
    decide (e.number < (e.witnesses.map Prod.fst).prod ^ 2)

/-- Whether every entry holds, given the numbers certified before it. -/
def check : List ℕ → List Entry → Bool
  | _, [] => true
  | proven, e :: es => checkEntry proven e && check (e.number :: proven) es

/-- A prime divisor is 1 modulo the order of a witness. -/
theorem dvd_pred_of_checkWitness {N q b r : ℕ} (hq : q.Prime)
    (h : checkWitness N q b = true) (hr : r.Prime) (hrN : r ∣ N) : q ∣ r - 1 := by
  have : Fact r.Prime := ⟨hr⟩
  have : Fact q.Prime := ⟨hq⟩
  obtain ⟨hpow, hgcd⟩ : powMod N b q = 1 ∧ Nat.gcd (b - 1) N = 1 := by
    simpa [checkWitness] using h
  have hone : (b : ZMod r) ^ q = 1 := by
    have hN' := cast_powMod N b q
    rw [hpow, Nat.cast_one] at hN'
    have hcast := congrArg (ZMod.castHom hrN (ZMod r)) hN'
    rwa [map_one, map_pow, map_natCast, eq_comm] at hcast
  have hne : (b : ZMod r) ≠ 1 := by
    intro hb
    have hdvd : r ∣ b - 1 := by
      rcases Nat.eq_zero_or_pos b with h0 | hpos
      · simp [h0]
      · rw [← ZMod.natCast_eq_zero_iff, Nat.cast_sub hpos, hb, Nat.cast_one, sub_self]
    have hgcd' := Nat.dvd_gcd hdvd hrN
    rw [hgcd] at hgcd'
    exact hr.one_lt.ne' (Nat.dvd_one.mp hgcd')
  have hb0 : (b : ZMod r) ≠ 0 := by
    intro hb
    rw [hb, zero_pow hq.ne_zero] at hone
    exact zero_ne_one hone
  rw [← orderOf_eq_prime hone hne]
  exact ZMod.orderOf_dvd_card_sub_one hb0

/-- Distinct primes that divide a number divide it together. -/
theorem prod_dvd {m : ℕ} {qs : List ℕ} (hnd : qs.Nodup) (h : ∀ q ∈ qs, q.Prime ∧ q ∣ m) :
    qs.prod ∣ m := by
  induction qs with
  | nil => simp
  | cons q qs ih =>
    obtain ⟨hq, hqs⟩ := List.forall_mem_cons.mp h
    obtain ⟨hnotin, hnd'⟩ := List.nodup_cons.mp hnd
    have hcop : Nat.Coprime q qs.prod := by
      rw [Nat.coprime_list_prod_right_iff]
      intro r hr
      exact (Nat.coprime_primes hq.1 (hqs r hr).1).mpr fun hqr => hnotin (hqr ▸ hr)
    rw [List.prod_cons]
    exact hcop.mul_dvd_of_dvd_of_dvd hq.2 (ih hnd' hqs)

/-- **A number whose entry holds is prime**: its least prime divisor exceeds its square root. -/
theorem prime_of_checkEntry {proven : List ℕ} {e : Entry} (hproven : ∀ q ∈ proven, q.Prime)
    (h : checkEntry proven e = true) : e.number.Prime := by
  simp only [checkEntry, Bool.and_eq_true, decide_eq_true_eq, List.all_eq_true] at h
  obtain ⟨⟨⟨h2, hnd⟩, hall⟩, hlt⟩ := h
  by_contra hcomp
  have hr : e.number.minFac.Prime := Nat.minFac_prime (by omega)
  have hdvd : (e.witnesses.map Prod.fst).prod ∣ e.number.minFac - 1 := by
    refine prod_dvd hnd fun q hq => ?_
    obtain ⟨w, hw, rfl⟩ := List.mem_map.mp hq
    have hwq := hproven _ (hall w hw).1
    exact ⟨hwq, dvd_pred_of_checkWitness hwq (hall w hw).2 hr (Nat.minFac_dvd _)⟩
  have hle : (e.witnesses.map Prod.fst).prod ≤ e.number.minFac :=
    (Nat.le_of_dvd (Nat.sub_pos_of_lt hr.one_lt) hdvd).trans (Nat.sub_le _ _)
  have hsq : e.number.minFac ^ 2 ≤ e.number := Nat.minFac_sq_le_self (by omega) hcomp
  exact absurd ((Nat.pow_le_pow_left hle 2).trans hsq) (by omega)

/-- **Every number of a checked certificate is prime.** -/
theorem prime_of_check : ∀ {proven : List ℕ} (es : List Entry), (∀ q ∈ proven, q.Prime) →
    check proven es = true → ∀ e ∈ es, e.number.Prime
  | _, [], _, _, _, he => by simp at he
  | proven, e :: es, hproven, h, e', he' => by
    simp only [check, Bool.and_eq_true] at h
    have hprime := prime_of_checkEntry hproven h.1
    rcases List.mem_cons.mp he' with rfl | he'
    · exact hprime
    · exact prime_of_check es (List.forall_mem_cons.mpr ⟨hprime, hproven⟩) h.2 e' he'

/-- The primes small enough for trial division. -/
def smallPrimes : List ℕ := [197, 3023, 3677, 78283, 155317, 704251, 3969899]

theorem prime_of_mem_smallPrimes : ∀ q ∈ smallPrimes, q.Prime := by
  simp only [smallPrimes, List.forall_mem_cons]
  norm_num

def forFieldPrime : List Entry :=
  [⟨46076956964474543, [(704251, 14924512230972257), (78283, 26474877516403237)]⟩,
   ⟨66417393611, [(3677, 66219752670), (197, 34676449721)]⟩,
   ⟨11290956913871, [(66417393611, 11005834445932)]⟩,
   ⟨774023187263532362759620327192479577272145303,
    [(46076956964474543, 239904036708680826588713273592995675716678834),
     (11290956913871, 62363334908586357327233683356375951471604756)]⟩,
   ⟨835945042244614951780389953367877943453916927241,
    [(774023187263532362759620327192479577272145303,
      759074791811550622595041579907670563367995104130)]⟩,
   ⟨fieldPrime,
    [(835945042244614951780389953367877943453916927241,
      49835480456766173544607506164699712169824023691580347094409044481755491731278)]⟩]

def forGroupOrder : List Entry :=
  [⟨191039911, [(155317, 76243073)]⟩,
   ⟨208150935158385979, [(191039911, 89709188498985666), (3023, 178020065538317618)]⟩,
   ⟨2624747550333869278416773953, [(208150935158385979, 9274061155462587152010873)]⟩,
   ⟨1002328039319, [(3969899, 221842812587)]⟩,
   ⟨groupOrder,
    [(2624747550333869278416773953,
      87100853353288773503221377379439407917267979139877395891460378271501865302703),
     (1002328039319,
      75826181402772799521319382390190118258099127975743022721581095372707945421081)]⟩]

end Certificate

theorem prime_fieldPrime : fieldPrime.Prime :=
  Certificate.prime_of_check Certificate.forFieldPrime Certificate.prime_of_mem_smallPrimes (by decide +kernel) _
    (List.getLast_mem (List.cons_ne_nil _ _))

theorem prime_groupOrder : groupOrder.Prime :=
  Certificate.prime_of_check Certificate.forGroupOrder Certificate.prime_of_mem_smallPrimes (by decide +kernel) _
    (List.getLast_mem (List.cons_ne_nil _ _))

instance : Fact fieldPrime.Prime := ⟨prime_fieldPrime⟩
instance : Fact groupOrder.Prime := ⟨prime_groupOrder⟩

end Secp256r1
