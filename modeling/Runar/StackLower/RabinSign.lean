/-
  StackLower/RabinSign.lean --- making Rabin signatures.

  WHAT THIS FILE IS FOR.  Who knows the factors of the public key takes a square root of the
  digest modulo each of them and puts the roots together; where the digest is no square, a
  small padding is taken off it first.  The signer tries paddings in order.  For primes that
  leave 3 modulo 4 the root is a power, so the signer finds a signature whenever there is one
  with a padding it tries, and what it finds is accepted by the reference and by the script.
-/
import Runar.Crypto.Sha256
import Runar.StackLower.Rabin
import Mathlib.NumberTheory.LegendreSymbol.Basic

set_option autoImplicit false

namespace Runar.StackLower.Rabin

open Script

/-! ## The signer -/

structure RabinKeyPair where
  p : Int
  q : Int
  n : Int

/-- Square and multiply, from the lowest bit of the exponent. -/
def modPowLoop (mod result base : Int) (exp : Nat) : Int :=
  if exp = 0 then result
  else modPowLoop mod (if exp % 2 = 1 then (result * base).tmod mod else result)
    ((base * base).tmod mod) (exp / 2)
termination_by exp

/-- The loop is not entered where the exponent is negative. -/
def modPow (base exp mod : Int) : Int :=
  modPowLoop mod 1 ((base.tmod mod + mod).tmod mod) exp.toNat

def isQR (a p : Int) : Bool :=
  if a.tmod p = 0 then true else modPow a ((p - 1).tdiv 2) p == 1

def crt (a1 m1 a2 m2 : Int) : Int :=
  let m := m1 * m2
  let p1 := modPow m2 (m1 - 2) m1
  let p2 := modPow m1 (m2 - 2) m2
  ((a1 * m2 * p1 + a2 * m1 * p2).tmod m + m).tmod m

structure RabinSignature where
  sig : Int
  padding : Nat

/-- One round of the loop over the paddings. -/
def tryPadding (hashBN : Int) (kp : RabinKeyPair) (padding : Nat) : Option RabinSignature :=
  let rest := (hashBN - padding).tmod kp.n
  let target := if rest < 0 then rest + kp.n else rest
  if isQR target kp.p && isQR target kp.q then
    let sp := modPow target ((kp.p + 1).tdiv 4) kp.p
    let sq := modPow target ((kp.q + 1).tdiv 4) kp.q
    let sig := crt sp kp.p sq kp.q
    let sigAlt := kp.n - sig
    if (sig * sig + padding).tmod kp.n = hashBN.tmod kp.n then some ⟨sig, padding⟩
    else if (sigAlt * sigAlt + padding).tmod kp.n = hashBN.tmod kp.n then
      some ⟨sigAlt, padding⟩
    else none
  else none

def rabinSign (sha256 : Bytes → Bytes) (msg : Bytes) (kp : RabinKeyPair) :
    Except String RabinSignature :=
  match (List.range 1000).findSome? (tryPadding (leNat (sha256 msg)) kp) with
  | some signature => .ok signature
  | none => .error "Rabin sign: no valid padding found"

/-! ## Powers and residues -/

section Residues

theorem cast_tmod (x : Int) {m k : Nat} (h : m ∣ k) :
    ((x.tmod (k : Int) : Int) : ZMod m) = (x : ZMod m) := by
  have hzero : ((k : Int) : ZMod m) = 0 := by
    rw [Int.cast_natCast]
    exact (ZMod.natCast_eq_zero_iff k m).mpr h
  rw [Int.tmod_def, Int.cast_sub, Int.cast_mul, hzero, zero_mul, sub_zero]

/-- The residue that the code brings a number to. -/
theorem cast_residue (x : Int) {m k : Nat} (h : m ∣ k) :
    (((x.tmod (k : Int) + k).tmod (k : Int) : Int) : ZMod m) = (x : ZMod m) := by
  have hzero : ((k : Int) : ZMod m) = 0 := by
    rw [Int.cast_natCast]
    exact (ZMod.natCast_eq_zero_iff k m).mpr h
  rw [cast_tmod _ h, Int.cast_add, cast_tmod _ h, hzero, add_zero]

theorem residue_range (x : Int) {k : Int} (hk : 0 < k) :
    0 ≤ (x.tmod k + k).tmod k ∧ (x.tmod k + k).tmod k < k := by
  have hlow : 0 ≤ x.tmod k + k := by
    have := Int.lt_tmod_of_pos x hk
    omega
  exact ⟨Int.tmod_nonneg _ hlow, Int.tmod_lt_of_pos _ hk⟩

theorem cast_modPowLoop (m : Nat) (result base : Int) (exp : Nat) :
    ((modPowLoop m result base exp : Int) : ZMod m) =
      (result : ZMod m) * (base : ZMod m) ^ exp := by
  induction exp using Nat.strongRecOn generalizing result base with
  | ind exp ih =>
    rw [modPowLoop]
    by_cases hzero : exp = 0
    · rw [if_pos hzero, hzero, pow_zero, mul_one]
    · have hsquare : (base : ZMod m) ^ (2 * (exp / 2)) =
          ((base * base : Int) : ZMod m) ^ (exp / 2) := by
        rw [pow_mul, pow_two, Int.cast_mul]
      rw [if_neg hzero, ih (exp / 2) (by omega), cast_tmod _ dvd_rfl, ← hsquare]
      by_cases hodd : exp % 2 = 1
      · rw [if_pos hodd, cast_tmod _ dvd_rfl, Int.cast_mul, mul_assoc, ← pow_succ',
          show 2 * (exp / 2) + 1 = exp by omega]
      · rw [if_neg hodd, show 2 * (exp / 2) = exp by omega]

theorem modPowLoop_range {m : Int} (hm : 0 < m) {result base : Int} (exp : Nat)
    (hresult : 0 ≤ result ∧ result < m) (hbase : 0 ≤ base) :
    0 ≤ modPowLoop m result base exp ∧ modPowLoop m result base exp < m := by
  induction exp using Nat.strongRecOn generalizing result base with
  | ind exp ih =>
    rw [modPowLoop]
    by_cases hzero : exp = 0
    · rw [if_pos hzero]
      exact hresult
    · rw [if_neg hzero]
      refine ih (exp / 2) (by omega) ?_ (Int.tmod_nonneg _ (mul_nonneg hbase hbase))
      by_cases hodd : exp % 2 = 1
      · rw [if_pos hodd]
        exact ⟨Int.tmod_nonneg _ (mul_nonneg hresult.1 hbase), Int.tmod_lt_of_pos _ hm⟩
      · rw [if_neg hodd]
        exact hresult

theorem cast_modPow (base exp : Int) (m : Nat) :
    ((modPow base exp m : Int) : ZMod m) = (base : ZMod m) ^ exp.toNat := by
  rw [modPow, cast_modPowLoop, cast_residue _ dvd_rfl, Int.cast_one, one_mul]

theorem modPow_range (base exp : Int) {m : Nat} (hm : 1 < m) :
    0 ≤ modPow base exp m ∧ modPow base exp m < m :=
  modPowLoop_range (by omega) _ ⟨by omega, by omega⟩ (residue_range _ (by omega)).1

end Residues

/-! ## Square roots -/

section Roots

variable {p : Nat} [hp : Fact p.Prime] (hmod : p % 4 = 3)

theorem isQR_iff (a : Int) (h2 : p ≠ 2) : isQR a p = true ↔ IsSquare (a : ZMod p) := by
  have hprime := hp.out.two_le
  have hzero : a.tmod (p : Int) = 0 ↔ (a : ZMod p) = 0 := by
    rw [ZMod.intCast_zmod_eq_zero_iff_dvd, Int.dvd_iff_tmod_eq_zero]
  unfold isQR
  by_cases ha : a.tmod (p : Int) = 0
  · rw [if_pos ha, hzero.mp ha]
    exact iff_of_true rfl (IsSquare.zero)
  · have hexp : (((p : Int) - 1).tdiv 2).toNat = p / 2 := by
      have hodd : p % 2 = 1 := (hp.out.eq_two_or_odd).resolve_left h2
      rw [Int.tdiv_eq_ediv_of_nonneg (by omega)]
      omega
    rw [if_neg ha, ZMod.euler_criterion p (fun h => ha (hzero.mpr h)), beq_iff_eq, ← hexp,
      ← cast_modPow]
    constructor
    · intro h
      rw [h, Int.cast_one]
    · intro h
      obtain ⟨hlow, hhigh⟩ := modPow_range a (((p : Int) - 1).tdiv 2) hp.out.one_lt
      have hone : ((modPow a (((p : Int) - 1).tdiv 2) p : Int) : ZMod p) =
          ((1 : Int) : ZMod p) := by
        rw [h, Int.cast_one]
      rw [ZMod.intCast_eq_intCast_iff', Int.emod_eq_of_lt hlow hhigh,
        Int.emod_eq_of_lt (by omega) (by omega)] at hone
      exact hone

include hmod in
/-- The power that is a root of every square. -/
theorem sq_modPow {a : Int} (ha : IsSquare (a : ZMod p)) :
    ((modPow a (((p : Int) + 1).tdiv 4) p : Int) : ZMod p) ^ 2 = (a : ZMod p) := by
  have hexp : (((p : Int) + 1).tdiv 4).toNat = (p + 1) / 4 := by
    rw [Int.tdiv_eq_ediv_of_nonneg (by omega)]
    omega
  rw [cast_modPow, hexp, ← pow_mul]
  by_cases hzero : (a : ZMod p) = 0
  · rw [hzero, zero_pow (by omega)]
  · have hpower : (a : ZMod p) ^ (p / 2) = 1 := (ZMod.euler_criterion p hzero).mp ha
    rw [show (p + 1) / 4 * 2 = p / 2 + 1 by omega, pow_succ, hpower, one_mul]

/-- A number times the power that stands for its inverse. -/
theorem mul_modPow {m : Int} (hm : (m : ZMod p) ≠ 0) :
    (m : ZMod p) * ((modPow m ((p : Int) - 2) p : Int) : ZMod p) = 1 := by
  have hprime := hp.out.two_le
  rw [cast_modPow, ← pow_succ', show ((p : Int) - 2).toNat + 1 = p - 1 by omega]
  exact ZMod.pow_card_sub_one_eq_one hm

end Roots

/-! ## Keys from two primes -/

/-- What key generation promises of a key. -/
structure RabinKeyPair.Valid (kp : RabinKeyPair) (p q : Nat) : Prop where
  p_eq : kp.p = p
  q_eq : kp.q = q
  n_eq : kp.n = p * q
  p_prime : p.Prime
  q_prime : q.Prime
  p_mod : p % 4 = 3
  q_mod : q % 4 = 3
  ne : p ≠ q

section Signing

variable {kp : RabinKeyPair} {p q : Nat} (hkey : kp.Valid p q)

include hkey

theorem RabinKeyPair.Valid.pos : (0 : Int) < p * q := by
  have hp := hkey.p_prime.pos
  have hq := hkey.q_prime.pos
  exact_mod_cast Nat.mul_pos hp hq

/-- The root modulo the product has both roots as its residues. -/
theorem crt_spec (a1 a2 : Int) :
    ((crt a1 p a2 q : Int) : ZMod p) = a1 ∧ ((crt a1 p a2 q : Int) : ZMod q) = a2 ∧
      0 ≤ crt a1 p a2 q ∧ crt a1 p a2 q < p * q := by
  have hfactP : Fact p.Prime := ⟨hkey.p_prime⟩
  have hfactQ : Fact q.Prime := ⟨hkey.q_prime⟩
  have hpq : ((q : Int) : ZMod p) ≠ 0 := by
    rw [Int.cast_natCast]
    exact fun h => hkey.ne ((Nat.prime_dvd_prime_iff_eq hkey.p_prime hkey.q_prime).mp
      ((ZMod.natCast_eq_zero_iff q p).mp h))
  have hqp : ((p : Int) : ZMod q) ≠ 0 := by
    rw [Int.cast_natCast]
    exact fun h => hkey.ne ((Nat.prime_dvd_prime_iff_eq hkey.q_prime hkey.p_prime).mp
      ((ZMod.natCast_eq_zero_iff p q).mp h)).symm
  have hselfP : ((p : Int) : ZMod p) = 0 := by rw [Int.cast_natCast, ZMod.natCast_self]
  have hselfQ : ((q : Int) : ZMod q) = 0 := by rw [Int.cast_natCast, ZMod.natCast_self]
  have hinvP := mul_modPow hpq
  have hinvQ := mul_modPow hqp
  have hcast : (p : Int) * q = ((p * q : Nat) : Int) := (Nat.cast_mul p q).symm
  have hrange := residue_range (a1 * q * modPow q ((p : Int) - 2) p +
    a2 * p * modPow p ((q : Int) - 2) q) hkey.pos
  refine ⟨?_, ?_, hrange.1, hrange.2⟩
  · rw [crt, hcast, cast_residue _ (Nat.dvd_mul_right p q)]
    push_cast at hinvP hselfP ⊢
    rw [mul_assoc, hinvP, hselfP, mul_zero, zero_mul, add_zero, mul_one]
  · rw [crt, hcast, cast_residue _ (Nat.dvd_mul_left q p)]
    push_cast at hinvQ hselfQ ⊢
    rw [mul_assoc (a2 : ZMod q), hinvQ, hselfQ, mul_zero, zero_mul, zero_add, mul_one]

/-- A number is a multiple of the product where both primes divide it. -/
theorem product_dvd_iff (x : Int) :
    (p * q : Int) ∣ x ↔ (x : ZMod p) = 0 ∧ (x : ZMod q) = 0 := by
  rw [ZMod.intCast_zmod_eq_zero_iff_dvd, ZMod.intCast_zmod_eq_zero_iff_dvd]
  constructor
  · exact fun h => ⟨(Dvd.intro _ rfl).trans h, (Dvd.intro_left _ rfl).trans h⟩
  · rintro ⟨h1, h2⟩
    have hcoprime : IsCoprime (p : Int) q :=
      Nat.isCoprime_iff_coprime.mpr ((Nat.coprime_primes hkey.p_prime hkey.q_prime).mpr hkey.ne)
    exact hcoprime.mul_dvd h1 h2

/-- A round finds a signature where there is one with its padding, and only there. -/
theorem tryPadding_spec (hash padding : Nat) :
    (∀ s, tryPadding hash kp padding = some s →
      s.padding = padding ∧ 0 ≤ s.sig ∧ s.sig < kp.n ∧ kp.n ∣ s.sig * s.sig + padding - hash) ∧
    (tryPadding hash kp padding = none → ∀ x : Int, ¬ kp.n ∣ x * x + padding - hash) := by
  have hfactP : Fact p.Prime := ⟨hkey.p_prime⟩
  have hfactQ : Fact q.Prime := ⟨hkey.q_prime⟩
  have hpos := hkey.pos
  have htwoP : p ≠ 2 := fun h => by have := hkey.p_mod; omega
  have htwoQ : q ≠ 2 := fun h => by have := hkey.q_mod; omega
  let rest := ((hash : Int) - padding).tmod (p * q)
  let target := if rest < 0 then rest + p * q else rest
  have hcast : (p : Int) * q = ((p * q : Nat) : Int) := (Nat.cast_mul p q).symm
  have hrest : ∀ m : Nat, m ∣ p * q → ((target : Int) : ZMod m) = (hash : ZMod m) - padding := by
    intro m hm
    have hzero : (((p : Int) * q : Int) : ZMod m) = 0 := by
      rw [hcast, Int.cast_natCast]
      exact (ZMod.natCast_eq_zero_iff _ m).mpr hm
    have hone : ((rest : Int) : ZMod m) = (hash : ZMod m) - padding := by
      show ((((hash : Int) - padding).tmod (p * q) : Int) : ZMod m) = _
      rw [hcast, cast_tmod _ hm]
      push_cast
      rfl
    show (((if rest < 0 then rest + p * q else rest : Int)) : ZMod m) = _
    by_cases hneg : rest < 0
    · rw [if_pos hneg, Int.cast_add, hzero, add_zero, hone]
    · rw [if_neg hneg, hone]
  have htargetP := hrest p (Nat.dvd_mul_right p q)
  have htargetQ := hrest q (Nat.dvd_mul_left q p)
  -- The check at the end is divisibility.
  have hcheck : ∀ x : Int, (x * x + padding).tmod (p * q) = (hash : Int).tmod (p * q) ↔
      (p * q : Int) ∣ x * x + padding - hash := by
    intro x
    have hnonneg : 0 ≤ x * x + padding := add_nonneg (mul_self_nonneg x) (by omega)
    rw [Int.tmod_eq_emod_of_nonneg hnonneg, Int.tmod_eq_emod_of_nonneg (by omega),
      Int.emod_eq_emod_iff_emod_sub_eq_zero, Int.dvd_iff_emod_eq_zero]
  unfold tryPadding
  rw [hkey.p_eq, hkey.q_eq, hkey.n_eq]
  show (∀ s, (if isQR target p && isQR target q then _ else _) = some s → _) ∧
    ((if isQR target p && isQR target q then _ else _) = none → _)
  by_cases hqr : (isQR target p && isQR target q) = true
  · have hboth := (Bool.and_eq_true _ _).mp hqr
    have hsqP := sq_modPow hkey.p_mod ((isQR_iff target htwoP).mp hboth.1)
    have hsqQ := sq_modPow hkey.q_mod ((isQR_iff target htwoQ).mp hboth.2)
    obtain ⟨hcrtP, hcrtQ, hlow, hhigh⟩ := crt_spec hkey
      (modPow target (((p : Int) + 1).tdiv 4) p) (modPow target (((q : Int) + 1).tdiv 4) q)
    let sig := crt (modPow target (((p : Int) + 1).tdiv 4) p) p
      (modPow target (((q : Int) + 1).tdiv 4) q) q
    have hdvd : (p * q : Int) ∣ sig * sig + padding - hash := by
      refine (product_dvd_iff hkey _).mpr ⟨?_, ?_⟩
      · have hsig : ((sig : Int) : ZMod p) ^ 2 = (hash : ZMod p) - padding := by
          rw [show ((sig : Int) : ZMod p) = _ from hcrtP, hsqP, htargetP]
        push_cast
        rw [← pow_two, hsig]
        ring
      · have hsig : ((sig : Int) : ZMod q) ^ 2 = (hash : ZMod q) - padding := by
          rw [show ((sig : Int) : ZMod q) = _ from hcrtQ, hsqQ, htargetQ]
        push_cast
        rw [← pow_two, hsig]
        ring
    rw [if_pos hqr]
    show (∀ s, (if (sig * sig + padding).tmod (p * q) = (hash : Int).tmod (p * q) then
      some (RabinSignature.mk sig padding) else _) = some s → _) ∧
        ((if (sig * sig + padding).tmod (p * q) = (hash : Int).tmod (p * q) then
          some (RabinSignature.mk sig padding) else _) = none → _)
    rw [if_pos ((hcheck sig).mpr hdvd)]
    constructor
    · intro s hs
      obtain rfl := Option.some.inj hs
      exact ⟨rfl, hlow, hhigh, hdvd⟩
    · intro hnone
      cases hnone
  · rw [if_neg hqr]
    constructor
    · intro s hs
      cases hs
    · intro _ x hx
      obtain ⟨hxP, hxQ⟩ := (product_dvd_iff hkey _).mp hx
      refine hqr ((Bool.and_eq_true _ _).mpr ⟨(isQR_iff target htwoP).mpr ?_,
        (isQR_iff target htwoQ).mpr ?_⟩)
      · refine ⟨x, ?_⟩
        push_cast at hxP
        rw [htargetP]
        linear_combination -hxP
      · refine ⟨x, ?_⟩
        push_cast at hxQ
        rw [htargetQ]
        linear_combination -hxQ

end Signing

/-- The first padding that succeeds. -/
theorem findSome_range {α : Type} {f : Nat → Option α} {n : Nat} {y : α}
    (h : (List.range n).findSome? f = some y) :
    ∃ r < n, f r = some y ∧ ∀ j < r, f j = none := by
  obtain ⟨before, r, behind, hrange, hr, hnone⟩ := List.findSome?_eq_some_iff.mp h
  have hmem : r ∈ List.range n := by
    rw [hrange]
    exact List.mem_append_right _ List.mem_cons_self
  refine ⟨r, List.mem_range.mp hmem, hr, fun j hj => hnone j ?_⟩
  have hjmem : j ∈ before ++ r :: behind := by
    rw [← hrange]
    exact List.mem_range.mpr (Nat.lt_trans hj (List.mem_range.mp hmem))
  have hsorted : (before ++ r :: behind).Pairwise (· < ·) := hrange ▸ List.pairwise_lt_range
  rcases List.mem_append.mp hjmem with hbefore | hrest
  · exact hbefore
  · rcases List.mem_cons.mp hrest with rfl | hbehind
    · exact absurd hj (Nat.lt_irrefl j)
    · have hlt := List.rel_of_pairwise_cons (List.pairwise_append.mp hsorted).2.1 hbehind
      omega

theorem leNat_encodeNum (k : Nat) : leNat (encodeNum k) = k := by
  rw [encodeNum, signedBytes, leNat_leBytes, Nat.mod_eq_of_lt (signed_lt (fits_numWidth _)),
    signed_natCast]

/-! ## What the signer finds -/

section Found

variable (cfg : Config) (slots : Slots) (msg : Bytes) (kp : RabinKeyPair)

/-- There is a signature with this padding. -/
def Signable (padding : Nat) : Prop := ∃ x : Int, kp.n ∣ x * x + padding - digest cfg msg

/-- What holds of a signature that the signer returns. -/
structure Signs (s : RabinSignature) : Prop where
  range : 0 ≤ s.sig ∧ s.sig < kp.n
  tried : s.padding < 1000
  /-- no signature has a smaller padding -/
  least : ∀ r < s.padding, ¬ Signable cfg msg kp r
  verified : rabinVerify cfg.sha256 msg s.sig (encodeNum s.padding) kp.n = true
  /-- the script compares with the digest itself -/
  script : RunsAs cfg slots emitVerifyRabinSig
    [encodeNum kp.n, encodeNum s.padding, encodeNum s.sig, msg]
    (.ok [boolBytes (decide ((digest cfg msg : Int) < kp.n))])

/-- What holds of what signing comes to. -/
inductive Outcome : Except String RabinSignature → Prop
  | found {s : RabinSignature} (h : Signs cfg slots msg kp s) : Outcome (.ok s)
  | refused {text : String} (h : ∀ r < 1000, ¬ Signable cfg msg kp r) : Outcome (.error text)

/-- **Signing**: with a key of two primes the signer finds a signature of least padding
wherever one of the paddings it tries has any, and what it finds is accepted by the reference,
and by the script where the digest is below the modulus. -/
theorem rabinSign_outcome {p q : Nat} (hkey : kp.Valid p q) :
    Outcome cfg slots msg kp (rabinSign cfg.sha256 msg kp) := by
  have hround := tryPadding_spec hkey (digest cfg msg)
  unfold rabinSign
  cases hfind : (List.range 1000).findSome? (tryPadding (digest cfg msg) kp) with
  | none =>
    have hfail : ((List.range 1000).findSome? (tryPadding (leNat (cfg.sha256 msg)) kp)) = none :=
      hfind
    rw [hfail]
    refine .refused ?_
    rintro r hr ⟨x, hx⟩
    exact (hround r).2 (List.findSome?_eq_none_iff.mp hfind r (List.mem_range.mpr hr)) x hx
  | some s =>
    have hfound : ((List.range 1000).findSome? (tryPadding (leNat (cfg.sha256 msg)) kp)) =
      some s := hfind
    rw [hfound]
    obtain ⟨r, hr, hs, hbefore⟩ := findSome_range hfind
    obtain ⟨hpad, hlow, hhigh, hdvd⟩ := (hround r).1 s hs
    have hpos : 0 < kp.n := by
      rw [hkey.n_eq]
      exact hkey.pos
    subst hpad
    refine .found ⟨⟨hlow, hhigh⟩, hr, fun j hj => ?_, ?_, ?_⟩
    · rintro ⟨x, hx⟩
      exact (hround j).2 (hbefore j hj) x hx
    · rw [rabinVerify_iff, leNat_encodeNum]
      refine ⟨hpos, ?_, hdvd⟩
      unfold paddingLimit
      omega
    · have hread : readPadding cfg (encodeNum s.padding) = .ok (s.padding : Int) := by
        refine (readPadding_eq_ok_iff cfg _ _).mpr ⟨decodeNum_encodeNum _, by omega, ?_, fun _ =>
          isMinimal_encodeNum _⟩
        unfold paddingLimit
        omega
      have hrun := runsAs_emitVerifyRabinSig cfg slots msg s.sig (encodeNum s.padding) kp.n
      rw [hread, ok_bind, if_neg (by omega)] at hrun
      have hiff := tmod_eq_iff (x := s.sig * s.sig + s.padding) (digest cfg msg)
        (add_nonneg (mul_self_nonneg _) (by omega)) hpos
      have htest : ((s.sig * s.sig + s.padding).tmod kp.n == (leNat (cfg.sha256 msg) : Int)) =
          decide ((digest cfg msg : Int) < kp.n) := by
        rw [Bool.eq_iff_iff, beq_iff_eq, decide_eq_true_iff]
        exact hiff.trans (and_iff_left hdvd)
      rwa [htest] at hrun

/-- The key of 7 and 11. -/
def smallKey : RabinKeyPair := ⟨7, 11, 77⟩

/-- The empty message. -/
theorem rabinSign_outcome_small :
    let cfg : Config := .hashing Crypto.Sha256.digest
    Outcome cfg ⟨fun _ _ => [], []⟩ [] smallKey (rabinSign cfg.sha256 [] smallKey) :=
  rabinSign_outcome (.hashing Crypto.Sha256.digest) ⟨fun _ _ => [], []⟩ [] smallKey
    (⟨rfl, rfl, rfl, by decide, by decide, rfl, rfl, by decide⟩ : smallKey.Valid 7 11)

end Found

end Runar.StackLower.Rabin
