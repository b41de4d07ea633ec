/-
  Crypto/Lucas.lean --- primality of large numbers by Lucas's test.

  WHAT THIS FILE IS FOR.  The order of a curve is a prime too large to try divisors
  of.  Lucas's test needs an element of full order and the prime factors of the
  number less one; here the powers are computed by repeated squaring, so that the
  kernel can evaluate them.  The file names no program.
-/
import Mathlib.NumberTheory.LucasPrimality
import Mathlib.Tactic.NormNum.Prime

set_option autoImplicit false

namespace Runar.Crypto

/-- `acc * a ^ n % m`, reading the exponent from its lowest bit; `fuel` bounds its
length. -/
def powModLoop (m : Nat) : Nat → Nat → Nat → Nat → Nat
  | 0, _, _, acc => acc % m
  | fuel + 1, a, n, acc =>
      powModLoop m fuel (a * a % m) (n / 2) (if n % 2 = 1 then acc * a % m else acc)

theorem powModLoop_modEq (m : Nat) {fuel a n acc : Nat} (h : n < 2 ^ fuel) :
    powModLoop m fuel a n acc ≡ acc * a ^ n [MOD m] := by
  induction fuel generalizing a n acc with
  | zero =>
      obtain rfl : n = 0 := by omega
      rw [pow_zero, mul_one]
      exact Nat.mod_modEq acc m
  | succ fuel ih =>
      have hhalf : n / 2 < 2 ^ fuel := by rw [Nat.pow_succ] at h; omega
      have hsquare : (a * a % m) ^ (n / 2) ≡ a ^ (2 * (n / 2)) [MOD m] := by
        rw [pow_mul, pow_two]
        exact (Nat.mod_modEq _ m).pow _
      refine (ih hhalf).trans ?_
      split
      · next hodd =>
          have hn : a ^ n = a * a ^ (2 * (n / 2)) := by
            rw [← pow_succ']
            congr 1
            omega
          rw [hn, ← mul_assoc]
          exact (Nat.mod_modEq _ m).mul hsquare
      · next heven =>
          have hn : n = 2 * (n / 2) := by omega
          conv_rhs => rw [hn]
          exact Nat.ModEq.rfl.mul hsquare

/-- `a ^ n % m` for exponents of at most 256 bits. -/
def powMod (a n m : Nat) : Nat := powModLoop m 256 a n 1 % m

theorem powMod_eq {a n m : Nat} (h : n < 2 ^ 256) : powMod a n m = a ^ n % m := by
  have hloop : powModLoop m 256 a n 1 ≡ 1 * a ^ n [MOD m] := powModLoop_modEq m h
  rwa [one_mul] at hloop

theorem natCast_pow_eq_one_iff {a n p : Nat} (hp : 1 < p) (hn : n < 2 ^ 256) :
    (a : ZMod p) ^ n = 1 ↔ powMod a n p = 1 := by
  rw [powMod_eq hn, ← Nat.cast_pow, ← Nat.cast_one, ZMod.natCast_eq_natCast_iff',
    Nat.mod_eq_of_lt hp]

/-- Lucas's test, from the prime factors of `p - 1`. -/
theorem prime_of_lucas {p : Nat} (a : Nat) (factors : List Nat) (hprime : ∀ q ∈ factors, q.Prime)
    (hprod : factors.prod + 1 = p) (hsize : p < 2 ^ 256) (hfull : powMod a (p - 1) p = 1)
    (hpart : ∀ q ∈ factors, powMod a ((p - 1) / q) p ≠ 1) : p.Prime := by
  have hpos : 0 < factors.prod := List.prod_pos fun q hq => (hprime q hq).pos
  have hp : 1 < p := by omega
  refine lucas_primality p a ((natCast_pow_eq_one_iff hp (by omega)).mpr hfull) ?_
  intro q hq hdvd
  obtain ⟨f, hf, hqf⟩ := (Prime.dvd_prod_iff hq.prime).mp (by rwa [← hprod] at hdvd)
  obtain rfl := (Nat.prime_dvd_prime_iff_eq hq (hprime f hf)).mp hqf
  have hle : (p - 1) / q ≤ p - 1 := Nat.div_le_self _ _
  rw [ne_eq, natCast_pow_eq_one_iff hp (by omega)]
  exact hpart q hf

end Runar.Crypto
