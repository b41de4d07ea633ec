/-
  Logic/Euclid.lean --- the Euclidean algorithm, division by division.

  WHAT THIS FILE IS FOR.  An unrolled loop makes a fixed number of divisions, and
  a division of a finished pair does nothing.  Such a loop has reached the greatest
  common divisor exactly where the algorithm needs no more divisions than the loop
  makes.
-/
import Mathlib.Logic.Function.Iterate
import Mathlib.Data.Nat.GCD.Basic
import Mathlib.Data.Nat.Fib.Basic

set_option autoImplicit false

namespace Runar.Euclid

/-- One division, where the divisor is not zero. -/
def divide (p : Nat × Nat) : Nat × Nat := if p.2 = 0 then p else (p.2, p.1 % p.2)

/-- The number of divisions the algorithm makes. -/
def divisions (a b : Nat) : Nat := if h : b = 0 then 0 else divisions b (a % b) + 1
termination_by b
decreasing_by exact Nat.mod_lt a (Nat.pos_of_ne_zero h)

@[simp] theorem divisions_zero (a : Nat) : divisions a 0 = 0 := by
  rw [divisions, dif_pos rfl]

theorem divisions_pos {a b : Nat} (h : b ≠ 0) : divisions a b = divisions b (a % b) + 1 := by
  rw [divisions, dif_neg h]

theorem divide_zero (a : Nat) : divide (a, 0) = (a, 0) := if_pos rfl

theorem divide_pos {a b : Nat} (h : b ≠ 0) : divide (a, b) = (b, a % b) := if_neg h

theorem gcd_divide (p : Nat × Nat) : (divide p).1.gcd (divide p).2 = p.1.gcd p.2 := by
  obtain ⟨a, b⟩ := p
  by_cases h : b = 0
  · rw [h, divide_zero]
  · rw [divide_pos h]
    show b.gcd (a % b) = a.gcd b
    rw [Nat.gcd_comm a b, Nat.gcd_rec b a, Nat.gcd_comm]

/-- Divisions leave the common divisors alone. -/
theorem gcd_iterate_divide (k : Nat) (p : Nat × Nat) :
    (divide^[k] p).1.gcd (divide^[k] p).2 = p.1.gcd p.2 := by
  induction k with
  | zero => rfl
  | succ k ih => rw [Function.iterate_succ_apply', gcd_divide, ih]

theorem iterate_divide_zero (k a : Nat) : divide^[k] (a, 0) = (a, 0) :=
  Function.iterate_fixed (divide_zero a) k

/-- The remainder is zero after as many divisions as the algorithm makes, and not
before. -/
theorem iterate_divide_snd_iff (k a b : Nat) : (divide^[k] (a, b)).2 = 0 ↔ divisions a b ≤ k := by
  induction k generalizing a b with
  | zero =>
    show b = 0 ↔ _
    constructor
    · rintro rfl
      rw [divisions_zero]
    · intro h
      by_contra hb
      rw [divisions_pos hb] at h
      omega
  | succ k ih =>
    rw [Function.iterate_succ_apply]
    by_cases hb : b = 0
    · rw [hb, divide_zero, iterate_divide_zero, divisions_zero]
      simp
    · rw [divide_pos hb, ih, divisions_pos hb]
      omega

/-- After a division the remainder is below the divisor. -/
theorem iterate_divide_lt {k : Nat} (hk : 0 < k) (a b : Nat)
    (h : (divide^[k] (a, b)).2 ≠ 0) : (divide^[k] (a, b)).2 < (divide^[k] (a, b)).1 := by
  obtain ⟨j, rfl⟩ : ∃ j, k = j + 1 := ⟨k - 1, by omega⟩
  rw [Function.iterate_succ_apply'] at h ⊢
  generalize divide^[j] (a, b) = p at h ⊢
  obtain ⟨c, d⟩ := p
  by_cases hd : d = 0
  · rw [hd, divide_zero] at h
    exact absurd rfl h
  · rw [divide_pos hd]
    exact Nat.mod_lt c (Nat.pos_of_ne_zero hd)

/-- A loop of divisions ends with the greatest common divisor exactly where it makes
enough of them. -/
theorem iterate_divide_fst_iff {k : Nat} (hk : 0 < k) (a b : Nat) :
    (divide^[k] (a, b)).1 = a.gcd b ↔ divisions a b ≤ k := by
  have hgcd := gcd_iterate_divide k (a, b)
  rw [← iterate_divide_snd_iff]
  constructor
  · intro h
    by_contra hne
    have hlt := iterate_divide_lt hk a b hne
    have hdvd : (divide^[k] (a, b)).1 ∣ (divide^[k] (a, b)).2 := by
      rw [h, ← hgcd]
      exact Nat.gcd_dvd_right _ _
    exact absurd (Nat.le_of_dvd (Nat.pos_of_ne_zero hne) hdvd) (by omega)
  · intro h
    rw [h, Nat.gcd_zero_right] at hgcd
    exact hgcd

/-- Where the dividend is larger, every division costs a step of the Fibonacci
numbers. -/
theorem fib_le_of_divisions {a b : Nat} (hb : 0 < b) (hlt : b < a) :
    (divisions a b + 1).fib ≤ b ∧ (divisions a b + 2).fib ≤ a := by
  induction b using Nat.strong_induction_on generalizing a with
  | _ b ih =>
    have hmod : a % b < b := Nat.mod_lt a hb
    have hsum : b + a % b ≤ a := by
      have hquot : b * 1 ≤ b * (a / b) :=
        Nat.mul_le_mul_left b ((Nat.one_le_div_iff hb).mpr hlt.le)
      have hsplit := Nat.div_add_mod a b
      omega
    rw [divisions_pos (by omega)]
    by_cases hr : a % b = 0
    · have h2 : Nat.fib 2 = 1 := rfl
      have h3 : Nat.fib 3 = 2 := rfl
      rw [hr, divisions_zero]
      show Nat.fib 2 ≤ b ∧ Nat.fib 3 ≤ a
      omega
    · obtain ⟨hfst, hsnd⟩ := ih (a % b) hmod (Nat.pos_of_ne_zero hr) hmod
      refine ⟨hsnd, ?_⟩
      calc (divisions b (a % b) + 1 + 2).fib
          = (divisions b (a % b) + 1).fib + (divisions b (a % b) + 2).fib := Nat.fib_add_two
        _ ≤ a % b + b := Nat.add_le_add hfst hsnd
        _ ≤ a := by omega

/-- Few divisions are enough where one of the numbers is small. -/
theorem divisions_le_of_lt_fib {a b k : Nat} (hk : 0 < k)
    (h : a < (k + 1).fib ∨ b < (k + 1).fib) : divisions a b ≤ k := by
  by_contra hmany
  have hmono : ∀ {i j : Nat}, i ≤ j → i.fib ≤ j.fib := fun hij => Nat.fib_mono hij
  have hb : b ≠ 0 := by
    rintro rfl
    rw [divisions_zero] at hmany
    omega
  rcases Nat.lt_trichotomy a b with hlt | heq | hgt
  · -- the first division only exchanges the two
    rw [divisions_pos hb, Nat.mod_eq_of_lt hlt] at hmany
    have ha : 0 < a := by
      rcases Nat.eq_zero_or_pos a with rfl | ha
      · rw [divisions_zero] at hmany
        omega
      · exact ha
    obtain ⟨hfst, hsnd⟩ := fib_le_of_divisions ha hlt
    have h1 := hmono (show k + 1 ≤ divisions b a + 1 by omega)
    have h2 := hmono (show k + 1 ≤ divisions b a + 2 by omega)
    omega
  · rw [heq, divisions_pos hb, Nat.mod_self, divisions_zero] at hmany
    omega
  · obtain ⟨hfst, hsnd⟩ := fib_le_of_divisions (Nat.pos_of_ne_zero hb) hgt
    have h1 := hmono (show k + 1 ≤ divisions a b + 1 by omega)
    have h2 := hmono (show k + 1 ≤ divisions a b + 2 by omega)
    omega

end Runar.Euclid
