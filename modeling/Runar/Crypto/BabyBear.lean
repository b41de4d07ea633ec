/-
  Crypto/BabyBear.lean --- the Baby Bear field and its quartic extension.

  WHAT THIS FILE IS FOR.  The extension adjoins a fourth root of 11, which is no square
  modulo the prime.  An element is inverted through the quadratic field between: the product
  of an element with its conjugate lies there, and the norm of that product is not zero
  unless the element is.  The file names no program.
-/
import Runar.Crypto.Lucas
import Mathlib.NumberTheory.LegendreSymbol.Basic
import Mathlib.RingTheory.AdjoinRoot
import Mathlib.Tactic.LinearCombination

set_option autoImplicit false

namespace Runar.Crypto

/-! ## Norms -/

section Norms

variable {F : Type} [Field F] {w : F}

/-- Over a field without the square root of `w`, only zero has norm zero. -/
theorem eq_zero_of_norm (hw : ¬ IsSquare w) {a b : F} (h : a ^ 2 = w * b ^ 2) :
    a = 0 ∧ b = 0 := by
  have hb : b = 0 := by
    by_contra hb
    refine hw ⟨a / b, ?_⟩
    field_simp
    exact h.symm
  subst hb
  rw [zero_pow two_ne_zero, mul_zero] at h
  exact ⟨pow_eq_zero_iff two_ne_zero |>.mp h, rfl⟩

/-- The norm of an element down to the field, through the quadratic field between. -/
theorem quarticNorm_ne_zero (hw : ¬ IsSquare w) (hneg : ¬ IsSquare (-w)) {a₀ a₁ a₂ a₃ : F}
    (h : ¬ (a₀ = 0 ∧ a₁ = 0 ∧ a₂ = 0 ∧ a₃ = 0)) :
    (a₀ ^ 2 + w * a₂ ^ 2 - 2 * w * (a₁ * a₃)) ^ 2 -
      w * (2 * (a₀ * a₂) - a₁ ^ 2 - w * a₃ ^ 2) ^ 2 ≠ 0 := by
  intro hzero
  obtain ⟨heven, hodd⟩ := eq_zero_of_norm hw (sub_eq_zero.mp hzero)
  -- the even part times its conjugate is `-w` times the odd part times its own
  have hparts : (a₀ ^ 2 - w * a₂ ^ 2) ^ 2 = -w * (a₁ ^ 2 - w * a₃ ^ 2) ^ 2 := by
    linear_combination (a₀ ^ 2 + w * a₂ ^ 2 + 2 * w * (a₁ * a₃)) * heven -
      w * (2 * (a₀ * a₂) + a₁ ^ 2 + w * a₃ ^ 2) * hodd
  obtain ⟨hfirst, hsecond⟩ := eq_zero_of_norm hneg hparts
  obtain ⟨h₀, h₂⟩ := eq_zero_of_norm hw (sub_eq_zero.mp hfirst)
  obtain ⟨h₁, h₃⟩ := eq_zero_of_norm hw (sub_eq_zero.mp hsecond)
  exact h ⟨h₀, h₁, h₂, h₃⟩

end Norms

/-! ## A fourth root -/

section Root

variable {R : Type} [CommRing R] {w x : R}

theorem quartic_mul (hx : x ^ 4 = w) (a₀ a₁ a₂ a₃ b₀ b₁ b₂ b₃ : R) :
    (a₀ + a₁ * x + a₂ * x ^ 2 + a₃ * x ^ 3) * (b₀ + b₁ * x + b₂ * x ^ 2 + b₃ * x ^ 3) =
      (a₀ * b₀ + w * (a₁ * b₃ + a₂ * b₂ + a₃ * b₁)) +
        (a₀ * b₁ + a₁ * b₀ + w * (a₂ * b₃ + a₃ * b₂)) * x +
        (a₀ * b₂ + a₁ * b₁ + a₂ * b₀ + w * (a₃ * b₃)) * x ^ 2 +
        (a₀ * b₃ + a₁ * b₂ + a₂ * b₁ + a₃ * b₀) * x ^ 3 := by
  linear_combination (a₁ * b₃ + a₂ * b₂ + a₃ * b₁ + (a₂ * b₃ + a₃ * b₂) * x +
    a₃ * b₃ * x ^ 2) * hx

/-- An element times its conjugate times the conjugate of that product, over the norm. -/
theorem quartic_mul_inv (hx : x ^ 4 = w) {a₀ a₁ a₂ a₃ n₀ n₁ s : R}
    (hn₀ : n₀ = a₀ ^ 2 + w * a₂ ^ 2 - 2 * w * (a₁ * a₃))
    (hn₁ : n₁ = 2 * (a₀ * a₂) - a₁ ^ 2 - w * a₃ ^ 2) (hs : (n₀ ^ 2 - w * n₁ ^ 2) * s = 1) :
    (a₀ + a₁ * x + a₂ * x ^ 2 + a₃ * x ^ 3) *
        ((a₀ * (n₀ * s) + w * (a₂ * (-n₁ * s))) + -(a₁ * (n₀ * s) + w * (a₃ * (-n₁ * s))) * x +
          (a₀ * (-n₁ * s) + a₂ * (n₀ * s)) * x ^ 2 +
          -(a₁ * (-n₁ * s) + a₃ * (n₀ * s)) * x ^ 3) = 1 := by
  have hconj : (a₀ + a₁ * x + a₂ * x ^ 2 + a₃ * x ^ 3) *
      (a₀ - a₁ * x + a₂ * x ^ 2 - a₃ * x ^ 3) = n₀ + n₁ * x ^ 2 := by
    rw [hn₀, hn₁]
    linear_combination (a₂ ^ 2 - 2 * (a₁ * a₃) - a₃ ^ 2 * x ^ 2) * hx
  have hquad : (n₀ + n₁ * x ^ 2) * ((n₀ - n₁ * x ^ 2) * s) = 1 := by
    linear_combination hs - n₁ ^ 2 * s * hx
  have hinv : (a₀ * (n₀ * s) + w * (a₂ * (-n₁ * s))) +
      -(a₁ * (n₀ * s) + w * (a₃ * (-n₁ * s))) * x +
      (a₀ * (-n₁ * s) + a₂ * (n₀ * s)) * x ^ 2 + -(a₁ * (-n₁ * s) + a₃ * (n₀ * s)) * x ^ 3 =
      (a₀ - a₁ * x + a₂ * x ^ 2 - a₃ * x ^ 3) * ((n₀ - n₁ * x ^ 2) * s) := by
    linear_combination (a₂ * n₁ * s - a₃ * n₁ * s * x) * hx
  rw [hinv, ← mul_assoc, hconj, hquad]

end Root

/-! ## Baby Bear -/

/-- The prime. -/
def babyBear : Nat := 2013265921

theorem prime_babyBear : babyBear.Prime :=
  prime_of_lucas 31 (5 :: 3 :: List.replicate 27 2) (by norm_num) (by decide +kernel)
    (by decide +kernel) (by decide +kernel) (by decide +kernel)

instance : Fact babyBear.Prime := ⟨prime_babyBear⟩

theorem not_isSquare_eleven : ¬ IsSquare (11 : ZMod babyBear) := by
  have hcast : (11 : ZMod babyBear) = (11 : Nat) := rfl
  have hne : (11 : ZMod babyBear) ≠ 0 := by
    rw [hcast, Ne, ZMod.natCast_eq_zero_iff]
    decide
  rw [ZMod.euler_criterion babyBear hne, hcast,
    natCast_pow_eq_one_iff prime_babyBear.one_lt (by decide)]
  decide +kernel

/-- The prime is one above a multiple of four, so that -1 is a square. -/
theorem not_isSquare_neg_eleven : ¬ IsSquare (-11 : ZMod babyBear) := by
  intro hsquare
  have hneg : IsSquare (-1 : ZMod babyBear) :=
    ZMod.exists_sq_eq_neg_one_iff.mpr (by decide)
  refine not_isSquare_eleven ?_
  have hmul := hneg.mul hsquare
  rwa [neg_mul_neg, one_mul] at hmul

end Runar.Crypto
