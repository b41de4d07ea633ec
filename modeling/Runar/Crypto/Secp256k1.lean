/-
  Crypto/Secp256k1.lean --- signatures over a group of the order of secp256k1.

  WHAT THIS FILE IS FOR.  A signature check computes one point from the digest and the
  signature and compares its coordinate.  This file has the order of the group and its
  primality, the group as far as the check looks at it, and what the check says of a
  signature made with a known nonce: it fixes the digest up to the sign of the nonce.

  THE GROUP.  Points are those of an arbitrary additive group with a generator of this
  order.  Coordinates are numbers below the field prime, and two points share one
  exactly if they are equal or opposite.  The file names no program.
-/
import Runar.Crypto.Lucas
import Runar.Script.ScriptNum
import Mathlib.GroupTheory.OrderOfElement
import Mathlib.Algebra.Field.ZMod

set_option autoImplicit false

namespace Runar.Crypto

open Script (Bytes)

/-! ## The order -/

/-- The order of the group. -/
def curveOrder : Nat := 0xfffffffffffffffffffffffffffffffebaaedce6af48a03bbfd25e8cd0364141

/-- The prime of the field of coordinates. -/
def fieldPrime : Nat := 0xfffffffffffffffffffffffffffffffffffffffffffffffffffffffefffffc2f

/-! ### The primes of the order less one, from the smallest -/

/-- The primes that the larger ones rest on. -/
theorem primes_small : Nat.Prime 107361793816595537 ∧ Nat.Prime 174723607534414371449 ∧
    Nat.Prime 297159362677 ∧ Nat.Prime 545358713 :=
  ⟨prime_of_lucas 3 [2, 2, 2, 2, 16699, 85831, 4681609]
    (by norm_num) (by decide +kernel) (by decide +kernel) (by decide +kernel) (by decide +kernel),
  prime_of_lucas 3 [2, 2, 2, 17, 59, 4051, 120233, 44706919]
    (by norm_num) (by decide +kernel) (by decide +kernel) (by decide +kernel) (by decide +kernel),
  prime_of_lucas 2 [2, 2, 3, 3, 11, 461, 1627771]
    (by norm_num) (by decide +kernel) (by decide +kernel) (by decide +kernel) (by decide +kernel),
  prime_of_lucas 5 [2, 2, 2, 41, 59, 28181]
    (by norm_num) (by decide +kernel) (by decide +kernel) (by decide +kernel) (by decide +kernel)⟩

theorem prime_outer : Nat.Prime 29047611873442575647497758179 :=
  prime_of_lucas 2 [297159362677, 545358713, 2, 293, 305873]
    (List.forall_mem_cons.mpr ⟨primes_small.2.2.1,
      List.forall_mem_cons.mpr ⟨primes_small.2.2.2, by norm_num⟩⟩)
    (by decide +kernel) (by decide +kernel) (by decide +kernel) (by decide +kernel)

theorem prime_largest : Nat.Prime 341948486974166000522343609283189 :=
  prime_of_lucas 2 [29047611873442575647497758179, 2, 2, 3, 3, 3, 109]
    (List.forall_mem_cons.mpr ⟨prime_outer, by norm_num⟩)
    (by decide +kernel) (by decide +kernel) (by decide +kernel) (by decide +kernel)

/-- The order is prime. -/
theorem prime_curveOrder : curveOrder.Prime :=
  prime_of_lucas 7 [107361793816595537, 174723607534414371449,
      341948486974166000522343609283189, 2, 2, 2, 2, 2, 2, 3, 149, 631]
    (List.forall_mem_cons.mpr ⟨primes_small.1, List.forall_mem_cons.mpr ⟨primes_small.2.1,
      List.forall_mem_cons.mpr ⟨prime_largest, by norm_num⟩⟩⟩) (by decide +kernel)
    (by decide +kernel) (by decide +kernel) (by decide +kernel)

instance : Fact curveOrder.Prime := ⟨prime_curveOrder⟩

instance : NeZero curveOrder := ⟨prime_curveOrder.ne_zero⟩

/-! ## The group -/

/-- The group of points, as far as a signature check looks at it. -/
structure CurveGroup (P : Type) [AddCommGroup P] where
  generator : P
  order_generator : addOrderOf generator = curveOrder
  xCoord : P → Nat
  xCoord_lt : ∀ Q, xCoord Q < fieldPrime
  xCoord_eq_iff : ∀ Q R, Q ≠ 0 → R ≠ 0 → (xCoord Q = xCoord R ↔ Q = R ∨ Q = -R)

namespace CurveGroup

variable {P : Type} [AddCommGroup P] (C : CurveGroup P)

/-- The multiple of the generator by a residue. -/
def point (k : ZMod curveOrder) : P := k.val • C.generator

theorem point_add (j k : ZMod curveOrder) : C.point (j + k) = C.point j + C.point k := by
  unfold point
  rw [← add_nsmul, nsmul_eq_nsmul_iff_modEq, C.order_generator, ZMod.val_add]
  exact Nat.mod_modEq _ _

theorem point_zero : C.point 0 = 0 := by
  rw [point, ZMod.val_zero, zero_nsmul]

theorem point_neg (k : ZMod curveOrder) : C.point (-k) = -C.point k := by
  rw [eq_neg_iff_add_eq_zero, ← point_add, neg_add_cancel, point_zero]

theorem point_inj {j k : ZMod curveOrder} : C.point j = C.point k ↔ j = k := by
  unfold point
  rw [nsmul_eq_nsmul_iff_modEq, C.order_generator]
  constructor
  · intro h
    apply ZMod.val_injective
    exact h.eq_of_lt_of_lt (ZMod.val_lt j) (ZMod.val_lt k)
  · rintro rfl
    exact Nat.ModEq.rfl

theorem point_eq_zero_iff {k : ZMod curveOrder} : C.point k = 0 ↔ k = 0 := by
  rw [← C.point_zero, point_inj]

theorem nsmul_point (m : Nat) (k : ZMod curveOrder) : m • C.point k = C.point (m * k) := by
  induction m with
  | zero => rw [zero_nsmul, Nat.cast_zero, zero_mul, point_zero]
  | succ m ih => rw [succ_nsmul, ih, ← point_add, Nat.cast_succ, add_mul, one_mul]

theorem point_one : C.point 1 = C.generator := by
  have hone : (1 : ZMod curveOrder).val = 1 := ZMod.val_one _
  rw [point, hone, one_nsmul]

/-! ## Verification -/

/-- A signature `(r, s)` of the digest `e` verifies against the key `Q`: with `w` the
inverse of `s`, the point `e w G + r w Q` is not the neutral one, and its coordinate is `r`
modulo the order. -/
def Verifies (Q : P) (e r s : Nat) : Prop :=
  0 < r ∧ r < curveOrder ∧ 0 < s ∧ s < curveOrder ∧
    let w := (s : ZMod curveOrder)⁻¹
    let R := (e * w).val • C.generator + (r * w).val • Q
    R ≠ 0 ∧ C.xCoord R % curveOrder = r

/-- Against the generator the computed point is a multiple of the generator. -/
theorem verification_point (e r : Nat) (w : ZMod curveOrder) :
    ((e : ZMod curveOrder) * w).val • C.generator + ((r : ZMod curveOrder) * w).val • C.generator =
      C.point ((e + r) * w) := by
  rw [add_mul, point_add]
  rfl

/-- A coordinate that is large enough is the only one with its residue. -/
theorem xCoord_mod_eq_iff {r : Nat} (hr : r < curveOrder) (hlarge : fieldPrime ≤ r + curveOrder)
    (Q : P) : C.xCoord Q % curveOrder = r ↔ C.xCoord Q = r := by
  have hlt := C.xCoord_lt Q
  have hfield : fieldPrime < 2 * curveOrder := by decide +kernel
  constructor
  · intro h
    have hdiv := Nat.div_add_mod (C.xCoord Q) curveOrder
    have hq : C.xCoord Q / curveOrder < 2 := by
      rw [Nat.div_lt_iff_lt_mul prime_curveOrder.pos]
      omega
    interval_cases hquot : C.xCoord Q / curveOrder <;> omega
  · intro h
    rw [h, Nat.mod_eq_of_lt hr]

/-- With the coordinate of the multiple `k` of the generator for `r`, and the generator
for the key, a signature verifies exactly if the digest plus `r` is `k s` up to sign. -/
theorem verifies_generator_iff {e r s : Nat} {k : ZMod curveOrder} (hk : k ≠ 0)
    (hcoord : C.xCoord (C.point k) = r) (hr0 : 0 < r) (hr : r < curveOrder)
    (hlarge : fieldPrime ≤ r + curveOrder) (hs0 : 0 < s) (hs : s < curveOrder) :
    C.Verifies C.generator e r s ↔
      (e + r : ZMod curveOrder) = k * s ∨ (e + r : ZMod curveOrder) = -(k * s) := by
  have hsne : (s : ZMod curveOrder) ≠ 0 := by
    rw [ne_eq, ZMod.natCast_eq_zero_iff]
    exact Nat.not_dvd_of_pos_of_lt hs0 hs
  unfold Verifies
  simp only [hr0, hr, hs0, hs, true_and]
  rw [verification_point, xCoord_mod_eq_iff C hr hlarge]
  have hmul (j : ZMod curveOrder) :
      (e + r : ZMod curveOrder) * (s : ZMod curveOrder)⁻¹ = j ↔
        (e + r : ZMod curveOrder) = j * s := by
    rw [← div_eq_mul_inv, div_eq_iff hsne]
  have hkpoint : C.point k ≠ 0 := fun h => hk (C.point_eq_zero_iff.mp h)
  rw [← neg_mul, ← hmul k, ← hmul (-k)]
  constructor
  · rintro ⟨hne, hx⟩
    have hshared := (C.xCoord_eq_iff _ _ hne hkpoint).mp (hx.trans hcoord.symm)
    rwa [← point_neg, point_inj, point_inj] at hshared
  · rintro (h | h)
    · rw [h]
      exact ⟨hkpoint, hcoord⟩
    · rw [h]
      have hneg : C.point (-k) ≠ 0 := by
        rw [point_neg]
        exact neg_ne_zero.mpr hkpoint
      have hshared := (C.xCoord_eq_iff _ _ hneg hkpoint).mpr (Or.inr (C.point_neg k))
      exact ⟨hneg, hshared.trans hcoord⟩

end CurveGroup

end Runar.Crypto
