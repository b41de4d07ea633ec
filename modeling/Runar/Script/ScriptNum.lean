/-
  Script/ScriptNum.lean --- script numbers: signed-magnitude little-endian byte
  strings.

  WHAT THIS FILE IS FOR.  A script interpreter keeps numbers on its stack as byte
  strings: little-endian magnitude, with the top bit of the last byte as the
  sign.  This file fixes the decoder, the minimal encoder and the fixed-width
  encoder, and proves how they compose.  It names no program: any development
  about a stack machine over script numbers can use it.

  THE ONE IDEA.  Every encoding of width `w` is the `w`-byte little-endian word of
  one natural number, `signed w n = |n| + (if n < 0 then 128 * 256 ^ (w - 1) else 0)`.
  The sign byte is therefore an arithmetic fact about a word, and no proof below
  splits on whether a length byte has its high bit set.
-/
import Mathlib.Data.Nat.Size
import Mathlib.Algebra.Order.Ring.Int
import Mathlib.Tactic.Ring
import Mathlib.Tactic.Linarith
import Mathlib.Tactic.Positivity

set_option autoImplicit false

namespace Runar.Script

/-- A byte string. -/
abbrev Bytes : Type := List UInt8

/-! ## Little-endian words -/

/-- The unsigned little-endian value of a byte string. -/
def leNat : Bytes → Nat
  | [] => 0
  | b :: bs => b.toNat + 256 * leNat bs

/-- The low `w` bytes of `m`, little-endian. -/
def leBytes : Nat → Nat → Bytes
  | 0, _ => []
  | w + 1, m => (m % 256).toUInt8 :: leBytes w (m / 256)

@[simp] theorem leNat_nil : leNat [] = 0 := rfl

@[simp] theorem leNat_cons (b : UInt8) (bs : Bytes) :
    leNat (b :: bs) = b.toNat + 256 * leNat bs := rfl

@[simp] theorem leBytes_zero (m : Nat) : leBytes 0 m = [] := rfl

theorem leBytes_succ (w m : Nat) :
    leBytes (w + 1) m = (m % 256).toUInt8 :: leBytes w (m / 256) := rfl

@[simp] theorem length_leBytes (w m : Nat) : (leBytes w m).length = w := by
  induction w generalizing m with
  | zero => rfl
  | succ w ih => simp [leBytes_succ, ih]

theorem toNat_toUInt8_mod (m : Nat) : (m % 256).toUInt8.toNat = m % 256 := by
  rw [Nat.toUInt8_eq, UInt8.toNat_ofNat', Nat.mod_eq_of_lt]
  exact Nat.mod_lt m (by decide)

theorem leNat_leBytes (w m : Nat) : leNat (leBytes w m) = m % 256 ^ w := by
  induction w generalizing m with
  | zero => simp [Nat.mod_one]
  | succ w ih =>
      rw [leBytes_succ, leNat_cons, toNat_toUInt8_mod, ih, Nat.pow_succ',
        Nat.mod_mul]

theorem leNat_lt (bs : Bytes) : leNat bs < 256 ^ bs.length := by
  induction bs with
  | nil => simp
  | cons b bs ih =>
      have hb : b.toNat < 256 := b.toNat_lt
      rw [leNat_cons, List.length_cons, Nat.pow_succ']
      omega

theorem leBytes_leNat (bs : Bytes) : leBytes bs.length (leNat bs) = bs := by
  induction bs with
  | nil => rfl
  | cons b bs ih =>
      have hb : b.toNat < 256 := b.toNat_lt
      have hmod : (b.toNat + 256 * leNat bs) % 256 = b.toNat := by omega
      have hdiv : (b.toNat + 256 * leNat bs) / 256 = leNat bs := by omega
      rw [List.length_cons, leBytes_succ, leNat_cons, hmod, hdiv, ih]
      simp

theorem leNat_append (bs cs : Bytes) :
    leNat (bs ++ cs) = leNat bs + 256 ^ bs.length * leNat cs := by
  induction bs with
  | nil => simp
  | cons b bs ih =>
      rw [List.cons_append, leNat_cons, leNat_cons, ih, List.length_cons, Nat.pow_succ']
      ring

theorem leBytes_append (v w m : Nat) :
    leBytes (v + w) m = leBytes v m ++ leBytes w (m / 256 ^ v) := by
  induction v generalizing m with
  | zero => simp
  | succ v ih =>
      rw [Nat.succ_add, leBytes_succ, leBytes_succ, ih, List.cons_append,
        Nat.div_div_eq_div_mul, Nat.pow_succ']

/-- A word only keeps its low bytes. -/
theorem leBytes_add_mul_pow (w m k : Nat) : leBytes w (m + k * 256 ^ w) = leBytes w m := by
  induction w generalizing m with
  | zero => rfl
  | succ w ih =>
      have hpow : k * 256 ^ (w + 1) = 256 * (k * 256 ^ w) := by
        rw [Nat.pow_succ']
        ring
      have hmod : (m + k * 256 ^ (w + 1)) % 256 = m % 256 := by omega
      have hdiv : (m + k * 256 ^ (w + 1)) / 256 = m / 256 + k * 256 ^ w := by omega
      rw [leBytes_succ, leBytes_succ, hmod, hdiv, ih]

/-- A word of width `w + 1` is its low `w` bytes and one top byte. -/
theorem leBytes_concat (w m : Nat) :
    leBytes (w + 1) m = leBytes w m ++ [(m / 256 ^ w % 256).toUInt8] := by
  rw [leBytes_append w 1 m]
  rfl

/-- The low bytes of a wider word are the narrower word. -/
theorem take_leBytes {v w : Nat} (h : v ≤ w) (m : Nat) :
    (leBytes w m).take v = leBytes v m := by
  obtain ⟨k, rfl⟩ := Nat.exists_eq_add_of_le h
  rw [leBytes_append, List.take_append_of_le_length (by simp),
    List.take_of_length_le (by simp)]

theorem leBytes_inj {w m n : Nat} (hm : m < 256 ^ w) (hn : n < 256 ^ w)
    (h : leBytes w m = leBytes w n) : m = n := by
  have hval : leNat (leBytes w m) = leNat (leBytes w n) := by rw [h]
  rwa [leNat_leBytes, leNat_leBytes, Nat.mod_eq_of_lt hm, Nat.mod_eq_of_lt hn] at hval

/-! ## Widths and the sign bit -/

/-- The weight of the sign bit of a word of width `w`; the one word without a
sign bit, the empty one, only ever holds zero. -/
def signBit : Nat → Nat
  | 0 => 1
  | w + 1 => 128 * 256 ^ w

@[simp] theorem signBit_zero : signBit 0 = 1 := rfl

theorem signBit_succ (w : Nat) : signBit (w + 1) = 128 * 256 ^ w := rfl

theorem signBit_pos (w : Nat) : 0 < signBit w := by
  cases w with
  | zero => decide
  | succ w => rw [signBit_succ]; positivity

theorem two_mul_signBit (w : Nat) : 2 * signBit (w + 1) = 256 ^ (w + 1) := by
  rw [signBit_succ, Nat.pow_succ]
  ring

theorem signBit_mono {v w : Nat} (h : v ≤ w) : signBit v ≤ signBit w := by
  cases v with
  | zero => exact signBit_pos w
  | succ v =>
      obtain ⟨k, rfl⟩ := Nat.exists_eq_add_of_le h
      rw [Nat.succ_add, signBit_succ, signBit_succ]
      have hpow : 256 ^ v ≤ 256 ^ (v + k) := Nat.pow_le_pow_right (by decide) (Nat.le_add_right _ _)
      omega

/-- `n` has a representation of exactly `w` bytes. -/
def Fits (w : Nat) (n : Int) : Prop := n.natAbs < signBit w

instance (w : Nat) (n : Int) : Decidable (Fits w n) :=
  inferInstanceAs (Decidable (_ < _))

theorem Fits.mono {v w : Nat} {n : Int} (h : Fits v n) (hvw : v ≤ w) : Fits w n :=
  Nat.lt_of_lt_of_le h (signBit_mono hvw)

theorem fits_zero_iff (n : Int) : Fits 0 n ↔ n = 0 := by
  simp [Fits]

/-- The natural number whose `w`-byte word represents `n`. -/
def signed (w : Nat) (n : Int) : Nat :=
  n.natAbs + if n < 0 then signBit w else 0

/-- The `w`-byte representation of `n`. -/
def signedBytes (w : Nat) (n : Int) : Bytes := leBytes w (signed w n)

@[simp] theorem length_signedBytes (w : Nat) (n : Int) : (signedBytes w n).length = w :=
  length_leBytes w _

theorem signed_of_nonneg (w : Nat) {n : Int} (h : 0 ≤ n) : signed w n = n.natAbs := by
  have hneg : ¬ n < 0 := by omega
  simp [signed, hneg]

theorem signed_natCast (w m : Nat) : signed w (m : Int) = m := by
  rw [signed_of_nonneg w (Int.natCast_nonneg m), Int.natAbs_natCast]

theorem signed_lt {w : Nat} {n : Int} (h : Fits w n) : signed w n < 256 ^ w := by
  cases w with
  | zero =>
      have hn : n = 0 := (fits_zero_iff n).mp h
      subst hn
      decide
  | succ w =>
      have hs := two_mul_signBit w
      have hlt : n.natAbs < signBit (w + 1) := h
      unfold signed
      split <;> omega

/-! ## Decoding -/

/-- The number a byte string stands for on the stack. -/
def decodeNum (bs : Bytes) : Int :=
  match bs with
  | [] => 0
  | b :: bs' =>
      let v := leNat (b :: bs')
      let s := signBit (b :: bs').length
      if v < s then (v : Int) else -((v - s : Nat) : Int)

@[simp] theorem decodeNum_nil : decodeNum [] = 0 := rfl

theorem decodeNum_of_length {bs : Bytes} {w : Nat} (h : bs.length = w + 1) :
    decodeNum bs =
      if leNat bs < signBit (w + 1) then (leNat bs : Int)
      else -((leNat bs - signBit (w + 1) : Nat) : Int) := by
  cases bs with
  | nil => simp at h
  | cons b bs' =>
      simp only [decodeNum]
      rw [h]

/-- Every byte string stands for a number that fits its own width. -/
theorem fits_decodeNum (bs : Bytes) : Fits bs.length (decodeNum bs) := by
  cases hlen : bs.length with
  | zero =>
      have hnil : bs = [] := List.length_eq_zero_iff.mp hlen
      subst hnil
      decide
  | succ w =>
      have hlt := leNat_lt bs
      have hs := two_mul_signBit w
      rw [hlen] at hlt
      rw [decodeNum_of_length hlen, Fits]
      split <;> omega

/-- Decoding a fixed-width representation gives the number back. -/
theorem decodeNum_signedBytes {w : Nat} {n : Int} (h : Fits w n) :
    decodeNum (signedBytes w n) = n := by
  cases w with
  | zero =>
      have hn : n = 0 := (fits_zero_iff n).mp h
      subst hn
      rfl
  | succ w =>
      have hval : leNat (signedBytes (w + 1) n) = signed (w + 1) n := by
        rw [signedBytes, leNat_leBytes, Nat.mod_eq_of_lt (signed_lt h)]
      have hlt : n.natAbs < signBit (w + 1) := h
      rw [decodeNum_of_length (length_signedBytes (w + 1) n), hval]
      by_cases hneg : n < 0
      · have hsigned : signed (w + 1) n = n.natAbs + signBit (w + 1) := by
          simp [signed, hneg]
        rw [hsigned, if_neg (by omega)]
        omega
      · rw [signed_of_nonneg _ (by omega), if_pos hlt]
        omega

/-- A byte string is the fixed-width representation of its number, unless it is
negative zero. -/
theorem signedBytes_decodeNum {bs : Bytes} (h : leNat bs ≠ signBit bs.length ∨ bs = []) :
    signedBytes bs.length (decodeNum bs) = bs := by
  cases hlen : bs.length with
  | zero =>
      have hnil : bs = [] := List.length_eq_zero_iff.mp hlen
      subst hnil
      rfl
  | succ w =>
      have hne : leNat bs ≠ signBit (w + 1) := by
        rcases h with h | h
        · rwa [hlen] at h
        · subst h
          simp at hlen
      have hsigned : signed (w + 1) (decodeNum bs) = leNat bs := by
        rw [decodeNum_of_length hlen]
        split
        · exact signed_natCast _ _
        · have hneg : -((leNat bs - signBit (w + 1) : Nat) : Int) < 0 := by omega
          rw [signed, if_pos hneg]
          omega
      rw [signedBytes, hsigned, ← hlen, leBytes_leNat]

/-- The value of a word with a clear sign bit is its unsigned value. -/
theorem decodeNum_eq_leNat {bs : Bytes} (h : leNat bs < signBit bs.length) :
    decodeNum bs = leNat bs := by
  cases bs with
  | nil => rfl
  | cons b bs' =>
      simp only [decodeNum]
      exact if_pos h

/-- A word whose sign bit is clear decodes to its unsigned value, and no other word
does. -/
theorem decodeNum_leBytes_eq_iff {w n : Nat} (hn : n < 256 ^ (w + 1)) :
    decodeNum (leBytes (w + 1) n) = n ↔ n < signBit (w + 1) := by
  have hval : leNat (leBytes (w + 1) n) = n := by rw [leNat_leBytes, Nat.mod_eq_of_lt hn]
  have hpos := signBit_pos (w + 1)
  rw [decodeNum_of_length (length_leBytes (w + 1) n), hval]
  split <;> omega

/-- A word padded with a zero byte reads as its unsigned value: the length byte
argument for every byte from `0x80` on. -/
theorem decodeNum_append_zero (bs : Bytes) : decodeNum (bs ++ [0]) = leNat bs := by
  have hval : leNat (bs ++ [0]) = leNat bs := by simp [leNat_append]
  have hlt := leNat_lt bs
  have hclear : leNat (bs ++ [0]) < signBit (bs ++ [0]).length := by
    rw [hval, List.length_append, List.length_singleton, signBit_succ]
    omega
  rw [decodeNum_eq_leNat hclear, hval]

/-! ## Minimal encoding -/

/-- The least width that holds a magnitude. -/
def numWidth (m : Nat) : Nat := if m = 0 then 0 else m.size / 8 + 1

theorem fits_numWidth (n : Int) : Fits (numWidth n.natAbs) n := by
  unfold Fits numWidth
  split
  · rename_i h
    rw [h, signBit_zero]
    decide
  · have hsize : n.natAbs < 2 ^ n.natAbs.size := Nat.lt_size_self _
    have hexp : n.natAbs.size ≤ 7 + 8 * (n.natAbs.size / 8) := by omega
    have hpow : 2 ^ n.natAbs.size ≤ 2 ^ (7 + 8 * (n.natAbs.size / 8)) :=
      Nat.pow_le_pow_right (by decide) hexp
    have heq : 2 ^ (7 + 8 * (n.natAbs.size / 8)) = signBit (n.natAbs.size / 8 + 1) := by
      rw [signBit_succ, Nat.pow_add, Nat.pow_mul]
    omega

theorem numWidth_le_iff (m w : Nat) : numWidth m ≤ w ↔ m < signBit w := by
  unfold numWidth
  split
  · rename_i h
    subst h
    simp [signBit_pos]
  · rename_i hm
    cases w with
    | zero => simp [hm]
    | succ w =>
        have heq : signBit (w + 1) = 2 ^ (7 + 8 * w) := by
          rw [signBit_succ, Nat.pow_add, Nat.pow_mul]
        rw [heq, ← Nat.size_le]
        omega

/-- The minimal representation of a number: the only one a strict interpreter
accepts. -/
def encodeNum (n : Int) : Bytes := signedBytes (numWidth n.natAbs) n

@[simp] theorem encodeNum_zero : encodeNum 0 = [] := rfl

@[simp] theorem decodeNum_encodeNum (n : Int) : decodeNum (encodeNum n) = n :=
  decodeNum_signedBytes (fits_numWidth n)

theorem length_encodeNum (n : Int) : (encodeNum n).length = numWidth n.natAbs :=
  length_signedBytes _ _

theorem encodeNum_inj {m n : Int} (h : encodeNum m = encodeNum n) : m = n := by
  rw [← decodeNum_encodeNum m, h, decodeNum_encodeNum]

/-- A byte string is minimal when re-encoding its number gives it back. -/
def IsMinimal (bs : Bytes) : Prop := encodeNum (decodeNum bs) = bs

instance (bs : Bytes) : Decidable (IsMinimal bs) :=
  inferInstanceAs (Decidable (_ = _))

@[simp] theorem isMinimal_encodeNum (n : Int) : IsMinimal (encodeNum n) := by
  rw [IsMinimal, decodeNum_encodeNum]

/-- The minimal representation is no longer than any other. -/
theorem length_encodeNum_decodeNum_le (bs : Bytes) :
    (encodeNum (decodeNum bs)).length ≤ bs.length := by
  rw [length_encodeNum, numWidth_le_iff]
  exact fits_decodeNum bs

/-- The minimal representation is no longer than any width the number fits. -/
theorem length_encodeNum_le_iff (n : Int) (w : Nat) :
    (encodeNum n).length ≤ w ↔ Fits w n := by
  rw [length_encodeNum, numWidth_le_iff, Fits]

/-! ## Truth values -/

/-- A stack element is true unless it is a zero of either sign. -/
def isTruthy (bs : Bytes) : Bool := decodeNum bs != 0

@[simp] theorem isTruthy_encodeNum (n : Int) : isTruthy (encodeNum n) = (n != 0) := by
  rw [isTruthy, decodeNum_encodeNum]

/-- The canonical truth value: the minimal encoding of `1` or of `0`. -/
def boolBytes (b : Bool) : Bytes := if b then [1] else []

theorem boolBytes_eq_encodeNum (b : Bool) : boolBytes b = encodeNum (if b then 1 else 0) := by
  cases b <;> decide

@[simp] theorem isTruthy_boolBytes (b : Bool) : isTruthy (boolBytes b) = b := by
  cases b <;> decide

theorem decodeNum_boolBytes (b : Bool) : decodeNum (boolBytes b) = if b then 1 else 0 := by
  rw [boolBytes_eq_encodeNum, decodeNum_encodeNum]

@[simp] theorem isMinimal_boolBytes (b : Bool) : IsMinimal (boolBytes b) := by
  rw [boolBytes_eq_encodeNum]
  exact isMinimal_encodeNum _

end Runar.Script
