/-
  Crypto/Der.lean --- strictly encoded signatures.

  WHAT THIS FILE IS FOR.  A node refuses a signature that is not in its one strict
  encoding: tags and lengths in place, nothing left over, and each integer in as few
  bytes as its sign allows.  This file has the reader with all its refusals, the
  writer, and the round trip.  The shortest positive integer, most significant byte
  first, is a minimal script number reversed.  The file names no program.
-/
import Runar.Script.ScriptNum

set_option autoImplicit false

namespace Runar.Crypto

open Script

/-! ## Integers -/

/-- The unsigned value of a byte string, most significant byte first. -/
def beNat (bytes : Bytes) : Nat := leNat bytes.reverse

/-- A positive integer in as few bytes as possible: the top bit is clear, and a leading
zero is there only to keep it clear. -/
def isMinimalPositive : Bytes → Bool
  | [] => false
  | [b] => b < 0x80
  | b :: c :: _ => b < 0x80 && !(b == 0 && c < 0x80)

/-- The content of a positive integer. -/
def integerContent (n : Nat) : Bytes := (encodeNum n).reverse

theorem length_integerContent (n : Nat) : (integerContent n).length = numWidth n := by
  rw [integerContent, List.length_reverse, length_encodeNum, Int.natAbs_natCast]

/-- A minimal script number of a natural number is its plain little-endian word. -/
theorem encodeNum_natCast (n : Nat) : encodeNum n = leBytes (numWidth n) n := by
  rw [encodeNum, signedBytes, Int.natAbs_natCast, signed_natCast]

theorem lt_pow_numWidth (n : Nat) : n < 256 ^ numWidth n := by
  have hlt : n < signBit (numWidth n) := (numWidth_le_iff n _).mp le_rfl
  cases hw : numWidth n with
  | zero =>
      rw [hw, signBit_zero] at hlt
      exact hlt
  | succ w =>
      rw [hw] at hlt
      have htwo := two_mul_signBit w
      omega

theorem beNat_integerContent (n : Nat) : beNat (integerContent n) = n := by
  rw [beNat, integerContent, List.reverse_reverse, encodeNum_natCast, leNat_leBytes,
    Nat.mod_eq_of_lt (lt_pow_numWidth n)]

theorem toUInt8_lt_signBit {t : Nat} (h : t < 128) : t.toUInt8 < 0x80 := by
  rw [UInt8.lt_iff_toNat_lt, Nat.toUInt8_eq, UInt8.toNat_ofNat', Nat.mod_eq_of_lt (by omega)]
  exact h

/-- The content of a positive integer is minimal. -/
theorem isMinimalPositive_integerContent {n : Nat} (hn : 0 < n) :
    isMinimalPositive (integerContent n) = true := by
  obtain ⟨w, hw⟩ : ∃ w, numWidth n = w + 1 := by
    refine Nat.exists_eq_succ_of_ne_zero fun h => ?_
    have hlt := lt_pow_numWidth n
    rw [h, pow_zero] at hlt
    omega
  have hlt : n < 128 * 256 ^ w := by
    rw [← signBit_succ, ← numWidth_le_iff, hw]
  have htop : n / 256 ^ w < 128 := by
    rwa [Nat.div_lt_iff_lt_mul (by positivity)]
  have hcontent : integerContent n =
      (n / 256 ^ w % 256).toUInt8 :: (leBytes w n).reverse := by
    rw [integerContent, encodeNum_natCast, hw, leBytes_concat, List.reverse_append]
    rfl
  rw [hcontent, Nat.mod_eq_of_lt (by omega)]
  have hclear := toUInt8_lt_signBit htop
  cases w with
  | zero => simpa [isMinimalPositive] using hclear
  | succ v =>
      rw [leBytes_concat, List.reverse_append]
      simp only [List.reverse_cons, List.reverse_nil, List.nil_append, List.cons_append,
        isMinimalPositive, Bool.and_eq_true, decide_eq_true_eq, Bool.not_eq_true',
        Bool.and_eq_false_iff, beq_eq_false_iff_ne, decide_eq_false_iff_not]
      refine ⟨hclear, ?_⟩
      -- a leading zero is needed: without it the next byte would carry the sign
      by_cases hzero : n / 256 ^ (v + 1) = 0
      · right
        have hsmall : n < 256 ^ (v + 1) := by
          rwa [Nat.div_eq_zero_iff_lt (by positivity)] at hzero
        have hlarge : 128 * 256 ^ v ≤ n := by
          rw [← signBit_succ, ← Nat.not_lt, ← numWidth_le_iff, hw]
          omega
        have hnext : n / 256 ^ v < 256 := by
          rw [Nat.div_lt_iff_lt_mul (by positivity), ← Nat.pow_succ']
          exact hsmall
        have hhigh : 128 ≤ n / 256 ^ v := by
          rwa [Nat.le_div_iff_mul_le (by positivity)]
        rw [Nat.mod_eq_of_lt hnext, UInt8.lt_iff_toNat_lt, Nat.toUInt8_eq, UInt8.toNat_ofNat',
          Nat.mod_eq_of_lt hnext]
        exact Nat.not_lt.mpr hhigh
      · left
        intro h
        have hval := congrArg UInt8.toNat h
        rw [Nat.toUInt8_eq, UInt8.toNat_ofNat', Nat.mod_eq_of_lt (by omega)] at hval
        exact hzero hval

/-! ## Signatures -/

/-- An integer with its tag and length. -/
def derInteger (content : Bytes) : Bytes := 0x02 :: content.length.toUInt8 :: content

/-- A signature: two integers in a sequence. -/
def derSignature (r s : Bytes) : Bytes :=
  0x30 :: (derInteger r ++ derInteger s).length.toUInt8 :: (derInteger r ++ derInteger s)

/-- Read an integer and what follows it. -/
def readInteger : Bytes → Option (Bytes × Bytes)
  | tag :: len :: rest =>
      if tag = 0x02 ∧ len.toNat ≤ rest.length ∧ isMinimalPositive (rest.take len.toNat) then
        some (rest.take len.toNat, rest.drop len.toNat)
      else none
  | _ => none

/-- Read a signature, in its strict encoding of at most 72 bytes. -/
def readSignature : Bytes → Option (Nat × Nat)
  | tag :: len :: body =>
      if tag = 0x30 ∧ len.toNat = body.length ∧ body.length ≤ 70 then
        match readInteger body with
        | some (r, rest) =>
            match readInteger rest with
            | some (s, []) => some (beNat r, beNat s)
            | _ => none
        | none => none
      else none
  | _ => none

theorem toNat_toUInt8_of_lt {n : Nat} (h : n < 256) : n.toUInt8.toNat = n := by
  rw [Nat.toUInt8_eq, UInt8.toNat_ofNat', Nat.mod_eq_of_lt h]

theorem readInteger_derInteger {content : Bytes} (hmin : isMinimalPositive content = true)
    (hlen : content.length < 256) (rest : Bytes) :
    readInteger (derInteger content ++ rest) = some (content, rest) := by
  have hlength : content.length.toUInt8.toNat = content.length := toNat_toUInt8_of_lt hlen
  have htake : (content ++ rest).take content.length = content := List.take_left
  have hdrop : (content ++ rest).drop content.length = rest := List.drop_left
  simp only [derInteger, List.cons_append, readInteger, hlength, htake, hdrop, hmin,
    List.length_append, Nat.le_add_right, and_self, if_true]

/-- The writer is read back. -/
theorem readSignature_derSignature {r s : Bytes} (hr : isMinimalPositive r = true)
    (hs : isMinimalPositive s = true) (hlen : r.length + s.length ≤ 66) :
    readSignature (derSignature r s) = some (beNat r, beNat s) := by
  have hbody : (derInteger r ++ derInteger s).length = r.length + s.length + 4 := by
    simp only [derInteger, List.length_append, List.length_cons]
    omega
  have hlength : (derInteger r ++ derInteger s).length.toUInt8.toNat =
      (derInteger r ++ derInteger s).length := toNat_toUInt8_of_lt (by omega)
  have hfits : (derInteger r ++ derInteger s).length ≤ 70 := by omega
  have hreadR := readInteger_derInteger hr (by omega) (derInteger s)
  have hreadS : readInteger (derInteger s) = some (s, []) := by
    have h := readInteger_derInteger hs (by omega) []
    rwa [List.append_nil] at h
  simp only [derSignature, readSignature, hlength, hfits, and_self, if_true, hreadR, hreadS]

end Runar.Crypto
