/-
  Script/Hex.lean --- hexadecimal text of byte strings.

  WHAT THIS FILE IS FOR.  Off-chain code writes bytes as lower-case hexadecimal
  text and numbers in base ten or sixteen.  This file has the texts and the facts
  that tell one from another: the length of the text of some bytes, which
  characters occur in it, and the last digit of a number.  It names no program.
-/
import Runar.Script.ScriptNum

set_option autoImplicit false

namespace Runar.Script

/-- A text, as its characters. -/
abbrev HexText : Type := List Char

/-! ## Numbers as text -/

/-- Fill a text from the left up to a width. -/
def padStart (width : Nat) (fill : Char) (text : HexText) : HexText :=
  List.replicate (width - text.length) fill ++ text

/-- The number in base ten, with its sign. -/
def decimalText (n : Int) : HexText :=
  if n < 0 then '-' :: Nat.toDigits 10 n.natAbs else Nat.toDigits 10 n.natAbs

/-- A number in base sixteen, with two digits at least. -/
def hexNumber (n : Nat) : HexText := padStart 2 '0' (Nat.toDigits 16 n)

/-- The two digits of a number below 256. -/
theorem hexNumber_of_lt {n : Nat} (h : n < 256) :
    hexNumber n = [(n / 16).digitChar, (n % 16).digitChar] := by
  unfold hexNumber padStart
  rcases Nat.lt_or_ge n 16 with hsmall | hlarge
  · rw [Nat.toDigits_of_lt_base hsmall, Nat.div_eq_of_lt hsmall, Nat.mod_eq_of_lt hsmall]
    rfl
  · have hdiv : n / 16 < 16 := by omega
    rw [Nat.toDigits_of_base_le (by omega) hlarge, Nat.toDigits_of_lt_base hdiv]
    rfl

theorem two_le_length_hexNumber (n : Nat) : 2 ≤ (hexNumber n).length := by
  unfold hexNumber padStart
  rw [List.length_append, List.length_replicate]
  omega

/-! ## The text of some bytes -/

/-- The hexadecimal text of a byte string. -/
def toHex (bytes : Bytes) : HexText := bytes.flatMap fun b => hexNumber b.toNat

@[simp] theorem toHex_nil : toHex [] = [] := rfl

@[simp] theorem toHex_cons (b : UInt8) (bytes : Bytes) :
    toHex (b :: bytes) = hexNumber b.toNat ++ toHex bytes := List.flatMap_cons

@[simp] theorem toHex_append (xs ys : Bytes) : toHex (xs ++ ys) = toHex xs ++ toHex ys :=
  List.flatMap_append

theorem length_hexNumber_of_lt {n : Nat} (h : n < 256) : (hexNumber n).length = 2 := by
  rw [hexNumber_of_lt h]
  rfl

@[simp] theorem length_toHex (bytes : Bytes) : (toHex bytes).length = 2 * bytes.length := by
  induction bytes with
  | nil => rfl
  | cons b bytes ih =>
      rw [toHex_cons, List.length_append, length_hexNumber_of_lt b.toNat_lt, ih, List.length_cons]
      omega

/-- The texts of the low bytes of a word. -/
theorem toHex_leBytes_succ (w m : Nat) :
    toHex (leBytes (w + 1) m) = hexNumber (m % 256) ++ toHex (leBytes w (m / 256)) := by
  rw [leBytes_succ, toHex_cons, toNat_toUInt8_mod]

/-- A digit is neither a point nor a sign. -/
theorem digitChar_ne {d : Nat} (h : d < 16) : d.digitChar ≠ '.' ∧ d.digitChar ≠ '-' := by
  have hall : ∀ d : Fin 16, d.val.digitChar ≠ '.' ∧ d.val.digitChar ≠ '-' := by decide
  exact hall ⟨d, h⟩

theorem ne_of_mem_toHex {bytes : Bytes} {c : Char} (h : c ∈ toHex bytes) : c ≠ '.' ∧ c ≠ '-' := by
  obtain ⟨b, _, hc⟩ := List.mem_flatMap.mp h
  have hb : b.toNat < 256 := b.toNat_lt
  rw [hexNumber_of_lt hb, List.mem_cons, List.mem_singleton] at hc
  rcases hc with rfl | rfl
  · exact digitChar_ne (by omega)
  · exact digitChar_ne (by omega)

theorem digitChar_inj {m n : Nat} (hm : m < 16) (hn : n < 16) (h : m.digitChar = n.digitChar) :
    m = n := by
  have hall : ∀ m n : Fin 16, m.val.digitChar = n.val.digitChar → m = n := by decide
  exact congrArg Fin.val (hall ⟨m, hm⟩ ⟨n, hn⟩ h)

/-- Two bytes with one text are the same. -/
theorem hexNumber_inj {m n : Nat} (hm : m < 256) (hn : n < 256) (h : hexNumber m = hexNumber n) :
    m = n := by
  rw [hexNumber_of_lt hm, hexNumber_of_lt hn, List.cons.injEq, List.cons.injEq] at h
  have hhigh := digitChar_inj (by omega) (by omega) h.1
  have hlow := digitChar_inj (by omega) (by omega) h.2.1
  omega

/-! ## The text of an integer -/

theorem decimalText_ne_nil (n : Int) : decimalText n ≠ [] := by
  unfold decimalText
  split
  · exact List.cons_ne_nil _ _
  · exact Nat.toDigits_ne_nil

/-- The last digit. -/
theorem toDigits_ten_concat (n : Nat) : ∃ front, Nat.toDigits 10 n = front ++ [(n % 10).digitChar] := by
  rcases Nat.lt_or_ge n 10 with hsmall | hlarge
  · refine ⟨[], ?_⟩
    rw [Nat.toDigits_of_lt_base hsmall, Nat.mod_eq_of_lt hsmall, List.nil_append]
  · exact ⟨_, Nat.toDigits_of_base_le (by omega) hlarge⟩

theorem toDigits_ten_lt {n k : Nat} (h : (Nat.toDigits 10 n).length ≤ k) : n < 10 ^ k := by
  have hpos : 0 < (Nat.toDigits 10 n).length := Nat.length_toDigits_pos
  exact (Nat.length_toDigits_le_iff (by omega) (by omega)).mp h

end Runar.Script
