/-
  Script/CompactSize.lean --- the length of a transaction field.

  WHAT THIS FILE IS FOR.  A transaction writes the length of a script as a
  CompactSize: one byte below 253, else a marker and two, four or eight bytes,
  least first.  This file states the format, the reader a node has for it, and an
  output as a transaction holds it.

  CANONICITY.  The reader refuses a length that a shorter form could hold, so what
  it accepts is what the writer gives.
-/
import Runar.Script.ScriptNum

set_option autoImplicit false

namespace Runar.Script

/-! ## Writing -/

/-- The CompactSize of a length. -/
def compactSize (len : Nat) : Bytes :=
  if len < 0xfd then leBytes 1 len
  else if len ≤ 0xffff then 0xfd :: leBytes 2 len
  else if len ≤ 0xffffffff then 0xfe :: leBytes 4 len
  else 0xff :: leBytes 8 len

/-- An output: its amount, the length of its script and the script. -/
def txOutput (amount : Nat) (script : Bytes) : Bytes :=
  leBytes 8 amount ++ compactSize script.length ++ script

/-! ## Reading -/

/-- A number of the given width in front of a text. -/
def readWord (width : Nat) (text : Bytes) : Option (Nat × Bytes) :=
  if width ≤ text.length then some (leNat (text.take width), text.drop width) else none

/-- A word that no shorter form could hold. -/
def readCanonical (width least : Nat) (text : Bytes) : Option (Nat × Bytes) :=
  (readWord width text).filter fun r => least ≤ r.1

/-- The length in front of a text. -/
def readCompactSize : Bytes → Option (Nat × Bytes)
  | [] => none
  | marker :: text =>
    if marker = 0xfd then readCanonical 2 0xfd text
    else if marker = 0xfe then readCanonical 4 0x10000 text
    else if marker = 0xff then readCanonical 8 0x100000000 text
    else some (marker.toNat, text)

/-- The output in front of a text. -/
def readTxOutput (text : Bytes) : Option ((Nat × Bytes) × Bytes) := do
  let (amount, text) ← readWord 8 text
  let (len, text) ← readCompactSize text
  if len ≤ text.length then some ((amount, text.take len), text.drop len) else none

/-! ## Round trip -/

theorem readWord_leBytes {width m : Nat} (h : m < 256 ^ width) (tail : Bytes) :
    readWord width (leBytes width m ++ tail) = some (m, tail) := by
  have hlength : (leBytes width m).length = width := length_leBytes width m
  unfold readWord
  rw [if_pos (by rw [List.length_append, hlength]; exact Nat.le_add_right _ _),
    List.take_left' hlength, List.drop_left' hlength, leNat_leBytes, Nat.mod_eq_of_lt h]

theorem readCanonical_leBytes (width : Nat) {least m : Nat} (h : m < 256 ^ width)
    (hleast : least ≤ m) (tail : Bytes) :
    readCanonical width least (leBytes width m ++ tail) = some (m, tail) := by
  unfold readCanonical
  rw [readWord_leBytes h, Option.filter_some, if_pos (decide_eq_true hleast)]

theorem readCompactSize_cons (marker : UInt8) (text : Bytes) :
    readCompactSize (marker :: text) =
      if marker = 0xfd then readCanonical 2 0xfd text
      else if marker = 0xfe then readCanonical 4 0x10000 text
      else if marker = 0xff then readCanonical 8 0x100000000 text
      else some (marker.toNat, text) := rfl

/-- A short length is no marker. -/
theorem readCompactSize_short {len : Nat} (h : len < 0xfd) (tail : Bytes) :
    readCompactSize (leBytes 1 len ++ tail) = some (len, tail) := by
  have htoNat : (len % 256).toUInt8.toNat = len := by
    rw [toNat_toUInt8_mod, Nat.mod_eq_of_lt (by omega)]
  have hmarker : ∀ marker : UInt8, 0xfd ≤ marker.toNat → (len % 256).toUInt8 ≠ marker := by
    rintro marker hle rfl
    omega
  show readCompactSize ((len % 256).toUInt8 :: tail) = _
  rw [readCompactSize_cons, if_neg (hmarker 0xfd (by decide)), if_neg (hmarker 0xfe (by decide)),
    if_neg (hmarker 0xff (by decide)), htoNat]

/-- Whatever follows it, a length is read back. -/
theorem readCompactSize_compactSize {len : Nat} (h : len < 2 ^ 64) (tail : Bytes) :
    readCompactSize (compactSize len ++ tail) = some (len, tail) := by
  unfold compactSize
  by_cases h₁ : len < 0xfd
  · rw [if_pos h₁]
    exact readCompactSize_short h₁ tail
  · rw [if_neg h₁]
    by_cases h₂ : len ≤ 0xffff
    · rw [if_pos h₂, List.cons_append, readCompactSize_cons, if_pos rfl]
      exact readCanonical_leBytes 2 (by omega) (by omega) tail
    · rw [if_neg h₂]
      by_cases h₄ : len ≤ 0xffffffff
      · rw [if_pos h₄, List.cons_append, readCompactSize_cons, if_neg (by decide), if_pos rfl]
        exact readCanonical_leBytes 4 (by omega) (by omega) tail
      · rw [if_neg h₄, List.cons_append, readCompactSize_cons, if_neg (by decide),
          if_neg (by decide), if_pos rfl]
        exact readCanonical_leBytes 8 (by omega) (by omega) tail

/-- A node reads an output as it was written. -/
theorem readTxOutput_txOutput {amount : Nat} (hamount : amount < 2 ^ 64) {script : Bytes}
    (hscript : script.length < 2 ^ 64) (tail : Bytes) :
    readTxOutput (txOutput amount script ++ tail) = some ((amount, script), tail) := by
  unfold readTxOutput txOutput
  rw [List.append_assoc, List.append_assoc, readWord_leBytes (by omega), Option.bind_eq_bind,
    Option.bind_some]
  dsimp only
  rw [readCompactSize_compactSize hscript, Option.bind_some]
  dsimp only
  have hlength := @List.length_append _ script tail
  rw [if_pos (by omega), List.take_left, List.drop_left]

end Runar.Script
