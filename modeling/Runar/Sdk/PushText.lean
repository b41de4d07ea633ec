/-
  Sdk/PushText.lean --- what a node reads where an argument was written.

  WHAT THIS FILE IS FOR.  The SDK writes an argument into a script as the text of a
  push.  This file has the reader of pushes, and shows that it reads the bytes the
  argument stands for, whichever of the push formats was chosen.
-/
import Runar.Sdk.Contract
import Runar.StackIR.Syntax
import Mathlib.Tactic.IntervalCases

set_option autoImplicit false

namespace Runar.Sdk

open Script

/-! ## Reading -/

/-- Read bytes, two digits each. -/
def readBytes : Nat → HexText → Option (Bytes × HexText)
  | 0, text => some ([], text)
  | n + 1, high :: low :: text => do
      let h ← hexDigit? high
      let l ← hexDigit? low
      let (bytes, rest) ← readBytes n text
      some ((16 * h + l).toUInt8 :: bytes, rest)
  | _ + 1, _ => none

/-- Read a length of some bytes, and that many bytes. -/
def readSized (width : Nat) (text : HexText) : Option (Bytes × HexText) := do
  let (length, rest) ← readBytes width text
  readBytes (leNat length) rest

/-- Read one push: the bytes it leaves, and the text after it. -/
def readPush (text : HexText) : Option (Bytes × HexText) := do
  let (head, rest) ← readBytes 1 text
  let code := leNat head
  if code ≤ 0x4b then readBytes code rest
  else if code = 0x4c then readSized 1 rest
  else if code = 0x4d then readSized 2 rest
  else if code = 0x4e then readSized 4 rest
  else if code = 0x4f then some ([0x81], rest)
  else if 0x51 ≤ code ∧ code ≤ 0x60 then some ([(code - 0x50).toUInt8], rest)
  else none

/-- A text is the hexadecimal text of some bytes, in digits of either case. -/
def IsHexOf (text : HexText) (bytes : Bytes) : Prop :=
  readBytes bytes.length text = some (bytes, [])

theorem readBytes_append {n : Nat} {text rest more : HexText} {bytes : Bytes}
    (h : readBytes n text = some (bytes, rest)) :
    readBytes n (text ++ more) = some (bytes, rest ++ more) := by
  induction n generalizing text bytes with
  | zero =>
      cases h
      rfl
  | succ n ih =>
      match text, h with
      | high :: low :: text, h =>
          simp only [readBytes, Option.bind_eq_bind, Option.bind_eq_some_iff, Prod.exists] at h
          obtain ⟨a, ha, b, hb, bs, r, hread, hout⟩ := h
          cases hout
          simp only [List.cons_append, readBytes, ha, hb, ih hread, Option.bind_eq_bind,
            Option.bind_some]

theorem hexDigit?_digitChar {d : Nat} (h : d < 16) : hexDigit? d.digitChar = some d := by
  have hall : ∀ d : Fin 16, hexDigit? d.val.digitChar = some d.val := by decide
  exact hall ⟨d, h⟩

theorem readBytes_hexNumber {n k : Nat} (h : k < 256) {text rest : HexText} {bytes : Bytes}
    (hread : readBytes n text = some (bytes, rest)) :
    readBytes (n + 1) (hexNumber k ++ text) = some (k.toUInt8 :: bytes, rest) := by
  have hdigits : 16 * (k / 16) + k % 16 = k := Nat.div_add_mod k 16
  rw [hexNumber_of_lt h]
  simp only [List.cons_append, List.nil_append, readBytes,
    hexDigit?_digitChar (show k / 16 < 16 by omega),
    hexDigit?_digitChar (show k % 16 < 16 by omega), hread, hdigits, Option.bind_eq_bind,
    Option.bind_some]

theorem isHexOf_toHex (bytes : Bytes) : IsHexOf (toHex bytes) bytes := by
  induction bytes with
  | nil => rfl
  | cons b bytes ih =>
      have h := readBytes_hexNumber b.toNat_lt ih
      rw [Nat.toUInt8_eq, UInt8.ofNat_toNat] at h
      rw [IsHexOf, toHex_cons]
      exact h

theorem IsHexOf.length_eq {text : HexText} {bytes : Bytes} (h : IsHexOf text bytes) :
    text.length = 2 * bytes.length := by
  unfold IsHexOf at h
  induction bytes generalizing text with
  | nil =>
      cases h
      rfl
  | cons b bytes ih =>
      match text, h with
      | high :: low :: text, h =>
          simp only [List.length_cons, readBytes, Option.bind_eq_bind, Option.bind_eq_some_iff,
            Prod.exists] at h
          obtain ⟨a, ha, d, hd, bs, r, hread, hout⟩ := h
          cases hout
          have hlen := ih hread
          rw [List.length_cons, List.length_cons, List.length_cons, hlen]
          omega

/-- A byte string followed by anything is read back. -/
theorem IsHexOf.read {text : HexText} {bytes : Bytes} (h : IsHexOf text bytes) (rest : HexText) :
    readBytes bytes.length (text ++ rest) = some (bytes, rest) :=
  readBytes_append h

/-! ## Pushes of data -/

/-- A code byte decides how the push goes on. -/
theorem readPush_hexNumber {k : Nat} (h : k < 256) (rest : HexText) :
    readPush (hexNumber k ++ rest) =
      if k ≤ 0x4b then readBytes k rest
      else if k = 0x4c then readSized 1 rest
      else if k = 0x4d then readSized 2 rest
      else if k = 0x4e then readSized 4 rest
      else if k = 0x4f then some ([0x81], rest)
      else if 0x51 ≤ k ∧ k ≤ 0x60 then some ([(k - 0x50).toUInt8], rest)
      else none := by
  have hhead : readBytes 1 (hexNumber k ++ rest) = some ([k.toUInt8], rest) :=
    readBytes_hexNumber h rfl
  have hcode : leNat [k.toUInt8] = k := by
    rw [leNat_cons, leNat_nil, Nat.toUInt8_eq, UInt8.toNat_ofNat', Nat.mod_eq_of_lt h]
    rfl
  simp only [readPush, hhead, hcode, Option.bind_eq_bind, Option.bind_some]

/-- A length in some bytes, least first, and the data. -/
theorem readSized_leBytes {width : Nat} {text : HexText} {bytes : Bytes}
    (h : IsHexOf text bytes) (hlen : bytes.length < 256 ^ width) (rest : HexText) :
    readSized width (toHex (leBytes width bytes.length) ++ (text ++ rest)) =
      some (bytes, rest) := by
  have hlength := (isHexOf_toHex (leBytes width bytes.length)).read (text ++ rest)
  rw [length_leBytes] at hlength
  have hval : leNat (leBytes width bytes.length) = bytes.length := by
    rw [leNat_leBytes, Nat.mod_eq_of_lt hlen]
  simp only [readSized, hlength, hval, h.read rest, Option.bind_eq_bind, Option.bind_some]

/-- The text of a length that fits a byte. -/
theorem halfText_even (n : Nat) : padStart 2 '0' (halfText (2 * n)) = hexNumber n := by
  have heven : 2 * n % 2 = 0 := Nat.mul_mod_right 2 n
  have hhalf : 2 * n / 2 = n := Nat.mul_div_cancel_left n (by decide)
  rw [halfText, heven, hhalf, if_pos rfl, List.append_nil]
  rfl

/-- A length of some bytes, byte by byte. -/
theorem toHex_leBytes_two (n : Nat) :
    toHex (leBytes 2 n) = hexNumber (n % 256) ++ hexNumber (n / 256 % 256) := by
  rw [toHex_leBytes_succ, toHex_leBytes_succ, leBytes_zero, toHex_nil, List.append_nil]

theorem toHex_leBytes_four (n : Nat) :
    toHex (leBytes 4 n) = hexNumber (n % 256) ++ hexNumber (n / 256 % 256) ++
      hexNumber (n / 65536 % 256) ++ hexNumber (n / 16777216 % 256) := by
  rw [toHex_leBytes_succ, toHex_leBytes_succ, toHex_leBytes_two, Nat.div_div_eq_div_mul,
    Nat.div_div_eq_div_mul]
  simp only [List.append_assoc, Nat.reduceMul]

/-- Every framed push of data is read back. -/
theorem readPush_encodePushDataState {text : HexText} {bytes : Bytes} (h : IsHexOf text bytes)
    (hlen : bytes.length < 2 ^ 32) (rest : HexText) :
    readPush (encodePushDataState text ++ rest) = some (bytes, rest) := by
  have hchars := h.length_eq
  have hhalf : 2 * bytes.length / 2 = bytes.length := Nat.mul_div_cancel_left _ (by decide)
  unfold encodePushDataState
  rw [hchars, hhalf, halfText_even]
  dsimp only
  split
  · rename_i hsmall
    have hcode : bytes.length ≤ 0x4b := by omega
    rw [List.append_assoc, readPush_hexNumber (by omega), if_pos hcode]
    exact h.read rest
  · split
    · rename_i hbyte
      have hcode := readPush_hexNumber (show 0x4c < 256 by decide)
        (toHex (leBytes 1 bytes.length) ++ (text ++ rest))
      have hword : toHex (leBytes 1 bytes.length) = hexNumber bytes.length := by
        rw [toHex_leBytes_succ, leBytes_zero, toHex_nil, List.append_nil,
          Nat.mod_eq_of_lt (by omega)]
      have hsized := @readSized_leBytes 1 text bytes h (by omega) rest
      rw [hsized, hword] at hcode
      rw [List.append_assoc, List.append_assoc]
      exact hcode
    · split
      · rename_i htwo
        have hcode := readPush_hexNumber (show 0x4d < 256 by decide)
          (toHex (leBytes 2 bytes.length) ++ (text ++ rest))
        have hsized := @readSized_leBytes 2 text bytes h (by omega) rest
        rw [hsized, toHex_leBytes_two] at hcode
        simp only [List.append_assoc] at hcode ⊢
        exact hcode
      · have hcode := readPush_hexNumber (show 0x4e < 256 by decide)
          (toHex (leBytes 4 bytes.length) ++ (text ++ rest))
        have hsized := @readSized_leBytes 4 text bytes h (by omega) rest
        rw [hsized, toHex_leBytes_four] at hcode
        simp only [List.append_assoc] at hcode ⊢
        exact hcode

/-- The one-opcode pushes leave the byte they stand for. -/
theorem readPush_minimalPush {byte : Nat} {push : HexText} (h : minimalPush byte = some push)
    (rest : HexText) : readPush (push ++ rest) = some ([byte.toUInt8], rest) := by
  unfold minimalPush at h
  split at h
  · rename_i hrange
    cases h
    have hsub : 0x50 + byte - 0x50 = byte := by omega
    rw [readPush_hexNumber (by omega), if_neg (by omega), if_neg (by omega), if_neg (by omega),
      if_neg (by omega), if_neg (by omega), if_pos (by omega), hsub]
  · split at h
    · rename_i hneg
      cases h
      cases hneg
      exact readPush_hexNumber (show 0x4f < 256 by decide) rest
    · cases h

/-- A push of hexadecimal text leaves its bytes. -/
theorem readPush_encodePushData {text : HexText} {bytes : Bytes} (h : IsHexOf text bytes)
    (hlen : bytes.length < 2 ^ 32) (rest : HexText) :
    readPush (encodePushData text ++ rest) = some (bytes, rest) := by
  have hframed := readPush_encodePushDataState h hlen rest
  match text, h with
  | [], h =>
      have hnil : bytes = [] := by
        have hchars := h.length_eq
        exact List.length_eq_zero_iff.mp (by simpa using hchars.symm)
      rw [hnil]
      exact readPush_hexNumber (show 0 < 256 by decide) rest
  | [high, low], h =>
      obtain ⟨b, rfl⟩ : ∃ b, bytes = [b] := by
        have hchars := h.length_eq
        exact List.length_eq_one_iff.mp (by simp at hchars; omega)
      rw [encodePushData]
      cases hmin : (parseByte high low).bind minimalPush with
      | none => exact hframed
      | some push =>
          obtain ⟨byte, hparse, hpush⟩ := Option.bind_eq_some_iff.mp hmin
          have hbyte : byte.toUInt8 = b := by
            simp only [IsHexOf, List.length_cons, List.length_nil, readBytes,
              Option.bind_eq_bind, Option.bind_eq_some_iff, Prod.exists] at h
            obtain ⟨a, ha, d, hd, bs, r, hread, hout⟩ := h
            cases hread
            cases hout
            rw [parseByte, ha, hd] at hparse
            cases hparse
            rfl
          rw [← hbyte]
          exact readPush_minimalPush hpush rest
  | [_], h =>
      have hchars := h.length_eq
      simp at hchars
      omega
  | _ :: _ :: _ :: _, _ => exact hframed

/-! ## Pushes of numbers -/

theorem magnitudeBytes_eq {fuel n : Nat} (h : n < 256 ^ fuel) :
    magnitudeBytes n = (Runar.magnitudeBytes fuel n).map UInt8.toNat := by
  induction fuel generalizing n with
  | zero =>
      have hzero : n = 0 := by simpa using h
      rw [hzero, magnitudeBytes, if_pos rfl]
      rfl
  | succ fuel ih =>
      rw [magnitudeBytes, Runar.magnitudeBytes]
      by_cases hzero : n = 0
      · rw [if_pos hzero, if_neg (by omega)]
        rfl
      · rw [if_neg hzero, if_pos (by omega), List.map_cons, toNat_toUInt8_mod,
          ih (by rw [Nat.div_lt_iff_lt_mul (by decide), ← Nat.pow_succ]; exact h)]

theorem lt_pow_size (n : Nat) : n < 256 ^ n.size := by
  have htwo : n < 2 ^ n.size := Nat.lt_size_self n
  have hpow : 2 ^ n.size ≤ 256 ^ n.size := Nat.pow_le_pow_left (by decide) _
  omega

/-- The text of bytes given as numbers. -/
theorem flatMap_hexNumber (bytes : Bytes) :
    (bytes.map UInt8.toNat).flatMap hexNumber = toHex bytes := by
  rw [List.flatMap_map]
  rfl

theorem getLastD_map_toNat (bytes : Bytes) :
    (bytes.map UInt8.toNat).getLastD 0 = (bytes.getLastD 0).toNat := by
  rcases List.eq_nil_or_concat bytes with rfl | ⟨front, last, rfl⟩
  · rfl
  · simp

theorem modifyLast_map_toNat {bytes : Bytes} (h : bytes ≠ []) :
    (bytes.map UInt8.toNat).modifyLast (· ||| 0x80) =
      (bytes.dropLast ++ [bytes.getLastD 0 ||| 0x80]).map UInt8.toNat := by
  rcases List.eq_nil_or_concat bytes with rfl | ⟨front, last, rfl⟩
  · exact absurd rfl h
  · rw [List.concat_eq_append, List.map_append, List.map_singleton, List.modifyLast_concat]
    simp

/-- A number above sixteen or below minus one is a push of its minimal bytes. -/
theorem encodeScriptNumber_eq_push {n : Int} (hzero : n ≠ 0) (hsmall : ¬ (1 ≤ n ∧ n ≤ 16))
    (hneg : n ≠ -1) : encodeScriptNumber n = encodePushData (toHex (encodeNum n)) := by
  have hmag := magnitudeBytes_eq (lt_pow_size n.natAbs)
  have hnil : Runar.magnitudeBytes n.natAbs.size n.natAbs ≠ [] := by
    have hsize : n.natAbs.size ≠ 0 := by
      rw [ne_eq, Nat.size_eq_zero]
      omega
    obtain ⟨k, hk⟩ := Nat.exists_eq_succ_of_ne_zero hsize
    rw [hk, Runar.magnitudeBytes, if_pos (by omega)]
    exact List.cons_ne_nil _ _
  rw [encodeScriptNumber, if_neg hzero, if_neg hsmall, if_neg hneg, ← Runar.encodeScriptNumber_eq,
    Runar.encodeScriptNumber, if_neg hzero]
  dsimp only
  rw [hmag, getLastD_map_toNat]
  generalize Runar.magnitudeBytes n.natAbs.size n.natAbs = bytes at hnil ⊢
  by_cases hhigh : 0x80 ≤ (bytes.getLastD 0).toNat
  · rw [if_pos hhigh, if_pos ((and_signBit_ne_zero _).mpr hhigh), ← flatMap_hexNumber]
    congr 2
    rw [List.map_append]
    by_cases hlt : n < 0
    · rw [if_pos hlt, if_pos hlt]
      rfl
    · rw [if_neg hlt, if_neg hlt]
      rfl
  · rw [if_neg hhigh, if_neg (mt (and_signBit_ne_zero _).mp hhigh)]
    by_cases hlt : n < 0
    · rw [if_pos hlt, if_pos hlt, modifyLast_map_toNat hnil, flatMap_hexNumber]
    · rw [if_neg hlt, if_neg hlt, flatMap_hexNumber]

/-- A push of a number leaves its minimal bytes. -/
theorem readPush_encodeScriptNumber {n : Int} (hlen : (encodeNum n).length < 2 ^ 32)
    (rest : HexText) : readPush (encodeScriptNumber n ++ rest) = some (encodeNum n, rest) := by
  by_cases hzero : n = 0
  · rw [hzero]
    exact readPush_hexNumber (show 0 < 256 by decide) rest
  by_cases hsmall : 1 ≤ n ∧ n ≤ 16
  · obtain ⟨k, rfl⟩ := Int.eq_ofNat_of_zero_le (by omega : 0 ≤ n)
    have hk : 1 ≤ k ∧ k ≤ 16 := by omega
    have htext : encodeScriptNumber k = hexNumber (0x50 + k) := by
      rw [encodeScriptNumber, if_neg hzero, if_pos hsmall, Int.toNat_natCast]
      obtain ⟨h1, h2⟩ := hk
      interval_cases k <;> rfl
    have hbytes : encodeNum k = [k.toUInt8] := by
      obtain ⟨h1, h2⟩ := hk
      interval_cases k <;> decide
    have hsub : 0x50 + k - 0x50 = k := by omega
    rw [htext, hbytes, readPush_hexNumber (by omega), if_neg (by omega), if_neg (by omega),
      if_neg (by omega), if_neg (by omega), if_neg (by omega), if_pos (by omega), hsub]
  by_cases hneg : n = -1
  · rw [hneg]
    exact readPush_hexNumber (show 0x4f < 256 by decide) rest
  rw [encodeScriptNumber_eq_push hzero hsmall hneg]
  exact readPush_encodePushData (isHexOf_toHex _) hlen rest

end Runar.Sdk
