/-
  Interpreter/ScriptNumberUtils.lean --- the script numbers of the test machine.

  WHAT THIS FILE IS FOR.  The package that runs scripts in tests has its own encoder and decoder
  of script numbers, its own versions of the bitwise and shift opcodes, on the bytes of the stack
  and on numbers, and its own hexadecimal texts.  This file has them as they are written, with
  shifts and masks, and compares each with the machine.

  WHERE A SHIFT PARTS.  The count of a shift is made a double.  A count that no double is near is
  an error, and one that is rounded shifts by another amount: that shows only where the smaller of
  the two leaves a bit.
-/
import Mathlib.Data.Nat.Bitwise
import Mathlib.Data.Nat.ModEq
import Mathlib.Data.Nat.Prime.Basic
import Runar.Logic.DoubleText
import Runar.Script.Hex
import Runar.StackIR.Syntax

set_option autoImplicit false

namespace Runar.Vm

open Script
open Logic (nearestDouble roundNat)

/-! ## The codec -/

/-- The loop and the sign byte are those of the compiler's encoder. -/
def encodeScriptNumber (n : Int) : Bytes := Runar.encodeScriptNumber n

/-- The bytes as one unsigned number, the first one lowest. -/
def orBytes (bytes : Bytes) : Nat :=
  bytes.zipIdx.foldl (fun result byte => result ||| byte.1.toNat <<< (8 * byte.2)) 0

def decodeScriptNumber (bytes : Bytes) : Int :=
  match bytes.getLast? with
  | none => 0
  | some lastByte =>
      let result := orBytes bytes
      if lastByte &&& 0x80 ≠ 0 then
        -(Nat.ldiff result (0x80 <<< (8 * (bytes.length - 1))) : Int)
      else result

/-! ## Bitwise and shift operators -/

inductive BitwiseOp where
  | and
  | or
  | xor
  deriving DecidableEq, Repr

namespace BitwiseOp

def name : BitwiseOp → String
  | and => "OP_AND"
  | or => "OP_OR"
  | xor => "OP_XOR"

def apply : BitwiseOp → UInt8 → UInt8 → UInt8
  | and => (· &&& ·)
  | or => (· ||| ·)
  | xor => (· ^^^ ·)

end BitwiseOp

inductive ShiftOp where
  | lshift
  | rshift
  deriving DecidableEq, Repr

namespace ShiftOp

def name : ShiftOp → String
  | lshift => "OP_LSHIFT"
  | rshift => "OP_RSHIFT"

/-- The shift of the machine, on unbounded numbers. -/
def onNat : ShiftOp → Nat → Nat → Nat
  | lshift => fun v k => v * 2 ^ k
  | rshift => fun v k => v / 2 ^ k

end ShiftOp

def scriptNumberBitwiseBytes (op : BitwiseOp) (av bv : Bytes) : Except String Bytes :=
  if av.length ≠ bv.length then .error (op.name ++ ": operands must be same length")
  else .ok (List.zipWith op.apply av bv)

def scriptNumberInvertBytes (av : Bytes) : Bytes := av.map (~~~ ·)

/-- The bytes as one unsigned number, the first one highest. -/
def bigEndian (val : Bytes) : Nat := val.foldl (fun num byte => num <<< 8 ||| byte.toNat) 0

def scriptNumberShiftBytes (op : ShiftOp) (val : Bytes) (shift : Int) : Except String Bytes :=
  if shift < 0 then .error (op.name ++ ": negative shift")
  else
    match nearestDouble shift with
    | .negZero => .ok val
    | .integer n _ =>
        if val.length = 0 ∨ n = 0 then .ok val
        else
          let num := bigEndian val
          let num :=
            match op with
            | .lshift => num <<< n.toNat &&& (1 <<< (val.length * 8) - 1)
            | .rshift => num >>> n.toNat
          -- filled from the last byte down
          .ok (leBytes val.length num).reverse
    | .nonFinite =>
        if val.length = 0 then .ok val
        else
          .error ("The number Infinity cannot be converted to a BigInt because it is not an " ++
            "integer")

def scriptNumberBitwise (op : BitwiseOp) (a b : Int) : Except String Int :=
  (scriptNumberBitwiseBytes op (encodeScriptNumber a) (encodeScriptNumber b)).map
    decodeScriptNumber

def scriptNumberInvert (a : Int) : Int :=
  decodeScriptNumber (scriptNumberInvertBytes (encodeScriptNumber a))

def scriptNumberShift (op : ShiftOp) (a shift : Int) : Except String Int :=
  (scriptNumberShiftBytes op (encodeScriptNumber a) shift).map decodeScriptNumber

/-! ## Truth values and texts -/

/-- The loop of `isTruthy`, from the first byte on. -/
def isTruthy : Bytes → Bool
  | [] => false
  | byte :: rest =>
      if byte ≠ 0 then !(rest.isEmpty && byte == 0x80)
      else isTruthy rest

def hexChars : List Char :=
  ['0', '1', '2', '3', '4', '5', '6', '7', '8', '9', 'a', 'b', 'c', 'd', 'e', 'f']

def bytesToHex (bytes : Bytes) : HexText :=
  bytes.flatMap fun b => [hexChars.getD (b.toNat >>> 4) ' ', hexChars.getD (b.toNat &&& 0x0f) ' ']

def hexVal (digit : Char) : Except String Nat :=
  let charCode := digit.toNat
  if 48 ≤ charCode ∧ charCode ≤ 57 then .ok (charCode - 48)
  else if 97 ≤ charCode ∧ charCode ≤ 102 then .ok (charCode - 87)
  else if 65 ≤ charCode ∧ charCode ≤ 70 then .ok (charCode - 55)
  else .error ("Invalid hex character: " ++ String.singleton digit)

/-- The loop of `hexToBytes`, over pairs of digits. -/
def hexPairs : HexText → Except String Bytes
  | high :: low :: rest => do
      let hi ← hexVal high
      let lo ← hexVal low
      let bytes ← hexPairs rest
      .ok ((hi <<< 4 ||| lo).toUInt8 :: bytes)
  | _ => .ok []

def hexToBytes (hex : HexText) : Except String Bytes :=
  if hex.length % 2 ≠ 0 then
    .error ("Invalid hex string: odd length (" ++ toString hex.length ++ ")")
  else hexPairs hex

/-! ## The codec is the machine's -/

theorem encodeScriptNumber_eq_encodeNum (n : Int) : encodeScriptNumber n = encodeNum n :=
  Runar.encodeScriptNumber_eq n

theorem orBytes_concat (bytes : Bytes) (byte : UInt8) :
    orBytes (bytes ++ [byte]) = orBytes bytes ||| byte.toNat <<< (8 * bytes.length) := by
  rw [orBytes, List.zipIdx_append, List.foldl_append, Nat.zero_add]
  rfl

theorem orBytes_eq (bytes : Bytes) : orBytes bytes = leNat bytes := by
  induction bytes using List.reverseRecOn with
  | nil => rfl
  | append_singleton bytes byte ih =>
    have hlow : leNat bytes < 2 ^ (8 * bytes.length) := by
      rw [Nat.pow_mul]
      exact leNat_lt bytes
    have hpow : (256 : Nat) ^ bytes.length = 2 ^ (8 * bytes.length) := by rw [Nat.pow_mul]
    rw [orBytes_concat, ih, Nat.lor_comm, ← Nat.shiftLeft_add_eq_or_of_lt hlow, leNat_append,
      Nat.shiftLeft_eq, hpow, leNat_cons, leNat_nil, Nat.mul_zero, Nat.add_zero, Nat.mul_comm,
      Nat.add_comm]

/-- Clearing the bit in front of a number takes the bit off. -/
theorem ldiff_two_pow {x k : Nat} (h : x < 2 ^ k) : Nat.ldiff (x + 2 ^ k) (2 ^ k) = x := by
  refine Nat.eq_of_testBit_eq fun i => ?_
  rw [Nat.testBit_ldiff, Nat.testBit_two_pow]
  rcases Nat.lt_trichotomy i k with hlt | rfl | hgt
  · rw [Nat.add_comm, Nat.testBit_two_pow_add_gt hlt]
    simp [Nat.ne_of_gt hlt]
  · simp [Nat.testBit_lt_two_pow h]
  · have hle : 2 ^ (k + 1) ≤ 2 ^ i := Nat.pow_le_pow_right (by decide) hgt
    rw [Nat.testBit_lt_two_pow (by omega), Nat.testBit_lt_two_pow (by omega)]
    rfl

/-- The decoder reads a byte string as the machine does. -/
theorem decodeScriptNumber_eq_decodeNum (bytes : Bytes) :
    decodeScriptNumber bytes = decodeNum bytes := by
  rcases List.eq_nil_or_concat bytes with rfl | ⟨front, last, rfl⟩
  · rfl
  rw [List.concat_eq_append]
  have hlen : (front ++ [last]).length = front.length + 1 := List.length_append
  have hvalue : leNat (front ++ [last]) = leNat front + 256 ^ front.length * last.toNat := by
    rw [leNat_append, leNat_cons, leNat_nil, Nat.mul_zero, Nat.add_zero]
  have hfront := leNat_lt front
  have hpos : 0 < 256 ^ front.length := Nat.pow_pos (by decide)
  have hsign : signBit (front.length + 1) = 2 ^ (8 * front.length + 7) := by
    rw [signBit_succ, Nat.pow_add, Nat.pow_mul, Nat.mul_comm]
  have hmask : 0x80 <<< (8 * front.length) = signBit (front.length + 1) := by
    rw [Nat.shiftLeft_eq, signBit_succ, Nat.pow_mul]
  have hlast : last.toNat < 256 := last.toNat_lt
  rw [decodeScriptNumber, List.getLast?_concat, decodeNum_of_length hlen, orBytes_eq, hlen,
    Nat.add_sub_cancel, hmask]
  simp only [and_signBit_ne_zero]
  by_cases hhigh : 128 ≤ last.toNat
  · obtain ⟨low, hlow⟩ := Nat.exists_eq_add_of_le hhigh
    have hrest : leNat (front ++ [last]) =
        (leNat front + 256 ^ front.length * low) + signBit (front.length + 1) := by
      rw [hvalue, hlow, signBit_succ]
      ring
    have hlt : leNat front + 256 ^ front.length * low < 2 ^ (8 * front.length + 7) := by
      have hmul : 256 ^ front.length * (low + 1) ≤ 256 ^ front.length * 128 :=
        Nat.mul_le_mul_left _ (by omega)
      rw [Nat.mul_succ] at hmul
      rw [← hsign, signBit_succ]
      omega
    rw [if_pos hhigh, if_neg (by omega), hrest, Nat.add_sub_cancel, hsign, ldiff_two_pow hlt]
  · have hmul : 256 ^ front.length * (last.toNat + 1) ≤ 256 ^ front.length * 128 :=
      Nat.mul_le_mul_left _ (by omega)
    rw [Nat.mul_succ] at hmul
    rw [if_neg hhigh, if_pos (by rw [hvalue, signBit_succ]; omega)]

/-- What is decoded and encoded again is the shortest form of the same number. -/
theorem encodeScriptNumber_decodeScriptNumber (bytes : Bytes) :
    encodeScriptNumber (decodeScriptNumber bytes) = encodeNum (decodeNum bytes) := by
  rw [decodeScriptNumber_eq_decodeNum, encodeScriptNumber_eq_encodeNum]

/-! ## The operators are the machine's -/

theorem scriptNumberBitwiseBytes_toOption (op : BitwiseOp) (av bv : Bytes) :
    (scriptNumberBitwiseBytes op av bv).toOption = (bitwise op.apply av bv).toOption := by
  rw [scriptNumberBitwiseBytes, bitwise]
  by_cases hlen : av.length = bv.length
  · rw [if_neg (not_not_intro hlen), if_pos hlen]
    rfl
  · rw [if_pos hlen, if_neg hlen]
    rfl

theorem bigEndian_concat (val : Bytes) (byte : UInt8) :
    bigEndian (val ++ [byte]) = bigEndian val <<< 8 ||| byte.toNat := by
  rw [bigEndian, List.foldl_append]
  rfl

theorem bigEndian_eq (val : Bytes) : bigEndian val = leNat val.reverse := by
  induction val using List.reverseRecOn with
  | nil => rfl
  | append_singleton val byte ih =>
    rw [bigEndian_concat, ih, List.reverse_append, List.reverse_singleton, List.singleton_append,
      leNat_cons, ← Nat.shiftLeft_add_eq_or_of_lt (i := 8) byte.toNat_lt, Nat.shiftLeft_eq]
    omega

theorem leBytes_mod (w m : Nat) : leBytes w (m % 256 ^ w) = leBytes w m := by
  have hsplit : m % 256 ^ w + m / 256 ^ w * 256 ^ w = m := by
    rw [Nat.mul_comm]
    exact Nat.mod_add_div m _
  rw [← leBytes_add_mul_pow w (m % 256 ^ w) (m / 256 ^ w), hsplit]

/-- The mask of a left shift takes what the width takes. -/
theorem leBytes_mask (w m : Nat) : leBytes w (m &&& (1 <<< (w * 8) - 1)) = leBytes w m := by
  have hpow : 1 <<< (w * 8) = 2 ^ (w * 8) := by rw [Nat.shiftLeft_eq, Nat.one_mul]
  have hbytes : 2 ^ (w * 8) = 256 ^ w := by rw [Nat.mul_comm, Nat.pow_mul]
  rw [hpow, Nat.and_two_pow_sub_one_eq_mod, hbytes, leBytes_mod]

/-- The double of a count that is not negative. -/
theorem nearestDouble_of_nonneg {n : Int} (h : 0 ≤ n) :
    (∃ hdouble, nearestDouble n = .integer (roundNat n.toNat : Int) hdouble) ∧
        roundNat n.toNat < 2 ^ 1024 ∨
      nearestDouble n = .nonFinite ∧ ¬ roundNat n.toNat < 2 ^ 1024 := by
  have habs : n.natAbs = n.toNat := by omega
  have hsign : decide (n < 0) = false := decide_eq_false (by omega)
  rw [nearestDouble, hsign, habs]
  by_cases hfinite : roundNat n.toNat < 2 ^ 1024
  · have hdouble : Logic.IsDouble (roundNat n.toNat : Int).natAbs := by
      rw [Int.natAbs_natCast]
      exact ⟨Logic.roundNat_roundNat _, hfinite⟩
    have hvalue := Logic.toDouble_of_lt false (by simp) (by simp) hdouble hfinite
    exact Or.inl ⟨⟨hdouble, hvalue⟩, hfinite⟩
  · refine Or.inr ⟨?_, hfinite⟩
    rw [Logic.toDouble, if_neg (by simp), dif_neg hfinite]

theorem onNat_zero (op : ShiftOp) (v : Nat) : op.onNat v 0 = v := by
  cases op
  · exact Nat.mul_one v
  · exact Nat.div_one v

/-- A count that some double is near shifts by that double. -/
theorem scriptNumberShiftBytes_of_finite (op : ShiftOp) (val : Bytes) {shift : Int}
    (hnonneg : 0 ≤ shift) (hfinite : roundNat shift.toNat < 2 ^ 1024) :
    scriptNumberShiftBytes op val shift =
      .ok (leBytes val.length (op.onNat (leNat val.reverse) (roundNat shift.toNat))).reverse := by
  rw [scriptNumberShiftBytes, if_neg (by omega)]
  rcases nearestDouble_of_nonneg hnonneg with ⟨⟨hdouble, heq⟩, -⟩ | ⟨-, hinfinite⟩
  · rw [heq]
    dsimp only
    rw [Int.toNat_natCast, bigEndian_eq]
    split
    · rename_i hkept
      rcases hkept with hempty | hzero
      · rw [List.length_eq_zero_iff] at hempty
        subst hempty
        rfl
      · rw [Int.natCast_eq_zero] at hzero
        have hlen : val.reverse.length = val.length := List.length_reverse
        rw [hzero, onNat_zero, ← hlen, leBytes_leNat, List.reverse_reverse]
    · cases op
      · dsimp only
        rw [leBytes_mask, Nat.shiftLeft_eq]
        rfl
      · dsimp only
        rw [Nat.shiftRight_eq_div_pow]
        rfl
  · exact absurd hfinite hinfinite

theorem scriptNumberShiftBytes_of_infinite (op : ShiftOp) {val : Bytes} (hval : val ≠ [])
    {shift : Int} (hnonneg : 0 ≤ shift) (hinfinite : ¬ roundNat shift.toNat < 2 ^ 1024) :
    (scriptNumberShiftBytes op val shift).toOption = none := by
  rw [scriptNumberShiftBytes, if_neg (by omega)]
  rcases nearestDouble_of_nonneg hnonneg with ⟨-, hfinite⟩ | ⟨heq, -⟩
  · exact absurd hfinite hinfinite
  · rw [heq]
    dsimp only
    rw [if_neg (fun hlen => hval (List.length_eq_zero_iff.mp hlen))]
    rfl

/-- Two different shifts leave the same bits only where they leave none. -/
theorem onNat_mod_eq_iff (op : ShiftOp) {v w r s : Nat} (hv : v < 2 ^ w) (h : r < s) :
    op.onNat v r % 2 ^ w = op.onNat v s % 2 ^ w ↔ op.onNat v r % 2 ^ w = 0 := by
  obtain ⟨k, rfl⟩ := Nat.exists_eq_add_of_lt h
  have hpow : (2 : Nat) ^ (r + k + 1) = 2 ^ r * 2 ^ (k + 1) := by rw [← Nat.pow_add]; rfl
  cases op with
  | lshift =>
    show v * 2 ^ r % 2 ^ w = v * 2 ^ (r + k + 1) % 2 ^ w ↔ v * 2 ^ r % 2 ^ w = 0
    rw [hpow, ← Nat.mul_assoc]
    constructor
    · intro heq
      -- the difference is an odd multiple
      have hodd : Nat.Coprime (2 ^ w) (2 ^ (k + 1) - 1) := by
        refine Nat.Coprime.pow_left w ?_
        rw [Nat.coprime_two_left, Nat.odd_iff, Nat.pow_succ]
        have hpos : 0 < 2 ^ k := Nat.two_pow_pos k
        omega
      have hdvd : 2 ^ w ∣ v * 2 ^ r * (2 ^ (k + 1) - 1) := by
        rw [Nat.mul_sub, Nat.mul_one]
        exact (Nat.modEq_iff_dvd' (Nat.le_mul_of_pos_right _ (Nat.two_pow_pos _))).mp heq
      exact Nat.mod_eq_zero_of_dvd (hodd.dvd_of_dvd_mul_right hdvd)
    · intro hzero
      have hdvd : 2 ^ w ∣ v * 2 ^ r * 2 ^ (k + 1) :=
        Nat.dvd_mul_right_of_dvd (Nat.dvd_of_mod_eq_zero hzero) _
      rw [hzero, Nat.mod_eq_zero_of_dvd hdvd]
  | rshift =>
    show v / 2 ^ r % 2 ^ w = v / 2 ^ (r + k + 1) % 2 ^ w ↔ v / 2 ^ r % 2 ^ w = 0
    have hlt (i : Nat) : v / 2 ^ i < 2 ^ w := Nat.lt_of_le_of_lt (Nat.div_le_self v _) hv
    rw [Nat.mod_eq_of_lt (hlt r), Nat.mod_eq_of_lt (hlt _), hpow, ← Nat.div_div_eq_div_mul]
    constructor
    · intro heq
      by_contra hne
      have hless : v / 2 ^ r / 2 ^ (k + 1) < v / 2 ^ r := by
        refine Nat.div_lt_self (Nat.pos_of_ne_zero hne) ?_
        have hpos : 0 < 2 ^ k := Nat.two_pow_pos k
        rw [Nat.pow_succ]
        omega
      omega
    · intro hzero
      rw [hzero, Nat.zero_div]

/-- The counts by which a byte string is shifted as the machine shifts it: those that are refused,
and those that a double is near that shifts by the same amount or, as the count does, leaves no
bit. -/
def ShiftExact (op : ShiftOp) (val : Bytes) (shift : Int) : Prop :=
  shift < 0 ∨ val = [] ∨
    roundNat shift.toNat < 2 ^ 1024 ∧
      (roundNat shift.toNat = shift.toNat ∨
        op.onNat (leNat val.reverse) (min (roundNat shift.toNat) shift.toNat) %
          2 ^ (8 * val.length) = 0)

theorem leBytes_eq_iff (w m n : Nat) : leBytes w m = leBytes w n ↔ m % 256 ^ w = n % 256 ^ w := by
  have hpos : 0 < 256 ^ w := Nat.pow_pos (by decide)
  rw [← leBytes_mod w m, ← leBytes_mod w n]
  exact ⟨leBytes_inj (Nat.mod_lt m hpos) (Nat.mod_lt n hpos), congrArg (leBytes w)⟩

/-- The same bits are left by a count and by its double. -/
theorem leBytes_onNat_eq_iff (op : ShiftOp) (val : Bytes) (r s : Nat) :
    leBytes val.length (op.onNat (leNat val.reverse) r) =
        leBytes val.length (op.onNat (leNat val.reverse) s) ↔
      r = s ∨ op.onNat (leNat val.reverse) (min r s) % 2 ^ (8 * val.length) = 0 := by
  have hbytes : (256 : Nat) ^ val.length = 2 ^ (8 * val.length) := by rw [Nat.pow_mul]
  have hv : leNat val.reverse < 2 ^ (8 * val.length) := by
    rw [← hbytes, ← List.length_reverse]
    exact leNat_lt _
  rw [leBytes_eq_iff, hbytes]
  rcases Nat.lt_trichotomy r s with hlt | rfl | hgt
  · rw [onNat_mod_eq_iff op hv hlt, Nat.min_eq_left (Nat.le_of_lt hlt)]
    simp [Nat.ne_of_lt hlt]
  · simp
  · rw [eq_comm, onNat_mod_eq_iff op hv hgt, Nat.min_eq_right (Nat.le_of_lt hgt)]
    simp [Nat.ne_of_gt hgt]

/-- A reading of the shifted bytes is the machine's where the count is refused, where there is
nothing to shift, and where some double shifts to bytes that are read alike. -/
theorem map_scriptNumberShiftBytes_iff {α : Type} (f : Bytes → α) (op : ShiftOp) (val : Bytes)
    (shift : Int) :
    (scriptNumberShiftBytes op val shift).toOption.map f =
        (shiftBytes op.onNat val shift).toOption.map f ↔
      shift < 0 ∨ val = [] ∨
        roundNat shift.toNat < 2 ^ 1024 ∧
          f (leBytes val.length (op.onNat (leNat val.reverse) (roundNat shift.toNat))).reverse =
            f (leBytes val.length (op.onNat (leNat val.reverse) shift.toNat)).reverse := by
  by_cases hneg : shift < 0
  · rw [scriptNumberShiftBytes, shiftBytes, if_pos hneg, if_pos hneg]
    exact iff_of_true rfl (Or.inl hneg)
  have hnonneg : 0 ≤ shift := by omega
  by_cases hfinite : roundNat shift.toNat < 2 ^ 1024
  · rw [scriptNumberShiftBytes_of_finite op val hnonneg hfinite, shiftBytes, if_neg hneg]
    show some _ = some _ ↔ _
    rw [Option.some.injEq]
    constructor
    · intro hsame
      exact Or.inr (Or.inr ⟨hfinite, hsame⟩)
    · rintro (hlt | rfl | ⟨-, hsame⟩)
      · exact absurd hlt hneg
      · rfl
      · exact hsame
  · by_cases hval : val = []
    · subst hval
      refine iff_of_true ?_ (Or.inr (Or.inl rfl))
      rw [scriptNumberShiftBytes, shiftBytes, if_neg hneg, if_neg hneg]
      rcases nearestDouble_of_nonneg hnonneg with ⟨-, hfinite'⟩ | ⟨heq, -⟩
      · exact absurd hfinite' hfinite
      · rw [heq]
        rfl
    · rw [scriptNumberShiftBytes_of_infinite op hval hnonneg hfinite, shiftBytes, if_neg hneg]
      refine iff_of_false (fun hnone => nomatch hnone) ?_
      rintro (hlt | hempty | ⟨hfinite', -⟩)
      · exact hneg hlt
      · exact hval hempty
      · exact hfinite hfinite'

theorem scriptNumberShiftBytes_iff (op : ShiftOp) (val : Bytes) (shift : Int) :
    (scriptNumberShiftBytes op val shift).toOption = (shiftBytes op.onNat val shift).toOption ↔
      ShiftExact op val shift := by
  have hmap := map_scriptNumberShiftBytes_iff id op val shift
  rw [Option.map_id_fun, id, id] at hmap
  rw [hmap, ShiftExact, ← leBytes_onNat_eq_iff]
  simp only [id, List.reverse_inj]

/-- A count that some double is near shifts exactly, unless the byte string is longer than any
host's: a count that is rounded is beyond its last bit. -/
theorem shiftExact_of_length (op : ShiftOp) {val : Bytes} {shift : Int}
    (hlen : val.length ≤ 2 ^ 50) (hfinite : roundNat shift.toNat < 2 ^ 1024) :
    ShiftExact op val shift := by
  refine Or.inr (Or.inr ⟨hfinite, ?_⟩)
  rcases Nat.le_total shift.toNat (2 ^ 53) with hle | hge
  · exact Or.inl (Logic.roundNat_of_le hle)
  · refine Or.inr ?_
    have hmin : 2 ^ 53 ≤ min (roundNat shift.toNat) shift.toNat :=
      Nat.le_min.mpr ⟨Logic.le_roundNat hge, hge⟩
    have hbits : 8 * val.length ≤ min (roundNat shift.toNat) shift.toNat :=
      Nat.le_trans (show 8 * val.length ≤ 2 ^ 53 by omega) hmin
    have hdvd := Nat.pow_dvd_pow 2 hbits
    cases op with
    | lshift => exact Nat.mod_eq_zero_of_dvd (Nat.dvd_mul_left_of_dvd hdvd _)
    | rshift =>
      have hv : leNat val.reverse < 2 ^ (8 * val.length) := by
        have hlt := leNat_lt val.reverse
        rwa [List.length_reverse, show (256 : Nat) = 2 ^ 8 from rfl, ← Nat.pow_mul] at hlt
      have hzero : leNat val.reverse / 2 ^ min (roundNat shift.toNat) shift.toNat = 0 :=
        Nat.div_eq_of_lt (Nat.lt_of_lt_of_le hv (Nat.pow_le_pow_right (by decide) hbits))
      show leNat val.reverse / _ % _ = 0
      rw [hzero, Nat.zero_mod]

/-! ## Shifts of numbers -/

/-- Two byte strings of one length that stand for one number are the same, or the two zeros. -/
theorem decodeNum_eq_iff {x y : Bytes} {w : Nat} (hx : x.length = w + 1) (hy : y.length = w + 1) :
    decodeNum x = decodeNum y ↔
      leNat x = leNat y ∨ leNat x = signBit (w + 1) ∧ leNat y = 0 ∨
        leNat x = 0 ∧ leNat y = signBit (w + 1) := by
  have hpos := signBit_pos (w + 1)
  rw [decodeNum_of_length hx, decodeNum_of_length hy]
  split <;> split <;> omega

theorem leNat_eq_zero_iff (bytes : Bytes) : leNat bytes = 0 ↔ ∀ byte ∈ bytes, byte = 0 := by
  induction bytes with
  | nil => simp
  | cons byte bytes ih =>
    rw [leNat_cons, List.forall_mem_cons, ← ih, ← UInt8.toNat_inj, UInt8.toNat_zero]
    omega

theorem leNat_reverse_leBytes_eq_zero_iff {w m : Nat} (hm : m < 256 ^ w) :
    leNat (leBytes w m).reverse = 0 ↔ m = 0 := by
  have hval : leNat (leBytes w m) = m := by rw [leNat_leBytes, Nat.mod_eq_of_lt hm]
  have hzero := leNat_eq_zero_iff (leBytes w m)
  rw [hval] at hzero
  rw [leNat_eq_zero_iff, hzero]
  simp only [List.mem_reverse]

/-- The one word whose bytes are, from the last down, those of the negative zero. -/
theorem leNat_reverse_leBytes_eq_signBit_iff {w m : Nat} (hm : m < 256 ^ (w + 1)) :
    leNat (leBytes (w + 1) m).reverse = signBit (w + 1) ↔ m = 0x80 := by
  have hrest : m / 256 < 256 ^ w := by
    rw [Nat.pow_succ] at hm
    exact (Nat.div_lt_iff_lt_mul (by decide)).mpr hm
  have hsplit : leNat (leBytes (w + 1) m).reverse =
      leNat (leBytes w (m / 256)).reverse + 256 ^ w * (m % 256) := by
    rw [leBytes_succ, List.reverse_cons, leNat_append, List.length_reverse, length_leBytes,
      leNat_cons, leNat_nil, toNat_toUInt8_mod, Nat.mul_zero, Nat.add_zero]
  have hlow := leNat_lt (leBytes w (m / 256)).reverse
  have hzero := leNat_reverse_leBytes_eq_zero_iff hrest
  rw [List.length_reverse, length_leBytes] at hlow
  rw [hsplit, signBit_succ, Nat.mul_comm 128]
  constructor
  · intro heq
    have hbyte : m % 256 = 128 := by
      have hdiv := congrArg (fun m => m / 256 ^ w) heq
      have hpos : 0 < 256 ^ w := Nat.pow_pos (by decide)
      rwa [Nat.add_mul_div_left _ _ hpos, Nat.div_eq_of_lt hlow, Nat.zero_add,
        Nat.mul_div_cancel_left _ hpos] at hdiv
    rw [hbyte] at heq
    have := hzero.mp (by omega)
    omega
  · rintro rfl
    rw [hzero.mpr rfl, Nat.zero_add]

/-- The smaller of two shifts leaves the negative zero and the larger one nothing. -/
def ShiftsToZero (op : ShiftOp) (val : Bytes) (r s : Nat) : Prop :=
  op.onNat (leNat val.reverse) (min r s) % 2 ^ (8 * val.length) = 0x80 ∧
    op.onNat (leNat val.reverse) (max r s) % 2 ^ (8 * val.length) = 0

/-- The counts by which a number is shifted as the machine shifts it. -/
def NumberShiftExact (op : ShiftOp) (a shift : Int) : Prop :=
  ShiftExact op (encodeNum a) shift ∨
    roundNat shift.toNat < 2 ^ 1024 ∧
      ShiftsToZero op (encodeNum a) (roundNat shift.toNat) shift.toNat

/-- The numbers of the shifted bytes are the same where the bytes are, and where one shift leaves
the sign bit alone and the other nothing. -/
theorem decodeNum_onNat_eq_iff (op : ShiftOp) {val : Bytes} (hval : val ≠ []) (r s : Nat) :
    decodeNum (leBytes val.length (op.onNat (leNat val.reverse) r)).reverse =
        decodeNum (leBytes val.length (op.onNat (leNat val.reverse) s)).reverse ↔
      r = s ∨ op.onNat (leNat val.reverse) (min r s) % 2 ^ (8 * val.length) = 0 ∨
        ShiftsToZero op val r s := by
  wlog h : r ≤ s generalizing r s
  · have hswap := this s r (by omega)
    rw [ShiftsToZero, Nat.min_comm, Nat.max_comm, eq_comm, eq_comm (a := r)]
    exact hswap
  obtain ⟨w, hw⟩ : ∃ w, val.length = w + 1 :=
    Nat.exists_eq_succ_of_ne_zero (fun hlen => hval (List.length_eq_zero_iff.mp hlen))
  have hbits : (2 : Nat) ^ (8 * val.length) = 256 ^ (w + 1) := by rw [hw, Nat.pow_mul]
  have hsame := leBytes_onNat_eq_iff op val r s
  rw [ShiftsToZero, Nat.min_eq_left h, Nat.max_eq_right h]
  rw [Nat.min_eq_left h] at hsame
  rw [hbits, hw] at hsame ⊢
  let left (k : Nat) : Nat := op.onNat (leNat val.reverse) k % 256 ^ (w + 1)
  let shifted (k : Nat) : Bytes := (leBytes (w + 1) (left k)).reverse
  have hleft (k : Nat) : left k < 256 ^ (w + 1) := Nat.mod_lt _ (Nat.pow_pos (by decide))
  have hlen (k : Nat) : (shifted k).length = w + 1 := by
    rw [List.length_reverse, length_leBytes]
  have hzero (k : Nat) : leNat (shifted k) = 0 ↔ left k = 0 :=
    leNat_reverse_leBytes_eq_zero_iff (hleft k)
  have hsign (k : Nat) : leNat (shifted k) = signBit (w + 1) ↔ left k = 0x80 :=
    leNat_reverse_leBytes_eq_signBit_iff (hleft k)
  have hvalue : leNat (shifted r) = leNat (shifted s) ↔ r = s ∨ left r = 0 := by
    rw [← hsame, ← leBytes_mod, ← leBytes_mod (w + 1) (op.onNat _ s), ← List.reverse_inj]
    refine ⟨fun heq => ?_, congrArg leNat⟩
    show shifted r = shifted s
    rw [← leBytes_leNat (shifted r), ← leBytes_leNat (shifted s), heq, hlen, hlen]
  rw [← leBytes_mod, ← leBytes_mod (w + 1) (op.onNat _ s)]
  show decodeNum (shifted r) = decodeNum (shifted s) ↔
    r = s ∨ left r = 0 ∨ left r = 0x80 ∧ left s = 0
  rw [decodeNum_eq_iff (hlen r) (hlen s), hvalue, hsign, hsign, hzero, hzero]
  -- where the smaller shift leaves nothing, the larger one leaves nothing
  constructor
  · rintro (heq | hsigns | hsigns)
    · exact heq.imp_right Or.inl
    · exact Or.inr (Or.inr hsigns)
    · exact Or.inr (Or.inl hsigns.1)
  · rintro (heq | hnone | hsigns)
    · exact Or.inl (Or.inl heq)
    · exact Or.inl (Or.inr hnone)
    · exact Or.inr (Or.inl hsigns)

theorem scriptNumberShift_iff (op : ShiftOp) (a shift : Int) :
    (scriptNumberShift op a shift).toOption =
        (shiftBytes op.onNat (encodeNum a) shift).toOption.map decodeNum ↔
      NumberShiftExact op a shift := by
  have hcodec : decodeScriptNumber = decodeNum := funext decodeScriptNumber_eq_decodeNum
  rw [scriptNumberShift, encodeScriptNumber_eq_encodeNum, hcodec]
  have hmap := map_scriptNumberShiftBytes_iff decodeNum op (encodeNum a) shift
  have hoption (result : Except String Bytes) :
      (result.map decodeNum).toOption = result.toOption.map decodeNum := by cases result <;> rfl
  rw [hoption, hmap, NumberShiftExact, ShiftExact]
  by_cases hval : encodeNum a = []
  · exact iff_of_true (Or.inr (Or.inl hval)) (Or.inl (Or.inr (Or.inl hval)))
  · rw [decodeNum_onNat_eq_iff op hval]
    constructor
    · rintro (hneg | hempty | ⟨hfinite, heq | hnone | hzero⟩)
      · exact Or.inl (Or.inl hneg)
      · exact absurd hempty hval
      · exact Or.inl (Or.inr (Or.inr ⟨hfinite, Or.inl heq⟩))
      · exact Or.inl (Or.inr (Or.inr ⟨hfinite, Or.inr hnone⟩))
      · exact Or.inr ⟨hfinite, hzero⟩
    · rintro ((hneg | hempty | ⟨hfinite, hsame⟩) | ⟨hfinite, hzero⟩)
      · exact Or.inl hneg
      · exact absurd hempty hval
      · exact Or.inr (Or.inr ⟨hfinite, hsame.imp_right Or.inl⟩)
      · exact Or.inr (Or.inr ⟨hfinite, Or.inr (Or.inr hzero)⟩)

/-! ## Truth values and texts are the machine's -/

theorem bytesToHex_eq (bytes : Bytes) : bytesToHex bytes = toHex bytes := by
  have hchars : ∀ d : Fin 16, hexChars.getD d.val ' ' = d.val.digitChar := by decide
  refine congrArg (List.flatMap · bytes) (funext fun b => ?_)
  have hb : b.toNat < 256 := b.toNat_lt
  have hhigh : b.toNat >>> 4 = b.toNat / 16 := Nat.shiftRight_eq_div_pow _ _
  have hlow : b.toNat &&& 0x0f = b.toNat % 16 := Nat.and_two_pow_sub_one_eq_mod _ 4
  rw [hexNumber_of_lt hb, hhigh, hlow, hchars ⟨b.toNat / 16, by omega⟩,
    hchars ⟨b.toNat % 16, by omega⟩]

theorem hexVal_digitChar {d : Nat} (h : d < 16) : hexVal d.digitChar = .ok d := by
  have hall : ∀ d : Fin 16, hexVal d.val.digitChar = .ok d.val := by decide
  exact hall ⟨d, h⟩

/-- The text of some bytes is read back. -/
theorem hexToBytes_toHex (bytes : Bytes) : hexToBytes (toHex bytes) = .ok bytes := by
  have hlen : (toHex bytes).length % 2 = 0 := by
    rw [length_toHex]
    omega
  rw [hexToBytes, if_neg (not_not_intro hlen)]
  clear hlen
  induction bytes with
  | nil => rfl
  | cons b bytes ih =>
    have hb : b.toNat < 256 := b.toNat_lt
    have hor : (b.toNat / 16) <<< 4 ||| b.toNat % 16 = b.toNat := by
      rw [← Nat.shiftLeft_add_eq_or_of_lt (i := 4) (by omega), Nat.shiftLeft_eq]
      omega
    rw [toHex_cons, hexNumber_of_lt hb, List.cons_append, List.cons_append, List.nil_append,
      hexPairs, hexVal_digitChar (by omega), hexVal_digitChar (by omega), ih]
    show Except.ok (((b.toNat / 16) <<< 4 ||| b.toNat % 16).toUInt8 :: bytes) = _
    rw [hor, Nat.toUInt8_eq, UInt8.ofNat_toNat]

/-- A value is false if it is a zero of either sign. -/
theorem isTruthy_eq_false_iff (bytes : Bytes) :
    isTruthy bytes = false ↔ leNat bytes = 0 ∨ bytes ≠ [] ∧ leNat bytes = signBit bytes.length := by
  induction bytes with
  | nil => exact iff_of_true rfl (Or.inl rfl)
  | cons byte rest ih =>
    have hbyte : byte.toNat < 256 := byte.toNat_lt
    rw [isTruthy, leNat_cons, List.length_cons, signBit_succ]
    by_cases hzero : byte = 0
    · subst hzero
      rw [if_neg (not_not_intro rfl), ih, UInt8.toNat_zero]
      cases rest with
      | nil => simp
      | cons next rest =>
        rw [List.length_cons, signBit_succ, Nat.pow_succ]
        simp only [ne_eq, reduceCtorEq, not_false_eq_true, true_and]
        omega
    · have hpos : byte.toNat ≠ 0 := fun h => hzero (UInt8.toNat_inj.mp h)
      rw [if_pos hzero]
      cases rest with
      | nil =>
        have hsign : byte = 0x80 ↔ byte.toNat = 128 := UInt8.toNat_inj.symm
        simp [hsign, hpos]
      | cons next rest =>
        rw [List.length_cons, Nat.pow_succ]
        simp only [List.isEmpty_cons, Bool.false_and, Bool.not_false, Bool.true_eq_false, false_iff]
        omega

theorem isTruthy_eq (bytes : Bytes) : isTruthy bytes = Script.isTruthy bytes := by
  rw [Bool.eq_iff_iff, ← not_iff_not, Bool.not_eq_true, Bool.not_eq_true, isTruthy_eq_false_iff,
    Script.isTruthy, bne_eq_false_iff_eq]
  cases bytes with
  | nil => exact iff_of_true (Or.inl rfl) rfl
  | cons byte rest =>
    have hpos := signBit_pos (rest.length + 1)
    rw [decodeNum_of_length rfl, List.length_cons]
    simp only [ne_eq, reduceCtorEq, not_false_eq_true, true_and]
    split <;> omega

end Runar.Vm
