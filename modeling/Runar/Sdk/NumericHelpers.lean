/-
  Sdk/NumericHelpers.lean --- the numbers of the SDK's interpreter.

  WHAT THIS FILE IS FOR.  The SDK runs a contract on its intermediate form, with numbers as bigints
  and byte strings as hexadecimal text.  It has script numbers of its own: the encoder, the bitwise
  and shift operators on bytes, and the conversions between numbers and fixed-width texts.  This
  file has these, and says on which calls they and the helpers of the test packages compute what
  the machine does.

  WHERE THEY PART.  The SDK pads an encoding behind its sign: a negative number that needs fewer
  bytes than it is given becomes a positive one.  An encoding that does not fit is cut, where the
  machine stops.
-/
import Runar.Interpreter.ScriptNumberUtils
import Runar.Sdk.ScriptUtils
import Runar.Sdk.StateRoundTrip
import Runar.StackLower.ByteBuiltins

set_option autoImplicit false

namespace Runar.Sdk.AnfInterpreter

open Script
open Codec (textBytes textBytes_toHex decodeNum2Bin decodeNum2Bin_toHex)
open StackLower (ByteCall num2binArray num2binArray_eq leBytes_pad leBytes_zero_value)
open Vm (BitwiseOp ShiftOp ShiftExact NumberShiftExact)

/-! ## The helpers -/

/-- The loop and the sign byte are those of the compiler's encoder. -/
def minimalScriptNumberBytes (n : Int) : Bytes := Runar.encodeScriptNumber n

/-- The steps are those of the test package, on arrays of numbers. -/
def scriptNumberBitwiseBytes (op : BitwiseOp) (av bv : Bytes) : Except String Bytes :=
  Vm.scriptNumberBitwiseBytes op av bv

def scriptNumberInvertBytes (av : Bytes) : Bytes := av.map (~~~ ·)

def scriptNumberShiftBytes (op : ShiftOp) (val : Bytes) (shift : Int) : Except String Bytes :=
  Vm.scriptNumberShiftBytes op val shift

def scriptNumberBitwise (op : BitwiseOp) (a b : Int) : Except String Int := do
  let bytes ← scriptNumberBitwiseBytes op (minimalScriptNumberBytes a) (minimalScriptNumberBytes b)
  decodeScriptNumber (toHex bytes)

def scriptNumberInvert (a : Int) : Except String Int :=
  decodeScriptNumber (toHex (scriptNumberInvertBytes (minimalScriptNumberBytes a)))

def scriptNumberShift (op : ShiftOp) (a shift : Int) : Except String Int := do
  let bytes ← scriptNumberShiftBytes op (minimalScriptNumberBytes a) shift
  decodeScriptNumber (toHex bytes)

/-- The bytes of a number and its sign, in the top bit or in a byte of its own. -/
def signBytes (n : Int) : Bytes :=
  let bytes := Runar.magnitudeBytes n.natAbs.size n.natAbs
  let lastByte := bytes.getLastD 0
  if n < 0 then
    if lastByte &&& 0x80 = 0 then bytes.dropLast ++ [lastByte ||| 0x80] else bytes ++ [0x80]
  else if lastByte &&& 0x80 ≠ 0 then bytes ++ [0x00]
  else bytes

def num2binHex (n byteLen : Int) : Except String HexText :=
  if n = 0 then
    if byteLen < 0 then .error ("Invalid count value: " ++ String.ofList (decimalText byteLen))
    else .ok (List.replicate byteLen.toNat ['0', '0']).flatten
  else
    let bytes := signBytes n
    -- padded, then cut
    let bytes := bytes ++ List.replicate (byteLen.toNat - bytes.length) 0x00
    if byteLen < 0 then .error "Invalid array length"
    else .ok (toHex (bytes.take byteLen.toNat))

def bin2numBigInt (hex : HexText) : Except String Int :=
  match (textBytes hex).reverse with
  | [] => .ok 0
  | last :: front =>
      -- bit operations take a byte that is no number for zero
      let negative := last.getD 0 &&& 0x80 ≠ 0
      let last := if negative then some (last.getD 0 &&& 0x7f) else last
      match (last :: front).foldlM (fun result byte => byte.map fun b => result <<< 8 ||| b) 0 with
      | none =>
          .error ("The number NaN cannot be converted to a BigInt because it is not an integer")
      | some result => .ok (if negative then -(result : Int) else result)

/-! ## Texts and bytes -/

theorem toHex_injective : Function.Injective toHex := by
  intro xs ys h
  have hbytes : textBytes (toHex xs) = textBytes (toHex ys) := congrArg textBytes h
  rw [textBytes_toHex, textBytes_toHex] at hbytes
  refine List.map_injective_iff.mpr ?_ hbytes
  intro x y hxy
  exact UInt8.toNat_inj.mp (Option.some.inj hxy)

theorem toHex_replicate_zero (k : Nat) :
    toHex (List.replicate k 0) = (List.replicate k ['0', '0']).flatten := by
  induction k with
  | zero => rfl
  | succ k ih =>
    rw [List.replicate_succ, List.replicate_succ, toHex_cons, ih, List.flatten_cons]
    rfl

/-- The reader of a fixed-width text takes the steps of the reader of script elements, but masks
the top byte of a negative number only. -/
theorem bin2numBigInt_toHex (bytes : Bytes) :
    bin2numBigInt (toHex bytes) = .ok (decodeNum bytes) := by
  rw [← decodeNum2Bin_toHex]
  rcases List.eq_nil_or_concat bytes with rfl | ⟨front, last, rfl⟩
  · rfl
  have hrev : (textBytes (toHex (front.concat last))).reverse =
      some last.toNat :: front.reverse.map fun b => some b.toNat := by
    rw [textBytes_toHex, List.concat_eq_append, ← List.map_reverse, List.reverse_append]
    rfl
  have hlow : ∀ b : Fin 256, b.val &&& 0x80 = 0 → b.val &&& 0x7f = b.val := by decide +kernel
  have htop : (if last.toNat &&& 0x80 ≠ 0 then some (last.toNat &&& 0x7f) else some last.toNat) =
      some (last.toNat &&& 0x7f) := by
    split
    · rfl
    · rename_i hclear
      rw [hlow ⟨last.toNat, last.toNat_lt⟩ (not_not.mp hclear)]
  unfold bin2numBigInt decodeNum2Bin
  rw [hrev]
  dsimp only
  rw [Option.getD_some, htop, List.foldlM_cons, Option.map_some, Nat.zero_shiftLeft, Nat.zero_or]
  show (match (front.reverse.map fun b => some b.toNat).foldlM _ (last.toNat &&& 0x7f) with
    | none => _
    | some result => _) = _
  rw [Codec.foldlM_bytes]
  dsimp only
  -- the zero has no sign
  by_cases hzero : leNat front + 256 ^ front.length * (last.toNat &&& 0x7f) = 0
  · rw [if_pos hzero, hzero]
    split <;> rfl
  · rw [if_neg hzero]

/-- Texts with the same bytes, in digits of any case, are read alike. -/
theorem bin2numBigInt_of_textBytes {hex : HexText} {data : Bytes}
    (h : textBytes hex = data.map fun b => some b.toNat) :
    bin2numBigInt hex = .ok (decodeNum data) := by
  rw [← bin2numBigInt_toHex, bin2numBigInt, bin2numBigInt, h, textBytes_toHex]

theorem hexDigit?_of_hexVal {c : Char} {d : Nat} (h : Vm.hexVal c = .ok d) :
    hexDigit? c = some d ∧ d < 16 := by
  have hle : ∀ x y : Char, x ≤ y ↔ x.toNat ≤ y.toNat := fun _ _ => Iff.rfl
  have h9 : ('9' : Char).toNat = 57 := rfl
  have h0 : ('0' : Char).toNat = 48 := rfl
  have ha : ('a' : Char).toNat = 97 := rfl
  have hf : ('f' : Char).toNat = 102 := rfl
  have hA : ('A' : Char).toNat = 65 := rfl
  have hF : ('F' : Char).toNat = 70 := rfl
  unfold Vm.hexVal at h
  unfold hexDigit?
  simp only [hle, h0, h9, ha, hf, hA, hF] at h ⊢
  split at h
  · rename_i hdigit
    cases h
    rw [if_pos hdigit]
    exact ⟨rfl, by omega⟩
  rename_i hdigit
  split at h
  · rename_i hlower
    cases h
    rw [if_neg hdigit, if_pos hlower]
    exact ⟨congrArg some (by omega), by omega⟩
  rename_i hlower
  split at h
  · rename_i hupper
    cases h
    rw [if_neg hdigit, if_neg hlower, if_pos hupper]
    exact ⟨congrArg some (by omega), by omega⟩
  · exact nomatch h

/-- The bytes that the test package reads from a text are those the SDK reads. -/
theorem textBytes_of_hexToBytes {hex : HexText} {data : Bytes} (h : Vm.hexToBytes hex = .ok data) :
    textBytes hex = data.map fun b => some b.toNat := by
  rw [Vm.hexToBytes] at h
  split at h
  · cases h
  rename_i hlen
  induction hex using Vm.hexPairs.induct generalizing data with
  | case1 high low rest ih =>
    rw [Vm.hexPairs] at h
    cases hhi : Vm.hexVal high with
    | error e => rw [hhi] at h; cases h
    | ok hi =>
      cases hlo : Vm.hexVal low with
      | error e => rw [hhi, hlo] at h; cases h
      | ok lo =>
        cases hrest : Vm.hexPairs rest with
        | error e => rw [hhi, hlo, hrest] at h; cases h
        | ok bytes =>
          rw [hhi, hlo, hrest] at h
          obtain rfl : (hi <<< 4 ||| lo).toUInt8 :: bytes = data := Except.ok.inj h
          obtain ⟨hhigh, hhi⟩ := hexDigit?_of_hexVal hhi
          obtain ⟨hlow, hlo⟩ := hexDigit?_of_hexVal hlo
          have hbyte : (hi <<< 4 ||| lo).toUInt8.toNat = 16 * hi + lo := by
            rw [← Nat.shiftLeft_add_eq_or_of_lt (i := 4) hlo, Nat.shiftLeft_eq, Nat.toUInt8_eq,
              UInt8.toNat_ofNat', Nat.mod_eq_of_lt (by omega)]
            omega
          have heven : ¬ rest.length % 2 ≠ 0 := by
            rw [List.length_cons, List.length_cons] at hlen
            omega
          rw [List.map_cons, hbyte, ← ih heven hrest, textBytes, parseByte, hhigh, hlow]
  | case2 hex hshort =>
    cases hex with
    | nil =>
      obtain rfl : [] = data := Except.ok.inj h
      rfl
    | cons high rest =>
      cases rest with
      | nil => exact absurd Nat.one_ne_zero hlen
      | cons low rest => exact absurd rfl (hshort high low rest)

/-! ## Padding -/

/-- The sign goes where the encoder puts it. -/
theorem signBytes_eq {n : Int} (h : n ≠ 0) : signBytes n = encodeNum n := by
  rw [← Runar.encodeScriptNumber_eq, Runar.encodeScriptNumber, if_neg h, signBytes]
  dsimp only
  by_cases hneg : n < 0
  · rw [if_pos hneg]
    split
    · rename_i hclear
      rw [if_neg (not_not_intro hclear)]
    · rfl
  · rw [if_neg hneg, if_neg hneg, if_neg hneg]

theorem num2binHex_of_nonneg (n : Int) {byteLen : Int} (h : 0 ≤ byteLen) :
    num2binHex n byteLen =
      .ok (toHex ((encodeNum n ++
        List.replicate (byteLen.toNat - numWidth n.natAbs) 0).take byteLen.toNat)) := by
  have hlen : ¬ byteLen < 0 := by omega
  rw [num2binHex, if_neg hlen, if_neg hlen]
  split
  · rename_i hzero
    subst hzero
    show _ = Except.ok (toHex ((List.replicate (byteLen.toNat - 0) 0).take byteLen.toNat))
    rw [Nat.sub_zero, List.take_of_length_le (by rw [List.length_replicate]), toHex_replicate_zero]
  · rename_i hne
    rw [signBytes_eq hne, length_encodeNum]

/-- Zero bytes behind an encoding keep the number if it has no sign to move. -/
theorem encodeNum_pad_iff {n : Int} {w : Nat} (h : numWidth n.natAbs ≤ w) :
    encodeNum n ++ List.replicate (w - numWidth n.natAbs) 0 = signedBytes w n ↔
      0 ≤ n ∨ w = numWidth n.natAbs := by
  obtain ⟨k, rfl⟩ := Nat.exists_eq_add_of_le h
  rw [Nat.add_sub_cancel_left]
  constructor
  · intro heq
    by_contra hneither
    rw [not_or] at hneither
    obtain ⟨j, rfl⟩ : ∃ j, k = j + 1 := Nat.exists_eq_succ_of_ne_zero (by omega)
    have hfits : Fits (numWidth n.natAbs + (j + 1)) n := (numWidth_le_iff _ _).mp h
    have hvalue : decodeNum (encodeNum n ++ List.replicate (j + 1) 0) = n := by
      rw [heq, decodeNum_signedBytes hfits]
    rw [List.replicate_succ', ← List.append_assoc, decodeNum_append_zero] at hvalue
    omega
  · rintro (hnonneg | hwidth)
    · have hlt : n.natAbs < 256 ^ numWidth n.natAbs := by
        have hsigned := signed_lt (fits_numWidth n)
        rwa [signed_of_nonneg _ hnonneg] at hsigned
      rw [encodeNum, signedBytes, signedBytes, signed_of_nonneg _ hnonneg,
        signed_of_nonneg _ hnonneg, leBytes_pad hlt]
    · have hk : k = 0 := by omega
      subst hk
      rw [List.replicate_zero, List.append_nil, Nat.add_zero]
      rfl

/-- The widths in which the SDK writes a number as the machine does: those that are refused, and
for a number that fits the one it needs or, where it is not negative, any. -/
def Num2BinExact (n byteLen : Int) : Prop :=
  byteLen < 0 ∨ Fits byteLen.toNat n ∧ (0 ≤ n ∨ byteLen.toNat = numWidth n.natAbs)

theorem num2binHex_iff (n byteLen : Int) :
    (num2binHex n byteLen).toOption = (num2bin n byteLen).toOption.map toHex ↔
      Num2BinExact n byteLen := by
  rw [Num2BinExact, num2bin]
  by_cases hneg : byteLen < 0
  · have hrefused : (num2binHex n byteLen).toOption = none := by
      rw [num2binHex, if_pos hneg, if_pos hneg]
      split <;> rfl
    rw [hrefused, if_neg (by omega)]
    exact iff_of_true rfl (Or.inl hneg)
  have hnonneg : 0 ≤ byteLen := by omega
  rw [num2binHex_of_nonneg n hnonneg]
  by_cases hfits : Fits byteLen.toNat n
  · have hwidth : numWidth n.natAbs ≤ byteLen.toNat := (numWidth_le_iff _ _).mpr hfits
    have hlen : (encodeNum n ++
        List.replicate (byteLen.toNat - numWidth n.natAbs) 0).length = byteLen.toNat := by
      rw [List.length_append, length_encodeNum, List.length_replicate]
      omega
    rw [if_pos ⟨hnonneg, hfits⟩, List.take_of_length_le (Nat.le_of_eq hlen),
      ← encodeNum_pad_iff hwidth]
    show some _ = some _ ↔ _
    rw [Option.some.injEq, toHex_injective.eq_iff]
    exact ⟨fun heq => Or.inr ⟨hfits, heq⟩, fun h => (h.resolve_left hneg).2⟩
  · rw [if_neg (fun h => hfits h.2)]
    exact iff_of_false (fun h => by cases h) (fun h => hfits (h.resolve_left hneg).1)

/-! ## Calls of the helpers -/

/-- A call of one of the helpers. -/
inductive HelperCall where
  | encodeScriptNumber (n : Int)
  | decodeScriptNumber (bytes : Bytes)
  | scriptNumberBitwiseBytes (op : BitwiseOp) (av bv : Bytes)
  | scriptNumberInvertBytes (av : Bytes)
  | scriptNumberShiftBytes (op : ShiftOp) (val : Bytes) (shift : Int)
  | scriptNumberBitwise (op : BitwiseOp) (a b : Int)
  | scriptNumberInvert (a : Int)
  | scriptNumberShift (op : ShiftOp) (a shift : Int)
  | num2bin (n byteLen : Int)
  | bin2num (data : Bytes)
  | isTruthy (element : Bytes)
  | bytesToHex (bytes : Bytes)
  | hexToBytes (hex : HexText)

/-- Both interpreters compute what the machine does, and refuse what it refuses. -/
def HelperCall.Agrees : HelperCall → Prop
  | encodeScriptNumber n =>
      Vm.encodeScriptNumber n = encodeNum n ∧ minimalScriptNumberBytes n = encodeNum n ∧
        Runar.encodeScriptNumber n = encodeNum n
  | decodeScriptNumber bytes =>
      Vm.decodeScriptNumber bytes = decodeNum bytes ∧
        Sdk.decodeScriptNumber (toHex bytes) = .ok (decodeNum bytes)
  | scriptNumberBitwiseBytes op av bv =>
      let machine := (bitwise op.apply av bv).toOption
      (Vm.scriptNumberBitwiseBytes op av bv).toOption = machine ∧
        (AnfInterpreter.scriptNumberBitwiseBytes op av bv).toOption = machine
  | scriptNumberInvertBytes av =>
      let machine := av.map (~~~ ·)
      Vm.scriptNumberInvertBytes av = machine ∧ AnfInterpreter.scriptNumberInvertBytes av = machine
  | scriptNumberShiftBytes op val shift =>
      let machine := (shiftBytes op.onNat val shift).toOption
      (Vm.scriptNumberShiftBytes op val shift).toOption = machine ∧
        (AnfInterpreter.scriptNumberShiftBytes op val shift).toOption = machine
  | scriptNumberBitwise op a b =>
      let machine := (bitwise op.apply (encodeNum a) (encodeNum b)).toOption.map decodeNum
      (Vm.scriptNumberBitwise op a b).toOption = machine ∧
        (AnfInterpreter.scriptNumberBitwise op a b).toOption = machine
  | scriptNumberInvert a =>
      let machine := decodeNum ((encodeNum a).map (~~~ ·))
      Vm.scriptNumberInvert a = machine ∧ AnfInterpreter.scriptNumberInvert a = .ok machine
  | scriptNumberShift op a shift =>
      let machine := (shiftBytes op.onNat (encodeNum a) shift).toOption.map decodeNum
      (Vm.scriptNumberShift op a shift).toOption = machine ∧
        (AnfInterpreter.scriptNumberShift op a shift).toOption = machine
  | num2bin n byteLen =>
      let machine := (Script.num2bin n byteLen).toOption
      (ByteCall.num2bin n byteLen).evaluate.toOption = machine.map .bytes ∧
        (num2binHex n byteLen).toOption = machine.map toHex
  | bin2num data =>
      (ByteCall.bin2num data).evaluate = .ok (.num (decodeNum data)) ∧
        ∀ hex, (textBytes hex = data.map fun b => some b.toNat) →
          bin2numBigInt hex = .ok (decodeNum data)
  | isTruthy element => Vm.isTruthy element = Script.isTruthy element
  | bytesToHex bytes =>
      Vm.bytesToHex bytes = toHex bytes ∧ Vm.hexToBytes (Vm.bytesToHex bytes) = .ok bytes
  | hexToBytes hex =>
      -- the reader of the SDK takes a text for the same bytes
      ∀ data, Vm.hexToBytes hex = .ok data → textBytes hex = data.map fun b => some b.toNat

/-- The calls on which they do. -/
def HelperCall.Exact : HelperCall → Prop
  | scriptNumberShiftBytes op val shift => ShiftExact op val shift
  | scriptNumberShift op a shift => NumberShiftExact op a shift
  | num2bin n byteLen => Num2BinExact n byteLen
  | _ => True

/-- The SDK decodes the text of some bytes where the test package decodes the bytes. -/
theorem toOption_bind_decode (result : Except String Bytes) :
    (result.bind fun bytes => decodeScriptNumber (toHex bytes)).toOption =
      (result.map Vm.decodeScriptNumber).toOption := by
  cases result with
  | error e => rfl
  | ok bytes =>
    show (decodeNum2Bin (toHex bytes)).toOption = some (Vm.decodeScriptNumber bytes)
    rw [decodeNum2Bin_toHex, Vm.decodeScriptNumber_eq_decodeNum]
    rfl

theorem scriptNumberBitwise_toOption (op : BitwiseOp) (a b : Int) :
    (Vm.scriptNumberBitwise op a b).toOption =
      (bitwise op.apply (encodeNum a) (encodeNum b)).toOption.map decodeNum := by
  have hcodec : Vm.decodeScriptNumber = decodeNum := funext Vm.decodeScriptNumber_eq_decodeNum
  rw [Vm.scriptNumberBitwise, Vm.encodeScriptNumber_eq_encodeNum,
    Vm.encodeScriptNumber_eq_encodeNum, ← Vm.scriptNumberBitwiseBytes_toOption, hcodec]
  cases Vm.scriptNumberBitwiseBytes op (encodeNum a) (encodeNum b) <;> rfl

/-- The reference cuts what does not fit, and the SDK cuts and pads: the SDK's calls are among the
reference's. -/
theorem evaluate_num2bin_of_exact {n byteLen : Int} (h : Num2BinExact n byteLen) :
    (ByteCall.num2bin n byteLen).evaluate.toOption =
      (Script.num2bin n byteLen).toOption.map .bytes := by
  rw [ByteCall.evaluate, Script.num2bin]
  rcases h with hneg | ⟨hfits, -⟩
  · rw [if_pos hneg, if_neg (by omega)]
    rfl
  · by_cases hneg : byteLen < 0
    · rw [if_pos hneg, if_neg (by omega)]
      rfl
    · rw [if_neg hneg, if_pos ⟨by omega, hfits⟩, num2binArray_eq hfits]
      rfl

theorem HelperCall.agrees_iff_exact (call : HelperCall) : call.Agrees ↔ call.Exact := by
  cases call with
  | encodeScriptNumber n =>
    have hcompiler := Runar.encodeScriptNumber_eq n
    exact iff_of_true ⟨hcompiler, hcompiler, hcompiler⟩ trivial
  | decodeScriptNumber bytes =>
    exact iff_of_true ⟨Vm.decodeScriptNumber_eq_decodeNum bytes, decodeNum2Bin_toHex bytes⟩ trivial
  | scriptNumberBitwiseBytes op av bv =>
    have hmachine := Vm.scriptNumberBitwiseBytes_toOption op av bv
    exact iff_of_true ⟨hmachine, hmachine⟩ trivial
  | scriptNumberInvertBytes av => exact iff_of_true ⟨rfl, rfl⟩ trivial
  | scriptNumberShiftBytes op val shift =>
    have hmachine := Vm.scriptNumberShiftBytes_iff op val shift
    exact ⟨fun h => hmachine.mp h.1, fun h => ⟨hmachine.mpr h, hmachine.mpr h⟩⟩
  | scriptNumberBitwise op a b =>
    have hmachine := scriptNumberBitwise_toOption op a b
    exact iff_of_true ⟨hmachine, (toOption_bind_decode _).trans hmachine⟩ trivial
  | scriptNumberInvert a =>
    have hvm : Vm.scriptNumberInvert a = decodeNum ((encodeNum a).map (~~~ ·)) := by
      rw [Vm.scriptNumberInvert, Vm.decodeScriptNumber_eq_decodeNum,
        Vm.encodeScriptNumber_eq_encodeNum]
      rfl
    refine iff_of_true ⟨hvm, ?_⟩ trivial
    rw [AnfInterpreter.scriptNumberInvert, minimalScriptNumberBytes, Runar.encodeScriptNumber_eq]
    exact decodeNum2Bin_toHex _
  | scriptNumberShift op a shift =>
    have hmachine := Vm.scriptNumberShift_iff op a shift
    have hsdk := toOption_bind_decode (Vm.scriptNumberShiftBytes op (Vm.encodeScriptNumber a) shift)
    exact ⟨fun h => hmachine.mp h.1, fun h => ⟨hmachine.mpr h, hsdk.trans (hmachine.mpr h)⟩⟩
  | num2bin n byteLen =>
    have hsdk := num2binHex_iff n byteLen
    exact ⟨fun h => hsdk.mp h.2, fun h => ⟨evaluate_num2bin_of_exact h, hsdk.mpr h⟩⟩
  | bin2num data =>
    refine iff_of_true ⟨?_, fun hex => bin2numBigInt_of_textBytes⟩ trivial
    rw [ByteCall.evaluate, StackLower.decodeScriptNumberLocal_eq]
  | isTruthy element => exact iff_of_true (Vm.isTruthy_eq element) trivial
  | bytesToHex bytes =>
    have hread := Vm.hexToBytes_toHex bytes
    rw [← Vm.bytesToHex_eq] at hread
    exact iff_of_true ⟨Vm.bytesToHex_eq bytes, hread⟩ trivial
  | hexToBytes hex => exact iff_of_true (fun _ => textBytes_of_hexToBytes) trivial

/-- Every number comes back from its encoding, which no byte string of the same number is shorter
than; every byte string is encoded again as the shortest form of its number; and the helpers of
both interpreters compute what the machine does exactly on the calls that keep the shift and the
sign. -/
theorem scriptNumberHelpers_agree_iff (n : Int) (bytes : Bytes) (call : HelperCall) :
    (Vm.decodeScriptNumber (Vm.encodeScriptNumber n) = n ∧
      IsMinimal (Vm.encodeScriptNumber n) ∧
      ∀ other, Vm.decodeScriptNumber other = n →
        (Vm.encodeScriptNumber n).length ≤ other.length) ∧
    (Vm.encodeScriptNumber (Vm.decodeScriptNumber bytes) = encodeNum (decodeNum bytes) ∧
      IsMinimal (Vm.encodeScriptNumber (Vm.decodeScriptNumber bytes)) ∧
      Vm.decodeScriptNumber (Vm.encodeScriptNumber (Vm.decodeScriptNumber bytes)) =
        Vm.decodeScriptNumber bytes) ∧
    (call.Agrees ↔ call.Exact) := by
  have hencode := Vm.encodeScriptNumber_eq_encodeNum
  have hdecode := Vm.decodeScriptNumber_eq_decodeNum
  refine ⟨⟨?_, ?_, fun other hvalue => ?_⟩, ⟨?_, ?_, ?_⟩, HelperCall.agrees_iff_exact call⟩
  · rw [hencode, hdecode, decodeNum_encodeNum]
  · rw [hencode]
    exact isMinimal_encodeNum n
  · rw [hdecode] at hvalue
    rw [hencode, ← hvalue]
    exact length_encodeNum_decodeNum_le other
  · exact Vm.encodeScriptNumber_decodeScriptNumber bytes
  · rw [hencode]
    exact isMinimal_encodeNum _
  · rw [hencode, hdecode, hdecode, decodeNum_encodeNum]

/-- The number -1 in two bytes: the SDK leaves the sign in the first, and reads 129 back. -/
theorem num2binHex_neg_one :
    num2binHex (-1) 2 = .ok ['8', '1', '0', '0'] ∧ Script.num2bin (-1) 2 = .ok [0x01, 0x80] ∧
      bin2numBigInt ['8', '1', '0', '0'] = .ok 129 ∧
      ¬ (HelperCall.num2bin (-1) 2).Agrees := by
  have hsdk : num2binHex (-1) 2 = .ok ['8', '1', '0', '0'] := by decide
  have hmachine : Script.num2bin (-1) 2 = .ok [0x01, 0x80] := by decide
  refine ⟨hsdk, hmachine, by decide, fun hagrees => ?_⟩
  have htext := hagrees.2
  rw [hsdk, hmachine] at htext
  revert htext
  decide

end Runar.Sdk.AnfInterpreter
