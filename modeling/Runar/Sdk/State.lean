/-
  Sdk/State.lean --- the state section the SDK writes.

  WHAT THIS FILE IS FOR.  Off chain, `serializeState` writes the values of an
  artifact's state fields as hexadecimal text.  The compiled contract rebuilds
  those bytes on chain, so the two must agree.  This file is the off-chain half: one
  encoder for each kind of type, and the loop over the fields.

  VALUES.  A value is typed by its field: an integer, a boolean or a byte string.
-/
import Runar.Artifact.StateFields
import Runar.Script.Hex
import Mathlib.Data.List.ModifyLast

set_option autoImplicit false

namespace Runar.Sdk

open Script Artifact

/-! ## Values -/

/-- The values of a type. -/
def StateValue : PrimitiveType → Type
  | .bigint | .RabinSig | .RabinPubKey => Int
  | .boolean => Bool
  | _ => Bytes

/-- The record of state values: what it holds under a name, read at a type. -/
abbrev StateValues : Type := String → (type : PrimitiveType) → StateValue type

/-- A refusal to serialize. -/
inductive SerializeError where
  /-- A number that does not fit the state word of its field. -/
  | outOfRange (label : String) (n : Int) (width : Nat)
  deriving Repr

def SerializeError.message : SerializeError → String
  | outOfRange label n width =>
      "serializeState: bigint state field \"" ++ label ++ "\" = " ++ toString n ++
        " does not fit the fixed " ++ toString width ++
        "-byte sign-magnitude state word (magnitude must be < 2^" ++ toString (8 * width - 1) ++
        "). Serializing it would write a different number into the state section than the " ++
        "contract's on-chain OP_NUM2BIN " ++ toString width ++
        " rebuilds, leaving the output unspendable."

/-! ## One value -/

/-- The bytes of a magnitude.  The loop stops at zero; the bytes it does not reach
stay zero. -/
def magnitudeLoop : Nat → Nat → Bytes
  | 0, _ => []
  | width + 1, absVal =>
      if absVal > 0 then (absVal &&& 0xff).toUInt8 :: magnitudeLoop width (absVal >>> 8)
      else List.replicate (width + 1) 0

/-- Encode an integer as a fixed-width sign-magnitude word. -/
def encodeNum2Bin (n : Int) (width : Nat) (label : String) : Except SerializeError HexText :=
  let limit : Int := (2 : Int) ^ (8 * width - 1)
  if n ≥ limit ∨ n ≤ -limit then .error (.outOfRange label n width)
  else
    let bytes := magnitudeLoop width n.natAbs
    let bytes := if n < 0 then bytes.modifyLast (· ||| 0x80) else bytes
    .ok (toHex bytes)

/-- Half of a number of characters, in base sixteen.  A text of odd length has half a
byte. -/
def halfText (chars : Nat) : HexText :=
  Nat.toDigits 16 (chars / 2) ++ if chars % 2 = 0 then [] else ['.', '8']

/-- Encode variable-length data with a length prefix. -/
def encodePushDataState (dataHex : HexText) : HexText :=
  -- `len` is `dataHex.length / 2`; the bounds are the ones on `len`, doubled
  let len := dataHex.length / 2
  if dataHex.length ≤ 2 * 75 then padStart 2 '0' (halfText dataHex.length) ++ dataHex
  else if dataHex.length ≤ 2 * 0xff then
    ['4', 'c'] ++ padStart 2 '0' (halfText dataHex.length) ++ dataHex
  else if dataHex.length ≤ 2 * 0xffff then
    ['4', 'd'] ++ hexNumber (len % 256) ++ hexNumber (len / 256 % 256) ++ dataHex
  else
    ['4', 'e'] ++ hexNumber (len % 256) ++ hexNumber (len / 256 % 256) ++
      hexNumber (len / 65536 % 256) ++ hexNumber (len / 16777216 % 256) ++ dataHex

/-- The text of a value whose type has no case of its own. -/
def encodeText (hex : HexText) : HexText :=
  if hex.length = 0 then ['0', '0'] else encodePushDataState hex

/-- Encode a state field. -/
def encodeStateValue (type : PrimitiveType) (value : StateValue type) (label : String) :
    Except SerializeError HexText :=
  match type, value with
  | .bigint, n => encodeNum2Bin n 8 label
  | .boolean, b => .ok (cond b ['0', '1'] ['0', '0'])
  | .PubKey, bytes | .Addr, bytes | .Ripemd160, bytes | .Sha256, bytes | .Point, bytes =>
      .ok (toHex bytes)
  -- the default: `String(value)`, a number in base ten and bytes as their text
  | .RabinSig, n | .RabinPubKey, n => .ok (encodeText (decimalText n))
  | .ByteString, bytes | .Sig, bytes | .SigHashPreimage, bytes | .P256Point, bytes
  | .P384Point, bytes => .ok (encodeText (toHex bytes))

/-! ## All fields -/

/-- Append the text of one scalar. -/
def appendValue (values : StateValues) (hex : HexText) (leaf : String × PrimitiveType) :
    Except SerializeError HexText := do
  let text ← encodeStateValue leaf.2 (values leaf.1 leaf.2) leaf.1
  .ok (hex ++ text)

/-- Append the text of one field: its value, or the values of its elements in
order. -/
def appendStateField (values : StateValues) (hex : HexText) (field : StateField) :
    Except SerializeError HexText :=
  match field.shape with
  | .scalar type => appendValue values hex (field.name, type)
  | .fixedArray elementType length syntheticNames =>
      (syntheticNames.map fun n =>
        (n, unwrapFixedArrayLeaf (.fixedArray elementType length))).foldlM (appendValue values) hex

/-- Serialize the values of the state fields, in the order of their indices. -/
def serializeState (fields : List StateField) (values : StateValues) :
    Except SerializeError HexText :=
  (fields.mergeSort fieldOrder).foldlM (appendStateField values) []

/-! ## The loop over the fields is the loop over their scalars -/

theorem appendStateField_eq (values : StateValues) (hex : HexText) (field : StateField) :
    appendStateField values hex field =
      (leavesOf field.name field.shape).foldlM (appendValue values) hex := by
  unfold appendStateField
  cases hshape : field.shape with
  | scalar type =>
      show appendValue values hex (field.name, type) =
        (appendValue values hex (field.name, type) >>= fun text => .ok text)
      cases appendValue values hex (field.name, type) <;> rfl
  | fixedArray elementType length syntheticNames => rfl

theorem foldlM_appendStateField (values : StateValues) (fields : List StateField) (hex : HexText) :
    fields.foldlM (appendStateField values) hex =
      (fieldLeaves fields).foldlM (appendValue values) hex := by
  induction fields generalizing hex with
  | nil => rfl
  | cons field fields ih =>
      have hleaves : fieldLeaves (field :: fields) =
          leavesOf field.name field.shape ++ fieldLeaves fields := List.flatMap_cons
      rw [hleaves, List.foldlM_append, List.foldlM_cons, appendStateField_eq]
      congr 1
      funext text
      exact ih text

/-- Serializing an artifact's state fields is serializing the mutable properties in
declaration order. -/
theorem serializeState_extractStateFields {properties : List PropertyNode}
    {fields : List StateField} (h : extractStateFields properties = .ok fields)
    (values : StateValues) :
    serializeState fields values =
      (stateLeaves (lowerProperties properties)).foldlM (appendValue values) [] := by
  obtain ⟨hleaves, hsorted⟩ := extractStateFields_spec h
  unfold serializeState
  rw [List.mergeSort_of_pairwise hsorted, foldlM_appendStateField, hleaves]

/-! ## The word of a number -/

theorem magnitudeLoop_eq (width absVal : Nat) : magnitudeLoop width absVal = leBytes width absVal := by
  induction width generalizing absVal with
  | zero => rfl
  | succ width ih =>
      unfold magnitudeLoop
      split
      · rw [leBytes_succ, ih, Nat.shiftRight_eq_div_pow]
        have hand : absVal &&& 0xff = absVal % 256 := Nat.and_two_pow_sub_one_eq_mod absVal 8
        rw [hand]
      · have hzero : absVal = 0 := by omega
        subst hzero
        have hall : ∀ w, leBytes w 0 = List.replicate w 0 := by
          intro w
          induction w with
          | zero => rfl
          | succ w ihw =>
              rw [leBytes_succ, List.replicate_succ, Nat.zero_div, ihw]
              rfl
        rw [hall]

/-- Setting the top bit of a byte below 128 adds 128 to it. -/
theorem toUInt8_or_sign {m : Nat} (h : m < 128) : m.toUInt8 ||| 0x80 = (m + 128).toUInt8 := by
  have hall : ∀ m : Fin 128, m.val.toUInt8 ||| 0x80 = (m.val + 128).toUInt8 := by decide +kernel
  exact hall ⟨m, h⟩

/-- Setting the sign bit of the word of a magnitude. -/
theorem modifyLast_leBytes {w m : Nat} (h : m < signBit (w + 1)) :
    (leBytes (w + 1) m).modifyLast (· ||| 0x80) = leBytes (w + 1) (m + signBit (w + 1)) := by
  rw [signBit_succ] at *
  have htop : m / 256 ^ w < 128 := by
    rw [Nat.div_lt_iff_lt_mul (by positivity)]
    exact h
  have hdiv : (m + 128 * 256 ^ w) / 256 ^ w = m / 256 ^ w + 128 := by
    rw [Nat.add_mul_div_right _ _ (by positivity)]
  rw [leBytes_concat, leBytes_concat, List.modifyLast_concat, hdiv, leBytes_add_mul_pow,
    Nat.mod_eq_of_lt (by omega), Nat.mod_eq_of_lt (by omega), toUInt8_or_sign htop]

/-- The SDK writes the script word of a number that fits, and refuses the others. -/
theorem encodeNum2Bin_eq (n : Int) (w : Nat) (label : String) :
    encodeNum2Bin n (w + 1) label =
      if Fits (w + 1) n then .ok (toHex (signedBytes (w + 1) n))
      else .error (.outOfRange label n (w + 1)) := by
  have hlimit : ((2 : Int) ^ (8 * (w + 1) - 1)) = (signBit (w + 1) : Nat) := by
    rw [signBit_succ]
    have hexp : 8 * (w + 1) - 1 = 7 + 8 * w := by omega
    rw [hexp, pow_add, pow_mul]
    push_cast
    norm_num
  unfold encodeNum2Bin
  simp only [hlimit, magnitudeLoop_eq]
  have hrange : (n ≥ (signBit (w + 1) : Nat) ∨ n ≤ -((signBit (w + 1) : Nat) : Int)) ↔
      ¬ Fits (w + 1) n := by
    unfold Fits
    omega
  rw [if_congr hrange rfl rfl]
  by_cases hfits : Fits (w + 1) n
  · rw [if_neg (not_not_intro hfits), if_pos hfits]
    unfold signedBytes signed
    split
    · rw [modifyLast_leBytes hfits]
    · rfl
  · rw [if_pos hfits, if_neg hfits]

end Runar.Sdk
