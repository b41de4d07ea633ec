/-
  Sdk/StateCodec.lean --- the state section, written from a record and read back.

  WHAT THIS FILE IS FOR.  A caller keeps the state of a contract in a record, an array
  property as a nested array.  `serializeState` flattens the arrays and writes every
  scalar; `deserializeState` reads the scalars at offsets of its own and groups them
  again.  Here both are on the values callers pass, of any type.

  LEFT OUT: the type names `int` and `bool`, which the compiler does not emit, and the
  keys a record inherits.  A field's type is given parsed.
-/
import Runar.Sdk.Contract

set_option autoImplicit false

namespace Runar.Sdk.Codec

open Script Artifact

/-! ## Types -/

/-- The outer dimensions of an array type. -/
def parseFixedArrayDims : FieldType → List Nat
  | .primitive _ => []
  | .fixedArray elementType length =>
      if length = 0 then [] else length :: parseFixedArrayDims elementType

inductive StateFieldEncoding where
  | num2binLe8 | bool1 | raw
  deriving DecidableEq, Repr

/-- The fixed widths, in bytes.  The types without one are framed. -/
def stateFieldWidths : PrimitiveType → Option (Nat × StateFieldEncoding)
  | .bigint => some (8, .num2binLe8)
  | .boolean => some (1, .bool1)
  | .PubKey => some (33, .raw)
  | .Addr | .Ripemd160 => some (20, .raw)
  | .Sha256 => some (32, .raw)
  | .Point => some (64, .raw)
  | _ => none

/-! ## Writing -/

/-- Whether a value counts as true. -/
def truthy : JsValue → Bool
  | .bigint n | .number n => n ≠ 0
  | .boolean b => b
  | .string text => text ≠ []
  | .emptySig | .array _ => true
  | .null | .undefined => false

/-- The number some digits in base ten are. -/
def parseDigits (text : HexText) : Option Int :=
  if text ≠ [] ∧ text.all Char.isDigit then
    some (text.foldl (fun n c => n * 10 + (c.toNat - '0'.toNat)) 0)
  else none

/-- `BigInt(text)` of an integer in base ten, with its sign. -/
def parseBigInt (text : HexText) : Except String Int :=
  let parsed := match text with
    | '-' :: digits => (parseDigits digits).map (-·)
    | '+' :: digits => parseDigits digits
    | [] => some 0
    | digits => parseDigits digits
  match parsed with
  | some n => .ok n
  | none => .error ("Cannot convert " ++ String.ofList text ++ " to a BigInt")

/-- The number a bigint field holds: a bigint, a text with the suffix of one, or what
`BigInt` makes of the value. -/
def toBigInt : JsValue → Except String Int
  | .bigint n | .number n => .ok n
  | .string text =>
      if text.getLast? = some 'n' then parseBigInt text.dropLast else parseBigInt text
  | .boolean b => .ok (cond b 1 0)
  | .array elements => parseBigInt (jsText (.array elements))
  | value => .error ("Cannot convert " ++ String.ofList (jsText value) ++ " to a BigInt")

/-- Encode a state field. -/
def encodeStateValue (value : JsValue) (type : PrimitiveType) (label : String) :
    Except String HexText :=
  match type with
  | .bigint => do
      let n ← toBigInt value
      (encodeNum2Bin n 8 label).mapError SerializeError.message
  | .boolean => .ok (cond (truthy value) ['0', '1'] ['0', '0'])
  | .PubKey | .Addr | .Ripemd160 | .Sha256 | .Point => .ok (jsText value)
  | _ => .ok (encodeText (jsText value))

/-- Flatten a nested array to its scalars. -/
def flattenNested : List Nat → JsValue → List JsValue
  | [], value => [value]
  | _ :: rest, .array elements => elements.flatMap (flattenNested rest)
  | dims, _ => List.replicate dims.prod .undefined

/-- Encode the elements of an array field from the `i`-th on: a scalar entry of the record
wins over the array. -/
def encodeElements (values : Record) (flatFromArr : List JsValue) (leafType : PrimitiveType) :
    Nat → List String → Except String HexText
  | _, [] => .ok []
  | i, synthName :: names => do
      let elem := (values synthName).getD ((flatFromArr[i]?).getD .undefined)
      let text ← encodeStateValue elem leafType synthName
      let rest ← encodeElements values flatFromArr leafType (i + 1) names
      .ok (text ++ rest)

/-- The scalars of an array entry, none of an entry that is no array. -/
def flatFromArr (type : FieldType) : JsValue → List JsValue
  | .array elements => flattenNested (parseFixedArrayDims type) (.array elements)
  | _ => []

/-- Encode one field. -/
def encodeField (values : Record) (field : StateField) : Except String HexText :=
  match field.shape with
  | .scalar type => encodeStateValue (values.get field.name) type field.name
  | .fixedArray elementType length syntheticNames =>
      encodeElements values
        (flatFromArr (.fixedArray elementType length) (values.get field.name))
        (unwrapFixedArrayLeaf (.fixedArray elementType length)) 0 syntheticNames

def encodeFields (values : Record) : List StateField → Except String HexText
  | [] => .ok []
  | field :: fields => do
      let text ← encodeField values field
      let rest ← encodeFields values fields
      .ok (text ++ rest)

/-- Serialize the values of the state fields, in the order of their indices. -/
def serializeState (fields : List StateField) (values : Record) : Except String HexText :=
  encodeFields values (fields.mergeSort fieldOrder)

/-! ## Reading -/

/-- `text.slice(start, stop)`: a negative place counts from the end. -/
def slice (text : HexText) (start stop : Int) : HexText :=
  let place (i : Int) : Nat := if i < 0 then (text.length + i).toNat else i.toNat
  (text.drop (place start)).take (place stop - place start)

/-- `parseInt(text, 16)` of at most two characters. -/
def parseHex : HexText → Option Nat
  | high :: low :: _ => parseByte high low
  | [digit] => hexDigit? digit
  | [] => none

/-- The bytes of a text. -/
def textBytes : HexText → List (Option Nat)
  | high :: low :: rest => parseByte high low :: textBytes rest
  | [digit] => [hexDigit? digit]
  | [] => []

/-- Decode a fixed-width sign-magnitude number. -/
def decodeNum2Bin (hex : HexText) : Except String Int :=
  match (textBytes hex).reverse with
  | [] => .ok 0
  | last :: front =>
      -- bit operations take a byte that is no number for zero
      let last := last.getD 0
      let negative := last &&& 0x80 ≠ 0
      match front.foldlM (fun result byte => byte.map fun b => result <<< 8 ||| b)
          (last &&& 0x7f) with
      | none =>
          .error ("The number NaN cannot be converted to a BigInt because it is not an integer")
      | some result => .ok (if result = 0 then 0 else if negative then -(result : Int) else result)

/-- Half a number of characters, as it is printed. -/
def half (chars : Int) : String :=
  toString (chars / 2) ++ if chars % 2 = 0 then "" else ".5"

/-- `chars` characters must be there. -/
def need (hex : HexText) (offset : Int) (label : String) (chars : Int) (what : String) :
    Except String Unit :=
  if offset + chars > hex.length then
    .error ("deserializeState: truncated state — field \"" ++ label ++ "\" " ++ what ++
      " runs past the end of the state section (needs " ++ half chars ++
      " byte(s) at offset " ++ half offset ++ ", only " ++ half (hex.length - offset) ++ " remain)")
  else .ok ()

/-- Four bytes, least first, as a signed word. -/
def int32 (b0 b1 b2 b3 : Nat) : Int :=
  let n := b0 ||| b1 <<< 8 ||| b2 <<< 16 ||| b3 <<< 24
  if n < 2 ^ 31 then n else n - 2 ^ 32

/-- The byte at a place past an offset, zero where there is none. -/
def byteAt (hex : HexText) (offset : Int) (place : Int) : Option Nat :=
  parseHex (slice hex (offset + place) (offset + place + 2))

/-- The payload of a push: `start` characters after the offset, `dataLen` long. -/
def payload (hex : HexText) (offset : Int) (label : String) (start dataLen : Int) (what : String) :
    Except String (HexText × Int) := do
  need hex offset label (start + dataLen) what
  .ok (slice hex (offset + start) (offset + start + dataLen), start + dataLen)

/-- Decode a framed field: its text, and how many characters it took. -/
def decodePushData (hex : HexText) (offset : Int) (label : String) :
    Except String (HexText × Int) := do
  need hex offset label 2 "push opcode"
  match byteAt hex offset 0 with
  | none =>
      .error ("deserializeState: field \"" ++ label ++ "\" — non-hex byte at offset " ++
        half offset ++ " in the state section")
  | some opcode =>
      if opcode ≤ 75 then payload hex offset label 2 (opcode * 2) "push payload"
      else if opcode = 0x4c then do
        need hex offset label 4 "OP_PUSHDATA1 length prefix"
        match byteAt hex offset 2 with
        -- the source goes on with a length that is no number, and refuses in the end
        | none => .error "deserializeState: NaN unexpected trailing byte(s)"
        | some len => payload hex offset label 4 (len * 2) "OP_PUSHDATA1 payload"
      else if opcode = 0x4d then do
        need hex offset label 6 "OP_PUSHDATA2 length prefix"
        let lo := (byteAt hex offset 2).getD 0
        let hi := (byteAt hex offset 4).getD 0
        payload hex offset label 6 ((lo ||| hi <<< 8 : Nat) * 2) "OP_PUSHDATA2 payload"
      else if opcode = 0x4e then do
        need hex offset label 10 "OP_PUSHDATA4 length prefix"
        let b0 := (byteAt hex offset 2).getD 0
        let b1 := (byteAt hex offset 4).getD 0
        let b2 := (byteAt hex offset 6).getD 0
        let b3 := (byteAt hex offset 8).getD 0
        payload hex offset label 10 (int32 b0 b1 b2 b3 * 2) "OP_PUSHDATA4 payload"
      else
        .error ("deserializeState: field \"" ++ label ++ "\" — byte 0x" ++
          String.ofList (hexNumber opcode) ++ " at offset " ++ half offset ++
          " is not a push opcode; the state section is malformed")

/-- The name a type has in the artifact. -/
def typeName (type : PrimitiveType) : String := (toString (repr type)).splitOn "." |>.getLastD ""

/-- Decode one scalar: its value, and how many characters it took. -/
def decodeStateValue (hex : HexText) (offset : Int) (type : PrimitiveType) (label : String) :
    Except String (JsValue × Int) :=
  match stateFieldWidths type with
  | some (size, encoding) =>
      let hexWidth : Int := size * 2
      if offset + hexWidth > hex.length then
        .error ("deserializeState: truncated state — field \"" ++ label ++ "\" (" ++
          typeName type ++ ") needs " ++ toString size ++ " byte(s) at offset " ++ half offset ++
          " but only " ++ half (hex.length - offset) ++ " byte(s) remain")
      else
        let data := slice hex offset (offset + hexWidth)
        match encoding with
        | .bool1 => .ok (.boolean (data ≠ ['0', '0']), hexWidth)
        | .num2binLe8 => do
            let n ← decodeNum2Bin data
            .ok (.bigint n, hexWidth)
        | .raw => .ok (.string data, hexWidth)
  | none => do
      let (data, bytesRead) ← decodePushData hex offset label
      .ok (.string data, bytesRead)

/-- Rebuild a nested array from its scalars: the elements, and how many scalars they took. -/
def regroupNested (flat : List JsValue) : List Nat → Nat → List JsValue × Nat
  | [], _ => ([], 0)
  | [outerLen], offset =>
      ((List.range outerLen).map fun i => (flat[offset + i]?).getD .undefined, outerLen)
  | outerLen :: next :: rest, offset =>
      (List.range outerLen).foldl (fun (value, consumed) _ =>
        let sub := regroupNested flat (next :: rest) (offset + consumed)
        (value ++ [.array sub.1], consumed + sub.2)) ([], 0)

/-- Decode the elements of an array field, `count` of them from the `i`-th on. -/
def decodeElements (hex : HexText) (leafType : PrimitiveType) (name : String) :
    Nat → Nat → Int → Except String (List JsValue × Int)
  | 0, _, offset => .ok ([], offset)
  | count + 1, i, offset => do
      let (value, bytesRead) ← decodeStateValue hex offset leafType
        (name ++ "[" ++ toString i ++ "]")
      let (rest, offset) ← decodeElements hex leafType name count (i + 1) (offset + bytesRead)
      .ok (value :: rest, offset)

/-- Decode one field: its value, and the offset after it. -/
def decodeField (hex : HexText) (offset : Int) (field : StateField) :
    Except String (JsValue × Int) :=
  match field.shape with
  | .scalar type => do
      let (value, bytesRead) ← decodeStateValue hex offset type field.name
      .ok (value, offset + bytesRead)
  | .fixedArray elementType length syntheticNames => do
      let (flat, offset) ← decodeElements hex
        (unwrapFixedArrayLeaf (.fixedArray elementType length)) field.name
        syntheticNames.length 0 offset
      .ok (.array (regroupNested flat (parseFixedArrayDims (.fixedArray elementType length)) 0).1,
        offset)

def decodeFields (hex : HexText) : List StateField → Record → Int → Except String (Record × Int)
  | [], result, offset => .ok (result, offset)
  | field :: fields, result, offset => do
      let (value, offset) ← decodeField hex offset field
      decodeFields hex fields (result.set field.name value) offset

/-- Read the values of the state fields back. -/
def deserializeState (fields : List StateField) (scriptHex : HexText) : Except String Record :=
  if scriptHex.length % 2 ≠ 0 then
    .error ("deserializeState: state blob is " ++ toString scriptHex.length ++
      " hex chars — not a whole number of bytes")
  else do
    let (result, offset) ← decodeFields scriptHex (fields.mergeSort fieldOrder)
      (fun _ => none) 0
    if offset ≠ scriptHex.length then
      .error ("deserializeState: " ++ half (scriptHex.length - offset) ++
        " unexpected trailing byte(s) after the last state field (consumed " ++ half offset ++
        " of " ++ half scriptHex.length ++ " bytes) — the state section does not match the " ++
        "artifact's stateFields")
    else .ok result

end Runar.Sdk.Codec
