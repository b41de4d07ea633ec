/-
  Testing/ScriptParser.lean --- the tokeniser of the script analyser.

  WHAT THIS FILE IS FOR.  `analyzer/script-parser.ts` cuts the bytes of a script into
  opcodes.  A push whose data ends behind the script has what there is of it.  The names
  are those of `vm/opcodes.ts`.
-/
import Runar.Logic.Scan
import Runar.Sdk.StateRoundTrip

set_option autoImplicit false

namespace Runar.Testing

open Script Logic
open Sdk.Codec (int32 or_shiftLeft)

/-! ## Opcodes -/

/-- The members of the enumeration, in its order. -/
def Opcode : List (Nat × String) :=
  [(0x00, "OP_0"), (0x00, "OP_FALSE"), (0x4c, "OP_PUSHDATA1"), (0x4d, "OP_PUSHDATA2"),
   (0x4e, "OP_PUSHDATA4"), (0x4f, "OP_1NEGATE"), (0x51, "OP_1"), (0x51, "OP_TRUE"),
   (0x52, "OP_2"), (0x53, "OP_3"), (0x54, "OP_4"), (0x55, "OP_5"), (0x56, "OP_6"), (0x57, "OP_7"),
   (0x58, "OP_8"), (0x59, "OP_9"), (0x5a, "OP_10"), (0x5b, "OP_11"), (0x5c, "OP_12"),
   (0x5d, "OP_13"), (0x5e, "OP_14"), (0x5f, "OP_15"), (0x60, "OP_16"), (0x61, "OP_NOP"),
   (0x63, "OP_IF"), (0x64, "OP_NOTIF"), (0x67, "OP_ELSE"), (0x68, "OP_ENDIF"),
   (0x69, "OP_VERIFY"), (0x6a, "OP_RETURN"), (0x6b, "OP_TOALTSTACK"), (0x6c, "OP_FROMALTSTACK"),
   (0x6d, "OP_2DROP"), (0x6e, "OP_2DUP"), (0x6f, "OP_3DUP"), (0x70, "OP_2OVER"),
   (0x71, "OP_2ROT"), (0x72, "OP_2SWAP"), (0x73, "OP_IFDUP"), (0x74, "OP_DEPTH"),
   (0x75, "OP_DROP"), (0x76, "OP_DUP"), (0x77, "OP_NIP"), (0x78, "OP_OVER"), (0x79, "OP_PICK"),
   (0x7a, "OP_ROLL"), (0x7b, "OP_ROT"), (0x7c, "OP_SWAP"), (0x7d, "OP_TUCK"), (0x7e, "OP_CAT"),
   (0x7f, "OP_SPLIT"), (0x80, "OP_NUM2BIN"), (0x81, "OP_BIN2NUM"), (0x82, "OP_SIZE"),
   (0x83, "OP_INVERT"), (0x84, "OP_AND"), (0x85, "OP_OR"), (0x86, "OP_XOR"), (0x87, "OP_EQUAL"),
   (0x88, "OP_EQUALVERIFY"), (0x8b, "OP_1ADD"), (0x8c, "OP_1SUB"), (0x8f, "OP_NEGATE"),
   (0x90, "OP_ABS"), (0x91, "OP_NOT"), (0x92, "OP_0NOTEQUAL"), (0x93, "OP_ADD"), (0x94, "OP_SUB"),
   (0x95, "OP_MUL"), (0x96, "OP_DIV"), (0x97, "OP_MOD"), (0x98, "OP_LSHIFT"), (0x99, "OP_RSHIFT"),
   (0x9a, "OP_BOOLAND"), (0x9b, "OP_BOOLOR"), (0x9c, "OP_NUMEQUAL"), (0x9d, "OP_NUMEQUALVERIFY"),
   (0x9e, "OP_NUMNOTEQUAL"), (0x9f, "OP_LESSTHAN"), (0xa0, "OP_GREATERTHAN"),
   (0xa1, "OP_LESSTHANOREQUAL"), (0xa2, "OP_GREATERTHANOREQUAL"), (0xa3, "OP_MIN"),
   (0xa4, "OP_MAX"), (0xa5, "OP_WITHIN"), (0xa6, "OP_RIPEMD160"), (0xa7, "OP_SHA1"),
   (0xa8, "OP_SHA256"), (0xa9, "OP_HASH160"), (0xaa, "OP_HASH256"), (0xab, "OP_CODESEPARATOR"),
   (0xac, "OP_CHECKSIG"), (0xad, "OP_CHECKSIGVERIFY"), (0xae, "OP_CHECKMULTISIG"),
   (0xaf, "OP_CHECKMULTISIGVERIFY")]

def opcodeName (byte : UInt8) : String :=
  if byte = 0x00 then "OP_0"
  else if byte = 0x51 then "OP_1"
  else
    match Opcode.find? (·.1 = byte.toNat) with
    | some (_, name) => name
    | none => "OP_UNKNOWN(0x" ++ String.ofList (hexNumber byte.toNat) ++ ")"

/-! ## Bytes of a script -/

/-- `script[i]`: at a place before the script there is none. -/
def byteAt (script : Bytes) (i : Int) : Option UInt8 := if i < 0 then none else script[i.toNat]?

/-- `script.slice(start, stop)`: a negative place counts from the end. -/
def slice (script : Bytes) (start stop : Int) : Bytes :=
  let place (i : Int) : Nat := if i < 0 then (script.length + i).toNat else i.toNat
  (script.drop (place start)).take (place stop - place start)

/-- The byte at a place, as a number.  Bit operations take what is undefined for zero. -/
def numberAt (script : Bytes) (i : Int) : Nat := ((byteAt script i).map UInt8.toNat).getD 0

/-- The length after an OP_PUSHDATA2, from a place on. -/
def pushLen2 (script : Bytes) (i : Int) : Nat := numberAt script i ||| numberAt script (i + 1) <<< 8

/-- The length after an OP_PUSHDATA4, from a place on: a signed word. -/
def pushLen4 (script : Bytes) (i : Int) : Int :=
  int32 (numberAt script i) (numberAt script (i + 1)) (numberAt script (i + 2))
    (numberAt script (i + 3))

/-- What is thrown. -/
inductive Thrown where
  | typeError (message : String)
  | disasmError (message : String)
  deriving DecidableEq, Repr

/-- `opcodeName` calls a method of the byte, and throws where there is none. -/
def noByte : Thrown := .typeError "Cannot read properties of undefined (reading 'toString')"

/-! ## The parser -/

inductive PushEncoding where
  | direct
  | pushdata1
  | pushdata2
  | pushdata4
  | opN
  deriving DecidableEq, Repr

structure ParsedOpcode where
  offset : Int
  opcode : UInt8
  name : String
  data : Option Bytes := none
  size : Int
  pushEncoding : Option PushEncoding := none
  dataLength : Option Int := none
  deriving DecidableEq, Repr

/-- A push whose data starts `head` bytes behind its opcode. -/
def parsePush (script : Bytes) (startOffset : Int) (opcode : UInt8) (name : String)
    (pushEncoding : PushEncoding) (head dataLen : Int) : ParsedOpcode × Option Int :=
  let i := startOffset + head
  let available := min dataLen (script.length - i)
  ({ offset := startOffset, opcode, name, data := some (slice script i (i + available)),
     size := head + available, pushEncoding := some pushEncoding, dataLength := some dataLen },
    some (i + available))

/-- A push without all of its length bytes, behind which the loop breaks off. -/
def truncatedPush (startOffset : Int) (opcode : UInt8) (name : String)
    (pushEncoding : PushEncoding) (size : Int) : ParsedOpcode × Option Int :=
  ({ offset := startOffset, opcode, name, size, pushEncoding := some pushEncoding,
     dataLength := some 0 }, none)

/-- One round of the loop: the opcode at a place, and where the loop goes on. -/
def parseStep (script : Bytes) (startOffset : Int) :
    Except Thrown (ParsedOpcode × Option Int) :=
  let next := some (startOffset + 1)
  match byteAt script startOffset with
  | none => .error noByte
  | some byte =>
      if byte = 0x00 then
        .ok ({ offset := startOffset, opcode := byte, name := "OP_0", size := 1,
               pushEncoding := some .opN, dataLength := some 0 }, next)
      else if 0x01 ≤ byte ∧ byte ≤ 0x4b then
        .ok (parsePush script startOffset byte ("PUSH_" ++ toString byte.toNat) .direct 1
          byte.toNat)
      else if byte = 0x4c then
        if startOffset + 1 ≥ script.length then
          .ok (truncatedPush startOffset byte "OP_PUSHDATA1" .pushdata1 1)
        else
          .ok (parsePush script startOffset byte "OP_PUSHDATA1" .pushdata1 2
            (numberAt script (startOffset + 1)))
      else if byte = 0x4d then
        if startOffset + 2 ≥ script.length then
          .ok (truncatedPush startOffset byte "OP_PUSHDATA2" .pushdata2
            (script.length - startOffset))
        else
          .ok (parsePush script startOffset byte "OP_PUSHDATA2" .pushdata2 3
            (pushLen2 script (startOffset + 1)))
      else if byte = 0x4e then
        if startOffset + 4 ≥ script.length then
          .ok (truncatedPush startOffset byte "OP_PUSHDATA4" .pushdata4
            (script.length - startOffset))
        else
          .ok (parsePush script startOffset byte "OP_PUSHDATA4" .pushdata4 5
            (pushLen4 script (startOffset + 1)))
      else if byte = 0x4f then
        .ok ({ offset := startOffset, opcode := byte, name := "OP_1NEGATE", size := 1,
               pushEncoding := some .opN, dataLength := some 0 }, next)
      else if 0x51 ≤ byte ∧ byte ≤ 0x60 then
        .ok ({ offset := startOffset, opcode := byte, name := opcodeName byte, size := 1,
               pushEncoding := some .opN, dataLength := some 0 }, next)
      else
        .ok ({ offset := startOffset, opcode := byte, name := opcodeName byte, size := 1 }, next)

/-- `parseScriptBytes` ends with a result. -/
def ParseScriptBytes (script : Bytes) (result : Except Thrown (List ParsedOpcode)) : Prop :=
  Scans (parseStep script) script.length 0 result

end Runar.Testing
