/-
  Decompiler/Disasm.lean --- the tokeniser of the decompiler.

  WHAT THIS FILE IS FOR.  `disasm.ts` cuts the bytes of a script into opcodes for the
  decompiler.  A push whose data ends behind the script is an error.
-/
import Runar.Testing.ScriptParser

set_option autoImplicit false

namespace Runar.Decompiler

open Script Logic Testing

structure Op where
  name : String
  byte : UInt8
  data : Option Bytes := none
  offset : Int
  size : Int
  deriving DecidableEq, Repr

/-- A push whose data starts `head` bytes behind its opcode; `what` and `unit` are the words
of its error. -/
def takePush (script : Bytes) (offset : Int) (name : String) (byte : UInt8) (head dataLen : Int)
    (what unit : String) : Except Thrown (Op × Option Int) :=
  let i := offset + head
  if i + dataLen > script.length then
    .error (.disasmError ("truncated " ++ what ++ " at offset " ++ toString offset ++ ": need " ++
      toString dataLen ++ unit ++ ", have " ++ toString (script.length - i)))
  else
    .ok ({ name, byte, data := some (slice script i (i + dataLen)), offset, size := head + dataLen },
      some (i + dataLen))

/-- The error of a push without all of its length bytes. -/
def noLength (name : String) (offset : Int) : Thrown :=
  .disasmError ("truncated " ++ name ++ " length at " ++ toString offset)

/-- One round of the loop: the opcode at a place, and where the loop goes on. -/
def disasmStep (script : Bytes) (offset : Int) : Except Thrown (Op × Option Int) :=
  match byteAt script offset with
  | none => .error noByte
  | some byte =>
      if byte = 0x00 then .ok ({ name := "OP_0", byte, offset, size := 1 }, some (offset + 1))
      else if 0x01 ≤ byte ∧ byte ≤ 0x4b then
        takePush script offset ("OP_PUSHBYTES_" ++ toString byte.toNat) byte 1 byte.toNat
          "direct push" " bytes"
      else if byte = 0x4c then
        if offset + 2 > script.length then .error (noLength "OP_PUSHDATA1" offset)
        else
          takePush script offset "OP_PUSHDATA1" byte 2 (numberAt script (offset + 1))
            "OP_PUSHDATA1 payload" ""
      else if byte = 0x4d then
        if offset + 3 > script.length then .error (noLength "OP_PUSHDATA2" offset)
        else
          takePush script offset "OP_PUSHDATA2" byte 3 (pushLen2 script (offset + 1))
            "OP_PUSHDATA2 payload" ""
      else if byte = 0x4e then
        if offset + 5 > script.length then .error (noLength "OP_PUSHDATA4" offset)
        else
          takePush script offset "OP_PUSHDATA4" byte 5 (pushLen4 script (offset + 1))
            "OP_PUSHDATA4 payload" ""
      else .ok ({ name := opcodeName byte, byte, offset, size := 1 }, some (offset + 1))

/-- `disassemble` ends with a result. -/
def Disassemble (script : Bytes) (result : Except Thrown (List Op)) : Prop :=
  Scans (disasmStep script) script.length 0 result

end Runar.Decompiler
