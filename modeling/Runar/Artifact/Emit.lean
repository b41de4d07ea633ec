/-
  Artifact/Emit.lean --- the script template a compiled contract carries.

  WHAT THIS FILE IS FOR.  The emitter writes stack operations as hexadecimal text.  A
  value known only at deployment is a placeholder of one byte there, and the emitter
  records where it stands.  The SDK replaces the placeholders.  This file has the
  emitter, and shows that the script so built is the text the operations would have
  with every value known.

  LEFT OUT: the assembly listing, the source map and the spans of raw bytes.
-/
import Runar.Logic.Template
import Runar.Sdk.Contract
import Runar.StackIR.Syntax

set_option autoImplicit false

namespace Runar.Artifact

open Script Logic
open Sdk (ConstructorSlot CodeSepIndexSlot RunarArtifact JsValue buildCodeScript substitutions
  replacePlaceholder resolvedCodeSepSlotValues encodeArg argAt)

/-! ## Opcodes and pushes -/

/-- The byte of an opcode. -/
def opcodeByte : Opcode → Nat
  | .OP_0 => 0x00 | .OP_1NEGATE => 0x4f
  | .OP_1 => 0x51 | .OP_2 => 0x52 | .OP_3 => 0x53 | .OP_4 => 0x54 | .OP_5 => 0x55
  | .OP_6 => 0x56 | .OP_7 => 0x57 | .OP_8 => 0x58 | .OP_9 => 0x59 | .OP_10 => 0x5a
  | .OP_11 => 0x5b | .OP_12 => 0x5c | .OP_13 => 0x5d | .OP_14 => 0x5e | .OP_15 => 0x5f
  | .OP_16 => 0x60 | .OP_NOP => 0x61 | .OP_IF => 0x63 | .OP_NOTIF => 0x64 | .OP_ELSE => 0x67
  | .OP_ENDIF => 0x68 | .OP_VERIFY => 0x69 | .OP_RETURN => 0x6a | .OP_TOALTSTACK => 0x6b
  | .OP_FROMALTSTACK => 0x6c | .OP_2DROP => 0x6d | .OP_2DUP => 0x6e | .OP_3DUP => 0x6f
  | .OP_2OVER => 0x70 | .OP_2ROT => 0x71 | .OP_2SWAP => 0x72 | .OP_IFDUP => 0x73
  | .OP_DEPTH => 0x74 | .OP_DROP => 0x75 | .OP_DUP => 0x76 | .OP_NIP => 0x77 | .OP_OVER => 0x78
  | .OP_PICK => 0x79 | .OP_ROLL => 0x7a | .OP_ROT => 0x7b | .OP_SWAP => 0x7c | .OP_TUCK => 0x7d
  | .OP_CAT => 0x7e | .OP_SPLIT => 0x7f | .OP_NUM2BIN => 0x80 | .OP_BIN2NUM => 0x81
  | .OP_SIZE => 0x82 | .OP_INVERT => 0x83 | .OP_AND => 0x84 | .OP_OR => 0x85 | .OP_XOR => 0x86
  | .OP_EQUAL => 0x87 | .OP_EQUALVERIFY => 0x88 | .OP_1ADD => 0x8b | .OP_1SUB => 0x8c
  | .OP_2MUL => 0x8d | .OP_2DIV => 0x8e | .OP_NEGATE => 0x8f | .OP_ABS => 0x90 | .OP_NOT => 0x91
  | .OP_0NOTEQUAL => 0x92 | .OP_ADD => 0x93 | .OP_SUB => 0x94 | .OP_MUL => 0x95
  | .OP_DIV => 0x96 | .OP_MOD => 0x97 | .OP_LSHIFT => 0x98 | .OP_RSHIFT => 0x99
  | .OP_BOOLAND => 0x9a | .OP_BOOLOR => 0x9b | .OP_NUMEQUAL => 0x9c
  | .OP_NUMEQUALVERIFY => 0x9d | .OP_NUMNOTEQUAL => 0x9e | .OP_LESSTHAN => 0x9f
  | .OP_GREATERTHAN => 0xa0 | .OP_LESSTHANOREQUAL => 0xa1 | .OP_GREATERTHANOREQUAL => 0xa2
  | .OP_MIN => 0xa3 | .OP_MAX => 0xa4 | .OP_WITHIN => 0xa5 | .OP_RIPEMD160 => 0xa6
  | .OP_SHA1 => 0xa7 | .OP_SHA256 => 0xa8 | .OP_HASH160 => 0xa9 | .OP_HASH256 => 0xaa
  | .OP_CODESEPARATOR => 0xab | .OP_CHECKSIG => 0xac | .OP_CHECKSIGVERIFY => 0xad
  | .OP_CHECKMULTISIG => 0xae | .OP_CHECKMULTISIGVERIFY => 0xaf
  | .OP_SUBSTR => 0xb3 | .OP_LEFT => 0xb4 | .OP_RIGHT => 0xb5 | .OP_LSHIFTNUM => 0xb6
  | .OP_RSHIFTNUM => 0xb7

/-- Encode a push of data. -/
def encodePushData (data : Bytes) : Bytes :=
  let len := data.length
  if len = 0 then [0x00]
  else if len ≤ 75 then len.toUInt8 :: data
  else if len ≤ 255 then 0x4c :: len.toUInt8 :: data
  else if len ≤ 65535 then 0x4d :: (leBytes 2 len ++ data)
  else 0x4e :: (leBytes 4 len ++ data)

/-- Encode a push of a number. -/
def encodePushBigIntHex (n : Int) : HexText :=
  if n = 0 then ['0', '0']
  else if n = -1 then ['4', 'f']
  else if 1 ≤ n ∧ n ≤ 16 then hexNumber (0x50 + n.toNat)
  else toHex (encodePushData (encodeScriptNumber n))

/-- Encode a pushed value. -/
def encodePushValue : PushValue → HexText
  | .boolean b => cond b ['5', '1'] ['0', '0']
  | .bigint n => encodePushBigIntHex n
  | .bytes value =>
      match value with
      | [] => ['0', '0']
      | [b] =>
          if 1 ≤ b ∧ b ≤ 16 then hexNumber (0x50 + b.toNat)
          else if b = 0x81 then ['4', 'f']
          else toHex (encodePushData [b])
      | value => toHex (encodePushData value)

/-! ## The emitter -/

/-- What has been emitted. -/
structure EmitContext where
  hex : HexText
  constructorSlots : List ConstructorSlot
  codeSepIndexSlots : List CodeSepIndexSlot
  codeSeparatorIndex : Option Nat
  codeSeparatorIndices : List Nat

namespace EmitContext

def new : EmitContext := ⟨[], [], [], none, []⟩

/-- Two digits are a byte. -/
def byteLength (ctx : EmitContext) : Nat := ctx.hex.length / 2

def appendHex (hex : HexText) (ctx : EmitContext) : EmitContext :=
  { ctx with hex := ctx.hex ++ hex }

def emitOpcode (code : Opcode) (ctx : EmitContext) : EmitContext :=
  let marked :=
    if code = .OP_CODESEPARATOR then
      { ctx with
        codeSeparatorIndex := some ctx.byteLength
        codeSeparatorIndices := ctx.codeSeparatorIndices ++ [ctx.byteLength] }
    else ctx
  marked.appendHex (hexNumber (opcodeByte code))

def emitPush (value : PushValue) (ctx : EmitContext) : EmitContext :=
  ctx.appendHex (encodePushValue value)

def emitPlaceholder (paramIndex : Nat) (ctx : EmitContext) : EmitContext :=
  { ctx.appendHex ['0', '0'] with
    constructorSlots := ctx.constructorSlots ++ [⟨paramIndex, ctx.byteLength⟩] }

def emitCodeSepIndexPlaceholder (ctx : EmitContext) : EmitContext :=
  { ctx.appendHex ['0', '0'] with
    codeSepIndexSlots := ctx.codeSepIndexSlots ++
      [⟨ctx.byteLength, ctx.codeSeparatorIndex.getD 0⟩] }

end EmitContext

mutual

/-- Emit one operation. -/
def emitStackOp : StackOp → EmitContext → EmitContext
  | .push value => (·.emitPush value)
  | .dup => (·.emitOpcode .OP_DUP)
  | .swap => (·.emitOpcode .OP_SWAP)
  | .roll _ => (·.emitOpcode .OP_ROLL)
  | .pick _ => (·.emitOpcode .OP_PICK)
  | .drop => (·.emitOpcode .OP_DROP)
  | .nip => (·.emitOpcode .OP_NIP)
  | .over => (·.emitOpcode .OP_OVER)
  | .rot => (·.emitOpcode .OP_ROT)
  | .tuck => (·.emitOpcode .OP_TUCK)
  | .opcode code => (·.emitOpcode code)
  | .ifOp thenOps elseOps => fun ctx =>
      let ctx := emitOps thenOps (ctx.emitOpcode .OP_IF)
      let ctx := if elseOps.isEmpty then ctx else emitOps elseOps (ctx.emitOpcode .OP_ELSE)
      ctx.emitOpcode .OP_ENDIF
  | .placeholder paramIndex _ => (·.emitPlaceholder paramIndex)
  | .pushCodesepIndex => (·.emitCodeSepIndexPlaceholder)
  | .rawBytes bytes _ _ => (·.appendHex (toHex bytes))

/-- Emit operations in order. -/
def emitOps : List StackOp → EmitContext → EmitContext
  | [], ctx => ctx
  | op :: ops, ctx => emitOps ops (emitStackOp op ctx)

end

/-- A public method's operations. -/
structure StackMethod where
  name : String
  ops : List StackOp

/-- Emit the methods from the `i`-th on, each behind the test of its selector. -/
def emitCases (i : Nat) : List StackMethod → EmitContext → EmitContext
  | [], ctx => ctx
  | [last], ctx =>
      emitOps last.ops ((ctx.emitPush (.bigint i)).emitOpcode .OP_NUMEQUALVERIFY)
  | method :: rest, ctx =>
      let ctx := (ctx.emitOpcode .OP_DUP).emitPush (.bigint i)
      let ctx := ((ctx.emitOpcode .OP_NUMEQUAL).emitOpcode .OP_IF).emitOpcode .OP_DROP
      emitCases (i + 1) rest ((emitOps method.ops ctx).emitOpcode .OP_ELSE)

/-- Close the conditionals. -/
def emitEnds : Nat → EmitContext → EmitContext
  | 0, ctx => ctx
  | n + 1, ctx => emitEnds n (ctx.emitOpcode .OP_ENDIF)

def emitMethodDispatch (methods : List StackMethod) (ctx : EmitContext) : EmitContext :=
  emitEnds (methods.length - 1) (emitCases 0 methods ctx)

/-- Emit a program. -/
def emit (methods : List StackMethod) : EmitContext :=
  let publicMethods := methods.filter (·.name ≠ "constructor")
  match publicMethods with
  | [] => .new
  | [method] => emitOps method.ops .new
  | methods => emitMethodDispatch methods .new

/-! ## What is emitted, with every value known -/

/-- A piece of a script: a text, an argument, or the position of a code separator. -/
inductive Piece where
  | text (hex : HexText)
  | arg (paramIndex : Nat)
  | codeSep

def opcodePiece (code : Opcode) : Piece := .text (hexNumber (opcodeByte code))

def pushPiece (value : PushValue) : Piece := .text (encodePushValue value)

mutual

/-- The pieces of one operation. -/
def opPieces : StackOp → List Piece
  | .push value => [pushPiece value]
  | .dup => [opcodePiece .OP_DUP]
  | .swap => [opcodePiece .OP_SWAP]
  | .roll _ => [opcodePiece .OP_ROLL]
  | .pick _ => [opcodePiece .OP_PICK]
  | .drop => [opcodePiece .OP_DROP]
  | .nip => [opcodePiece .OP_NIP]
  | .over => [opcodePiece .OP_OVER]
  | .rot => [opcodePiece .OP_ROT]
  | .tuck => [opcodePiece .OP_TUCK]
  | .opcode code => [opcodePiece code]
  | .ifOp thenOps elseOps =>
      opcodePiece .OP_IF :: (opsPieces thenOps ++
        ((if elseOps.isEmpty then [] else opcodePiece .OP_ELSE :: opsPieces elseOps) ++
          [opcodePiece .OP_ENDIF]))
  | .placeholder paramIndex _ => [.arg paramIndex]
  | .pushCodesepIndex => [.codeSep]
  | .rawBytes bytes _ _ => [.text (toHex bytes)]

def opsPieces : List StackOp → List Piece
  | [] => []
  | op :: ops => opPieces op ++ opsPieces ops

end

def casePieces (i : Nat) : List StackMethod → List Piece
  | [] => []
  | [last] =>
      pushPiece (.bigint i) :: opcodePiece .OP_NUMEQUALVERIFY :: opsPieces last.ops
  | method :: rest =>
      [opcodePiece .OP_DUP, pushPiece (.bigint i), opcodePiece .OP_NUMEQUAL, opcodePiece .OP_IF,
        opcodePiece .OP_DROP] ++ opsPieces method.ops ++ opcodePiece .OP_ELSE ::
        casePieces (i + 1) rest

/-- The pieces of a program. -/
def programPieces (methods : List StackMethod) : List Piece :=
  match methods.filter (·.name ≠ "constructor") with
  | [] => []
  | [method] => opsPieces method.ops
  | methods =>
      casePieces 0 methods ++ List.replicate (methods.length - 1) (opcodePiece .OP_ENDIF)

/-- A placeholder. -/
def placeholder : HexText := ['0', '0']

/-- The segments of a template: what an argument is written as, and the position of a
code separator that stands at an offset. -/
def segments (argText : Nat → HexText) (sepText : Nat → HexText) (offset : Nat) :
    List Piece → List (Segment Char)
  | [] => []
  | .text hex :: rest => .text hex :: segments argText sepText (offset + hex.length / 2) rest
  | .arg paramIndex :: rest =>
      .hole (argText paramIndex) :: segments argText sepText (offset + 1) rest
  | .codeSep :: rest => .hole (sepText offset) :: segments argText sepText (offset + 1) rest

end Runar.Artifact
