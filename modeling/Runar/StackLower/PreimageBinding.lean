/-
  StackLower/PreimageBinding.lean --- the script that binds a preimage to its
  transaction.

  WHAT THIS FILE IS FOR.  `checkPreimage` must accept only the preimage of the
  spending transaction.  The script derives a signature from the preimage itself, with
  the private key 1 and the nonce 2, and checks it against the generator: the check can
  pass only if the digest of the transaction is the hash of the preimage.  This file has
  the emitter, what its code computes, and what the check says.
-/
import Runar.StackIR.RunsAs
import Runar.Crypto.Secp256k1
import Runar.Crypto.Der

set_option autoImplicit false

namespace Runar.StackLower

open Script Crypto

/-! ## The tracker -/

/-- The emitter's view of the stack, bottom first, and what it has emitted. -/
structure ECTracker where
  nm : List (Option String)
  ops : List StackOp

/-- The emitter.  It stops where a name is not on the stack. -/
abbrev Tracker : Type → Type := StateT ECTracker (Except String)

namespace Tracker

/-- Emit operations in order. -/
def emitAll (ops : List StackOp) : Tracker Unit := modify fun t => { t with ops := t.ops ++ ops }

def emit (op : StackOp) : Tracker Unit := emitAll [op]

def pushName (name : Option String) : Tracker Unit :=
  modify fun t => { t with nm := t.nm ++ [name] }

def popName : Tracker Unit := modify fun t => { t with nm := t.nm.dropLast }

/-- How far a name is from the top. -/
def findDepth (name : String) : Tracker Nat := do
  let t ← get
  match t.nm.reverse.findIdx? (· = some name) with
  | some depth => pure depth
  | none => throw ("ECTracker: '" ++ name ++ "' not on stack")

def pushBytes (name : String) (value : Bytes) : Tracker Unit := do
  emit (.push (.bytes value))
  pushName (some name)

def pushInt (name : String) (value : Int) : Tracker Unit := do
  emit (.push (.bigint value))
  pushName (some name)

/-- Move the name at a distance from the top to the top. -/
def raiseName (depth : Nat) : Tracker Unit :=
  modify fun t =>
    let idx := t.nm.length - 1 - depth
    { t with nm := t.nm.eraseIdx idx ++ [(t.nm[idx]?).getD none] }

def roll (depth : Nat) : Tracker Unit :=
  match depth with
  | 0 => pure ()
  | 1 => do emit .swap; raiseName 1
  | 2 => do emit .rot; raiseName 2
  | d => do emit (.push (.bigint d)); emit (.roll d); raiseName d

def pick (depth : Nat) (name : String) : Tracker Unit := do
  match depth with
  | 0 => emit .dup
  | 1 => emit .over
  | d => do emit (.push (.bigint d)); emit (.pick d)
  pushName (some name)

def toTop (name : String) : Tracker Unit := do
  let depth ← findDepth name
  roll depth

def copyToTop (name copy : String) : Tracker Unit := do
  let depth ← findDepth name
  pick depth copy

def fromAlt (name : String) : Tracker Unit := do
  emit (.opcode .OP_FROMALTSTACK)
  pushName (some name)

/-- Operations of which only the net effect is tracked. -/
def rawBlock (consume : List String) (produce : Option String) (ops : List StackOp) :
    Tracker Unit := do
  consume.forM fun _ => popName
  emitAll ops
  match produce with
  | some name => pushName (some name)
  | none => pure ()

end Tracker

open Tracker

/-! ## The constants -/

/-- Half the order. -/
def halfOrder : Nat := 0x7fffffffffffffffffffffffffffffff5d576e7357a4501ddfe92f46681b20a0

/-- The coordinate of twice the generator. -/
def rConst : Nat := 0xc6047f9441ed7d6d3045406e95c07cd85c778e4b8cef3ca7abac09b95c709ee5

/-- The inverse of the nonce. -/
def kInv : Nat := 0x7fffffffffffffffffffffffffffffff5d576e7357a4501ddfe92f46681b20a1

/-- The encoded `r`. -/
def rDer : Bytes :=
  [0x02, 0x21, 0x00,
   0xc6, 0x04, 0x7f, 0x94, 0x41, 0xed, 0x7d, 0x6d,
   0x30, 0x45, 0x40, 0x6e, 0x95, 0xc0, 0x7c, 0xd8,
   0x5c, 0x77, 0x8e, 0x4b, 0x8c, 0xef, 0x3c, 0xa7,
   0xab, 0xac, 0x09, 0xb9, 0x5c, 0x70, 0x9e, 0xe5]

/-- The generator, compressed. -/
def gCompressed : Bytes :=
  [0x02, 0x79, 0xbe, 0x66, 0x7e, 0xf9, 0xdc, 0xbb,
   0xac, 0x55, 0xa0, 0x62, 0x95, 0xce, 0x87, 0x0b,
   0x07, 0x02, 0x9b, 0xfc, 0xdb, 0x2d, 0xce, 0x28,
   0xd9, 0x59, 0xf2, 0x81, 0x5b, 0x16, 0xf8, 0x17, 0x98]

/-! ## The emitter -/

/-- One round of the reversal: the first byte of the rest, in front of what was
gathered. -/
def reverseRound : List StackOp :=
  [.push (.bigint 1), .opcode .OP_SPLIT, .rot, .rot, .swap, .opcode .OP_CAT, .swap]

/-- Reverse a byte string of a fixed length. -/
def emitReverseN (n : Nat) : List StackOp :=
  [.opcode .OP_0, .swap] ++ (List.replicate n reverseRound).flatten ++ [.drop]

/-- The remainder by the order, made non-negative. -/
def modN (aName resultName : String) : Tracker Unit := do
  toTop aName
  pushInt "_ppt_modn" curveOrder
  rawBlock [aName, "_ppt_modn"] (some resultName)
    [.opcode .OP_2DUP, .opcode .OP_MOD, .rot, .drop, .over, .opcode .OP_ADD, .swap,
     .opcode .OP_MOD]

/-- Emit the check.  The preimage is on top of the stack, before and after. -/
def bindPreimage (sighashFlag : Nat) : Tracker Unit := do
  -- the hash of the preimage as a positive number
  copyToTop "preimage" "_ppt_pi"
  rawBlock ["_ppt_pi"] (some "_ppt_z")
    ([.opcode .OP_HASH256] ++ emitReverseN 32 ++
      [.push (.bytes [0x00]), .opcode .OP_CAT, .opcode .OP_BIN2NUM])
  -- s0 = (z + r) * kinv
  pushInt "_ppt_r" rConst
  rawBlock ["_ppt_z", "_ppt_r"] (some "_ppt_zr") [.opcode .OP_ADD]
  pushInt "_ppt_kinv" kInv
  rawBlock ["_ppt_zr", "_ppt_kinv"] (some "_ppt_s0") [.opcode .OP_MUL]
  -- s = s0 mod n
  modN "_ppt_s0" "_ppt_s"
  -- low s: s - (s > n/2) * (2s - n)
  copyToTop "_ppt_s" "_ppt_s_hi"
  pushInt "_ppt_nh" halfOrder
  rawBlock ["_ppt_s_hi", "_ppt_nh"] (some "_ppt_hi") [.opcode .OP_GREATERTHAN]
  copyToTop "_ppt_s" "_ppt_s_d"
  pushInt "_ppt_n1" curveOrder
  rawBlock ["_ppt_s_d", "_ppt_n1"] (some "_ppt_delta")
    [.swap, .opcode .OP_2MUL, .swap, .opcode .OP_SUB]
  rawBlock ["_ppt_hi", "_ppt_delta"] (some "_ppt_corr") [.opcode .OP_MUL]
  rawBlock ["_ppt_s", "_ppt_corr"] (some "_ppt_slow") [.opcode .OP_SUB]
  -- the content of s: the last SIZE(s) bytes of its 32 bytes, reversed
  toTop "_ppt_slow"
  emit (.opcode .OP_SIZE)
  pushName (some "_ppt_L")
  emit (.opcode .OP_TOALTSTACK)
  popName
  rawBlock ["_ppt_slow"] (some "_ppt_sbe")
    ([.push (.bigint 32), .opcode .OP_NUM2BIN] ++ emitReverseN 32)
  fromAlt "_ppt_L2"
  rawBlock ["_ppt_sbe", "_ppt_L2"] (some "_ppt_sc")
    [.push (.bigint 32), .swap, .opcode .OP_SUB, .opcode .OP_SPLIT, .nip]
  -- the encoded s
  copyToTop "_ppt_sc" "_ppt_sc_sz"
  rawBlock ["_ppt_sc_sz"] (some "_ppt_slen")
    [.opcode .OP_SIZE, .nip, .push (.bigint 1), .opcode .OP_NUM2BIN]
  rawBlock ["_ppt_sc", "_ppt_slen"] (some "_ppt_sder")
    [.push (.bytes [0x02]), .swap, .opcode .OP_CAT, .swap, .opcode .OP_CAT]
  -- the signature
  copyToTop "_ppt_sder" "_ppt_sder_sz"
  rawBlock ["_ppt_sder_sz"] (some "_ppt_totlen")
    [.opcode .OP_SIZE, .nip, .push (.bigint rDer.length), .opcode .OP_ADD, .push (.bigint 1),
     .opcode .OP_NUM2BIN]
  pushBytes "_ppt_rder" rDer
  rawBlock ["_ppt_sder", "_ppt_totlen", "_ppt_rder"] (some "_ppt_sig")
    [.push (.bytes [0x30]), .push (.bigint 2), .opcode .OP_ROLL, .opcode .OP_CAT, .swap,
     .opcode .OP_CAT, .swap, .opcode .OP_CAT, .push (.bytes [(sighashFlag &&& 0xff).toUInt8]),
     .opcode .OP_CAT]
  -- the check
  pushBytes "_ppt_G" gCompressed
  rawBlock ["_ppt_sig", "_ppt_G"] none [.opcode .OP_CHECKSIGVERIFY]

/-- The operations of the check. -/
def emitCheckPreimageBinding (sighashFlag : Nat) : Except String (List StackOp) :=
  ((bindPreimage sighashFlag).run { nm := [some "preimage"], ops := [] }).map (·.2.ops)

/-! ## The code, part by part -/

/-- The hash of the preimage as a number. -/
def hashPart : List StackOp :=
  [.dup, .opcode .OP_HASH256] ++ (emitReverseN 32 ++
    [.push (.bytes [0x00]), .opcode .OP_CAT, .opcode .OP_BIN2NUM])

/-- `s`, reduced. -/
def reducePart : List StackOp :=
  [.push (.bigint rConst), .opcode .OP_ADD, .push (.bigint kInv), .opcode .OP_MUL,
   .push (.bigint curveOrder), .opcode .OP_2DUP, .opcode .OP_MOD, .rot, .drop, .over,
   .opcode .OP_ADD, .swap, .opcode .OP_MOD]

/-- `s`, low. -/
def lowPart : List StackOp :=
  [.dup, .push (.bigint halfOrder), .opcode .OP_GREATERTHAN, .over, .push (.bigint curveOrder),
   .swap, .opcode .OP_2MUL, .swap, .opcode .OP_SUB, .opcode .OP_MUL, .opcode .OP_SUB]

/-- The content of `s`. -/
def contentPart : List StackOp :=
  [.opcode .OP_SIZE, .opcode .OP_TOALTSTACK, .push (.bigint 32), .opcode .OP_NUM2BIN] ++
    (emitReverseN 32 ++
      [.opcode .OP_FROMALTSTACK, .push (.bigint 32), .swap, .opcode .OP_SUB, .opcode .OP_SPLIT,
       .nip])

/-- The encoded `s`. -/
def integerPart : List StackOp :=
  [.dup, .opcode .OP_SIZE, .nip, .push (.bigint 1), .opcode .OP_NUM2BIN, .push (.bytes [0x02]),
   .swap, .opcode .OP_CAT, .swap, .opcode .OP_CAT]

/-- The signature with its flag. -/
def signaturePart (sighashFlag : Nat) : List StackOp :=
  [.dup, .opcode .OP_SIZE, .nip, .push (.bigint rDer.length), .opcode .OP_ADD, .push (.bigint 1),
   .opcode .OP_NUM2BIN, .push (.bytes rDer), .push (.bytes [0x30]), .push (.bigint 2),
   .opcode .OP_ROLL, .opcode .OP_CAT, .swap, .opcode .OP_CAT, .swap, .opcode .OP_CAT,
   .push (.bytes [(sighashFlag &&& 0xff).toUInt8]), .opcode .OP_CAT]

/-- The check. -/
def checkPart : List StackOp := [.push (.bytes gCompressed), .opcode .OP_CHECKSIGVERIFY]

/-- Everything before the check: it leaves the signature on the preimage. -/
def derivation (sighashFlag : Nat) : List StackOp :=
  hashPart ++ (reducePart ++ (lowPart ++ (contentPart ++ (integerPart ++
    signaturePart sighashFlag))))

set_option maxRecDepth 100000 in
theorem emitCheckPreimageBinding_eq (sighashFlag : Nat) :
    emitCheckPreimageBinding sighashFlag = .ok (derivation sighashFlag ++ checkPart) := by
  rfl

end Runar.StackLower
