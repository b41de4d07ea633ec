/-
  Typecheck/Types.lean --- the types of the checker.

  WHAT THIS FILE IS FOR.  The checker works with more types than the source can
  write: the types of names that are not values, and an unknown type that goes with
  anything.  This file has the types, the signatures of the builtin functions, the
  global constants and the subtype relation.
-/
import Runar.Ast.Syntax

set_option autoImplicit false

namespace Runar.Typecheck

open Ast

/-- A type of the checker. -/
inductive TType where
  | prim (name : PrimitiveType)
  | void
  | unknown
  | inferred
  | this
  | super
  | builtin
  | namespaceType
  | method
  | custom (name : String)
  | array (element : TType)
  deriving DecidableEq, Repr

namespace TType

abbrev bigint : TType := .prim .bigint
abbrev boolean : TType := .prim .boolean
abbrev byteString : TType := .prim .ByteString
abbrev statefulContext : TType := .custom "StatefulContext"

end TType

def typeNodeToTType : TypeNode → TType
  | .primitive name => .prim name
  | .void => .void
  | .fixedArray element _ => .array (typeNodeToTType element)
  | .custom name => .custom name

/-! ## Families -/

/-- The types represented as byte strings. -/
def byteStringSubtypes : List PrimitiveType :=
  [.ByteString, .PubKey, .Sig, .Sha256, .Ripemd160, .Addr, .SigHashPreimage, .Point, .P256Point,
    .P384Point]

/-- The types represented as integers. -/
def bigintSubtypes : List PrimitiveType := [.bigint, .RabinSig, .RabinPubKey]

def isByteFamily : TType → Bool
  | .prim name => byteStringSubtypes.contains name
  | _ => false

def isBigintFamily : TType → Bool
  | .prim name => bigintSubtypes.contains name
  | _ => false

/-- Whether a value of a type may be used where another is expected. -/
def isSubtype (actual expected : TType) : Bool :=
  if actual = expected then true
  else if actual = .inferred ∨ actual = .unknown then true
  else if expected = .inferred ∨ expected = .unknown then true
  else if isByteFamily actual && isByteFamily expected then true
  else if isBigintFamily actual && isBigintFamily expected then true
  else
    match actual, expected with
    | .array a, .array e => isSubtype a e
    | _, _ => false

/-! ## Builtin functions -/

structure FuncSig where
  params : List TType
  returnType : TType
  deriving DecidableEq, Repr

section Signatures

open PrimitiveType

/-- The signature of a function over primitive types. -/
def FuncSig.of (params : List PrimitiveType) (returnType : PrimitiveType) : FuncSig :=
  ⟨params.map .prim, .prim returnType⟩

def builtinFunctions : List (String × FuncSig) :=
  [("sha256", .of [ByteString] Sha256),
   ("ripemd160", .of [ByteString] Ripemd160),
   ("hash160", .of [ByteString] Ripemd160),
   ("hash256", .of [ByteString] Sha256),
   ("checkSig", .of [Sig, PubKey] boolean),
   ("checkMultiSig", ⟨[.array (.prim Sig), .array (.prim PubKey)], .boolean⟩),
   ("assert", ⟨[.boolean], .void⟩),
   ("len", .of [ByteString] bigint),
   ("cat", .of [ByteString, ByteString] ByteString),
   ("substr", .of [ByteString, bigint, bigint] ByteString),
   ("num2bin", .of [bigint, bigint] ByteString),
   ("bin2num", .of [ByteString] bigint),
   ("checkPreimage", .of [SigHashPreimage] boolean),
   ("verifyRabinSig", .of [ByteString, RabinSig, ByteString, RabinPubKey] boolean),
   ("verifyWOTS", .of [ByteString, ByteString, ByteString] boolean),
   ("verifySLHDSA_SHA2_128s", .of [ByteString, ByteString, ByteString] boolean),
   ("verifySLHDSA_SHA2_128f", .of [ByteString, ByteString, ByteString] boolean),
   ("verifySLHDSA_SHA2_192s", .of [ByteString, ByteString, ByteString] boolean),
   ("verifySLHDSA_SHA2_192f", .of [ByteString, ByteString, ByteString] boolean),
   ("verifySLHDSA_SHA2_256s", .of [ByteString, ByteString, ByteString] boolean),
   ("verifySLHDSA_SHA2_256f", .of [ByteString, ByteString, ByteString] boolean),
   ("sha256Compress", .of [ByteString, ByteString] ByteString),
   ("sha256Finalize", .of [ByteString, ByteString, bigint] ByteString),
   ("blake3Compress", .of [ByteString, ByteString] ByteString),
   ("blake3Hash", .of [ByteString] ByteString),
   ("abs", .of [bigint] bigint),
   ("min", .of [bigint, bigint] bigint),
   ("max", .of [bigint, bigint] bigint),
   ("within", .of [bigint, bigint, bigint] boolean),
   ("safediv", .of [bigint, bigint] bigint),
   ("safemod", .of [bigint, bigint] bigint),
   ("clamp", .of [bigint, bigint, bigint] bigint),
   ("sign", .of [bigint] bigint),
   ("pow", .of [bigint, bigint] bigint),
   ("mulDiv", .of [bigint, bigint, bigint] bigint),
   ("percentOf", .of [bigint, bigint] bigint),
   ("sqrt", .of [bigint] bigint),
   ("gcd", .of [bigint, bigint] bigint),
   ("divmod", .of [bigint, bigint] bigint),
   ("log2", .of [bigint] bigint),
   ("bool", .of [bigint] boolean),
   ("split", .of [ByteString, bigint] ByteString),
   ("reverseBytes", .of [ByteString] ByteString),
   ("left", .of [ByteString, bigint] ByteString),
   ("right", .of [ByteString, bigint] ByteString),
   ("int2str", .of [bigint, bigint] ByteString),
   ("toByteString", .of [ByteString] ByteString),
   ("exit", ⟨[.boolean], .void⟩),
   ("pack", .of [bigint] ByteString),
   ("unpack", .of [ByteString] bigint),
   -- secp256k1
   ("ecAdd", .of [Point, Point] Point),
   ("ecMul", .of [Point, bigint] Point),
   ("ecMulGen", .of [bigint] Point),
   ("ecNegate", .of [Point] Point),
   ("ecOnCurve", .of [Point] boolean),
   ("ecModReduce", .of [bigint, bigint] bigint),
   ("ecEncodeCompressed", .of [Point] ByteString),
   ("ecMakePoint", .of [bigint, bigint] Point),
   ("ecPointX", .of [Point] bigint),
   ("ecPointY", .of [Point] bigint),
   -- P-256
   ("p256Add", .of [P256Point, P256Point] P256Point),
   ("p256Mul", .of [P256Point, bigint] P256Point),
   ("p256MulGen", .of [bigint] P256Point),
   ("p256Negate", .of [P256Point] P256Point),
   ("p256OnCurve", .of [P256Point] boolean),
   ("p256EncodeCompressed", .of [P256Point] ByteString),
   ("verifyECDSA_P256", .of [ByteString, ByteString, ByteString] boolean),
   -- P-384
   ("p384Add", .of [P384Point, P384Point] P384Point),
   ("p384Mul", .of [P384Point, bigint] P384Point),
   ("p384MulGen", .of [bigint] P384Point),
   ("p384Negate", .of [P384Point] P384Point),
   ("p384OnCurve", .of [P384Point] boolean),
   ("p384EncodeCompressed", .of [P384Point] ByteString),
   ("verifyECDSA_P384", .of [ByteString, ByteString, ByteString] boolean),
   -- Baby Bear
   ("bbFieldAdd", .of [bigint, bigint] bigint),
   ("bbFieldSub", .of [bigint, bigint] bigint),
   ("bbFieldMul", .of [bigint, bigint] bigint),
   ("bbFieldInv", .of [bigint] bigint),
   ("bbExt4Mul0", .of (List.replicate 8 bigint) bigint),
   ("bbExt4Mul1", .of (List.replicate 8 bigint) bigint),
   ("bbExt4Mul2", .of (List.replicate 8 bigint) bigint),
   ("bbExt4Mul3", .of (List.replicate 8 bigint) bigint),
   ("bbExt4Inv0", .of (List.replicate 4 bigint) bigint),
   ("bbExt4Inv1", .of (List.replicate 4 bigint) bigint),
   ("bbExt4Inv2", .of (List.replicate 4 bigint) bigint),
   ("bbExt4Inv3", .of (List.replicate 4 bigint) bigint),
   -- KoalaBear
   ("kbFieldAdd", .of [bigint, bigint] bigint),
   ("kbFieldSub", .of [bigint, bigint] bigint),
   ("kbFieldMul", .of [bigint, bigint] bigint),
   ("kbFieldInv", .of [bigint] bigint),
   ("kbExt4Mul0", .of (List.replicate 8 bigint) bigint),
   ("kbExt4Mul1", .of (List.replicate 8 bigint) bigint),
   ("kbExt4Mul2", .of (List.replicate 8 bigint) bigint),
   ("kbExt4Mul3", .of (List.replicate 8 bigint) bigint),
   ("kbExt4Inv0", .of (List.replicate 4 bigint) bigint),
   ("kbExt4Inv1", .of (List.replicate 4 bigint) bigint),
   ("kbExt4Inv2", .of (List.replicate 4 bigint) bigint),
   ("kbExt4Inv3", .of (List.replicate 4 bigint) bigint),
   -- BN254
   ("bn254FieldAdd", .of [bigint, bigint] bigint),
   ("bn254FieldSub", .of [bigint, bigint] bigint),
   ("bn254FieldMul", .of [bigint, bigint] bigint),
   ("bn254FieldInv", .of [bigint] bigint),
   ("bn254FieldNeg", .of [bigint] bigint),
   ("bn254G1Add", .of [Point, Point] Point),
   ("bn254G1ScalarMul", .of [Point, bigint] Point),
   ("bn254G1Negate", .of [Point] Point),
   ("bn254G1OnCurve", .of [Point] boolean),
   -- Merkle proofs
   ("merkleRootSha256", .of [ByteString, ByteString, bigint, bigint] ByteString),
   ("merkleRootHash256", .of [ByteString, ByteString, bigint, bigint] ByteString),
   -- preimage fields
   ("extractVersion", .of [SigHashPreimage] bigint),
   ("extractHashPrevouts", .of [SigHashPreimage] Sha256),
   ("extractHashSequence", .of [SigHashPreimage] Sha256),
   ("extractOutpoint", .of [SigHashPreimage] ByteString),
   ("extractInputIndex", .of [SigHashPreimage] bigint),
   ("extractScriptCode", .of [SigHashPreimage] ByteString),
   ("extractAmount", .of [SigHashPreimage] bigint),
   ("extractSequence", .of [SigHashPreimage] bigint),
   ("extractOutputHash", .of [SigHashPreimage] Sha256),
   ("extractOutputs", .of [SigHashPreimage] Sha256),
   ("extractLocktime", .of [SigHashPreimage] bigint),
   ("extractSigHashType", .of [SigHashPreimage] bigint),
   ("buildChangeOutput", .of [ByteString, bigint] ByteString),
   -- covenants over other outputs
   ("extractPrevOutputScript", .of [bigint, ByteString] ByteString),
   ("requireOutputP2PKH", ⟨[.bigint, .byteString, .bigint], .void⟩),
   ("currentBlockHeight", .of [] bigint)]

/-- The global constants. -/
def knownGlobals : List (String × TType) :=
  [("SigHash", .namespaceType), ("EC_P", .bigint), ("EC_N", .bigint), ("EC_G", .prim Point)]

end Signatures

/-- The signature of a builtin function. -/
def builtinSig (name : String) : Option FuncSig := builtinFunctions.lookup name

end Runar.Typecheck
