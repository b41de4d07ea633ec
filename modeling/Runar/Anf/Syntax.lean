/-
  Anf/Syntax.lean --- the A-normal form between the front end and the stack.

  WHAT THIS FILE IS FOR.  A method body is a flat list of bindings: each names the
  result of one operation on names bound before.  Conditionals and loops carry
  lists of bindings of their own.  This file has the data types, and nothing about
  what they mean or how they are lowered.
-/
import Runar.Script.ScriptNum

set_option autoImplicit false

namespace Runar

open Script (Bytes)

/-! ## Types and constants -/

/-- The primitive types of the source language that a property or a parameter can
have. -/
inductive PrimitiveType where
  | bigint | boolean | ByteString | PubKey | Sig | Sha256 | Ripemd160 | Addr
  | SigHashPreimage | RabinSig | RabinPubKey | Point | P256Point | P384Point
  deriving DecidableEq, Repr

/-- A constant of a binding or of a property initialiser.  A string constant is
either the hex text of a byte string, or a marker. -/
inductive ConstValue where
  | bytes (value : Bytes)
  | bigint (value : Int)
  | boolean (value : Bool)
  deriving DecidableEq, Repr

/-- What a `load_const` loads. -/
inductive ConstOperand where
  | const (value : ConstValue)
  /-- `@ref:name`, an alias of another binding -/
  | ref (name : String)
  /-- `@this` -/
  | this
  /-- `@void`, for a call without a result -/
  | void
  deriving DecidableEq, Repr

/-- A contract property. -/
structure ANFProperty where
  name : String
  type : PrimitiveType
  isReadonly : Bool
  initialValue : Option ConstValue
  deriving DecidableEq, Repr

/-- The binary operators. -/
inductive BinaryOp where
  | add | sub | mul | div | mod | eq | ne | lt | gt | le | ge | and | or
  | bitAnd | bitOr | bitXor | shl | shr
  deriving DecidableEq, Repr

/-- The text of an operator. -/
def opText : BinaryOp → String
  | .add => "+" | .sub => "-" | .mul => "*" | .div => "/" | .mod => "%"
  | .eq => "===" | .ne => "!==" | .lt => "<" | .gt => ">" | .le => "<=" | .ge => ">="
  | .and => "&&" | .or => "||" | .bitAnd => "&" | .bitOr => "|" | .bitXor => "^"
  | .shl => "<<" | .shr => ">>"

/-- The unary operators. -/
inductive UnaryOp where
  | not | neg | bitNot
  deriving DecidableEq, Repr

/-! ## Bindings -/

mutual

/-- One operation.  The names it mentions are those of earlier bindings; `resultBytes`
is the mark `result_type: "bytes"`. -/
inductive ANFValue where
  | loadParam (name : String)
  | loadProp (name : String)
  | loadConst (value : ConstOperand)
  | binOp (op : BinaryOp) (left right : String) (resultBytes : Bool)
  | unaryOp (op : UnaryOp) (operand : String) (resultBytes : Bool)
  | call (func : String) (args : List String)
  | methodCall (object : String) (method : String) (args : List String)
  | ifValue (cond : String) (thenBody elseBody : List ANFBinding) (results : List String)
  | loop (count : Nat) (body : List ANFBinding) (iterVar : String) (start : Int) (step : Int)
  | assert (value : String)
  | updateProp (name : String) (value : String)
  | getStateScript
  | checkPreimage (preimage : String) (sighashFlag : Option Nat)
  | deserializeState (preimage : String)
  | addOutput (satoshis : String) (stateValues : List String) (preimage : String)
  | addRawOutput (satoshis : String) (scriptBytes : String)
  | addDataOutput (satoshis : String) (scriptBytes : String)
  | arrayLiteral (elements : List String)
  | rawScript (bytes : Bytes) (inArity outArity : Nat)

/-- A named operation. -/
inductive ANFBinding where
  | mk (name : String) (value : ANFValue)

end

namespace ANFBinding

def name : ANFBinding → String
  | mk n _ => n

def value : ANFBinding → ANFValue
  | mk _ v => v

@[simp] theorem name_mk (n : String) (v : ANFValue) : (mk n v).name = n := rfl

@[simp] theorem value_mk (n : String) (v : ANFValue) : (mk n v).value = v := rfl

end ANFBinding

/-- A method. -/
structure ANFMethod where
  name : String
  params : List String
  body : List ANFBinding
  isPublic : Bool

/-- A program. -/
structure ANFProgram where
  contractName : String
  properties : List ANFProperty
  methods : List ANFMethod

end Runar
