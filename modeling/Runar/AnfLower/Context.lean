/-
  AnfLower/Context.lean --- the context a method body is lowered in.

  WHAT THIS FILE IS FOR.  Lowering appends bindings under fresh temporary names and
  keeps tables of the names it has seen: parameters and their types, locals, the
  locals that hold bytes, the outputs emitted so far.  A block of an `if` or of a
  loop is lowered in a copy of the context that starts with no bindings and no
  outputs.

  BYTES OR NUMBER is told from the tables and the shape of the expression, not
  from the checker's types.
-/
import Runar.AnfLower.Lift
import Runar.AnfLower.SideEffects

set_option autoImplicit false

namespace Runar.AnfLower

open Ast
open Script (Bytes)

/-! ## The context -/

/-- What a method's context and its copies share: the parameters that intrinsics
add to the method, and whether the outputs are already checked against their hash. -/
structure MethodScope where
  autoInjectedParams : List String
  didEmitHashOutputsCheck : Bool
  deriving DecidableEq, Repr

structure LoweringContext where
  contract : ContractNode
  bindings : List ANFBinding
  counter : Nat
  paramNames : List String
  methodParamTypes : List (String × TypeNode)
  localNames : List String
  localByteVars : List String
  addOutputRefs : List String
  addDataOutputRefs : List String
  methodScope : MethodScope
  sighashFlag : Option Nat
  localAliases : List (String × String)
  /-- the arguments of the private methods being inlined, innermost first -/
  paramAliasStack : List (String × String)
  /-- absent in the copies -/
  sideEffects : Option (List (String × MethodEffects))
  nested : Bool

namespace LoweringContext

/-- The context of a method of a contract. -/
def ofContract (contract : ContractNode) : LoweringContext where
  contract := contract
  bindings := []
  counter := 0
  paramNames := []
  methodParamTypes := []
  localNames := []
  localByteVars := []
  addOutputRefs := []
  addDataOutputRefs := []
  methodScope := ⟨[], false⟩
  sighashFlag := none
  localAliases := []
  paramAliasStack := []
  sideEffects := some (computeSideEffectSummary contract)
  nested := false

/-- Append a binding under a given name. -/
def emitNamed (ctx : LoweringContext) (name : String) (value : ANFValue) : LoweringContext :=
  { ctx with bindings := ctx.bindings ++ [.mk name value] }

/-- Append a binding under a fresh name. -/
def emit (ctx : LoweringContext) (value : ANFValue) : String × LoweringContext :=
  (tempName ctx.counter,
    { ctx.emitNamed (tempName ctx.counter) value with counter := ctx.counter + 1 })

def addParam (ctx : LoweringContext) (name : String) : LoweringContext :=
  { ctx with paramNames := name :: ctx.paramNames }

/-- Add a parameter with its type. -/
def addTypedParam (ctx : LoweringContext) (name : String) (type : TypeNode) : LoweringContext :=
  { ctx.addParam name with methodParamTypes := (name, type) :: ctx.methodParamTypes }

/-- The parameter types are those of the current method; a later parameter of a name
replaces an earlier one. -/
def setMethodParamTypes (ctx : LoweringContext) (params : List ParamNode) : LoweringContext :=
  { ctx with methodParamTypes := (params.map fun p => (p.name, p.type)).reverse }

def addLocal (ctx : LoweringContext) (name : String) : LoweringContext :=
  { ctx with localNames := name :: ctx.localNames }

def addLocalByteVar (ctx : LoweringContext) (name : String) : LoweringContext :=
  { ctx with localByteVars := name :: ctx.localByteVars }

def setLocalAlias (ctx : LoweringContext) (localName bindingName : String) : LoweringContext :=
  { ctx with localAliases := (localName, bindingName) :: ctx.localAliases }

def addOutputRef (ctx : LoweringContext) (ref : String) : LoweringContext :=
  { ctx with addOutputRefs := ctx.addOutputRefs ++ [ref] }

def addDataOutputRef (ctx : LoweringContext) (ref : String) : LoweringContext :=
  { ctx with addDataOutputRefs := ctx.addDataOutputRefs ++ [ref] }

/-- Add a parameter to the method, unless it is there. -/
def recordAutoInjectedParam (ctx : LoweringContext) (name : String) : LoweringContext :=
  if name ∈ ctx.methodScope.autoInjectedParams then ctx
  else
    { ctx with methodScope :=
        { ctx.methodScope with autoInjectedParams := ctx.methodScope.autoInjectedParams ++ [name] } }

def isParam (ctx : LoweringContext) (name : String) : Bool := ctx.paramNames.contains name

def isLocal (ctx : LoweringContext) (name : String) : Bool := ctx.localNames.contains name

def isLocalByteVar (ctx : LoweringContext) (name : String) : Bool :=
  ctx.localByteVars.contains name

def getLocalAlias (ctx : LoweringContext) (name : String) : Option String :=
  ctx.localAliases.lookup name

def propertyNames (ctx : LoweringContext) : List String := ctx.contract.properties.map (·.name)

def isProperty (ctx : LoweringContext) (name : String) : Bool := ctx.propertyNames.contains name

/-- A private method of the contract by its name. -/
def getPrivateMethod (ctx : LoweringContext) (name : String) : Option MethodNode :=
  ctx.contract.methods.find? fun m => m.name = name ∧ m.visibility = .isPrivate

def isPrivateMethod (ctx : LoweringContext) (name : String) : Bool :=
  (ctx.getPrivateMethod name).isSome

/-- A private method that emits an output is lowered where it is called, so that the
caller collects its outputs. -/
def shouldInlinePrivate (ctx : LoweringContext) (name : String) : Bool :=
  match ctx.sideEffects with
  | none => false
  | some summary =>
      ctx.isPrivateMethod name && (summary.lookup name).any MethodEffects.hasOutput

def pushParamAlias (ctx : LoweringContext) (name ref : String) : LoweringContext :=
  { ctx with paramAliasStack := (name, ref) :: ctx.paramAliasStack }

def popParamAlias (ctx : LoweringContext) (name : String) : LoweringContext :=
  { ctx with paramAliasStack := ctx.paramAliasStack.eraseP fun entry => entry.1 = name }

def getParamAlias (ctx : LoweringContext) (name : String) : Option String :=
  ctx.paramAliasStack.lookup name

def getParamType (ctx : LoweringContext) (name : String) : Option TypeNode :=
  ctx.methodParamTypes.lookup name

/-- The type of a property; the first of a name counts. -/
def getPropertyType (ctx : LoweringContext) (name : String) : Option TypeNode :=
  (ctx.contract.properties.find? fun p => p.name = name).map (·.type)

def isStatefulContextParam (ctx : LoweringContext) (name : String) : Bool :=
  ctx.getParamType name = some (.custom "StatefulContext")

/-- The context a nested block is lowered in. -/
def subContext (ctx : LoweringContext) : LoweringContext where
  contract := ctx.contract
  bindings := []
  counter := ctx.counter
  paramNames := ctx.paramNames
  methodParamTypes := ctx.methodParamTypes
  localNames := ctx.localNames
  localByteVars := ctx.localByteVars
  addOutputRefs := []
  addDataOutputRefs := []
  methodScope := ctx.methodScope
  sighashFlag := none
  localAliases := ctx.localAliases
  paramAliasStack := []
  sideEffects := none
  nested := true

/-- Go on after a nested block: its temporaries are taken, and what it did to the
shared scope stays. -/
def syncCounter (ctx sub : LoweringContext) : LoweringContext :=
  { ctx with counter := max ctx.counter sub.counter, methodScope := sub.methodScope }

end LoweringContext

/-! ## Bytes or number -/

/-- The primitive types whose values are byte sequences. -/
def byteTypes : List PrimitiveType :=
  [.ByteString, .PubKey, .Sig, .Sha256, .Ripemd160, .Addr, .SigHashPreimage, .Point, .P256Point,
    .P384Point]

/-- The builtin functions taken to return bytes. -/
def byteReturningFunctions : List String :=
  ["sha256", "ripemd160", "hash160", "hash256", "cat", "num2bin", "int2str",
    "reverseBytes", "substr", "left", "right",
    "ecAdd", "ecMul", "ecMulGen", "ecNegate", "ecMakePoint", "ecEncodeCompressed",
    "p256Add", "p256Mul", "p256MulGen", "p256Negate", "p256EncodeCompressed",
    "p384Add", "p384Mul", "p384MulGen", "p384Negate", "p384EncodeCompressed",
    "extractOutpoint", "extractHashPrevouts", "extractHashSequence", "extractOutputHash",
    "extractVersion", "extractLocktime", "extractSigHashType",
    "blake3Compress", "blake3Hash"]

def isByteType : TypeNode → Bool
  | .primitive name => byteTypes.contains name
  | _ => false

/-- Whether an expression is taken to have bytes as its value. -/
def isByteTypedExpr (expr : Expression) (ctx : LoweringContext) : Bool :=
  match expr with
  | .bytestringLiteral _ => true
  | .identifier name =>
      (ctx.getParamType name).any isByteType || (ctx.getPropertyType name).any isByteType ||
        ctx.isLocalByteVar name
  | .propertyAccess property => (ctx.getPropertyType property).any isByteType
  | .memberExpr (.identifier "this") property => (ctx.getPropertyType property).any isByteType
  | .callExpr (.identifier name) _ _ => byteReturningFunctions.contains name
  | _ => false

end Runar.AnfLower
