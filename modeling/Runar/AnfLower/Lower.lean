/-
  AnfLower/Lower.lean --- from the syntax tree to A-normal form.

  WHAT THIS FILE IS FOR.  Every expression is lowered to the name of the binding that
  has its value; a local is lowered to its own name.  The blocks of an `if` are
  lowered in contexts of their own and then made to agree: on the bytes of their
  outputs, or on the names they leave behind.

  A PRIVATE METHOD THAT EMITS OUTPUTS is lowered at its call.  How is a parameter of
  the functions below; it is tied to the bodies of the contract's methods at the end.
-/
import Mathlib.Data.List.Dedup
import Runar.AnfLower.Context

set_option autoImplicit false

namespace Runar.AnfLower

open Ast
open Script (Bytes)

/-- Lowering threads a context and may refuse. -/
abbrev LowerM : Type → Type := StateT LoweringContext (Except String)

namespace LowerM

def emit (value : ANFValue) : LowerM String := modifyGet (·.emit value)

def emitNamed (name : String) (value : ANFValue) : LowerM Unit := modify (·.emitNamed name value)

/-- A constant. -/
def emitConst (value : ConstValue) : LowerM String := emit (.loadConst (.const value))

/-- A comparison of byte strings that has to hold. -/
def assertSameBytes (left right : String) : LowerM String := do
  let eqRef ← emit (.binOp .eq left right true)
  emit (.assert eqRef)

/-- Lower a nested block in a copy of the context; gives the copy. -/
def inSubContext (block : LowerM Unit) : LowerM LoweringContext := fun ctx => do
  let (_, sub) ← block.run ctx.subContext
  pure (sub, ctx.syncCounter sub)

/-! ### Runs -/

theorem bind_eq {α β : Type} (f : LowerM α) (g : α → LowerM β) (ctx : LoweringContext) :
    (f >>= g) ctx = (f ctx).bind fun p => g p.1 p.2 := rfl

/-- A run of a sequence is a run of its first part and then one of the second. -/
theorem bind_ok {α β : Type} {f : LowerM α} {g : α → LowerM β} {ctx ctx' : LoweringContext}
    {b : β} (h : (f >>= g) ctx = .ok (b, ctx')) :
    ∃ a mid, f ctx = .ok (a, mid) ∧ g a mid = .ok (b, ctx') := by
  rw [bind_eq] at h
  cases hf : f ctx with
  | error e =>
    rw [hf] at h
    cases h
  | ok p =>
    rw [hf] at h
    exact ⟨p.1, p.2, rfl, h⟩

@[simp] theorem pure_apply {α : Type} (a : α) (ctx : LoweringContext) :
    (pure a : LowerM α) ctx = .ok (a, ctx) := rfl

@[simp] theorem get_apply (ctx : LoweringContext) :
    (get : LowerM LoweringContext) ctx = .ok (ctx, ctx) := rfl

@[simp] theorem modify_apply (f : LoweringContext → LoweringContext) (ctx : LoweringContext) :
    (modify f : LowerM Unit) ctx = .ok ((), f ctx) := rfl

@[simp] theorem emit_apply (value : ANFValue) (ctx : LoweringContext) :
    emit value ctx = .ok (ctx.emit value) := rfl

@[simp] theorem emitNamed_apply (name : String) (value : ANFValue) (ctx : LoweringContext) :
    emitNamed name value ctx = .ok ((), ctx.emitNamed name value) := rfl

end LowerM

open LowerM

/-! ## What is read -/

mutual

/-- The identifiers an expression reads. -/
def expressionReads : Expression → List String
  | .identifier name => [name]
  | .binaryExpr _ left right => expressionReads left ++ expressionReads right
  | .unaryExpr _ operand => expressionReads operand
  | .callExpr callee args _ => expressionReads callee ++ expressionsReads args
  | .memberExpr object _ => expressionReads object
  | .ternaryExpr condition consequent alternate =>
      expressionReads condition ++ expressionReads consequent ++ expressionReads alternate
  | .indexAccess object index => expressionReads object ++ expressionReads index
  | .incrementExpr operand _ | .decrementExpr operand _ => expressionReads operand
  | .arrayLiteral elements => expressionsReads elements
  | .bigintLiteral _ | .boolLiteral _ | .bytestringLiteral _ | .propertyAccess _ => []

def expressionsReads : List Expression → List String
  | [] => []
  | e :: rest => expressionReads e ++ expressionsReads rest

end

mutual

/-- The identifiers a statement reads; assigning a local does not read it. -/
def statementReads : Statement → List String
  | .variableDecl _ _ init => expressionReads init
  | .assignment target value =>
      (match target with
        | .identifier _ => []
        | target => expressionReads target) ++ expressionReads value
  | .ifStatement condition thenBody elseBody =>
      expressionReads condition ++ statementsReads thenBody ++
        match elseBody with
        | some elseBody => statementsReads elseBody
        | none => []
  | .forStatement _ _ init condition update body =>
      expressionReads init ++ expressionReads condition ++ statementReads update ++
        statementsReads body
  | .returnStatement value =>
      match value with
      | some value => expressionReads value
      | none => []
  | .expressionStatement expression => expressionReads expression

def statementsReads : List Statement → List String
  | [] => []
  | stmt :: rest => statementReads stmt ++ statementsReads rest

end

/-! ## Names and members -/

def lowerIdentifier (name : String) : LowerM String := do
  let ctx ← get
  if name = "this" then emit (.loadConst .this)
  else
    match ctx.getParamAlias name with
    | some ref => pure ref
    | none =>
        if ctx.isParam name then emit (.loadParam name)
        else if ctx.isLocal name then pure ((ctx.getLocalAlias name).getD name)
        else if ctx.isProperty name then emit (.loadProp name)
        else emit (.loadParam name)

def lowerPropertyAccess (property : String) : LowerM String := do
  let ctx ← get
  if ctx.isProperty property then emit (.loadProp property)
  else if ctx.isParam property then emit (.loadParam property)
  else emit (.loadProp property)

/-- The members that are not reached through the object's value. -/
def knownMember (ctx : LoweringContext) (object : Expression) (property : String) :
    Option ANFValue :=
  match object with
  | .identifier name =>
      if name = "this" then some (.loadProp property)
      else if name = "SigHash" ∧ (sigHashValues.lookup property).isSome then
        (sigHashValues.lookup property).map fun v => .loadConst (.const (.bigint v))
      else if ctx.isStatefulContextParam name ∧ property = "txPreimage" then
        some (.loadParam "txPreimage")
      else none
  | _ => none

/-! ## Operators -/

/-- The operators whose operands may be bytes. -/
def takesBytes : BinaryOp → Bool
  | .eq | .ne | .add | .bitAnd | .bitOr | .bitXor => true
  | _ => false

/-- Mark an operation on bytes, after its operands are lowered. -/
def emitBinOp (op : BinaryOp) (left right : Expression) (leftRef rightRef : String) :
    LowerM String := do
  let ctx ← get
  emit (.binOp op leftRef rightRef
    (takesBytes op && (isByteTypedExpr left ctx || isByteTypedExpr right ctx)))

def emitUnaryOp (op : UnaryOp) (operand : Expression) (operandRef : String) : LowerM String := do
  let ctx ← get
  emit (.unaryOp op operandRef (op == .bitNot && isByteTypedExpr operand ctx))

/-- `++` and `--`: the new value is written back; the result is the new value, or the
name of the old one. -/
def emitStep (op : BinaryOp) (operand : Expression) (isPrefix : Bool) (operandRef : String) :
    LowerM String := do
  let oneRef ← emitConst (.bigint 1)
  let result ← emit (.binOp op operandRef oneRef false)
  match operand with
  | .identifier name => emitNamed name (.loadConst (.ref result))
  | .propertyAccess property => do
      let _ ← emit (.updateProp property result)
  | _ => pure ()
  pure (if isPrefix then result else operandRef)

/-! ## Calls -/

/-- What is done at the call of a private method that emits outputs. -/
abbrev Inline : Type := String → List String → LowerM String

/-- A call of a method of the contract. -/
def lowerOwnCall (inline : Inline) (name : String) (argRefs : List String) : LowerM String := do
  let ctx ← get
  if ctx.shouldInlinePrivate name then inline name argRefs
  else do
    let thisRef ← emit (.loadConst .this)
    emit (.methodCall thisRef name argRefs)

/-- A call of a function by its bare name. -/
def lowerFunctionCall (inline : Inline) (name : String) (argRefs : List String) :
    LowerM String := do
  let ctx ← get
  if ctx.isPrivateMethod name then lowerOwnCall inline name argRefs
  else emit (.call name argRefs)

/-- The output intrinsics. -/
def outputIntrinsics : List String := ["addOutput", "addRawOutput", "addDataOutput"]

/-- Emit an output and register it. -/
def emitOutput (name : String) (argRefs : List String) : LowerM String :=
  let satoshis := argRefs.headD ""
  if name = "addOutput" then do
    let ref ← emit (.addOutput satoshis argRefs.tail "")
    modify (·.addOutputRef ref)
    pure ref
  else if name = "addRawOutput" then do
    let ref ← emit (.addRawOutput satoshis (argRefs.getD 1 ""))
    modify (·.addOutputRef ref)
    pure ref
  else do
    let ref ← emit (.addDataOutput satoshis (argRefs.getD 1 ""))
    modify (·.addDataOutputRef ref)
    pure ref

/-- The object a method is called on is the contract. -/
def isContractObject (ctx : LoweringContext) : Expression → Bool
  | .identifier name => name == "this" || ctx.isStatefulContextParam name
  | _ => false

def emitCheckPreimage (preimageRef : String) : LowerM String := do
  let ctx ← get
  emit (.checkPreimage preimageRef ctx.sighashFlag)

/-- The witness of a previous output's script becomes a parameter of the method. -/
def emitPrevOutputWitness (index : Int) : LowerM String := do
  let paramName := "_prevOutScript_" ++ toString index
  modify fun ctx => (ctx.recordAutoInjectedParam paramName).addParam paramName
  emit (.loadParam paramName)

/-- The script, or as much of it as is asked for, must have the hash expected. -/
def checkPrevOutput (witnessRef expectedHashRef : String) (prefixLen : Option Expression) :
    LowerM String := do
  let assertHash (bytesToHashRef : String) : LowerM String := do
    let actualHashRef ← emit (.call "hash256" [bytesToHashRef])
    let _ ← assertSameBytes actualHashRef expectedHashRef
    pure witnessRef
  match prefixLen with
  | none => assertHash witnessRef
  | some (.bigintLiteral len) => do
      let zeroRef ← emitConst (.bigint 0)
      let prefixLenRef ← emitConst (.bigint len)
      let bytesRef ← emit (.call "substr" [witnessRef, zeroRef, prefixLenRef])
      assertHash bytesRef
  | some _ => emitConst (.bytes [])

/-- Once in a method, the outputs are checked against the hash in the preimage. -/
def ensureSerialisedOutputs : LowerM Unit := do
  modify fun ctx => (ctx.recordAutoInjectedParam "_serialisedOutputs").addParam "_serialisedOutputs"
  let ctx ← get
  if ctx.methodScope.didEmitHashOutputsCheck then pure ()
  else do
    modify fun ctx =>
      { ctx with methodScope := { ctx.methodScope with didEmitHashOutputsCheck := true } }
    let serialisedRef ← emit (.loadParam "_serialisedOutputs")
    let actualOutHashRef ← emit (.call "hash256" [serialisedRef])
    let preimageRef ← emit (.loadParam "txPreimage")
    let expectedOutHashRef ← emit (.call "extractOutputHash" [preimageRef])
    let _ ← assertSameBytes actualOutHashRef expectedOutHashRef

/-- The output at an index, 34 bytes long, pays an amount to a public key hash. -/
def requireP2PKHAt (index : Int) (pubkeyHashRef amountRef : String) : LowerM String := do
  let eightRef ← emitConst (.bigint 8)
  let amountBytesRef ← emit (.call "num2bin" [amountRef, eightRef])
  let prefixRef ← emitConst (.bytes [0x19, 0x76, 0xa9, 0x14])
  let suffixRef ← emitConst (.bytes [0x88, 0xac])
  let cat1Ref ← emit (.call "cat" [amountBytesRef, prefixRef])
  let cat2Ref ← emit (.call "cat" [cat1Ref, pubkeyHashRef])
  let expectedOutputRef ← emit (.call "cat" [cat2Ref, suffixRef])
  let serialisedRef ← emit (.loadParam "_serialisedOutputs")
  let offsetRef ← emitConst (.bigint (index * 34))
  let lengthRef ← emitConst (.bigint 34)
  let extractedRef ← emit (.call "substr" [serialisedRef, offsetRef, lengthRef])
  assertSameBytes extractedRef expectedOutputRef

def emitAsm (args : List Expression) : LowerM String :=
  let bytes := match args[0]? with
    | some (.bytestringLiteral value) => value
    | _ => []
  let arity (i default : Nat) : Nat := match args[i]? with
    | some (.bigintLiteral n) => n.toNat
    | _ => default
  emit (.rawScript bytes (arity 1 0) (arity 2 1))

/-! ## Expressions -/

section Expressions

variable (inline : Inline)

mutual

/-- Lower an expression; gives the name that has its value. -/
def lowerExprToRef : Expression → LowerM String
  | .bigintLiteral value => emitConst (.bigint value)
  | .boolLiteral value => emitConst (.boolean value)
  | .bytestringLiteral value => emitConst (.bytes value)
  | .identifier name => lowerIdentifier name
  | .propertyAccess property => lowerPropertyAccess property
  | .memberExpr object property => do
      let ctx ← get
      match knownMember ctx object property with
      | some value => emit value
      | none => do
          let objRef ← lowerExprToRef object
          emit (.methodCall objRef property [])
  | .binaryExpr op left right => do
      let leftRef ← lowerExprToRef left
      let rightRef ← lowerExprToRef right
      emitBinOp op left right leftRef rightRef
  | .unaryExpr op operand => do
      let operandRef ← lowerExprToRef operand
      emitUnaryOp op operand operandRef
  | .callExpr callee args _ =>
      match callee with
      | .identifier name =>
          if name = "super" then do
            let argRefs ← lowerExprs args
            emit (.call "super" argRefs)
          else if name = "assert" then
            match args with
            | [] => do
                let falseRef ← emitConst (.boolean false)
                emit (.assert falseRef)
            | condition :: _ => do
                let valueRef ← lowerExprToRef condition
                emit (.assert valueRef)
          else if name = "checkPreimage" then
            match args with
            | [] => lowerFunctionCall inline name []
            | preimage :: _ => do
                let preimageRef ← lowerExprToRef preimage
                emitCheckPreimage preimageRef
          else if name = "extractPrevOutputScript" then
            match args with
            | [.bigintLiteral index, expectedHash] => do
                let witnessRef ← emitPrevOutputWitness index
                let expectedHashRef ← lowerExprToRef expectedHash
                checkPrevOutput witnessRef expectedHashRef none
            | [.bigintLiteral index, expectedHash, prefixLen] => do
                let witnessRef ← emitPrevOutputWitness index
                let expectedHashRef ← lowerExprToRef expectedHash
                checkPrevOutput witnessRef expectedHashRef (some prefixLen)
            | _ => emitConst (.bytes [])
          else if name = "requireOutputP2PKH" then
            match args with
            | [.bigintLiteral index, pubkeyHash, amount] => do
                ensureSerialisedOutputs
                let pubkeyHashRef ← lowerExprToRef pubkeyHash
                let amountRef ← lowerExprToRef amount
                requireP2PKHAt index pubkeyHashRef amountRef
            | _ => emitConst (.bytes [])
          else if name = "currentBlockHeight" then do
            let preimageRef ← emit (.loadParam "txPreimage")
            emit (.call "extractLocktime" [preimageRef])
          else if name = "asm" then emitAsm args
          else do
            let argRefs ← lowerExprs args
            lowerFunctionCall inline name argRefs
      | .propertyAccess property =>
          if property = "addOutput" then do
            let argRefs ← lowerOutputArgs args
            emitOutput property argRefs
          else if property = "getStateScript" then emit .getStateScript
          else do
            let argRefs ← lowerExprs args
            if property ∈ outputIntrinsics then emitOutput property argRefs
            else lowerOwnCall inline property argRefs
      | .memberExpr object property => do
          let ctx ← get
          if isContractObject ctx object ∧ property = "addOutput" then do
            let argRefs ← lowerOutputArgs args
            emitOutput property argRefs
          else if isContractObject ctx object ∧ property = "getStateScript" then
            emit .getStateScript
          else if isContractObject ctx object ∧ property ∈ outputIntrinsics then do
            let argRefs ← lowerExprs args
            emitOutput property argRefs
          else
            match object with
            | .identifier "this" => do
                let argRefs ← lowerExprs args
                lowerOwnCall inline property argRefs
            | object => do
                let calleeRef ← lowerExprToRef (.memberExpr object property)
                let argRefs ← lowerExprs args
                emit (.methodCall calleeRef "call" argRefs)
      | callee => do
          let calleeRef ← lowerExprToRef callee
          let argRefs ← lowerExprs args
          emit (.methodCall calleeRef "call" argRefs)
  | .ternaryExpr condition consequent alternate => do
      let condRef ← lowerExprToRef condition
      let thenCtx ← inSubContext (discard (lowerExprToRef consequent))
      let elseCtx ← inSubContext (discard (lowerExprToRef alternate))
      emit (.ifValue condRef thenCtx.bindings elseCtx.bindings [])
  | .indexAccess object index => do
      let objRef ← lowerExprToRef object
      let indexRef ← lowerExprToRef index
      emit (.call "__array_access" [objRef, indexRef])
  | .incrementExpr operand isPrefix => do
      let operandRef ← lowerExprToRef operand
      emitStep .add operand isPrefix operandRef
  | .decrementExpr operand isPrefix => do
      let operandRef ← lowerExprToRef operand
      emitStep .sub operand isPrefix operandRef
  | .arrayLiteral elements => do
      let elementRefs ← lowerExprs elements
      emit (.arrayLiteral elementRefs)

/-- Lower expressions from left to right. -/
def lowerExprs : List Expression → LowerM (List String)
  | [] => pure []
  | e :: rest => do
      let ref ← lowerExprToRef e
      let refs ← lowerExprs rest
      pure (ref :: refs)

/-- Lower the arguments of `addOutput`; the state values may stand in an array. -/
def lowerOutputArgs : List Expression → LowerM (List String)
  | [satoshis, .arrayLiteral elements] => do
      let ref ← lowerExprToRef satoshis
      let refs ← lowerExprs elements
      pure (ref :: refs)
  | [] => pure []
  | e :: rest => do
      let ref ← lowerExprToRef e
      let refs ← lowerExprs rest
      pure (ref :: refs)

end

end Expressions

end Runar.AnfLower
