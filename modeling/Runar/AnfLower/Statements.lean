/-
  AnfLower/Statements.lean --- statements, methods and contracts.

  WHAT THIS FILE IS FOR.  The blocks of an `if` leave different bindings behind.  When
  a block emits outputs, the `if` stands for their bytes, and nothing else may be left;
  otherwise, where the blocks assign, both end with the same copies of what either
  assigned, and the `if` declares them as its results.

  A PUBLIC METHOD OF A STATEFUL CONTRACT is put between a check of its preimage and a
  check that the transaction's outputs are the ones it emitted.
-/
import Runar.AnfLower.Lower

set_option autoImplicit false

namespace Runar.AnfLower

open Ast
open LowerM

/-! ## The outputs of a block -/

/-- Concatenate names onto a name. -/
def catRefs (acc : String) (refs : List String) (ctx : LoweringContext) :
    String × LoweringContext :=
  match refs with
  | [] => (acc, ctx)
  | ref :: rest =>
      let (next, ctx) := ctx.emit (.call "cat" [acc, ref])
      catRefs next rest ctx

/-- Concatenate the outputs of a block: the state and raw outputs, then the data
outputs. -/
def appendBranchOutputConcat (branch : LoweringContext) : String × LoweringContext :=
  match branch.addOutputRefs ++ branch.addDataOutputRefs with
  | [] => branch.emit (.loadConst (.const (.bytes [])))
  | first :: rest => catRefs first rest branch

def hasOutputs (branch : LoweringContext) : Bool :=
  !branch.addOutputRefs.isEmpty || !branch.addDataOutputRefs.isEmpty

/-! ## What the blocks of an `if` assign -/

/-- The locals of the parent that a block assigns, in the order of the last
assignments. -/
def lastRebindOrder (ctx branch : LoweringContext) : List String :=
  ((branch.bindings.map (·.name)).filter ctx.isLocal).dedup

def collectBranchMergedLocals (thenCtx elseCtx ctx : LoweringContext) : List String :=
  let merged := lastRebindOrder ctx thenCtx
  merged ++ (lastRebindOrder ctx elseCtx).filter fun name => name ∉ merged

/-- Why an `if` with outputs in a block cannot be lowered, if it cannot. -/
def branchOutputRejectionReason (thenCtx elseCtx : LoweringContext)
    (thenOutputBytes elseOutputBytes : String) (mergedLocals readsAfter : List String) :
    Option String :=
  let endsInOutput (branch : LoweringContext) (outputBytes : String) : Bool :=
    branch.bindings.getLast?.any fun b => b.name = outputBytes
  let writtenProps := (updatedProps thenCtx.bindings ++ updatedProps elseCtx.bindings).eraseDups
  let liveMerged := mergedLocals.filter readsAfter.contains
  if 2 ≤ mergedLocals.length then
    some ("merges " ++ toString mergedLocals.length ++ " local variables (" ++
      ", ".intercalate mergedLocals ++ ")")
  else if !endsInOutput thenCtx thenOutputBytes then
    some "continues past its output in the then-branch"
  else if !endsInOutput elseCtx elseOutputBytes then
    some "continues past its output in the else-branch"
  else if !writtenProps.isEmpty then
    some ("assigns contract properties (" ++ ", ".intercalate writtenProps ++ ") inside the branch")
  else if !liveMerged.isEmpty then
    some ("reassigns local variables read after it (" ++ ", ".intercalate liveMerged ++ ")")
  else none

/-- The name of the copy of a result. -/
def mergeTemp (i : Nat) : String := "__merge$" ++ toString i

/-- Copy the results under names of the block. -/
def copyResults (props : List String) : Nat → List String → LoweringContext → LoweringContext
  | _, [], branch => branch
  | i, name :: rest, branch =>
      copyResults props (i + 1) rest
        (branch.emitNamed (mergeTemp i)
          (if name ∈ props then .loadProp name else .loadConst (.ref name)))

/-- Rebind the results from their copies. -/
def rebindResults (props : List String) : Nat → List String → LoweringContext → LoweringContext
  | _, [], branch => branch
  | i, name :: rest, branch =>
      rebindResults props (i + 1) rest
        (if name ∈ props then (branch.emit (.updateProp name (mergeTemp i))).2
        else branch.emitNamed name (.loadConst (.ref (mergeTemp i))))

/-- End a block with a copy of every declared result, under its own name. -/
def appendBranchResults (branch : LoweringContext) (resultNames props : List String) :
    LoweringContext :=
  rebindResults props 0 resultNames (copyResults props 0 resultNames branch)

/-- A local assigned last by both blocks is from here on the value of the `if`. -/
def aliasMergedLocal (ifName : String) (thenCtx elseCtx ctx : LoweringContext) :
    LoweringContext :=
  match thenCtx.bindings.getLast?, elseCtx.bindings.getLast? with
  | some thenLast, some elseLast =>
      if thenLast.name = elseLast.name ∧ ctx.isLocal thenLast.name then
        ctx.setLocalAlias thenLast.name ifName
      else ctx
  | _, _ => ctx

/-- The `if` of two lowered blocks that emit outputs. -/
def mergeOutputs (condRef : String) (thenCtx elseCtx : LoweringContext)
    (readsAfter : List String) : LowerM Unit := do
  let ctx ← get
  let (thenOutputBytes, thenConcat) := appendBranchOutputConcat thenCtx
  let (elseOutputBytes, elseConcat) := appendBranchOutputConcat elseCtx
  let mergedLocals := collectBranchMergedLocals thenConcat elseConcat ctx
  match branchOutputRejectionReason thenConcat elseConcat thenOutputBytes elseOutputBytes
      mergedLocals readsAfter with
  | some reason =>
      throw ("Cannot compile conditional that both declares outputs and " ++ reason ++
        ". Move the addOutput/addRawOutput/addDataOutput call after the if-statement.")
  | none => do
      let ifName ← emit (.ifValue condRef thenConcat.bindings elseConcat.bindings [])
      modify fun ctx =>
        if thenCtx.addOutputRefs.isEmpty && elseCtx.addOutputRefs.isEmpty then
          ctx.addDataOutputRef ifName
        else ctx.addOutputRef ifName
      modify (aliasMergedLocal ifName thenConcat elseConcat)

/-- The `if` of two lowered blocks without outputs. -/
def mergeResults (condRef : String) (thenCtx elseCtx : LoweringContext) : LowerM Unit := do
  let ctx ← get
  let mergedLocals := collectBranchMergedLocals thenCtx elseCtx ctx
  let armProps := updatedProps thenCtx.bindings ++ updatedProps elseCtx.bindings
  let resultNames := mergedLocals ++ ctx.propertyNames.filter armProps.contains
  let willBeLifted := !ctx.nested &&
    (updateBranches condRef thenCtx.bindings elseCtx.bindings).any fun l => 2 ≤ l.length
  match mergedLocals.filter armProps.contains with
  | name :: _ =>
      throw ("Local variable '" ++ name ++ "' shadows contract property 'this." ++ name ++
        "', and the conditional assigns both. The branch's result slots are identified by " ++
        "name, so the two cannot be told apart and the local's value would be silently " ++
        "replaced by the property's. Rename the local.")
  | [] =>
      if !willBeLifted && (2 ≤ mergedLocals.length ||
          (!resultNames.isEmpty && !elseCtx.bindings.isEmpty)) then do
        let thenDone := appendBranchResults thenCtx resultNames armProps
        let elseDone := appendBranchResults elseCtx resultNames armProps
        modify fun ctx => (ctx.syncCounter thenDone).syncCounter elseDone
        let _ ← emit (.ifValue condRef thenDone.bindings elseDone.bindings resultNames)
      else do
        let ifName ← emit (.ifValue condRef thenCtx.bindings elseCtx.bindings [])
        modify (aliasMergedLocal ifName thenCtx elseCtx)

/-- The `if` of two lowered blocks. -/
def mergeBranches (condRef : String) (thenCtx elseCtx : LoweringContext)
    (readsAfter : List String) : LowerM Unit :=
  if hasOutputs thenCtx || hasOutputs elseCtx then
    mergeOutputs condRef thenCtx elseCtx readsAfter
  else mergeResults condRef thenCtx elseCtx

/-! ## Loops -/

def extractBigIntValue : Expression → Option Int
  | .bigintLiteral value => some value
  | .unaryExpr .neg operand => (extractBigIntValue operand).map (- ·)
  | _ => none

/-- The step of a loop, by its update or else by its condition. -/
def extractLoopStep (condition : Expression) (update : Statement) : Int :=
  match update with
  | .expressionStatement (.incrementExpr _ _) => 1
  | .expressionStatement (.decrementExpr _ _) => -1
  | _ =>
      match condition with
      | .binaryExpr .gt _ _ | .binaryExpr .ge _ _ => -1
      | _ => 1

structure LoopShape where
  start : Int
  step : Int
  count : Nat
  deriving DecidableEq, Repr

/-- The start, the step and the number of iterations of a loop. -/
def extractLoopShape (init condition : Expression) (update : Statement) :
    Except String LoopShape :=
  match extractBigIntValue init with
  | none => throw ("Cannot determine loop start at compile time. For-loop iterators must " ++
      "start at an integer literal.")
  | some start =>
      match condition with
      | .binaryExpr op _ right =>
          match extractBigIntValue right with
          | none => throw ("Cannot determine loop bound at compile time. For-loop bounds must " ++
              "be integer literals.")
          | some bound =>
              if extractLoopStep condition update = 1 then
                match op with
                | .lt => pure ⟨start, 1, (bound - start).toNat⟩
                | .le => pure ⟨start, 1, (bound - start + 1).toNat⟩
                | op => throw ("For loop counting up (i++) must use '<' or '<=' (got '" ++
                    opText op ++ "').")
              else
                match op with
                | .gt => pure ⟨start, -1, (start - bound).toNat⟩
                | .ge => pure ⟨start, -1, (start - bound + 1).toNat⟩
                | op => throw ("For loop counting down (i--) must use '>' or '>=' (got '" ++
                    opText op ++ "').")
      | _ => throw ("Cannot determine loop bound at compile time. For-loop bounds must be " ++
          "integer literals.")

/-! ## Statements -/

mutual

/-- A block always ends by returning. -/
def branchEndsWithReturn : List Statement → Bool
  | [] => false
  | [last] => statementReturns last
  | _ :: next :: rest => branchEndsWithReturn (next :: rest)

def statementReturns : Statement → Bool
  | .returnStatement _ => true
  | .ifStatement _ thenBody (some elseBody) =>
      branchEndsWithReturn thenBody && branchEndsWithReturn elseBody
  | _ => false

end

/-- After the initialiser of a local. -/
def bindLocal (name : String) (init : Expression) (valueRef : String) : LowerM Unit := do
  modify fun ctx =>
    let ctx := ctx.addLocal name
    if isByteTypedExpr init ctx then ctx.addLocalByteVar name else ctx
  emitNamed name (.loadConst (.ref valueRef))

/-- The value returned is the last binding. -/
def emitReturn (ref : String) : LowerM Unit := do
  let ctx ← get
  match ctx.bindings.getLast? with
  | some last =>
      if last.name = ref then pure ()
      else do
        let _ ← emit (.loadConst (.ref ref))
  | none => pure ()

section Statements

variable (inline : Inline)

mutual

def lowerStatement (readsAfter : List String) : Statement → LowerM Unit
  | .variableDecl name _ init => do
      let valueRef ← lowerExprToRef inline init
      bindLocal name init valueRef
  | .assignment target value => do
      let valueRef ← lowerExprToRef inline value
      match target with
      | .propertyAccess property => do
          let _ ← emit (.updateProp property valueRef)
      | .identifier name => emitNamed name (.loadConst (.ref valueRef))
      | target => do
          let _ ← lowerExprToRef inline target
  | .ifStatement condition thenBody elseBody => do
      let condRef ← lowerExprToRef inline condition
      let thenCtx ← inSubContext (lowerStatements readsAfter thenBody)
      let elseCtx ← inSubContext (match elseBody with
        | some elseBody => lowerStatements readsAfter elseBody
        | none => pure ())
      mergeBranches condRef thenCtx elseCtx readsAfter
  | .forStatement name _ init condition update body => do
      let shape ← extractLoopShape init condition update
      let bodyCtx ← inSubContext (lowerStatements (readsAfter ++ statementsReads body) body)
      let _ ← emit (.loop shape.count bodyCtx.bindings name shape.start shape.step)
  | .expressionStatement expression => do
      let _ ← lowerExprToRef inline expression
  | .returnStatement value =>
      match value with
      | some value => do
          let ref ← lowerExprToRef inline value
          emitReturn ref
      | none => pure ()

/-- Lower the statements of a block.  After an `if` whose block always returns, the rest
is its else-block. -/
def lowerStatements (readsAfter : List String) : List Statement → LowerM Unit
  | [] => pure ()
  | stmt :: rest =>
      match stmt, rest with
      | .ifStatement condition thenBody none, next :: more =>
          if branchEndsWithReturn thenBody then do
            let condRef ← lowerExprToRef inline condition
            let thenCtx ← inSubContext (lowerStatements readsAfter thenBody)
            let elseCtx ← inSubContext (lowerStatements readsAfter (next :: more))
            mergeBranches condRef thenCtx elseCtx readsAfter
          else do
            lowerStatement (readsAfter ++ statementsReads (next :: more))
              (.ifStatement condition thenBody none)
            lowerStatements readsAfter (next :: more)
      | stmt, rest => do
          lowerStatement (readsAfter ++ statementsReads rest) stmt
          lowerStatements readsAfter rest

end

end Statements

/-! ## Inlining -/

/-- Lower the body of a private method in place of a call, its parameters standing for
the arguments.  The result is the last binding. -/
def inlineBody (lowerBody : List Statement → LowerM Unit) (name : String)
    (argRefs : List String) : LowerM String := do
  let ctx ← get
  match ctx.getPrivateMethod name with
  | none => do
      let thisRef ← emit (.loadConst .this)
      emit (.methodCall thisRef name argRefs)
  | some method => do
      let aliased := (method.params.map (·.name)).zip argRefs
      modify fun ctx => aliased.foldl (fun ctx entry => ctx.pushParamAlias entry.1 entry.2) ctx
      lowerBody method.body
      modify fun ctx => aliased.foldr (fun entry ctx => ctx.popParamAlias entry.1) ctx
      let after ← get
      match after.bindings.getLast? with
      | some last =>
          if ctx.bindings.length < after.bindings.length then pure last.name
          else emit (.loadConst .void)
      | none => emit (.loadConst .void)

/-- Inline down to a depth of calls. -/
def inlinePrivateMethodCall : Nat → Inline
  | 0, name, _ => throw ("Recursion in '" ++ name ++ "'")
  | depth + 1, name, argRefs =>
      inlineBody (lowerStatements (inlinePrivateMethodCall depth) []) name argRefs

/-- Lower a method body.  Without recursion no chain of calls is longer than the list of
methods. -/
def lowerBody (contract : ContractNode) (body : List Statement) : LowerM Unit :=
  lowerStatements (inlinePrivateMethodCall (contract.methods.length + 1)) [] body

/-! ## Methods -/

def sighashDefault : Nat := 0x41

def primParam (name : String) (type : PrimitiveType) (ctx : LoweringContext) : LoweringContext :=
  ctx.addTypedParam name (.primitive type)

/-- The effects of a method. -/
def effectsOf (contract : ContractNode) (name : String) : MethodEffects :=
  ((computeSideEffectSummary contract).lookup name).getD .empty

/-- The parameters a public method of a stateful contract gets. -/
def addImplicitParams (shape : ContinuationShape) (ctx : LoweringContext) : LoweringContext :=
  let ctx := if shape.needsChange then
      primParam "_changeAmount" .bigint (primParam "_changePKH" .Ripemd160 ctx)
    else ctx
  let ctx := if shape.needsNewAmount then primParam "_newAmount" .bigint ctx else ctx
  primParam "txPreimage" .SigHashPreimage ctx

/-- The check of the preimage and of its sighash type, and the state read from it. -/
def emitPreamble (contract : ContractNode) (sighashMode : Nat) : LowerM Unit := do
  let preimageRef ← emit (.loadParam "txPreimage")
  let checkResult ← emit (.checkPreimage preimageRef
    (if sighashMode = sighashDefault then none else some sighashMode))
  let _ ← emit (.assert checkResult)
  let sigHashPreimageRef ← emit (.loadParam "txPreimage")
  let sigHashTypeRef ← emit (.call "extractSigHashType" [sigHashPreimageRef])
  let expectedRef ← emitConst (.bigint sighashMode)
  let okRef ← emit (.binOp .eq sigHashTypeRef expectedRef false)
  let _ ← emit (.assert okRef)
  if contract.properties.all (·.readonly) then pure ()
  else do
    let preimageRef ← emit (.loadParam "txPreimage")
    let _ ← emit (.deserializeState preimageRef)

/-- Keep the properties marked so in the script. -/
def emitEmbedAlwaysPreservation : List PropertyNode → LowerM Unit
  | [] => pure ()
  | field :: rest => do
      let loadRef ← emit (.loadProp field.name)
      emitNamed ("__embedAlways_" ++ field.name) (.loadConst (.ref loadRef))
      emitEmbedAlwaysPreservation rest

/-- The change output, or nothing for an amount of zero. -/
def emitChangeOutput : LowerM String := do
  let changePKHRef ← emit (.loadParam "_changePKH")
  let changeAmountRef ← emit (.loadParam "_changeAmount")
  let zeroRef ← emitConst (.bigint 0)
  let changeNonZeroRef ← emit (.binOp .ne changeAmountRef zeroRef false)
  let thenCtx ← inSubContext
    (discard (emit (.call "buildChangeOutput" [changePKHRef, changeAmountRef])))
  let elseCtx ← inSubContext (discard (emitConst (.bytes [])))
  emit (.ifValue changeNonZeroRef thenCtx.bindings elseCtx.bindings [])

/-- Concatenate names onto a name in the current context. -/
def emitCats (acc : String) (refs : List String) : LowerM String :=
  modifyGet (catRefs acc refs)

/-- The bytes given have the hash of the outputs in the preimage. -/
def assertOutputHash (outputsRef : String) : LowerM Unit := do
  let hashRef ← emit (.call "hash256" [outputsRef])
  let preimageRef ← emit (.loadParam "txPreimage")
  let outputHashRef ← emit (.call "extractOutputHash" [preimageRef])
  let _ ← assertSameBytes hashRef outputHashRef

/-- The check that the outputs of the transaction are those of the method: its state and
raw outputs, or one output with the new state; its data outputs; the change. -/
def emitContinuation : LowerM Unit := do
  let ctx ← get
  let changeOutputRef ← emitChangeOutput
  match ctx.addOutputRefs with
  | first :: rest => do
      let outputsRef ← emitCats first (rest ++ ctx.addDataOutputRefs ++ [changeOutputRef])
      assertOutputHash outputsRef
  | [] => do
      let stateScriptRef ← emit .getStateScript
      let preimageRef ← emit (.loadParam "txPreimage")
      let newAmountRef ← emit (.loadParam "_newAmount")
      let contractOutputRef ← emit
        (.call "computeStateOutput" [preimageRef, stateScriptRef, newAmountRef])
      let outputsRef ← emitCats contractOutputRef (ctx.addDataOutputRefs ++ [changeOutputRef])
      assertOutputHash outputsRef

/-- The context of a method: its parameters, and its sighash mode. -/
def methodContext (contract : ContractNode) (method : MethodNode) : LoweringContext :=
  let ctx := (LoweringContext.ofContract contract).setMethodParamTypes method.params
  let ctx := { ctx with sighashFlag :=
    if method.sighashType = some sighashDefault then none else method.sighashType }
  method.params.foldl (fun ctx p => ctx.addParam p.name) ctx

def isStatefulContextParam (param : ParamNode) : Bool := param.type = .custom "StatefulContext"

/-- Whether a method is checked against the transaction that spends the contract. -/
def isCovenant (contract : ContractNode) (method : MethodNode) : Bool :=
  contract.parentClass == .statefulSmartContract && method.visibility == .isPublic

/-- The fields to keep in the script, to be put into this method. -/
abbrev EmbedFields : Type := List PropertyNode

/-- Lower one method. -/
def lowerMethod (contract : ContractNode) (embedFields : EmbedFields) (method : MethodNode) :
    Except String ANFMethod :=
  let shape := continuationShape (effectsOf contract method.name)
  if isCovenant contract method then do
    let (_, ctx) ← (do
      emitPreamble contract (method.sighashType.getD sighashDefault)
      emitEmbedAlwaysPreservation embedFields
      lowerBody contract method.body
      if shape.needsChange then emitContinuation : LowerM Unit).run
        (addImplicitParams shape (methodContext contract method))
    pure {
      name := method.name
      params := ((method.params.filter fun p => !isStatefulContextParam p).map (·.name)) ++
        (if shape.needsChange then ["_changePKH", "_changeAmount"] else []) ++
        (if shape.needsNewAmount then ["_newAmount"] else []) ++ ["txPreimage"] ++
        ctx.methodScope.autoInjectedParams
      body := liftBranchUpdateProps ctx.bindings
      isPublic := true }
  else do
    let (_, ctx) ← (do
      if method.visibility = .isPublic then emitEmbedAlwaysPreservation embedFields
      lowerBody contract method.body : LowerM Unit).run (methodContext contract method)
    pure {
      name := method.name
      params := method.params.map (·.name) ++ ctx.methodScope.autoInjectedParams
      body := liftBranchUpdateProps ctx.bindings
      isPublic := method.visibility == .isPublic }

/-- Lower the methods in order; the first public one keeps the fields marked so. -/
def lowerMethodList (contract : ContractNode) :
    EmbedFields → List MethodNode → Except String (List ANFMethod)
  | _, [] => pure []
  | fields, method :: rest => do
      let lowered ← lowerMethod contract fields method
      let rest ← lowerMethodList contract
        (if method.visibility = .isPublic then [] else fields) rest
      pure (lowered :: rest)

def lowerConstructor (contract : ContractNode) : Except String ANFMethod := do
  let (_, ctx) ← (lowerBody contract contract.constructor.body).run
    ((LoweringContext.ofContract contract).setMethodParamTypes contract.constructor.params)
  pure {
    name := "constructor"
    params := contract.constructor.params.map (·.name)
    body := liftBranchUpdateProps ctx.bindings
    isPublic := false }

/-- The methods of a contract in A-normal form, the constructor first. -/
def lowerMethods (contract : ContractNode) : Except String (List ANFMethod) := do
  let constructor ← lowerConstructor contract
  let methods ← lowerMethodList contract
    (contract.properties.filter fun p => p.readonly && p.embedAlways) contract.methods
  pure (constructor :: methods)

end Runar.AnfLower
