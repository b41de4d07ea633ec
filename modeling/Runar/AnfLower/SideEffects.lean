/-
  AnfLower/SideEffects.lean --- what a method does to the contract's outputs.

  WHAT THIS FILE IS FOR.  A public method of a stateful contract is continued by a
  check on the outputs of the transaction if it changes the state or emits an
  output, itself or through a private method.  This file walks over the bodies and
  the calls of private methods to find out.
-/
import Runar.Ast.Syntax

set_option autoImplicit false

namespace Runar.AnfLower

open Ast

/-! ## Effects -/

/-- The effects of a method on the continuation. -/
structure MethodEffects where
  mutatesState : Bool
  hasStateOutput : Bool
  hasDataOutput : Bool
  usesPreimage : Bool
  deriving DecidableEq, Repr

namespace MethodEffects

def empty : MethodEffects := ⟨false, false, false, false⟩

def union (a b : MethodEffects) : MethodEffects where
  mutatesState := a.mutatesState || b.mutatesState
  hasStateOutput := a.hasStateOutput || b.hasStateOutput
  hasDataOutput := a.hasDataOutput || b.hasDataOutput
  usesPreimage := a.usesPreimage || b.usesPreimage

/-- It emits an output. -/
def hasOutput (e : MethodEffects) : Bool := e.hasStateOutput || e.hasDataOutput

end MethodEffects

def stateOutputIntrinsics : List String := ["addOutput", "addRawOutput"]

def dataOutputIntrinsics : List String := ["addDataOutput"]

/-- The effects of calling a method of the contract by its name, other than those of
its body. -/
def intrinsicEffects (name : String) : MethodEffects where
  mutatesState := false
  hasStateOutput := stateOutputIntrinsics.contains name
  hasDataOutput := dataOutputIntrinsics.contains name
  usesPreimage := false

/-- The effects of writing to an expression. -/
def writeEffects (mutableProps : List String) : Expression → MethodEffects
  | .propertyAccess property => { MethodEffects.empty with
      mutatesState := mutableProps.contains property }
  | _ => .empty

/-! ## Bodies -/

section Collect

variable (mutableProps : List String) (effectsFor : String → MethodEffects)

mutual

/-- The effects of an expression; `effectsFor` is what a private method does. -/
def collectExpr : Expression → MethodEffects
  | .incrementExpr operand _ | .decrementExpr operand _ => writeEffects mutableProps operand
  | .callExpr callee args _ =>
      match callee with
      | .propertyAccess name =>
          ((intrinsicEffects name).union (effectsFor name)).union (collectExprs args)
      | .memberExpr object name =>
          (((intrinsicEffects name).union (effectsFor name)).union (collectExprs args)).union
            (collectExpr object)
      | .identifier name =>
          ({ effectsFor name with
              usesPreimage := (effectsFor name).usesPreimage || name == "checkPreimage" }).union
            (collectExprs args)
      | callee => (collectExprs args).union (collectExpr callee)
  | .binaryExpr _ left right => (collectExpr left).union (collectExpr right)
  | .unaryExpr _ operand => collectExpr operand
  | .ternaryExpr condition consequent alternate =>
      ((collectExpr condition).union (collectExpr consequent)).union (collectExpr alternate)
  | .indexAccess object index => (collectExpr object).union (collectExpr index)
  | .memberExpr object _ => collectExpr object
  | .arrayLiteral elements => collectExprs elements
  | .bigintLiteral _ | .boolLiteral _ | .bytestringLiteral _ | .identifier _
  | .propertyAccess _ => .empty

def collectExprs : List Expression → MethodEffects
  | [] => .empty
  | e :: rest => (collectExpr e).union (collectExprs rest)

end

mutual

def collectStmt : Statement → MethodEffects
  | .assignment target value =>
      ((writeEffects mutableProps target).union (collectExpr mutableProps effectsFor target)).union
        (collectExpr mutableProps effectsFor value)
  | .expressionStatement expression => collectExpr mutableProps effectsFor expression
  | .ifStatement condition thenBody elseBody =>
      ((collectExpr mutableProps effectsFor condition).union (collectStmts thenBody)).union
        (match elseBody with
          | some elseBody => collectStmts elseBody
          | none => .empty)
  | .forStatement _ _ init condition update body =>
      ((collectExpr mutableProps effectsFor init).union
        (collectExpr mutableProps effectsFor condition)).union
          ((collectStmt update).union (collectStmts body))
  | .returnStatement value =>
      match value with
      | some value => collectExpr mutableProps effectsFor value
      | none => .empty
  | .variableDecl _ _ init => collectExpr mutableProps effectsFor init

def collectStmts : List Statement → MethodEffects
  | [] => .empty
  | stmt :: rest => (collectStmt stmt).union (collectStmts rest)

end

end Collect

/-! ## Contracts -/

/-- The names of the properties that methods may change. -/
def mutablePropNames (contract : ContractNode) : List String :=
  (contract.properties.filter fun p => !p.readonly).map (·.name)

/-- The private method a call by name goes to; a later one replaces an earlier one. -/
def privateMethodsByName (contract : ContractNode) (name : String) : Option MethodNode :=
  (contract.methods.filter fun m => m.visibility = .isPrivate).reverse.find? fun m => m.name = name

/-- The effects of a call of a private method, down to a depth of calls. -/
def callEffects (contract : ContractNode) : Nat → String → MethodEffects
  | 0, _ => .empty
  | depth + 1, name =>
      match privateMethodsByName contract name with
      | none => .empty
      | some m => collectStmts (mutablePropNames contract) (callEffects contract depth) m.body

/-- The effects of every method and of the constructor.  Without recursion no chain of
calls is longer than the list of methods. -/
def computeSideEffectSummary (contract : ContractNode) : List (String × MethodEffects) :=
  let effects (body : List Statement) : MethodEffects :=
    collectStmts (mutablePropNames contract) (callEffects contract contract.methods.length) body
  ("constructor", effects contract.constructor.body) ::
    contract.methods.map fun m => (m.name, effects m.body)

/-- What a continuation needs. -/
structure ContinuationShape where
  needsChange : Bool
  needsNewAmount : Bool
  isTerminal : Bool
  deriving DecidableEq, Repr

def continuationShape (effects : MethodEffects) : ContinuationShape :=
  let needsChange := effects.mutatesState || effects.hasStateOutput || effects.hasDataOutput
  { needsChange := needsChange
    needsNewAmount := (effects.mutatesState || effects.hasDataOutput) && !effects.hasStateOutput
    isTerminal := !needsChange }

end Runar.AnfLower
