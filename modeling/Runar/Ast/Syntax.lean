/-
  Ast/Syntax.lean --- the source language, as the parser delivers it.

  WHAT THIS FILE IS FOR.  A contract has properties, a constructor and methods; a
  method has statements over mutable locals, and a statement has expressions.
  Source positions and comment directives are left out.
-/
import Runar.Anf.Syntax

set_option autoImplicit false

namespace Runar.Ast

open Script (Bytes)

/-! ## Types -/

/-- A type as it is written. -/
inductive TypeNode where
  | primitive (name : PrimitiveType)
  | void
  | fixedArray (element : TypeNode) (length : Nat)
  | custom (name : String)
  deriving DecidableEq, Repr

/-! ## Expressions -/

inductive Expression where
  | bigintLiteral (value : Int)
  | boolLiteral (value : Bool)
  | bytestringLiteral (value : Bytes)
  | identifier (name : String)
  /-- `this.x` -/
  | propertyAccess (property : String)
  | memberExpr (object : Expression) (property : String)
  | binaryExpr (op : BinaryOp) (left right : Expression)
  | unaryExpr (op : UnaryOp) (operand : Expression)
  | callExpr (callee : Expression) (args : List Expression) (asmReturnType : Option PrimitiveType)
  | ternaryExpr (condition consequent alternate : Expression)
  | indexAccess (object index : Expression)
  | incrementExpr (operand : Expression) (isPrefix : Bool)
  | decrementExpr (operand : Expression) (isPrefix : Bool)
  | arrayLiteral (elements : List Expression)

/-! ## Statements -/

inductive Statement where
  | variableDecl (name : String) (type : Option TypeNode) (init : Expression)
  | assignment (target value : Expression)
  | ifStatement (condition : Expression) (thenBody : List Statement)
      (elseBody : Option (List Statement))
  /-- `for (let name: type = init; condition; update) body` -/
  | forStatement (name : String) (type : Option TypeNode) (init condition : Expression)
      (update : Statement) (body : List Statement)
  | expressionStatement (expression : Expression)
  | returnStatement (value : Option Expression)

/-- The constants of the `SigHash` namespace. -/
def sigHashValues : List (String × Int) :=
  [("ALL", 0x01), ("NONE", 0x02), ("SINGLE", 0x03), ("FORKID", 0x40), ("ANYONECANPAY", 0x80)]

/-! ## Contracts -/

/-- A property; `embedAlways` is the directive of that name. -/
structure PropertyNode where
  name : String
  type : TypeNode
  readonly : Bool
  initializer : Option Expression
  embedAlways : Bool

structure ParamNode where
  name : String
  type : TypeNode
  deriving DecidableEq, Repr

inductive Visibility where
  | isPublic
  | isPrivate
  deriving DecidableEq, Repr

/-- A method; `sighashType` is the value of its `@sighash` directive. -/
structure MethodNode where
  name : String
  params : List ParamNode
  body : List Statement
  visibility : Visibility
  sighashType : Option Nat

inductive ParentClass where
  | smartContract
  | statefulSmartContract
  | unsafeSmartContract
  deriving DecidableEq, Repr

structure ContractNode where
  parentClass : ParentClass
  properties : List PropertyNode
  constructor : MethodNode
  methods : List MethodNode

end Runar.Ast
