/-
  Parse/Scopes.lean --- the names of a body and the scopes they stand in.

  WHAT THIS FILE IS FOR.  A variable is in scope from its declaration to the end of
  the block, a loop variable in the rest of the header and in the body of its loop.
  The uses of a body are its identifiers and its accesses to properties in the order
  of the text, each with the local names that are in scope there.  Whether a use
  stands in an array literal is kept beside it: the walks of the parser stop there.
-/
import Runar.Parse.Solidity

set_option autoImplicit false

namespace Runar.Parse.Solidity

open Ast

/-! ## Uses of an expression -/

/-- A leaf of an expression, and whether it stands in an array literal. -/
structure Mark where
  leaf : Leaf
  boxed : Bool
  deriving DecidableEq, Repr

mutual

def exprMarks (boxed : Bool) : Expression → List Mark
  | .identifier name => [⟨.identifier name, boxed⟩]
  | .propertyAccess property => [⟨.property property, boxed⟩]
  | .binaryExpr _ left right => exprMarks boxed left ++ exprMarks boxed right
  | .unaryExpr _ operand => exprMarks boxed operand
  | .callExpr callee args _ => exprMarks boxed callee ++ exprsMarks boxed args
  | .memberExpr object _ => exprMarks boxed object
  | .ternaryExpr condition consequent alternate =>
      exprMarks boxed condition ++ exprMarks boxed consequent ++ exprMarks boxed alternate
  | .indexAccess object index => exprMarks boxed object ++ exprMarks boxed index
  | .incrementExpr operand _ => exprMarks boxed operand
  | .decrementExpr operand _ => exprMarks boxed operand
  | .arrayLiteral elements => exprsMarks true elements
  | .bigintLiteral _ => []
  | .boolLiteral _ => []
  | .bytestringLiteral _ => []

def exprsMarks (boxed : Bool) : List Expression → List Mark
  | [] => []
  | e :: rest => exprMarks boxed e ++ exprsMarks boxed rest

end

mutual

/-- Everything in an array literal is marked so. -/
theorem boxed_of_mem (e : Expression) : ∀ mark ∈ exprMarks true e, mark.boxed = true := by
  intro mark hmark
  cases e with
  | identifier _ | propertyAccess _ =>
      rw [exprMarks, List.mem_singleton] at hmark
      rw [hmark]
  | bigintLiteral _ | boolLiteral _ | bytestringLiteral _ =>
      rw [exprMarks] at hmark
      exact (List.not_mem_nil hmark).elim
  | binaryExpr _ left right | indexAccess left right =>
      rw [exprMarks, List.mem_append] at hmark
      exact hmark.elim (boxed_of_mem left mark) (boxed_of_mem right mark)
  | unaryExpr _ operand | memberExpr operand _ | incrementExpr operand _
  | decrementExpr operand _ =>
      rw [exprMarks] at hmark
      exact boxed_of_mem operand mark hmark
  | callExpr callee args _ =>
      rw [exprMarks, List.mem_append] at hmark
      exact hmark.elim (boxed_of_mem callee mark) (boxed_of_mem_exprs args mark)
  | ternaryExpr condition consequent alternate =>
      rw [exprMarks, List.mem_append, List.mem_append] at hmark
      exact hmark.elim
        (fun h => h.elim (boxed_of_mem condition mark) (boxed_of_mem consequent mark))
        (boxed_of_mem alternate mark)
  | arrayLiteral elements =>
      rw [exprMarks] at hmark
      exact boxed_of_mem_exprs elements mark hmark

theorem boxed_of_mem_exprs (es : List Expression) :
    ∀ mark ∈ exprsMarks true es, mark.boxed = true := by
  intro mark hmark
  cases es with
  | nil =>
      rw [exprsMarks] at hmark
      exact (List.not_mem_nil hmark).elim
  | cons e rest =>
      rw [exprsMarks, List.mem_append] at hmark
      exact hmark.elim (boxed_of_mem e mark) (boxed_of_mem_exprs rest mark)

end

/-- What the walk of the parser makes of a mark. -/
def Mark.map (f : String → Leaf) (mark : Mark) : Mark :=
  match mark.leaf, mark.boxed with
  | .identifier name, false => ⟨f name, false⟩
  | leaf, boxed => ⟨leaf, boxed⟩

theorem Mark.map_boxed (f : String → Leaf) (mark : Mark) (h : mark.boxed = true) :
    mark.map f = mark := by
  obtain ⟨leaf, boxed⟩ := mark
  obtain rfl : boxed = true := h
  cases leaf <;> rfl

theorem exprMarks_toExpr (leaf : Leaf) : exprMarks false leaf.toExpr = [⟨leaf, false⟩] := by
  cases leaf <;> rfl

mutual

theorem exprMarks_mapIdentifiers (f : String → Leaf) (e : Expression) :
    exprMarks false (mapIdentifiers f e) = (exprMarks false e).map (Mark.map f) := by
  cases e with
  | identifier name => exact exprMarks_toExpr (f name)
  | propertyAccess _ | bigintLiteral _ | boolLiteral _ | bytestringLiteral _ => rfl
  | binaryExpr _ left right | indexAccess left right =>
      rw [mapIdentifiers, exprMarks, exprMarks, List.map_append,
        exprMarks_mapIdentifiers f left, exprMarks_mapIdentifiers f right]
  | unaryExpr _ operand | memberExpr operand _ | incrementExpr operand _
  | decrementExpr operand _ =>
      rw [mapIdentifiers, exprMarks, exprMarks, exprMarks_mapIdentifiers f operand]
  | callExpr callee args _ =>
      rw [mapIdentifiers, exprMarks, exprMarks, List.map_append,
        exprMarks_mapIdentifiers f callee, exprsMarks_mapEach f args]
  | ternaryExpr condition consequent alternate =>
      rw [mapIdentifiers, exprMarks, exprMarks, List.map_append, List.map_append,
        exprMarks_mapIdentifiers f condition, exprMarks_mapIdentifiers f consequent,
        exprMarks_mapIdentifiers f alternate]
  | arrayLiteral elements =>
      have hsame : ∀ mark ∈ exprsMarks true elements, mark.map f = id mark := fun mark hmark =>
        mark.map_boxed f (boxed_of_mem_exprs elements mark hmark)
      rw [mapIdentifiers, exprMarks, List.map_congr_left hsame, List.map_id]

theorem exprsMarks_mapEach (f : String → Leaf) (es : List Expression) :
    exprsMarks false (mapEach f es) = (exprsMarks false es).map (Mark.map f) := by
  cases es with
  | nil => rfl
  | cons e rest =>
      rw [mapEach, exprsMarks, exprsMarks, List.map_append, exprMarks_mapIdentifiers f e,
        exprsMarks_mapEach f rest]

end

/-! ## Uses of a body -/

/-- A use, with the local names in scope there. -/
structure Use where
  leaf : Leaf
  boxed : Bool
  scope : List String
  deriving DecidableEq, Repr

def exprUses (scope : List String) (e : Expression) : List Use :=
  (exprMarks false e).map fun mark => ⟨mark.leaf, mark.boxed, scope⟩

/-- The name a statement declares for the rest of its block. -/
def declared : Statement → List String
  | .variableDecl name _ _ => [name]
  | _ => []

mutual

def stmtUses (scope : List String) : Statement → List Use
  | .variableDecl _ _ init => exprUses scope init
  | .assignment target value => exprUses scope target ++ exprUses scope value
  | .expressionStatement expression => exprUses scope expression
  | .ifStatement condition thenBody elseBody =>
      exprUses scope condition ++ bodyUses scope thenBody ++
        (match elseBody with
          | some elseBody => bodyUses scope elseBody
          | none => [])
  | .forStatement name _ init condition update body =>
      exprUses scope init ++ exprUses (name :: scope) condition ++
        stmtUses (name :: scope) update ++ bodyUses (name :: scope) body
  | .returnStatement value =>
      match value with
      | some value => exprUses scope value
      | none => []

/-- The uses of a block that is entered with the scope. -/
def bodyUses (scope : List String) : List Statement → List Use
  | [] => []
  | stmt :: rest => stmtUses scope stmt ++ bodyUses (declared stmt ++ scope) rest

end

/-! ## Loop headers -/

mutual

/-- The step of every loop is an expression: the parser reads no other. -/
def StepsAreExpressions : Statement → Prop
  | .ifStatement _ thenBody elseBody =>
      BodySteps thenBody ∧
        (match elseBody with
          | some elseBody => BodySteps elseBody
          | none => True)
  | .forStatement _ _ _ _ update body =>
      (∃ e, update = .expressionStatement e) ∧ BodySteps body
  | .variableDecl _ _ _ => True
  | .assignment _ _ => True
  | .expressionStatement _ => True
  | .returnStatement _ => True

def BodySteps : List Statement → Prop
  | [] => True
  | stmt :: rest => StepsAreExpressions stmt ∧ BodySteps rest

end

end Runar.Parse.Solidity
