/-
  Artifact/Expand.lean --- array properties become scalar ones.

  WHAT THIS FILE IS FOR.  Before lowering, a property of an array type is replaced by a
  property for each of its elements, down to the scalars, with the elements of its
  initializer.  The initializers that are literals become constants.
-/
import Runar.Artifact.StateFields
import Runar.Ast.Syntax

set_option autoImplicit false

namespace Runar.Artifact

open Ast (Expression TypeNode)

/-- The constant of a literal. -/
def extractLiteralValue : Expression → Option ConstValue
  | .bigintLiteral n => some (.bigint n)
  | .boolLiteral b => some (.boolean b)
  | .bytestringLiteral bs => some (.bytes bs)
  | .unaryExpr .neg (.bigintLiteral n) => some (.bigint (-n))
  | _ => none

inductive ExpandError where
  | notAnArrayLiteral (name : String)
  | lengthMismatch (name : String) (actual expected : Nat)
  | emptyArray (name : String)
  /-- an element type that is no scalar -/
  | notAScalar (name : String)
  deriving DecidableEq, Repr

/-- The elements of an initializer that has to be an array of a length. -/
def arrayElements (name : String) (length : Nat) :
    Option Expression → Except ExpandError (List (Option Expression))
  | none => .ok (List.replicate length none)
  | some (.arrayLiteral elements) =>
      if elements.length = length then .ok (elements.map some)
      else .error (.lengthMismatch name elements.length length)
  | some _ => .error (.notAnArrayLiteral name)

/-- The scalars of a property, or of an element of one, outermost index first. -/
def expandType (readonly : Bool) (name : String) (chain : List ChainEntry) :
    TypeNode → Option Expression → Except ExpandError (List PropertyNode)
  | .primitive type, init =>
      .ok [{ name, type, readonly, initializer := init.bind extractLiteralValue,
             syntheticArrayChain := chain }]
  | .fixedArray element length, init =>
      if length = 0 then .error (.emptyArray name)
      else do
        let elements ← arrayElements name length init
        let slots ← elements.zipIdx.mapM fun slot =>
          expandType readonly (name ++ "__" ++ toString slot.2)
            (chain ++ [{ base := name, index := slot.2, length := length }]) element slot.1
        .ok slots.flatten
  | .void, _ | .custom _, _ => .error (.notAScalar name)

/-- The properties of the expanded contract. -/
def expandProperties (properties : List Ast.PropertyNode) :
    Except ExpandError (List PropertyNode) := do
  let expanded ← properties.mapM fun prop =>
    expandType prop.readonly prop.name [] prop.type prop.initializer
  .ok expanded.flatten

end Runar.Artifact
