/-
  Parse/Solidity.lean --- names in a contract that is written as Solidity.

  WHAT THIS FILE IS FOR.  In the Solidity form a method speaks of the contract's
  properties by their bare names, and the parameters of the constructor are written
  with a leading underscore.  After a contract is read, the parser makes the bare
  names accesses to properties and takes the underscore off.  Here are those steps;
  what the parser reads from the tokens, member by member, is their input.
-/
import Runar.Ast.Syntax

set_option autoImplicit false

namespace Runar.Parse.Solidity

open Ast

/-! ## The walk over an expression -/

/-- What a bare name stands for. -/
inductive Leaf where
  | identifier (name : String)
  | property (name : String)
  deriving DecidableEq, Repr

def Leaf.toExpr : Leaf → Expression
  | .identifier name => .identifier name
  | .property name => .propertyAccess name

mutual

/-- The walk that `renameExpr` and `resolveExpr` share.  The elements of an array are not
walked. -/
def mapIdentifiers (f : String → Leaf) : Expression → Expression
  | .identifier name => (f name).toExpr
  | .binaryExpr op left right => .binaryExpr op (mapIdentifiers f left) (mapIdentifiers f right)
  | .unaryExpr op operand => .unaryExpr op (mapIdentifiers f operand)
  | .callExpr callee args asmReturnType =>
      .callExpr (mapIdentifiers f callee) (mapEach f args) asmReturnType
  | .memberExpr object property => .memberExpr (mapIdentifiers f object) property
  | .ternaryExpr condition consequent alternate =>
      .ternaryExpr (mapIdentifiers f condition) (mapIdentifiers f consequent)
        (mapIdentifiers f alternate)
  | .indexAccess object index => .indexAccess (mapIdentifiers f object) (mapIdentifiers f index)
  | .incrementExpr operand isPrefix => .incrementExpr (mapIdentifiers f operand) isPrefix
  | .decrementExpr operand isPrefix => .decrementExpr (mapIdentifiers f operand) isPrefix
  | .bigintLiteral value => .bigintLiteral value
  | .boolLiteral value => .boolLiteral value
  | .bytestringLiteral value => .bytestringLiteral value
  | .propertyAccess property => .propertyAccess property
  | .arrayLiteral elements => .arrayLiteral elements

def mapEach (f : String → Leaf) : List Expression → List Expression
  | [] => []
  | e :: rest => mapIdentifiers f e :: mapEach f rest

end

/-! ## Parameters with an underscore -/

/-- `name.replace(/^_/, '')` -/
def stripUnderscore (name : String) : String :=
  match name.toList with
  | '_' :: rest => String.ofList rest
  | _ => name

/-- The renaming of a constructor: `_p` to `p`, for every parameter `p`. -/
def renameMap (params : List String) : List (String × String) :=
  params.map fun p => ("_" ++ p, p)

/-- A name the map does not have, or has as the empty text, stays. -/
def renamed (map : List (String × String)) (name : String) : String :=
  match map.lookup name with
  | some target => if target = "" then name else target
  | none => name

def renameExpr (map : List (String × String)) : Expression → Expression :=
  mapIdentifiers fun name => .identifier (renamed map name)

mutual

/-- A declared name stays as it is. -/
def renameIdentifiers (map : List (String × String)) : Statement → Statement
  | .variableDecl name type init => .variableDecl name type (renameExpr map init)
  | .assignment target value => .assignment (renameExpr map target) (renameExpr map value)
  | .expressionStatement expression => .expressionStatement (renameExpr map expression)
  | .ifStatement condition thenBody elseBody =>
      .ifStatement (renameExpr map condition) (renameAll map thenBody)
        (match elseBody with
          | some elseBody => some (renameAll map elseBody)
          | none => none)
  | .forStatement name type init condition update body =>
      .forStatement name type (renameExpr map init) (renameExpr map condition)
        (renameIdentifiers map update) (renameAll map body)
  | .returnStatement value =>
      .returnStatement
        (match value with
          | some value => some (renameExpr map value)
          | none => none)

def renameAll (map : List (String × String)) : List Statement → List Statement
  | [] => []
  | stmt :: rest => renameIdentifiers map stmt :: renameAll map rest

end

/-- An assignment to a bare name of a property is one to the property. -/
def propertyTarget (propNames : List String) : Statement → Statement
  | .assignment (.identifier name) value =>
      if name ∈ propNames then .assignment (.propertyAccess name) value
      else .assignment (.identifier name) value
  | stmt => stmt

/-- The constructor's node; `properties` are those read so far.  The call of `super`
is added. -/
def parseConstructor (properties : List PropertyNode) (written : List ParamNode)
    (body : List Statement) : MethodNode :=
  let params := written.map fun p => { p with name := stripUnderscore p.name }
  let superCall := Statement.expressionStatement
    (.callExpr (.identifier "super") (params.map fun p => .identifier p.name) none)
  let map := renameMap (params.map (·.name))
  let fixedBody := body.map fun stmt =>
    propertyTarget (properties.map (·.name))
      (if map.length > 0 then renameIdentifiers map stmt else stmt)
  { name := "constructor", params := params, body := superCall :: fixedBody,
    visibility := .isPublic, sighashType := none }

/-! ## Bare names of properties -/

/-- A name of a property, and of no parameter or local variable, becomes an access. -/
def resolveExpr (propNames paramNames : List String) : Expression → Expression :=
  mapIdentifiers fun name =>
    if name ∈ propNames ∧ name ∉ paramNames then .property name else .identifier name

mutual

/-- The statement, and the set of local names as it leaves it: the set is one mutable
object, to which a declaration adds its name. -/
def resolvePropertyAccess (propNames : List String) :
    Statement → List String → Statement × List String
  | .variableDecl name type init, paramNames =>
      (.variableDecl name type (resolveExpr propNames paramNames init), name :: paramNames)
  | .assignment target value, paramNames =>
      (.assignment (resolveExpr propNames paramNames target)
        (resolveExpr propNames paramNames value), paramNames)
  | .expressionStatement expression, paramNames =>
      (.expressionStatement (resolveExpr propNames paramNames expression), paramNames)
  | .ifStatement condition thenBody elseBody, paramNames =>
      (.ifStatement (resolveExpr propNames paramNames condition)
        (resolveCopies propNames thenBody paramNames)
        (match elseBody with
          | some elseBody => some (resolveCopies propNames elseBody paramNames)
          | none => none), paramNames)
  | .forStatement name type init condition update body, paramNames =>
      -- the header shares the set of the statements around the loop
      let header := name :: paramNames
      let step := resolvePropertyAccess propNames update header
      (.forStatement name type (resolveExpr propNames paramNames init)
        (resolveExpr propNames header condition) step.1
        (resolveCopies propNames body step.2), step.2)
  | .returnStatement value, paramNames =>
      (.returnStatement
        (match value with
          | some value => some (resolveExpr propNames paramNames value)
          | none => none), paramNames)

/-- The statements of an inner block: each has a copy of the set of its own. -/
def resolveCopies (propNames : List String) : List Statement → List String → List Statement
  | [], _ => []
  | stmt :: rest, paramNames =>
      (resolvePropertyAccess propNames stmt paramNames).1 ::
        resolveCopies propNames rest paramNames

end

/-- The statements of a method's body, which share one set. -/
def resolveBody (propNames : List String) : List Statement → List String → List Statement
  | [], _ => []
  | stmt :: rest, paramNames =>
      let step := resolvePropertyAccess propNames stmt paramNames
      step.1 :: resolveBody propNames rest step.2

def MethodNode.resolve (propNames : List String) (m : MethodNode) : MethodNode :=
  { m with body := resolveBody propNames m.body (m.params.map (·.name)) }

/-! ## Contracts -/

/-- A member of a contract, as it is read. -/
inductive Member where
  | property (node : PropertyNode)
  | function (node : MethodNode)
  /-- with the parameters as they are written -/
  | constructor (written : List ParamNode) (body : List Statement)

/-- What the loop over the members has collected. -/
structure Collected where
  properties : List PropertyNode
  methods : List MethodNode
  constructorNode : Option MethodNode

def Collected.member (c : Collected) : Member → Collected
  | .property node => { c with properties := c.properties ++ [node] }
  | .function node => { c with methods := c.methods ++ [node] }
  | .constructor written body =>
      { c with constructorNode := some (parseConstructor c.properties written body) }

/-- The constructor of a contract that has none. -/
def defaultConstructor (properties : List PropertyNode) : MethodNode :=
  let uninitProps := properties.filter fun p => p.initializer.isNone
  { name := "constructor",
    params := uninitProps.map fun p => ⟨p.name, p.type⟩,
    body :=
      .expressionStatement
          (.callExpr (.identifier "super") (uninitProps.map fun p => .identifier p.name) none) ::
        uninitProps.map fun p => .assignment (.propertyAccess p.name) (.identifier p.name),
    visibility := .isPublic, sighashType := none }

/-- The contract of the members. -/
def parse (parentClass : ParentClass) (members : List Member) : ContractNode :=
  let c := members.foldl Collected.member ⟨[], [], none⟩
  { parentClass := parentClass, properties := c.properties,
    constructor := c.constructorNode.getD (defaultConstructor c.properties),
    methods := c.methods.map (MethodNode.resolve (c.properties.map (·.name))) }

end Runar.Parse.Solidity
