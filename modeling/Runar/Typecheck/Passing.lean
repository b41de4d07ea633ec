/-
  Typecheck/Passing.lean --- where signatures and preimages go.

  WHAT THIS FILE IS FOR.  The execution of a method, followed for the values of type Sig
  and SigHashPreimage only: a run carries, in place of values, which parameter or property
  of the method a value is.  What the data decides (a condition, an index, how often a loop
  goes round) is read from a list of choices; every execution is the run of some list.

  A RUN LOGS every parameter or property passed to a consuming builtin, and before it
  whether the checker missed that it was: the run carries what the checker has booked at
  the same point.  The checker looks at a method once, in the method itself; what is passed
  in a private method, in a later iteration or in the update of a loop it does not count.
-/
import Runar.Logic.Ledger
import Runar.Typecheck.Passes

set_option autoImplicit false

namespace Runar.Typecheck

open Ast Logic

/-- What a value is. -/
inductive Origin where
  /-- the value of a parameter, by its name, or of a property, by `prop:` and its name -/
  | entity (key : String)
  | array (elements : List Origin)
  | other
  deriving Repr

namespace Origin

mutual

/-- The parameters and properties a value is, or holds. -/
def keys : Origin → List String
  | .entity key => [key]
  | .array elements => keysOf elements
  | .other => []

def keysOf : List Origin → List String
  | [] => []
  | o :: rest => o.keys ++ keysOf rest

end

/-- The element at an index. -/
def element (o : Origin) (i : Nat) : Origin :=
  match o with
  | .array elements => elements[i]?.getD .other
  | _ => .other

/-- The array with an element replaced. -/
def store (o : Origin) (i : Nat) (v : Origin) : Origin :=
  match o with
  | .array elements => .array (elements.set i v)
  | o => o

end Origin

inductive PassEvent where
  /-- a parameter or property is passed to a consuming builtin -/
  | consumed (key : String)
  /-- the checker has not booked the passing of it that follows -/
  | unbooked (key : String)
  deriving DecidableEq, Repr

inductive Halt where
  | outOfChoices
  | outOfFuel
  | failed
  deriving DecidableEq, Repr

/-- The choices that are left, the locals, innermost first, and the properties. -/
structure Flow where
  choices : List Nat
  locals : List (String × Origin)
  props : List (String × Origin)

abbrev FlowM : Type → Type := LogM Flow Halt PassEvent

open LogM

/-- What the data decides. -/
def choose : FlowM Nat := do
  let w ← read
  match w.choices with
  | [] => fail .outOfChoices
  | n :: rest => do
      update fun w => { w with choices := rest }
      pure n

/-- A condition that the data decides. -/
def chooseBool : FlowM Bool := do
  let n ← choose
  pure (n != 0)

def replaceOrigin (name : String) (o : Origin) : List (String × Origin) → List (String × Origin)
  | [] => []
  | (n, old) :: rest => if n = name then (n, o) :: rest else (n, old) :: replaceOrigin name o rest

namespace Flow

def define (w : Flow) (name : String) (o : Origin) : Flow :=
  { w with locals := (name, o) :: w.locals }

/-- Assign to a name: a local, or else a property. -/
def assign (w : Flow) (name : String) (o : Origin) : Flow :=
  if (w.locals.lookup name).isSome then { w with locals := replaceOrigin name o w.locals }
  else { w with props := (name, o) :: w.props }

def assignProp (w : Flow) (name : String) (o : Origin) : Flow :=
  { w with props := (name, o) :: w.props }

/-- What a name stands for. -/
def lookup (w : Flow) (name : String) : Origin :=
  match w.locals.lookup name with
  | some o => o
  | none => (w.props.lookup name).getD .other

end Flow

/-- A block; its locals end with it. -/
def inBlock {α : Type} (m : FlowM α) : FlowM α := do
  let before ← read
  let a ← m
  update fun w => { w with locals := w.locals.drop (w.locals.length - before.locals.length) }
  pure a

/-- What is given to a run. -/
structure FlowRuntime where
  tc : TypeChecker
  callMethod : String → List Origin → FlowM Origin
  fuel : Nat

/-- What the checker has down for a call at this point, if it looks at it now. -/
def bookedKey (tc : TypeChecker) (env : TypeEnv) (aliases : List (String × String))
    (func : String) (args : List Expression) : Option String :=
  (staticOrigin tc env aliases func args).map (·.2)

/-- The events of passing a value. -/
def passEvents (booked : Option String) : Origin → List PassEvent
  | .entity key =>
      if booked = some key then [.consumed key] else [.unbooked key, .consumed key]
  | o => o.keys.flatMap fun key => [.unbooked key, .consumed key]

/-- The argument a function consumes is passed to it. -/
def passTo (booked : Option String) (func : String) (os : List Origin) : FlowM Unit :=
  match (consumedArg func).bind (os[·]?) with
  | none => pure ()
  | some o => recordAll (passEvents booked o)

/-! ## Expressions -/

/-- What stands at an expression that can be assigned to; nothing is evaluated. -/
def originAt : Expression → FlowM Origin
  | .identifier name => do
      let w ← read
      pure (w.lookup name)
  | .propertyAccess property => do
      let w ← read
      pure ((w.props.lookup property).getD .other)
  | .indexAccess object _ => do
      let o ← originAt object
      let i ← choose
      pure (o.element i)
  | _ => pure .other

/-- Store into an expression that can be assigned to. -/
def storeInto : Expression → Origin → FlowM Unit
  | .identifier name, o => update (·.assign name o)
  | .propertyAccess property, o => update (·.assignProp property o)
  | .indexAccess object _, o => do
      let whole ← originAt object
      let i ← choose
      storeInto object (whole.store i o)
  | _, _ => pure ()

section Trace

variable (R : FlowRuntime) (counted : Bool)

/-- What a builtin function returns: the cast to a byte string returns its argument. -/
def builtinOrigin (func : String) (os : List Origin) : Origin :=
  if func = "toByteString" then os.headD .other else .other


mutual

/-- Follow an expression. -/
def traceExpr (env : TypeEnv) (aliases : List (String × String)) : Expression → FlowM Origin
  | .bigintLiteral _ | .boolLiteral _ | .bytestringLiteral _ => pure .other
  | .identifier name => do
      let w ← read
      pure (w.lookup name)
  | .propertyAccess property => do
      let w ← read
      pure ((w.props.lookup property).getD .other)
  | .memberExpr object property => do
      let _ ← traceExpr env aliases object
      let w ← read
      match object with
      | .identifier "this" => pure ((w.props.lookup property).getD .other)
      | _ =>
          if property = "txPreimage" then pure ((w.props.lookup property).getD .other)
          else pure .other
  | .binaryExpr op left right => do
      let _ ← traceExpr env aliases left
      if op = .and ∨ op = .or then do
        let goesOn ← chooseBool
        if goesOn then do
          let _ ← traceExpr env aliases right
          pure .other
        else pure .other
      else do
        let _ ← traceExpr env aliases right
        pure .other
  | .unaryExpr _ operand => do
      let _ ← traceExpr env aliases operand
      pure .other
  | .callExpr callee args _ =>
      match callee with
      | .identifier name =>
          if name = "super" then do
            let _ ← traceExprs env aliases args
            pure .other
          else if name = "asm" then pure .other
          else do
            let os ← traceExprs env aliases args
            match builtinSig name with
            | some _ => do
                passTo (if counted then bookedKey R.tc env aliases name args else none) name os
                pure (builtinOrigin name os)
            | none => R.callMethod name os
      | .propertyAccess property =>
          if property = "getStateScript" then pure .other
          else if property ∈ outputIntrinsics then do
            let _ ← traceOutputArgs env aliases args
            pure .other
          else do
            let os ← traceExprs env aliases args
            R.callMethod property os
      | .memberExpr object property =>
          match object with
          | .identifier _ =>
              if property = "getStateScript" then pure .other
              else if property ∈ outputIntrinsics then do
                let _ ← traceOutputArgs env aliases args
                pure .other
              else do
                let os ← traceExprs env aliases args
                R.callMethod property os
          | _ => fail .failed
      | _ => fail .failed
  | .ternaryExpr condition consequent alternate => do
      let _ ← traceExpr env aliases condition
      let holds ← chooseBool
      if holds then traceExpr env aliases consequent
      else traceExpr env aliases alternate
  | .indexAccess object index => do
      let o ← traceExpr env aliases object
      let _ ← traceExpr env aliases index
      let i ← choose
      pure (o.element i)
  | .incrementExpr operand _ => do
      let _ ← traceExpr env aliases operand
      storeInto operand .other
      pure .other
  | .decrementExpr operand _ => do
      let _ ← traceExpr env aliases operand
      storeInto operand .other
      pure .other
  | .arrayLiteral elements =>
      match elements with
      | [] => pure (.array [])
      | first :: rest => do
          let o ← traceExpr env aliases first
          let os ← traceExprs env aliases rest
          pure (.array (o :: os))

/-- Follow expressions from left to right. -/
def traceExprs (env : TypeEnv) (aliases : List (String × String)) :
    List Expression → FlowM (List Origin)
  | [] => pure []
  | e :: rest => do
      let o ← traceExpr env aliases e
      let os ← traceExprs env aliases rest
      pure (o :: os)

/-- The arguments of an output; the state values may stand in an array. -/
def traceOutputArgs (env : TypeEnv) (aliases : List (String × String)) :
    List Expression → FlowM (List Origin)
  | [] => pure []
  | e :: rest => do
      let o ← traceExpr env aliases e
      let os ← match rest with
        | [.arrayLiteral elements] => traceExprs env aliases elements
        | rest => traceExprs env aliases rest
      pure (o :: os)

end

/-- Assign to an expression. -/
def traceAssign (env : TypeEnv) (aliases : List (String × String)) :
    Expression → Origin → FlowM Unit
  | .indexAccess object index, v => do
      let o ← traceExpr R counted env aliases object
      let _ ← traceExpr R counted env aliases index
      let i ← choose
      storeInto object (o.store i v)
  | target, v => storeInto target v

end Trace

/-! ## Statements -/

inductive FlowEnd where
  | next
  | returned (value : Origin)

/-- Go round a loop again. -/
def loopAgain (condition : FlowM Unit) (body : FlowM FlowEnd) (step : FlowM Unit) :
    Nat → FlowM FlowEnd
  | 0 => fail .outOfFuel
  | n + 1 => do
      step
      condition
      let holds ← chooseBool
      if holds then do
        let outcome ← body
        match outcome with
        | .next => loopAgain condition body step n
        | .returned v => pure (.returned v)
      else pure .next

/-- What the checker has booked after a check. -/
def bookedAfter {α : Type} (m : Check α) (s : CheckState) : CheckState := (m.run s).2

mutual

/-- Follow a statement, next to what the checker has booked before it. -/
def traceStatement (R : FlowRuntime) (counted : Bool) (env : TypeEnv) (s : CheckState) :
    Statement → FlowM FlowEnd
  | .variableDecl name _ init => do
      let o ← traceExpr R counted env s.affineAliases init
      update (·.define name o)
      pure .next
  | .assignment target value => do
      let o ← traceExpr R counted env s.affineAliases value
      traceAssign R counted env s.affineAliases target o
      pure .next
  | .ifStatement condition thenBody elseBody => do
      let s₁ := bookedAfter (inferExprType R.tc env condition) s
      let s₂ := bookedAfter (checkStatements R.tc env.pushScope thenBody) s₁
      let _ ← traceExpr R counted env s.affineAliases condition
      let holds ← chooseBool
      if holds then inBlock (traceStatements R counted env.pushScope s₁ thenBody)
      else
        match elseBody with
        | some elseBody => inBlock (traceStatements R counted env.pushScope s₂ elseBody)
        | none => pure .next
  | .forStatement name type init condition step body =>
      let loopEnv := envAfter R.tc env.pushScope (.variableDecl name type init)
      let s₁ := bookedAfter (checkVariableDecl R.tc env.pushScope name type init) s
      let s₂ := bookedAfter (inferExprType R.tc loopEnv condition) s₁
      inBlock do
        let o ← traceExpr R counted env.pushScope s.affineAliases init
        update (·.define name o)
        let _ ← traceExpr R counted loopEnv s₁.affineAliases condition
        let holds ← chooseBool
        if holds then do
          let outcome ← inBlock (traceStatements R counted loopEnv s₂ body)
          match outcome with
          | .next =>
              -- the checker does not look at the update, and at the rest only once
              loopAgain
                (do
                  let _ ← traceExpr R false loopEnv s₁.affineAliases condition)
                (inBlock (traceStatements R false loopEnv s₂ body))
                (inBlock do
                  let _ ← traceStatement R false loopEnv s₂ step)
                R.fuel
          | .returned v => pure (.returned v)
        else pure .next
  | .expressionStatement expression => do
      let _ ← traceExpr R counted env s.affineAliases expression
      pure .next
  | .returnStatement value =>
      match value with
      | some value => do
          let o ← traceExpr R counted env s.affineAliases value
          pure (.returned o)
      | none => pure (.returned .other)

def traceStatements (R : FlowRuntime) (counted : Bool) (env : TypeEnv) (s : CheckState) :
    List Statement → FlowM FlowEnd
  | [] => pure .next
  | stmt :: rest => do
      let outcome ← traceStatement R counted env s stmt
      match outcome with
      | .next =>
          traceStatements R counted (envAfter R.tc env stmt)
            (bookedAfter (checkStatement R.tc env stmt) s) rest
      | .returned v => pure (.returned v)

end

/-! ## Methods -/

/-- Nothing is booked when the checker starts on a method. -/
def nothingBooked : CheckState := ⟨[], [], []⟩

/-- Follow the body of a method. -/
def traceBody (R : FlowRuntime) (counted : Bool) (method : MethodNode) (args : List Origin) :
    FlowM Origin := do
  let before ← read
  update fun w => { w with locals := ((method.params.map (·.name)).zip args).reverse }
  let outcome ← traceStatements R counted (paramEnv method.params) nothingBooked method.body
  update fun w => { w with locals := before.locals }
  match outcome with
  | .next => pure .other
  | .returned v => pure v

/-- A method called by another, down to a depth. -/
def traceMethod (contract : ContractNode) (fuel : Nat) :
    Nat → String → List Origin → FlowM Origin
  | 0, _, _ => fail .outOfFuel
  | depth + 1, name, args =>
      match contract.methods.find? fun m => m.name = name with
      | none => fail .failed
      | some method =>
          traceBody
            { tc := .ofContract contract
              callMethod := traceMethod contract fuel depth
              fuel := fuel }
            false method args

/-- What a parameter or a property is at first. -/
def ownOrigin (type : TypeNode) (key : String) : Origin :=
  if isAffineType (typeNodeToTType type) then .entity key else .other

def startProps (contract : ContractNode) : List (String × Origin) :=
  (contract.properties.map fun p => (p.name, ownOrigin p.type ("prop:" ++ p.name))) ++
    if contract.parentClass = .statefulSmartContract then
      [("txPreimage", .entity "prop:txPreimage")]
    else []

/-- What an execution of a public method logs. -/
def passLog (contract : ContractNode) (fuel depth : Nat) (method : MethodNode)
    (choices : List Nat) : List PassEvent :=
  (traceBody
    { tc := .ofContract contract
      callMethod := traceMethod contract fuel depth
      fuel := fuel }
    true method (method.params.map fun p => ownOrigin p.type p.name)
    ⟨choices, [], startProps contract⟩).2.2

end Runar.Typecheck
