/-
  Typecheck/Run.lean --- a contract run next to its types.

  WHAT THIS FILE IS FOR.  The reference interpreter's evaluation of a method, carrying
  the environment the checker has at the same point.  Where an expression has a value
  of another family than the type inferred for it, the run logs that and goes on; the
  log does not change what is computed.

  THE CHECKER TAKES SOME THINGS ON TRUST: that a value of unknown type is of the type it
  is used at, that a private method returns what its return type, guessed beforehand,
  says, that the update of a loop is well typed, that raw script leaves what is declared.
  A run logs, apart from the above, where one of these turns out wrong.
-/
import Runar.Interpreter.Value
import Runar.Logic.Blame
import Runar.Typecheck.Check

set_option autoImplicit false

namespace Runar.Typecheck

open Ast Interpreter Logic
open Script (Bytes)

/-! ## Families -/

/-- A value is of the family of a type.  The types of names that are no values have no
value; the other types that are in no family allow any. -/
def fits : TType → Value → Bool
  | .prim name, v =>
      if byteStringSubtypes.contains name then v.isBytes
      else if bigintSubtypes.contains name then v.isBigint
      else v.isBoolean
  | .array element, v =>
      match v with
      | .array elements => elements.all (fits element)
      | _ => false
  | .this, _ | .super, _ | .builtin, _ | .namespaceType, _ | .method, _ => false
  | .void, _ | .unknown, _ | .inferred, _ | .custom _, _ => true

/-- A type is a subtype of another without counting on the unknown type. -/
def isKnownSubtype (actual expected : TType) : Bool :=
  if actual = expected then true
  else if expected = .inferred ∨ expected = .unknown then true
  else if isByteFamily actual && isByteFamily expected then true
  else if isBigintFamily actual && isBigintFamily expected then true
  else
    match actual, expected with
    | .array a, .array e => isKnownSubtype a e
    | _, _ => false

/-- The type the checker infers for an expression. -/
def typeOf (tc : TypeChecker) (env : TypeEnv) (e : Expression) : TType :=
  ((inferExprType tc env e).run ⟨[], [], []⟩).1

/-! ## The log -/

/-- What the checker takes on trust. -/
inductive Site where
  /-- a value of unknown type where a type is expected -/
  | unknownType
  /-- what a private method returns -/
  | helperReturn
  /-- the update of a loop -/
  | loopUpdate
  /-- what raw script leaves -/
  | rawScript
  deriving DecidableEq, Repr

inductive Event where
  /-- an expression has a value outside the family of its type -/
  | illTyped (type : TType) (value : Value)
  /-- an operator meets operands of families it is not for -/
  | mixedOperands (operands : List Value)
  /-- trust was misplaced -/
  | trusted (site : Site)

/-- Why a run stops. -/
inductive Fault where
  | assertFailed
  /-- an operation without a result: division by zero, an index out of range -/
  | failed
  | outOfFuel
  deriving DecidableEq, Repr

/-! ## The state -/

/-- The locals, innermost first, and the properties. -/
structure World where
  locals : List (String × Value)
  props : List (String × Value)

abbrev EvalM : Type → Type := LogM World Fault Event

open LogM

/-- Give a local a new value. -/
def setLocal (name : String) (v : Value) : List (String × Value) → List (String × Value)
  | [] => []
  | (n, old) :: rest => if n = name then (n, v) :: rest else (n, old) :: setLocal name v rest

namespace World

def define (w : World) (name : String) (v : Value) : World :=
  { w with locals := (name, v) :: w.locals }

def assignLocal (w : World) (name : String) (v : Value) : World :=
  { w with locals := setLocal name v w.locals }

def assignProp (w : World) (name : String) (v : Value) : World :=
  { w with props := (name, v) :: w.props }

end World

/-- Run a block; its locals end with it. -/
def inScope {α : Type} (m : EvalM α) : EvalM α := do
  let before ← read
  let a ← m
  update fun w => { w with locals := w.locals.drop (w.locals.length - before.locals.length) }
  pure a

/-- What is given to a run: the functions and constants of the language, and how private
methods and loops go on. -/
structure Runtime where
  tc : TypeChecker
  builtin : String → List Value → Option Value
  globals : String → Option Value
  rawScript : List Expression → Option Value
  txPreimage : Bytes
  stateScript : List (String × Value) → Bytes
  callMethod : String → List Value → EvalM Value
  fuel : Nat

/-- Whether a value is of the family expected is noticed. -/
def observe (checked : Bool) (type : TType) (v : Value) : EvalM Value := do
  if fits type v then pure ()
  else record (if checked then .illTyped type v else .trusted .loopUpdate)
  pure v

/-- A value goes from a type to another.  The checker lets an unknown type through. -/
def flow (checked : Bool) (actual expected : TType) (v : Value) : EvalM Unit :=
  if fits expected v then pure ()
  else if !checked then record (.trusted .loopUpdate)
  else if isSubtype actual expected && !isKnownSubtype actual expected then
    record (.trusted .unknownType)
  else pure ()

/-- Values go into parameters. -/
def flowAll (checked : Bool) : List TType → List TType → List Value → EvalM Unit
  | actual :: actuals, expected :: expecteds, v :: vs => do
      flow checked actual expected v
      flowAll checked actuals expecteds vs
  | _, _, _ => pure ()

def truth (v : Value) : EvalM Bool := ofOption .failed (toBool v)

/-! ## Expressions -/

section Eval

variable (R : Runtime) (checked : Bool)

/-- The names that never stand for a local. -/
def reservedNames : List String := ["this", "super", "true", "false"]

/-- A name that stands for no local: a constant of the language, or a property. -/
def isGlobalName (name : String) : Bool :=
  (builtinSig name).isSome || (knownGlobals.lookup name).isSome

/-- A name: a local, a constant of the language, a property. -/
def evalIdentifier (name : String) : EvalM Value := do
  let w ← read
  if name ∈ reservedNames then
    if name = "true" then pure (.boolean true)
    else if name = "false" then pure (.boolean false)
    else fail .failed
  else
    match w.locals.lookup name with
    | some v => pure v
    | none =>
        if isGlobalName name then ofOption .failed (R.globals name)
        else ofOption .failed (w.props.lookup name)

def evalProperty (property : String) : EvalM Value := do
  let w ← read
  ofOption .failed (w.props.lookup property)

/-- Whether an operator is for the operands it meets is noticed. -/
def observeOperands (agree : Bool) (operands : List Value) : EvalM Unit :=
  if agree then pure ()
  else record (if checked then .mixedOperands operands else .trusted .loopUpdate)

/-- Whether a binary operator is for operands of these families: a numeric one for two
numbers, one that is for byte strings too for two of the same family. -/
def operandsAgree (op : BinaryOp) (l r : Value) : Bool :=
  match op with
  | .sub | .mul | .div | .mod | .shl | .shr | .lt | .le | .gt | .ge => l.isBigint && r.isBigint
  | .add | .bitAnd | .bitOr | .bitXor => l.isBigint && r.isBigint || l.isBytes && r.isBytes
  | .eq | .ne | .and | .or => true

/-- The same for the unary operators. -/
def operandAgrees (op : UnaryOp) (v : Value) : Bool :=
  match op with
  | .neg => v.isBigint
  | .bitNot => v.isBigint || v.isBytes
  | .not => true

/-- The members of an object that is a name.  That a context is one is taken on trust
where its type does not say so. -/
def evalMember (env : TypeEnv) (object property : String) : EvalM Value := do
  let w ← read
  if object = "this" then ofOption .failed (w.props.lookup property)
  else
    match w.locals.lookup object with
    | some .context =>
        if property = "txPreimage" then do
          if env.lookup object = some .statefulContext then pure ()
          else record (.trusted .unknownType)
          pure (.bytes R.txPreimage)
        else fail .failed
    | some (.bytes bs) => if property = "length" then pure (.num bs.length) else fail .failed
    | some _ => fail .failed
    | none =>
        if object = "SigHash" then ofOption .failed ((sigHashValues.lookup property).map .num)
        else fail .failed

/-- A call of a builtin function, its arguments evaluated. -/
def callBuiltin (name : String) (sig : FuncSig) (types : List TType) (vs : List Value) :
    EvalM Value := do
  flowAll checked types sig.params vs
  if name = "assert" then
    match vs with
    | [] => fail .failed
    | v :: _ => do
        let holds ← truth v
        if holds then pure .void else fail .assertFailed
  else ofOption .failed (R.builtin name vs)

/-- A call of a method of the contract, its arguments evaluated. -/
def callOwn (name : String) (types : List TType) (vs : List Value) : EvalM Value :=
  match R.tc.methodSig name with
  | none => fail .failed
  | some sig => do
      flowAll checked types sig.params vs
      let v ← R.callMethod name vs
      if fits sig.returnType v then pure () else record (.trusted .helperReturn)
      pure v

/-- The object a method is called on is the contract. -/
def isContractObject (object : Expression) : EvalM Bool := do
  let w ← read
  match object with
  | .identifier name =>
      pure (name == "this" || (w.locals.lookup name).any fun v => match v with
        | .context => true
        | _ => false)
  | _ => pure false

def evalStateScript : EvalM Value := do
  let w ← read
  pure (.bytes (R.stateScript w.props))

/-- An index into an array, or into a byte string. -/
def evalIndex (object index : Value) : EvalM Value :=
  match object, index with
  | .array elements, .bigint i _ =>
      if 0 ≤ i then ofOption .failed elements[i.toNat]? else fail .failed
  | .bytes bs, .bigint i _ =>
      if 0 ≤ i then ofOption .failed (bs[i.toNat]?.map fun b => .num b.toNat) else fail .failed
  | _, _ => fail .failed

/-- The array with an element replaced. -/
def storeAt (object index v : Value) : EvalM Value :=
  match object, index with
  | .array elements, .bigint i _ =>
      if 0 ≤ i ∧ i.toNat < elements.length then pure (.array (elements.set i.toNat v))
      else fail .failed
  | _, _ => fail .failed

def assignProperty (property : String) (v : Value) : EvalM Unit := do
  let w ← read
  if (w.props.lookup property).isSome then update (·.assignProp property v)
  else fail .failed

/-- Assign to a name: a local, or else a property. -/
def assignName (name : String) (v : Value) : EvalM Unit := do
  let w ← read
  if name ∈ reservedNames then fail .failed
  else if (w.locals.lookup name).isSome then update (·.assignLocal name v)
  else if isGlobalName name then fail .failed
  else assignProperty name v

mutual

/-- Evaluate an expression. -/
def evalExpr (env : TypeEnv) : Expression → EvalM Value
  | .bigintLiteral n => pure (.num n)
  | .boolLiteral b => pure (.boolean b)
  | .bytestringLiteral bs => pure (.bytes bs)
  | .identifier name => do
      let v ← evalIdentifier R name
      observe checked (typeOf R.tc env (.identifier name)) v
  | .propertyAccess property => do
      let v ← evalProperty property
      observe checked (typeOf R.tc env (.propertyAccess property)) v
  | .memberExpr object property => do
      let v ← match object with
        | .identifier name => evalMember R env name property
        | object => do
            let o ← evalExpr env object
            match o with
            | .bytes bs => if property = "length" then pure (.num bs.length) else fail .failed
            | _ => fail .failed
      observe checked (typeOf R.tc env (.memberExpr object property)) v
  | .binaryExpr op left right => do
      let l ← evalExpr env left
      let v ←
        if op = .and then do
          let b ← truth l
          if b then do
            let r ← evalExpr env right
            let c ← truth r
            pure (.boolean c)
          else pure (.boolean false)
        else if op = .or then do
          let b ← truth l
          if b then pure (.boolean true)
          else do
            let r ← evalExpr env right
            let c ← truth r
            pure (.boolean c)
        else do
          let r ← evalExpr env right
          observeOperands checked (operandsAgree op l r) [l, r]
          ofOption .failed (applyBinary op l r)
      observe checked (typeOf R.tc env (.binaryExpr op left right)) v
  | .unaryExpr op operand => do
      let o ← evalExpr env operand
      observeOperands checked (operandAgrees op o) [o]
      let v ← ofOption .failed (applyUnary op o)
      observe checked (typeOf R.tc env (.unaryExpr op operand)) v
  | .callExpr callee args asmReturnType => do
      let v ← match callee with
        | .identifier name =>
            if name = "super" then do
              let _ ← evalExprs env args
              pure .void
            else if name = "asm" then do
              let v ← ofOption .failed (R.rawScript args)
              match asmReturnType with
              | some t =>
                  if fits (.prim t) v then pure () else record (.trusted .rawScript)
                  pure v
              | none => pure v
            else
              match builtinSig name with
              | some sig => do
                  let vs ← evalExprs env args
                  callBuiltin R checked name sig (args.map (typeOf R.tc env)) vs
              | none => do
                  let vs ← evalExprs env args
                  callOwn R checked name (args.map (typeOf R.tc env)) vs
        | .propertyAccess property =>
            if property = "getStateScript" then evalStateScript R
            else if property ∈ outputIntrinsics then do
              let _ ← evalOutputArgs env args
              pure .void
            else do
              let vs ← evalExprs env args
              callOwn R checked property (args.map (typeOf R.tc env)) vs
        | .memberExpr object property => do
            let own ← isContractObject object
            if own ∧ property = "getStateScript" then evalStateScript R
            else if own ∧ property ∈ outputIntrinsics then do
              let _ ← evalOutputArgs env args
              pure .void
            else
              match object with
              | .identifier "this" => do
                  let vs ← evalExprs env args
                  callOwn R checked property (args.map (typeOf R.tc env)) vs
              | _ => fail .failed
        | _ => fail .failed
      observe checked (typeOf R.tc env (.callExpr callee args asmReturnType)) v
  | .ternaryExpr condition consequent alternate => do
      let c ← evalExpr env condition
      let b ← truth c
      let type := typeOf R.tc env (.ternaryExpr condition consequent alternate)
      if b then do
        let v ← evalExpr env consequent
        flow checked (typeOf R.tc env consequent) type v
        observe checked type v
      else do
        let v ← evalExpr env alternate
        flow checked (typeOf R.tc env alternate) type v
        observe checked type v
  | .indexAccess object index => do
      let o ← evalExpr env object
      let i ← evalExpr env index
      let v ← evalIndex o i
      observe checked (typeOf R.tc env (.indexAccess object index)) v
  | .incrementExpr operand isPrefix => do
      let o ← evalExpr env operand
      match o with
      | .bigint n _ => do
          assign env operand (.num (n + 1))
          pure (if isPrefix then .num (n + 1) else o)
      | _ => fail .failed
  | .decrementExpr operand isPrefix => do
      let o ← evalExpr env operand
      match o with
      | .bigint n _ => do
          assign env operand (.num (n - 1))
          pure (if isPrefix then .num (n - 1) else o)
      | _ => fail .failed
  | .arrayLiteral elements =>
      match elements with
      | [] => pure (.array [])
      | first :: rest => do
          let v ← evalExpr env first
          let vs ← evalExprs env rest
          flowAll checked (rest.map (typeOf R.tc env))
            (rest.map fun _ => typeOf R.tc env first) vs
          observe checked (typeOf R.tc env (.arrayLiteral (first :: rest))) (.array (v :: vs))

/-- Evaluate from left to right. -/
def evalExprs (env : TypeEnv) : List Expression → EvalM (List Value)
  | [] => pure []
  | e :: rest => do
      let v ← evalExpr env e
      let vs ← evalExprs env rest
      pure (v :: vs)

/-- The arguments of an output; the state values may stand in an array. -/
def evalOutputArgs (env : TypeEnv) : List Expression → EvalM (List Value)
  | [] => pure []
  | e :: rest => do
      let v ← evalExpr env e
      let vs ← match rest with
        | [.arrayLiteral elements] => evalExprs env elements
        | rest => evalExprs env rest
      pure (v :: vs)

/-- Assign to an expression. -/
def assign (env : TypeEnv) : Expression → Value → EvalM Unit
  | .identifier name, v => assignName name v
  | .propertyAccess property, v => assignProperty property v
  | .indexAccess object index, v => do
      let o ← evalExpr env object
      let i ← evalExpr env index
      let o' ← storeAt o i v
      assign env object o'
  | _, _ => fail .failed

end

/-! ## Statements -/

/-- How a statement ends. -/
inductive Outcome where
  | next
  | returned (value : Value)

/-- The environment after a statement. -/
def envAfter (tc : TypeChecker) (env : TypeEnv) : Statement → TypeEnv
  | .variableDecl name (some type) _ => env.define name (typeNodeToTType type)
  | .variableDecl name none init => env.define name (typeOf tc env init)
  | _ => env

/-- Declare a local. -/
def evalDecl (env : TypeEnv) (name : String) (type : Option TypeNode) (init : Expression) :
    EvalM Unit := do
  let v ← evalExpr R checked env init
  match type with
  | some type => flow checked (typeOf R.tc env init) (typeNodeToTType type) v
  | none => pure ()
  update (·.define name v)

/-- Go round a loop. -/
def loopRun (condition : EvalM Bool) (body : EvalM Outcome) (step : EvalM Unit) :
    Nat → EvalM Outcome
  | 0 => fail .outOfFuel
  | n + 1 => do
      let holds ← condition
      if holds then do
        let outcome ← body
        match outcome with
        | .next => do
            step
            loopRun condition body step n
        | .returned v => pure (.returned v)
      else pure .next

end Eval

mutual

def evalStatement (R : Runtime) (checked : Bool) (env : TypeEnv) : Statement → EvalM Outcome
  | .variableDecl name type init => do
      evalDecl R checked env name type init
      pure .next
  | .assignment target value => do
      let v ← evalExpr R checked env value
      flow checked (typeOf R.tc env value) (typeOf R.tc env target) v
      assign R checked env target v
      pure .next
  | .ifStatement condition thenBody elseBody => do
      let c ← evalExpr R checked env condition
      let holds ← truth c
      if holds then inScope (evalStatements R checked env.pushScope thenBody)
      else
        match elseBody with
        | some elseBody => inScope (evalStatements R checked env.pushScope elseBody)
        | none => pure .next
  | .forStatement name type init condition step body =>
      let loopEnv := envAfter R.tc env.pushScope (.variableDecl name type init)
      inScope do
        evalDecl R checked env.pushScope name type init
        loopRun
          (do
            let c ← evalExpr R checked loopEnv condition
            truth c)
          (inScope (evalStatements R checked loopEnv body))
          -- the checker does not look at the update
          (inScope do
            let _ ← evalStatement R false loopEnv step)
          R.fuel
  | .expressionStatement expression => do
      let _ ← evalExpr R checked env expression
      pure .next
  | .returnStatement value =>
      match value with
      | some value => do
          let v ← evalExpr R checked env value
          pure (.returned v)
      | none => pure (.returned .void)

def evalStatements (R : Runtime) (checked : Bool) (env : TypeEnv) :
    List Statement → EvalM Outcome
  | [] => pure .next
  | stmt :: rest => do
      let outcome ← evalStatement R checked env stmt
      match outcome with
      | .next => evalStatements R checked (envAfter R.tc env stmt) rest
      | .returned v => pure (.returned v)

end

/-! ## Methods -/

/-- The locals a method starts with. -/
def paramLocals (params : List ParamNode) (args : List Value) : List (String × Value) :=
  ((params.map (·.name)).zip args).reverse

/-- Run the body of a method on arguments. -/
def runBody (R : Runtime) (method : MethodNode) (args : List Value) : EvalM Value := do
  let before ← read
  update fun w => { w with locals := paramLocals method.params args }
  let outcome ← evalStatements R true (paramEnv method.params) method.body
  update fun w => { w with locals := before.locals }
  match outcome with
  | .next => pure .void
  | .returned v => pure v

/-- What a contract runs on, given the functions and constants of the language. -/
structure Language where
  builtin : String → List Value → Option Value
  globals : String → Option Value
  rawScript : List Expression → Option Value
  txPreimage : Bytes
  stateScript : List (String × Value) → Bytes

/-- The methods of a contract call one another, down to a depth. -/
def runMethod (contract : ContractNode) (lang : Language) (fuel : Nat) :
    Nat → String → List Value → EvalM Value
  | 0, _, _ => fail .outOfFuel
  | depth + 1, name, args =>
      match contract.methods.find? fun m => m.name = name with
      | none => fail .failed
      | some method =>
          if args.length = method.params.length then
            runBody
              { tc := .ofContract contract
                builtin := lang.builtin
                globals := lang.globals
                rawScript := lang.rawScript
                txPreimage := lang.txPreimage
                stateScript := lang.stateScript
                callMethod := runMethod contract lang fuel depth
                fuel := fuel }
              method args
          else fail .failed

end Runar.Typecheck
