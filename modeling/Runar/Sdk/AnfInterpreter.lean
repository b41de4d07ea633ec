/-
  Sdk/AnfInterpreter.lean --- the interpreter of the SDK for programs in A-normal form.

  WHAT THIS FILE IS FOR.  Before a transaction is broadcast the SDK runs the called method
  off chain.  The lenient mode skips asserts, the strict mode stops at the first that is
  false, and the on-chain authoritative mode also verifies signatures and preimages.

  WHAT IS LOGGED.  The asserts that are executed, with what became of their condition, and
  the calls of the crypto builtins, with how they were evaluated.  The log is the model's.

  A PARAMETER: the values of the operators, of the other builtins and of a verification.
  Programs are as the artifact has them, with constants as JavaScript values.
-/
import Runar.Logic.Stops
import Runar.Sdk.Contract

set_option autoImplicit false

namespace Runar.Sdk.AnfInterpreter

open Script Logic LogM

/-! ## Programs -/

mutual

/-- The value of a binding.  The kinds without an effect off chain are `other`. -/
inductive AnfValue where
  | loadParam (name : String)
  | loadProp (name : String)
  | loadConst (value : JsValue)
  | binOp (op left right : String) (resultType : Option String)
  | unaryOp (op operand : String) (resultType : Option String)
  | call (func : String) (args : List String)
  | methodCall (method : String) (args : List String)
  | ifValue (cond : String) (thenBody elseBody : List AnfBinding)
  | loop (count : Nat) (body : List AnfBinding) (iterVar : String) (start step : Int)
  | assert (value : String) (isAutoInjectedStateCheck : Bool)
  | updateProp (name value : String)
  | addOutput (satoshis : String) (stateValues : List String)
  | addDataOutput (satoshis scriptBytes : String)
  | addRawOutput (satoshis scriptBytes : String)
  | checkPreimage (preimage : String)
  | deserializeState (preimage : String)
  | getStateScript
  | other (kind : String)

inductive AnfBinding where
  | mk (name : String) (value : AnfValue)

end

def AnfBinding.name : AnfBinding → String
  | mk name _ => name

structure AnfProperty where
  name : String
  readonly : Bool
  initialValue : Option JsValue

structure AnfMethod where
  name : String
  params : List String
  body : List AnfBinding
  isPublic : Bool

structure AnfProgram where
  properties : List AnfProperty
  methods : List AnfMethod

/-! ## Values -/

def isTruthy : JsValue → Bool
  | .boolean b => b
  | .bigint n | .number n => n ≠ 0
  | .string text => text ≠ [] ∧ text ≠ ['0'] ∧ text ≠ "false".toList
  | .emptySig | .null | .undefined | .array _ => false

/-- The number some digits are, none if a character is no digit. -/
def parseDigits (digits : HexText) : Option Nat :=
  if digits ≠ [] ∧ digits.all Char.isDigit then
    some (digits.foldl (fun n c => n * 10 + (c.toNat - '0'.toNat)) 0)
  else none

def toBigInt : JsValue → Int
  | .bigint n | .number n => n
  | .boolean b => cond b 1 0
  | .string text =>
      let text := if text.getLast? = some 'n' then text.dropLast else text
      match text with
      | '-' :: digits => ((parseDigits digits).map fun n => -(n : Int)).getD 0
      | digits => ((parseDigits digits).map fun n => (n : Int)).getD 0
  | .emptySig | .null | .undefined | .array _ => 0

/-- The target of an alias `@ref:target`. -/
def refTarget : JsValue → Option String
  | .string text =>
      if "@ref:".toList.isPrefixOf text then some (String.ofList (text.drop 5)) else none
  | _ => none

/-- The text of a script, empty for what is no text. -/
def scriptText : JsValue → HexText
  | .string text => text
  | _ => []

/-! ## States -/

structure DataOutputEntry where
  satoshis : Int
  script : HexText
  deriving DecidableEq, Repr

inductive OrderedOutputEntry where
  | state (satoshis : Int)
  | raw (satoshis : Int) (script : HexText)
  deriving DecidableEq, Repr

/-- What an evaluation changes.  `scriptBytes` has the stack bytes of the results of the
byte operations. -/
structure Machine where
  env : Record
  stateDelta : Record
  dataOutputs : List DataOutputEntry
  rawOutputs : List DataOutputEntry
  outputs : List OrderedOutputEntry
  scriptBytes : String → Option (List Nat)

namespace Machine

def bind (m : Machine) (name : String) (value : JsValue) : Machine :=
  { m with env := m.env.set name value }

def updateProp (m : Machine) (name : String) (value : JsValue) : Machine :=
  { m with env := m.env.set name value, stateDelta := m.stateDelta.set name value }

def setBytes (m : Machine) (name : String) (bytes : List Nat) : Machine :=
  { m with scriptBytes := fun other => if other = name then some bytes else m.scriptBytes other }

/-- The properties take the values of `add_output`, one after the other. -/
def takeState (m : Machine) : List String → List String → Machine
  | prop :: props, ref :: refs => (m.updateProp prop (m.env.get ref)).takeState props refs
  | _, _ => m

end Machine

/-- Where a binding stands: in the called method itself, or in a private method. -/
inductive Site where
  | own
  | helper
  deriving DecidableEq, Repr

inductive Event where
  /-- an assert was executed, and its condition was true or not -/
  | assert (site : Site) (holds : Bool)
  /-- a crypto builtin was called, and verified or mocked -/
  | crypto (site : Site) (func : String) (verified : Bool)
  deriving DecidableEq, Repr

inductive Failure where
  /-- an `AssertionFailureError` -/
  | assertionFailure (methodName bindingName : String)
  /-- an error of another kind -/
  | error (message : String)
  deriving DecidableEq, Repr

abbrev EvalM : Type → Type := LogM Machine Failure Event

structure StrictCtx where
  methodName : String
  realCrypto : Option (List Nat)

/-- What the operators and the builtins give, or the message of what they throw.  The byte
operations also give stack bytes. -/
structure Ops where
  binOp : String → Option String → JsValue → JsValue → Option (List Nat) → Option (List Nat) →
    Except String (JsValue × Option (List Nat))
  unaryOp : String → Option String → JsValue → Option (List Nat) →
    Except String (JsValue × Option (List Nat))
  call : String → List JsValue → Except String JsValue
  verify : String → List JsValue → List Nat → Bool

/-! ## Evaluation -/

def orThrow {α : Type} : Except String α → EvalM α
  | .ok a => pure a
  | .error message => fail (.error message)

def cryptoBuiltins : List String := ["checkSig", "checkMultiSig", "checkPreimage"]

section Eval

variable (ops : Ops) (mutableProps : List String)
  (callMethod : String → List JsValue → EvalM JsValue) (strict : Option StrictCtx) (site : Site)

/-- Execute an assert: in strict mode a false condition throws. -/
def enforce (bindingName : String) (predicate : JsValue) : EvalM JsValue :=
  if isTruthy predicate then do
    record (.assert site true)
    pure .undefined
  else
    match strict with
    | some ctx => do
        record (.assert site false)
        fail (.assertionFailure ctx.methodName bindingName)
    | none => do
        record (.assert site false)
        pure .undefined

/-- Call a builtin: the crypto builtins give `true` without a sighash to verify against. -/
def evalCall (func : String) (args : List JsValue) (realCrypto : Option (List Nat)) :
    EvalM JsValue :=
  if func ∈ cryptoBuiltins then
    match realCrypto with
    | none => do
        record (.crypto site func false)
        pure (.boolean true)
    | some sighash => do
        record (.crypto site func true)
        pure (.boolean (ops.verify func args sighash))
  else orThrow (ops.call func args)

/-- The result of an operator, its stack bytes kept under the name of the binding. -/
def keepBytes (bindingName : String) (result : Except String (JsValue × Option (List Nat))) :
    EvalM JsValue := do
  let (value, bytes) ← orThrow result
  match bytes with
  | some bytes => update fun m => m.setBytes bindingName bytes
  | none => pure ()
  pure value

/-- The value of the last binding of a block that was run. -/
def lastValue (body : List AnfBinding) : EvalM JsValue := do
  let m ← read
  pure ((body.getLast?.map fun b => m.env.get b.name).getD .undefined)

/-- Run a loop: `count` iterations, the next one with the value `i` of the variable. -/
def evalLoop (body : EvalM JsValue) (iterVar : String) (step : Int) :
    Nat → Int → JsValue → EvalM JsValue
  | 0, _, last => pure last
  | count + 1, i, _ => do
      update fun m => m.bind iterVar (.bigint i)
      let value ← body
      evalLoop body iterVar step count (i + step) value

mutual

def evalValue (bindingName : String) (value : AnfValue) : EvalM JsValue :=
  match value with
  | .loadParam name | .loadProp name => do
      let m ← read
      pure (m.env.get name)
  | .loadConst v =>
      match refTarget v with
      | some target => do
          let m ← read
          match m.scriptBytes target with
          | some carried => update fun m => m.setBytes bindingName carried
          | none => pure ()
          pure (m.env.get target)
      | none => pure v
  | .binOp op left right resultType => do
      let m ← read
      keepBytes bindingName (ops.binOp op resultType (m.env.get left) (m.env.get right)
        (m.scriptBytes left) (m.scriptBytes right))
  | .unaryOp op operand resultType => do
      let m ← read
      keepBytes bindingName
        (ops.unaryOp op resultType (m.env.get operand) (m.scriptBytes operand))
  | .call func args => do
      let m ← read
      if func = "assert" then enforce strict site bindingName (m.env.get (args.headD ""))
      else evalCall ops site func (args.map m.env.get) (strict.bind (·.realCrypto))
  | .methodCall method args => do
      let m ← read
      callMethod method (args.map m.env.get)
  | .ifValue cond thenBody elseBody => do
      let m ← read
      if isTruthy (m.env.get cond) then do
        evalBindings thenBody
        lastValue thenBody
      else do
        evalBindings elseBody
        lastValue elseBody
  | .loop count body iterVar start step =>
      evalLoop (do evalBindings body; lastValue body) iterVar step count start .undefined
  | .assert name isAutoInjectedStateCheck => do
      let m ← read
      -- the state check the compiler adds is left to the chain
      if isAutoInjectedStateCheck then pure .undefined
      else enforce strict site bindingName (m.env.get name)
  | .updateProp name ref => do
      update fun m => m.updateProp name (m.env.get ref)
      pure .undefined
  | .addOutput satoshis stateValues => do
      update fun m => m.takeState mutableProps stateValues
      update fun m =>
        { m with outputs := m.outputs ++ [.state (toBigInt (m.env.get satoshis))] }
      pure .undefined
  | .addDataOutput satoshis scriptBytes => do
      update fun m => { m with dataOutputs := m.dataOutputs ++
        [⟨toBigInt (m.env.get satoshis), scriptText (m.env.get scriptBytes)⟩] }
      pure .undefined
  | .addRawOutput satoshis scriptBytes => do
      update fun m =>
        let sats := toBigInt (m.env.get satoshis)
        let script := scriptText (m.env.get scriptBytes)
        { m with
          rawOutputs := m.rawOutputs ++ [⟨sats, script⟩]
          outputs := m.outputs ++ [.raw sats script] }
      pure .undefined
  | .checkPreimage _ | .deserializeState _ | .getStateScript | .other _ => pure .undefined

/-- Run bindings in order; the arm of a branch and the body of a loop leave their names. -/
def evalBindings (bindings : List AnfBinding) : EvalM Unit :=
  match bindings with
  | [] => pure ()
  | .mk name value :: rest => do
      let v ← evalValue name value
      update fun m => m.bind name v
      evalBindings rest

end

end Eval

/-! ## Methods -/

section Methods

variable (ops : Ops) (anf : AnfProgram)

def mutableProps : List String := (anf.properties.filter fun p => !p.readonly).map (·.name)

/-- The entries of a record under the names of the properties, over those of another. -/
def copyProps (source target : Record) : Record := fun key =>
  if key ∈ anf.properties.map (·.name) then (source key).or (target key) else target key

/-- The parameters, with the arguments that are there. -/
def bindParams (env : Record) : List String → List JsValue → Record
  | param :: params, arg :: args => bindParams (env.set param arg) params args
  | _, _ => env

/-- Run a private method, down to a depth of calls; past it the engine's stack overflows.
Nothing of the caller's mode is handed on. -/
def evalMethodCall : Nat → String → List JsValue → EvalM JsValue
  | 0, _, _ => fail (.error "Maximum call stack size exceeded")
  | depth + 1, methodName, args =>
      match anf.methods.find? fun m => m.name = methodName ∧ !m.isPublic with
      | none => pure .undefined
      | some method => do
          let caller ← read
          update fun m => { m with
            env := bindParams (copyProps anf caller.env fun _ => none) method.params args
            scriptBytes := fun _ => none }
          evalBindings ops (mutableProps anf) (evalMethodCall depth) none .helper method.body
          let value ← lastValue method.body
          update fun m => { m with
            env := copyProps anf m.env caller.env
            scriptBytes := caller.scriptBytes }
          pure value

structure ExecutionResult where
  state : Record
  dataOutputs : List DataOutputEntry
  rawOutputs : List DataOutputEntry
  outputs : List OrderedOutputEntry

def implicitParams : List String := ["_changePKH", "_changeAmount", "_newAmount", "txPreimage"]

/-- The names of the properties that the constructor sets, in order. -/
def ctorParamNames : List String :=
  (anf.properties.filter fun p => p.initialValue.isNone).map (·.name)

/-- The value a property has at the start of a call. -/
def initialProp (currentState : Record) (constructorArgs : List JsValue) (prop : AnfProperty) :
    Option JsValue :=
  (currentState prop.name).or (prop.initialValue.or
    (constructorArgs[(ctorParamNames anf).idxOf prop.name]?))

/-- The names at the start of a call: the properties, then the parameters. -/
def initialEnv (method : AnfMethod) (currentState args : Record)
    (constructorArgs : List JsValue) : Record :=
  let props := anf.properties.foldl (fun (env : Record) prop =>
    match initialProp anf currentState constructorArgs prop with
    | some value => env.set prop.name value
    | none => env) fun _ => none
  (method.params.filter fun name => name ∉ implicitParams).foldl (fun (env : Record) name =>
    match args name with
    | some value => env.set name value
    | none => env) props

/-- Run a method: what it gives, and what was logged.  `depth` is how many calls the stack
of the engine holds. -/
def runMethod (depth : Nat) (methodName : String) (currentState args : Record)
    (constructorArgs : List JsValue) (strict : Option StrictCtx) :
    Except Failure ExecutionResult × List Event :=
  match anf.methods.find? fun m => m.name = methodName ∧ m.isPublic with
  | none =>
      (.error (.error ("computeNewState: method '" ++ methodName ++ "' not found in ANF IR")), [])
  | some method =>
      let start : Machine :=
        ⟨initialEnv anf method currentState args constructorArgs, fun _ => none, [], [], [],
          fun _ => none⟩
      match evalBindings ops (mutableProps anf) (evalMethodCall ops anf depth) strict .own
          method.body start with
      | (.error failure, _, log) => (.error failure, log)
      | (.ok _, m, log) =>
          (.ok ⟨currentState.spread m.stateDelta, m.dataOutputs, m.rawOutputs, m.outputs⟩, log)

def computeNewStateAndDataOutputs (depth : Nat) (methodName : String)
    (currentState args : Record) (constructorArgs : List JsValue) :
    Except Failure ExecutionResult × List Event :=
  runMethod ops anf depth methodName currentState args constructorArgs none

def executeStrict (depth : Nat) (methodName : String) (currentState args : Record)
    (constructorArgs : List JsValue) : Except Failure ExecutionResult × List Event :=
  runMethod ops anf depth methodName currentState args constructorArgs
    (some ⟨methodName, none⟩)

def executeOnChainAuthoritative (depth : Nat) (methodName : String)
    (currentState args : Record) (constructorArgs : List JsValue) (sighash : List Nat) :
    Except Failure ExecutionResult × List Event :=
  if sighash.length ≠ 32 then
    (.error (.error ("executeOnChainAuthoritative: sighash must be exactly 32 bytes, got " ++
      toString sighash.length)), [])
  else
    runMethod ops anf depth methodName currentState args constructorArgs
      (some ⟨methodName, some sighash⟩)

end Methods

end Runar.Sdk.AnfInterpreter
