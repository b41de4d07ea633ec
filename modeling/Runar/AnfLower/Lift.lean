/-
  AnfLower/Lift.lean --- chains of conditional property updates.

  WHAT THIS FILE IS FOR.  A chain of `if`s in which every arm ends by updating one
  property is rewritten, after lowering, into one single-valued `if` and one update
  for each arm.  The recogniser is also used while lowering: an `if` that will be
  rewritten does not declare its results.
-/
import Runar.Anf.Syntax

set_option autoImplicit false

namespace Runar.AnfLower

/-! ## Names and properties of a list of bindings -/

mutual

/-- The properties an operation updates, in nested blocks too. -/
def updatedPropsOf : ANFValue → List String
  | .updateProp name _ => [name]
  | .ifValue _ thenBody elseBody _ => updatedProps thenBody ++ updatedProps elseBody
  | .loop _ body _ _ _ => updatedProps body
  | .loadParam _ | .loadProp _ | .loadConst _ | .binOp _ _ _ _ | .unaryOp _ _ _ | .call _ _
  | .methodCall _ _ _ | .assert _ | .getStateScript | .checkPreimage _ _ | .deserializeState _
  | .addOutput _ _ _ | .addRawOutput _ _ | .addDataOutput _ _ | .arrayLiteral _
  | .rawScript _ _ _ => []

def updatedProps : List ANFBinding → List String
  | [] => []
  | .mk _ value :: rest => updatedPropsOf value ++ updatedProps rest

end

/-- The name of a temporary. -/
def tempName (n : Nat) : String := "t" ++ toString n

/-- The number of a temporary, read off its name. -/
def tempIndex (name : String) : Option Nat :=
  match name.toList with
  | 't' :: digits =>
      if digits ≠ [] ∧ digits.all Char.isDigit then
        some (digits.foldl (fun n c => 10 * n + (c.toNat - 48)) 0)
      else none
  | _ => none

mutual

/-- One more than the highest number of a temporary. -/
def nextTempOf : ANFValue → Nat
  | .ifValue _ thenBody elseBody _ => max (nextTemp thenBody) (nextTemp elseBody)
  | .loop _ body _ _ _ => nextTemp body
  | .loadParam _ | .loadProp _ | .loadConst _ | .binOp _ _ _ _ | .unaryOp _ _ _ | .call _ _
  | .methodCall _ _ _ | .assert _ | .updateProp _ _ | .getStateScript | .checkPreimage _ _
  | .deserializeState _ | .addOutput _ _ _ | .addRawOutput _ _ | .addDataOutput _ _
  | .arrayLiteral _ | .rawScript _ _ _ => 0

def nextTemp : List ANFBinding → Nat
  | [] => 0
  | .mk name value :: rest =>
      max (max (((tempIndex name).map (· + 1)).getD 0) (nextTempOf value)) (nextTemp rest)

end

mutual

/-- How deep `if`s are nested. -/
def ifDepthOf : ANFValue → Nat
  | .ifValue _ thenBody elseBody _ => max (ifDepth thenBody) (ifDepth elseBody) + 1
  | .loop _ body _ _ _ => ifDepth body
  | .loadParam _ | .loadProp _ | .loadConst _ | .binOp _ _ _ _ | .unaryOp _ _ _ | .call _ _
  | .methodCall _ _ _ | .assert _ | .updateProp _ _ | .getStateScript | .checkPreimage _ _
  | .deserializeState _ | .addOutput _ _ _ | .addRawOutput _ _ | .addDataOutput _ _
  | .arrayLiteral _ | .rawScript _ _ _ => 0

def ifDepth : List ANFBinding → Nat
  | [] => 0
  | .mk _ value :: rest => max (ifDepthOf value) (ifDepth rest)

end

/-! ## Recognising a chain -/

/-- One arm of a chain. -/
structure UpdateBranch where
  /-- the bindings of this arm's condition, taken out of the enclosing else-block -/
  condSetupBindings : List ANFBinding
  /-- absent in a final else -/
  condRef : Option String
  propName : String
  valueBindings : List ANFBinding
  valueRef : String

/-- An arm without the block that declares results. -/
def stripDeclaredResults (bindings : List ANFBinding) (results : List String) : List ANFBinding :=
  bindings.take (bindings.length - 2 * results.length)

def isSideEffectFree : ANFValue → Bool
  | .loadProp _ | .loadParam _ | .loadConst _ | .binOp _ _ _ _ | .unaryOp _ _ _ => true
  | _ => false

def allBindingsSideEffectFree (bindings : List ANFBinding) : Bool :=
  bindings.all fun b => isSideEffectFree b.value

/-- An arm that computes a value and ends by updating a property with it. -/
def extractBranchUpdate (condRef : Option String) (bindings : List ANFBinding) :
    Option UpdateBranch :=
  match bindings.getLast? with
  | some (.mk _ (.updateProp name value)) =>
      if allBindingsSideEffectFree bindings.dropLast then
        some ⟨[], condRef, name, bindings.dropLast, value⟩
      else none
  | _ => none

/-- An else-block that does nothing but fail. -/
def isAssertFalseElse (bindings : List ANFBinding) : Bool :=
  match bindings.getLast? with
  | some (.mk _ (.assert ref)) =>
      match bindings.find? fun b => b.name = ref with
      | some (.mk _ (.loadConst (.const (.boolean false)))) => true
      | _ => false
  | _ => false

/-- The arms of a chain of `if`s, each of which ends by updating one property; the
number bounds the nesting. -/
def collectUpdateBranches :
    Nat → String → List ANFBinding → List ANFBinding → Option (List UpdateBranch)
  | 0, _, _, _ => none
  | depth + 1, ifCond, thenBindings, elseBindings =>
      match extractBranchUpdate (some ifCond) thenBindings with
      | none => none
      | some thenUpdate =>
          match elseBindings.getLast? with
          | none => none
          | some (.mk _ (.ifValue cond innerThen innerElse results)) =>
              if allBindingsSideEffectFree elseBindings.dropLast then
                match collectUpdateBranches depth cond (stripDeclaredResults innerThen results)
                    (stripDeclaredResults innerElse results) with
                | some (inner :: rest) =>
                    some (thenUpdate ::
                      { inner with
                        condSetupBindings := elseBindings.dropLast ++ inner.condSetupBindings } ::
                      rest)
                | _ => none
              else none
          | some _ =>
              match extractBranchUpdate none elseBindings with
              | some elseUpdate => some [thenUpdate, elseUpdate]
              | none => if isAssertFalseElse elseBindings then some [thenUpdate] else none

/-- The arms of an `if` that is part of a chain. -/
def updateBranches (cond : String) (thenBody elseBody : List ANFBinding) :
    Option (List UpdateBranch) :=
  collectUpdateBranches (ifDepth elseBody + 1) cond thenBody elseBody

/-! ## Rewriting a chain -/

/-- Rename the names an operation reads. -/
def remapValueRefs (map : List (String × String)) (value : ANFValue) : ANFValue :=
  let r (ref : String) : String := (map.lookup ref).getD ref
  match value with
  | .loadConst (.ref target) => .loadConst (.ref (r target))
  | .binOp op left right resultBytes => .binOp op (r left) (r right) resultBytes
  | .unaryOp op operand resultBytes => .unaryOp op (r operand) resultBytes
  | .call func args => .call func (args.map r)
  | .methodCall object method args => .methodCall (r object) method (args.map r)
  | .assert v => .assert (r v)
  | .updateProp name v => .updateProp name (r v)
  | .checkPreimage preimage flag => .checkPreimage (r preimage) flag
  | .deserializeState preimage => .deserializeState (r preimage)
  | .addOutput satoshis stateValues preimage =>
      .addOutput (r satoshis) (stateValues.map r) (r preimage)
  | .addRawOutput satoshis scriptBytes => .addRawOutput (r satoshis) (r scriptBytes)
  | .addDataOutput satoshis scriptBytes => .addDataOutput (r satoshis) (r scriptBytes)
  | .ifValue cond thenBody elseBody results => .ifValue (r cond) thenBody elseBody results
  | .arrayLiteral elements => .arrayLiteral (elements.map r)
  | value => value

/-- The bindings written so far, and the number of the next temporary. -/
structure LiftState where
  result : List ANFBinding
  nextIdx : Nat

abbrev LiftM : Type → Type := StateM LiftState

namespace LiftM

def fresh : LiftM String :=
  modifyGet fun s => (tempName s.nextIdx, { s with nextIdx := s.nextIdx + 1 })

def push (name : String) (value : ANFValue) : LiftM Unit :=
  modify fun s => { s with result := s.result ++ [.mk name value] }

def pushFresh (value : ANFValue) : LiftM String := do
  let name ← fresh
  push name value
  pure name

end LiftM

open LiftM

/-- Copy bindings under fresh names. -/
def hoistBindings : List ANFBinding → List (String × String) → LiftM (List (String × String))
  | [], map => pure map
  | .mk name value :: rest, map => do
      let newName ← fresh
      let map := (name, newName) :: map
      push newName (remapValueRefs map value)
      hoistBindings rest map

/-- Write the conditions of all arms; gives their names. -/
def hoistConditions :
    List UpdateBranch → List (String × String) →
      LiftM (List (Option String) × List (String × String))
  | [], map => pure ([], map)
  | branch :: rest, map => do
      let map ← hoistBindings branch.condSetupBindings map
      let (refs, map') ← hoistConditions rest map
      pure (branch.condRef.map (fun c => (map.lookup c).getD c) :: refs, map')

/-- The conjunction of names. -/
def andAll : String → List String → LiftM String
  | acc, [] => pure acc
  | acc, ref :: rest => do
      let next ← pushFresh (.binOp .and acc ref false)
      andAll next rest

def orAll : String → List String → LiftM String
  | acc, [] => pure acc
  | acc, ref :: rest => do
      let next ← pushFresh (.binOp .or acc ref false)
      orAll next rest

/-- The effective condition of every arm after the first: its own, and none of those
before. -/
def effectiveConds : List String → List (Option String) → LiftM (List String)
  | _, [] => pure []
  | _, [_] => pure []
  | negated, prior :: own :: rest => do
      let negated ← match prior with
        | none => pure negated
        | some prior => do
            let neg ← pushFresh (.unaryOp .not prior false)
            pure (negated ++ [neg])
      let andRef ← andAll (negated.headD "") negated.tail
      let cond ← match own with
        | some own => pushFresh (.binOp .and andRef own false)
        | none => pure andRef
      let conds ← effectiveConds negated (own :: rest)
      pure (cond :: conds)

/-- Copy bindings under fresh names into a block of their own. -/
def copyBindings (map : List (String × String)) : List ANFBinding → LiftM (List ANFBinding)
  | [] => pure []
  | .mk name value :: rest => do
      let newName ← fresh
      let map := (name, newName) :: map
      let copied ← copyBindings map rest
      pure (.mk newName (remapValueRefs map value) :: copied)

/-- The conditional update of one arm. -/
def pushUpdate (map : List (String × String)) (branch : UpdateBranch) (cond : String) :
    LiftM Unit := do
  let oldPropRef ← pushFresh (.loadProp branch.propName)
  let thenBindings ← copyBindings map branch.valueBindings
  let keepName ← fresh
  let condIfRef ← pushFresh
    (.ifValue cond thenBindings [.mk keepName (.loadConst (.ref oldPropRef))] [])
  let _ ← pushFresh (.updateProp branch.propName condIfRef)

def pushUpdates (map : List (String × String)) : List (UpdateBranch × String) → LiftM Unit
  | [] => pure ()
  | (branch, cond) :: rest => do
      pushUpdate map branch cond
      pushUpdates map rest

/-- Rewrite a chain. -/
def liftChain (branches : List UpdateBranch) : LiftM Unit := do
  let (condRefs, nameMap) ← hoistConditions branches []
  let first := (condRefs.headD none).getD ""
  let conds ← effectiveConds [] condRefs
  -- without a final else, a selector that meets no arm still fails
  if (branches.getLast?.bind (·.condRef)).isSome then do
    let orRef ← orAll first (condRefs.tail.filterMap id)
    let _ ← pushFresh (.assert orRef)
  pushUpdates nameMap (branches.zip (first :: conds))

def liftBindings : List ANFBinding → LiftM Unit
  | [] => pure ()
  | .mk name value :: rest => do
      match value with
      | .ifValue cond thenBody elseBody results =>
          match updateBranches cond (stripDeclaredResults thenBody results)
              (stripDeclaredResults elseBody results) with
          | some (first :: second :: more) => liftChain (first :: second :: more)
          | _ => push name value
      | value => push name value
      liftBindings rest

/-- Rewrite the chains at the top level of a method. -/
def liftBranchUpdateProps (bindings : List ANFBinding) : List ANFBinding :=
  ((liftBindings bindings).run ⟨[], nextTemp bindings⟩).2.result

end Runar.AnfLower
