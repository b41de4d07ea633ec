/-
  Validate/Recursion.lean --- the check for recursion.

  WHAT THIS FILE IS FOR.  The later passes put the body of a private method in the place
  of a call, so no method may call itself, directly or through others.  The validator
  collects the calls in every body and looks for a cycle.  Its walk does not see every
  call that the later passes resolve to a method.
-/
import Runar.AnfLower.Statements
import Runar.Logic.DepthFirst
import Runar.Typecheck.Check

set_option autoImplicit false

namespace Runar.Validate

open Ast Logic

/-! ## The walk of the validator -/

mutual

/-- The methods called in an expression, as the validator sees them: calls on `this`.
Array literals are not looked into. -/
def callsInExpr : Expression → List String
  | .callExpr callee args _ =>
      (match callee with
        | .propertyAccess property => [property]
        | .memberExpr (.identifier "this") property => [property]
        | _ => []) ++ callsInExpr callee ++ callsInExprs args
  | .binaryExpr _ left right => callsInExpr left ++ callsInExpr right
  | .unaryExpr _ operand => callsInExpr operand
  | .memberExpr object _ => callsInExpr object
  | .ternaryExpr condition consequent alternate =>
      callsInExpr condition ++ callsInExpr consequent ++ callsInExpr alternate
  | .indexAccess object index => callsInExpr object ++ callsInExpr index
  | .incrementExpr operand _ | .decrementExpr operand _ => callsInExpr operand
  | .bigintLiteral _ | .boolLiteral _ | .bytestringLiteral _ | .identifier _
  | .propertyAccess _ | .arrayLiteral _ => []

def callsInExprs : List Expression → List String
  | [] => []
  | e :: rest => callsInExpr e ++ callsInExprs rest

end

mutual

/-- The methods called in a statement.  Of a loop, the condition and the body are looked
into, and neither the initialiser nor the update. -/
def callsInStatement : Statement → List String
  | .expressionStatement expression => callsInExpr expression
  | .variableDecl _ _ init => callsInExpr init
  | .assignment target value => callsInExpr target ++ callsInExpr value
  | .ifStatement condition thenBody elseBody =>
      callsInExpr condition ++ collectMethodCalls thenBody ++
        match elseBody with
        | some elseBody => collectMethodCalls elseBody
        | none => []
  | .forStatement _ _ _ condition _ body => callsInExpr condition ++ collectMethodCalls body
  | .returnStatement value =>
      match value with
      | some value => callsInExpr value
      | none => []

def collectMethodCalls : List Statement → List String
  | [] => []
  | stmt :: rest => callsInStatement stmt ++ collectMethodCalls rest

end

/-- The calls of every method; a later method of a name replaces an earlier one. -/
def callGraph (contract : ContractNode) : List (String × List String) :=
  ("constructor", collectMethodCalls contract.constructor.body) ::
    (contract.methods.map fun m => (m.name, collectMethodCalls m.body)).reverse

def methodNames (contract : ContractNode) : List String := contract.methods.map (·.name)

/-- The methods of the contract that a method calls. -/
def callees (contract : ContractNode) (name : String) : List String :=
  (((callGraph contract).lookup name).getD []).filter fun callee =>
    callee ∈ methodNames contract

/-- Whether a search along the calls, from a method, comes back to a method on its path. -/
def hasCycle (contract : ContractNode) (name : String) : Option (Bool × List String) :=
  findsCycle (callees contract) (contract.methods.length + 1) [] name []

/-- The methods reported for recursion. -/
def checkNoRecursion (contract : ContractNode) : List String :=
  (methodNames contract).filter fun name => (hasCycle contract name).any (·.1)

/-! ## The calls the later passes resolve -/

/-- The names that, called bare, are never a method of the contract. -/
def directCalls : List String :=
  ["super", "assert", "extractPrevOutputScript", "requireOutputP2PKH", "currentBlockHeight", "asm"]

/-- The method a callee stands for. -/
def resolveCallee (contract : ContractNode) : Expression → List String
  | .identifier name =>
      if name ∈ directCalls then []
      else if contract.methods.any fun m => m.name = name ∧ m.visibility = .isPrivate then [name]
      else []
  | .propertyAccess property | .memberExpr (.identifier "this") property =>
      if property = "getStateScript" ∨ property ∈ AnfLower.outputIntrinsics then [] else [property]
  | _ => []

section Resolved

variable (contract : ContractNode)

mutual

/-- The methods called anywhere in an expression. -/
def resolvedInExpr : Expression → List String
  | .callExpr callee args _ =>
      resolveCallee contract callee ++ resolvedInExpr callee ++ resolvedInExprs args
  | .binaryExpr _ left right => resolvedInExpr left ++ resolvedInExpr right
  | .unaryExpr _ operand => resolvedInExpr operand
  | .memberExpr object _ => resolvedInExpr object
  | .ternaryExpr condition consequent alternate =>
      resolvedInExpr condition ++ resolvedInExpr consequent ++ resolvedInExpr alternate
  | .indexAccess object index => resolvedInExpr object ++ resolvedInExpr index
  | .incrementExpr operand _ | .decrementExpr operand _ => resolvedInExpr operand
  | .arrayLiteral elements => resolvedInExprs elements
  | .bigintLiteral _ | .boolLiteral _ | .bytestringLiteral _ | .identifier _
  | .propertyAccess _ => []

def resolvedInExprs : List Expression → List String
  | [] => []
  | e :: rest => resolvedInExpr e ++ resolvedInExprs rest

end

mutual

/-- The methods called anywhere in a statement. -/
def resolvedInStatement : Statement → List String
  | .expressionStatement expression => resolvedInExpr contract expression
  | .variableDecl _ _ init => resolvedInExpr contract init
  | .assignment target value => resolvedInExpr contract target ++ resolvedInExpr contract value
  | .ifStatement condition thenBody elseBody =>
      resolvedInExpr contract condition ++ resolvedCalls thenBody ++
        match elseBody with
        | some elseBody => resolvedCalls elseBody
        | none => []
  | .forStatement _ _ init condition update body =>
      resolvedInExpr contract init ++ resolvedInExpr contract condition ++
        resolvedInStatement update ++ resolvedCalls body
  | .returnStatement value =>
      match value with
      | some value => resolvedInExpr contract value
      | none => []

def resolvedCalls : List Statement → List String
  | [] => []
  | stmt :: rest => resolvedInStatement stmt ++ resolvedCalls rest

end

end Resolved

/-- A method calls another, by any form of call in any position. -/
def Calls (contract : ContractNode) (caller callee : String) : Prop :=
  callee ∈ methodNames contract ∧
    ∃ m ∈ contract.methods, m.name = caller ∧ callee ∈ resolvedCalls contract m.body

/-- The validator sees the call. -/
def Sees (contract : ContractNode) (caller callee : String) : Prop :=
  callee ∈ callees contract caller

instance (contract : ContractNode) (caller callee : String) :
    Decidable (Sees contract caller callee) :=
  inferInstanceAs (Decidable (_ ∈ _))

/-! ## What the check gives -/

theorem callees_subset (contract : ContractNode) (name : String) :
    callees contract name ⊆ methodNames contract := by
  intro callee h
  simpa using (List.mem_filter.mp h).2

/-- The search always ends. -/
theorem hasCycle_isSome (contract : ContractNode) {name : String}
    (h : name ∈ methodNames contract) : ∃ r, hasCycle contract name = some r := by
  have hbound : unvisited (methodNames contract) [] < contract.methods.length + 1 := by
    have hle : unvisited (methodNames contract) [] ≤ (methodNames contract).length :=
      List.length_filter_le _ _
    have hlen : (methodNames contract).length = contract.methods.length := List.length_map _
    omega
  obtain ⟨r, after, hr, -⟩ :=
    findsCycle_isSome (callees_subset contract) (contract.methods.length + 1) [] name [] h hbound
  exact ⟨(r, after), hr⟩

/-- Where nothing is reported, the calls the validator sees have no cycle. -/
theorem acyclic_sees {contract : ContractNode} (h : checkNoRecursion contract = []) :
    Acyclic (Sees contract) := by
  intro name hcycle
  have hname : name ∈ methodNames contract := by
    obtain ⟨mid, -, hlast⟩ := Relation.TransGen.tail'_iff.mp hcycle
    exact callees_subset contract mid hlast
  obtain ⟨⟨found, after⟩, hrun⟩ := hasCycle_isSome contract hname
  have hnot : found = false := by
    have hfilter := List.filter_eq_nil_iff.mp h name hname
    rw [hrun] at hfilter
    simpa using hfilter
  subst hnot
  exact not_transGen_of_findsCycle hrun hcycle

/-- `f(x) { return f(x); }`, called as a bare name. -/
def loopingMethod : MethodNode where
  name := "f"
  params := [⟨"x", .primitive .bigint⟩]
  body := [.returnStatement (some (.callExpr (.identifier "f") [.identifier "x"] none))]
  visibility := .isPrivate
  sighashType := none

/-- `assert(this.f(x) === 1)` -/
def unlockMethod : MethodNode where
  name := "unlock"
  params := [⟨"x", .primitive .bigint⟩]
  body := [.expressionStatement (.callExpr (.identifier "assert")
    [.binaryExpr .eq (.callExpr (.propertyAccess "f") [.identifier "x"] none)
      (.bigintLiteral 1)] none)]
  visibility := .isPublic
  sighashType := none

def loopingContract : ContractNode where
  parentClass := .smartContract
  properties := []
  constructor := ⟨"constructor", [],
    [.expressionStatement (.callExpr (.identifier "super") [] none)], .isPublic, none⟩
  methods := [unlockMethod, loopingMethod]

/-- The same contract with the private method doing without the call. -/
def straightContract : ContractNode where
  parentClass := .smartContract
  properties := []
  constructor := loopingContract.constructor
  methods := [unlockMethod, { loopingMethod with body := [.returnStatement (some (.identifier "x"))] }]

end Runar.Validate
