/-
  Optimizer/ConstantFold.lean --- operations on constants, evaluated by the compiler.

  WHAT THIS FILE IS FOR.  The folder goes through a body with a table of the names that hold
  constants.  An operation whose operands are all in the table becomes a constant itself.  Arms
  and loop bodies are folded with a copy of the table, so what they record is forgotten after
  them; what they bind anew is not taken out of it.  This file has the folder, a record of the
  operations it folds, and the condition that no name in the table is bound anew.
-/
import Runar.Anf.Eval
import Runar.Optimizer.FoldBuiltins

set_option autoImplicit false

namespace Runar.Optimizer.ConstantFold

open Script Anf

/-! ## Operations on constants -/

/-- A marker is a string, which is no byte string and equal to itself only. -/
def evalBinOp (op : BinaryOp) : ConstOperand → ConstOperand → Option ConstValue
  | .const (.bigint left), .const (.bigint right) =>
      match op with
      | .add => some (.bigint (left + right))
      | .sub => some (.bigint (left - right))
      | .mul => some (.bigint (left * right))
      | .div => if right = 0 then none else some (.bigint (left.tdiv right))
      | .mod => if right = 0 then none else some (.bigint (left.tmod right))
      | .eq => some (.boolean (left == right))
      | .ne => some (.boolean (left != right))
      | .lt => some (.boolean (decide (left < right)))
      | .gt => some (.boolean (decide (left > right)))
      | .le => some (.boolean (decide (left ≤ right)))
      | .ge => some (.boolean (decide (left ≥ right)))
      | _ => none
  | .const (.boolean left), .const (.boolean right) =>
      match op with
      | .and => some (.boolean (left && right))
      | .or => some (.boolean (left || right))
      | .eq => some (.boolean (left == right))
      | .ne => some (.boolean (left != right))
      | _ => none
  | .const (.bytes left), .const (.bytes right) =>
      match op with
      | .add => some (.bytes (left ++ right))
      | .eq => some (.boolean (left == right))
      | .ne => some (.boolean (left != right))
      | _ => none
  | left, right =>
      match op with
      | .eq => some (.boolean (decide (left = right)))
      | .ne => some (.boolean (decide (left ≠ right)))
      | _ => none

def evalUnaryOp : UnaryOp → ConstOperand → Option ConstValue
  | .not, .const (.boolean operand) => some (.boolean !operand)
  | .neg, .const (.bigint operand) => some (.bigint (-operand))
  | .not, .const (.bigint operand) => some (.boolean (operand == 0))
  | _, _ => none

/-! ## The table of constants -/

abbrev ConstEnv : Type := String → Option ConstOperand

namespace ConstEnv

def empty : ConstEnv := fun _ => none

def set (env : ConstEnv) (name : String) (value : ConstOperand) : ConstEnv :=
  fun other => if other = name then some value else env other

end ConstEnv

/-- The constant that a binding records; an alias records none. -/
def recorded : ANFValue → Option ConstOperand
  | .loadConst (.ref _) => none
  | .loadConst operand => some operand
  | _ => none

def record (env : ConstEnv) (name : String) (value : ANFValue) : ConstEnv :=
  match recorded value with
  | some operand => env.set name operand
  | none => env

/-- The value of a constant operand that is no marker. -/
def constValue : ConstOperand → Option ConstValue
  | .const value => some value
  | _ => none

/-- The constants of all arguments, if all have one. -/
def constArgs (env : ConstEnv) (args : List String) : Option (List ConstValue) :=
  args.mapM fun arg => (env arg).bind constValue

def foldedBinOp (env : ConstEnv) (op : BinaryOp) (left right : String) : Option ConstValue := do
  let leftConst ← env left
  let rightConst ← env right
  evalBinOp op leftConst rightConst

def foldedUnaryOp (env : ConstEnv) (op : UnaryOp) (operand : String) : Option ConstValue := do
  let operandConst ← env operand
  evalUnaryOp op operandConst

/-- A marker is no number, and no builtin is folded on it. -/
def foldedCall (env : ConstEnv) (func : String) (args : List String) : Option ConstValue := do
  let values ← constArgs env args
  evalBuiltinCall func values

/-- The constant in place of an operation, if it folds. -/
def replaced (value : ANFValue) : Option ConstValue → ANFValue
  | some result => .loadConst (.const result)
  | none => value

/-! ## The folder -/

mutual

def foldValue (env : ConstEnv) : ANFValue → ANFValue
  | .binOp op left right resultBytes =>
      replaced (.binOp op left right resultBytes) (foldedBinOp env op left right)
  | .unaryOp op operand resultBytes =>
      replaced (.unaryOp op operand resultBytes) (foldedUnaryOp env op operand)
  | .call func args => replaced (.call func args) (foldedCall env func args)
  | .ifValue cond thenBody elseBody results =>
      .ifValue cond (foldBindings env thenBody) (foldBindings env elseBody) results
  | .loop count body iterVar start step =>
      .loop count (foldBindings env body) iterVar start step
  | value => value

def foldBindings (env : ConstEnv) : List ANFBinding → List ANFBinding
  | [] => []
  | .mk name value :: rest =>
      .mk name (foldValue env value) ::
        foldBindings (record env name (foldValue env value)) rest

end

def foldMethod (method : ANFMethod) : ANFMethod :=
  { method with body := foldBindings .empty method.body }

def foldConstants (program : ANFProgram) : ANFProgram :=
  { program with methods := program.methods.map foldMethod }

/-! ## What is folded, and what is bound -/

/-- An operation that the folder replaced by a constant. -/
inductive Fold where
  | binOp (op : BinaryOp) (resultBytes : Bool) (left right : ConstOperand) (result : ConstValue)
  | unaryOp (op : UnaryOp) (resultBytes : Bool) (operand : ConstOperand) (result : ConstValue)
  | call (func : String) (args : List ConstValue) (result : ConstValue)

mutual

/-- The operations that are folded in an operation. -/
def foldsOf (env : ConstEnv) : ANFValue → List Fold
  | .binOp op left right resultBytes => Option.toList do
      let leftConst ← env left
      let rightConst ← env right
      (evalBinOp op leftConst rightConst).map (.binOp op resultBytes leftConst rightConst)
  | .unaryOp op operand resultBytes => Option.toList do
      let operandConst ← env operand
      (evalUnaryOp op operandConst).map (.unaryOp op resultBytes operandConst)
  | .call func args => Option.toList do
      let values ← constArgs env args
      (evalBuiltinCall func values).map (.call func values)
  | .ifValue _ thenBody elseBody _ => foldsIn env thenBody ++ foldsIn env elseBody
  | .loop _ body _ _ _ => foldsIn env body
  | _ => []

/-- The operations that are folded in a body. -/
def foldsIn (env : ConstEnv) : List ANFBinding → List Fold
  | [] => []
  | .mk name value :: rest =>
      foldsOf env value ++ foldsIn (record env name (foldValue env value)) rest

end

mutual

/-- The names bound within an operation, at any depth. -/
def binds : ANFValue → List String
  | .ifValue _ thenBody elseBody _ => bindsAll thenBody ++ bindsAll elseBody
  | .loop _ body iterVar _ _ => iterVar :: bindsAll body
  | _ => []

/-- The names bound in a body, at any depth. -/
def bindsAll : List ANFBinding → List String
  | [] => []
  | .mk name value :: rest => name :: (binds value ++ bindsAll rest)

end

mutual

/-- Within an operation no name in the table is bound anew. -/
def NoStale (env : ConstEnv) : ANFValue → Prop
  | .ifValue _ thenBody elseBody _ =>
      (∀ n ∈ bindsAll thenBody ++ bindsAll elseBody, env n = none) ∧
        NoStaleIn env thenBody ∧ NoStaleIn env elseBody
  | .loop _ body iterVar _ _ =>
      (∀ n ∈ iterVar :: bindsAll body, env n = none) ∧ NoStaleIn env body
  | _ => True

/-- In a body no name in the table is bound anew, but to another constant at the same level. -/
def NoStaleIn (env : ConstEnv) : List ANFBinding → Prop
  | [] => True
  | .mk name value :: rest =>
      NoStale env value ∧ (recorded (foldValue env value) = none → env name = none) ∧
        NoStaleIn (record env name (foldValue env value)) rest

end

/-! ## Runs -/

section Run

variable {V : Type} (meaning : Meaning V)

/-- What an operation computes is the constant it was replaced by. -/
def Fold.Right : Fold → Prop
  | .binOp op resultBytes left right result =>
      meaning.binOp op resultBytes (meaning.const left) (meaning.const right) =
        some (meaning.const (.const result))
  | .unaryOp op resultBytes operand result =>
      meaning.unaryOp op resultBytes (meaning.const operand) =
        some (meaning.const (.const result))
  | .call func args result =>
      ∀ world, meaning.call func (args.map fun c => meaning.const (.const c)) world =
        some (meaning.const (.const result), world)

/-- Every name in the table holds its constant. -/
def Holds (env : ConstEnv) (store : Store V) : Prop :=
  ∀ n operand, env n = some operand → store.names n = some (meaning.const operand)

variable {meaning}

theorem Holds.empty (store : Store V) : Holds meaning .empty store := fun _ _ h => by cases h

theorem Holds.of_names {env : ConstEnv} {s t : Store V} (h : Holds meaning env s)
    (hnames : ∀ n, env n ≠ none → t.names n = s.names n) : Holds meaning env t := by
  intro n operand hn
  rw [hnames n (by rw [hn]; exact Option.some_ne_none _)]
  exact h n operand hn

theorem Holds.bind_other {env : ConstEnv} {s : Store V} (h : Holds meaning env s) {name : String}
    (hname : env name = none) (value : V) : Holds meaning env (s.bind name value) := by
  refine h.of_names fun n hn => ?_
  exact if_neg fun heq : n = name => hn (heq ▸ hname)

theorem Holds.set {env : ConstEnv} {s : Store V} (h : Holds meaning env s) (name : String)
    (operand : ConstOperand) :
    Holds meaning (env.set name operand) (s.bind name (meaning.const operand)) := by
  intro n operand' hn
  by_cases heq : n = name
  · rw [ConstEnv.set, if_pos heq] at hn
    rw [← Option.some.inj hn]
    exact if_pos heq
  · rw [ConstEnv.set, if_neg heq] at hn
    exact (if_neg heq).trans (h n operand' hn)

/-! ### Names that are not bound keep their values -/

theorem loopRun_names {n : String} {iterVar : String} (hn : n ≠ iterVar) {step : Int}
    {body : Store V → Option (V × Store V)}
    (hbody : ∀ s v s', body s = some (v, s') → s'.names n = s.names n) (count : Nat) (i : Int)
    (last : V) (s : Store V) {v : V} {s' : Store V}
    (h : loopRun meaning body iterVar step count i last s = some (v, s')) :
    s'.names n = s.names n := by
  induction count generalizing i last s with
  | zero =>
    rw [loopRun] at h
    cases h
    rfl
  | succ count ih =>
    rw [loopRun] at h
    obtain ⟨⟨w, t⟩, hw, hrest⟩ := Option.bind_eq_some_iff.mp h
    rw [ih _ _ _ hrest, hbody _ _ _ hw]
    exact if_neg hn

theorem names_of_map {x : Option V} {s s' : Store V} {v : V}
    (h : (x.map fun v => (v, s)) = some (v, s')) : s'.names = s.names := by
  obtain ⟨w, -, hw⟩ := Option.map_eq_some_iff.mp h
  cases hw
  rfl

theorem names_of_leave {x : Option (V × World V)} {s s' : Store V} {v : V}
    (h : leave s x = some (v, s')) : s'.names = s.names := by
  obtain ⟨r, -, hr⟩ := Option.map_eq_some_iff.mp h
  cases hr
  rfl

mutual

/-- An operation leaves the names that it does not bind. -/
theorem evalValue_names (n : String) : ∀ (value : ANFValue), n ∉ binds value →
    ∀ {s s' : Store V} {v : V}, evalValue meaning value s = some (v, s') → s'.names n = s.names n
  | .loadParam name, _, s, s', v, h => by
    rw [evalValue] at h
    rw [names_of_map h]
  | .loadProp name, _, s, s', v, h => by
    rw [evalValue] at h
    rw [names_of_map h]
  | .loadConst (.ref name), _, s, s', v, h => by
    rw [evalValue] at h
    rw [names_of_map h]
  | .loadConst (.const c), _, s, s', v, h => by
    simp only [evalValue] at h
    cases h
    rfl
  | .loadConst .this, _, s, s', v, h => by
    simp only [evalValue] at h
    cases h
    rfl
  | .loadConst .void, _, s, s', v, h => by
    simp only [evalValue] at h
    cases h
    rfl
  | .binOp op left right resultBytes, _, s, s', v, h => by
    rw [evalValue] at h
    obtain ⟨l, -, h⟩ := Option.bind_eq_some_iff.mp h
    obtain ⟨r, -, h⟩ := Option.bind_eq_some_iff.mp h
    rw [names_of_map h]
  | .unaryOp op operand resultBytes, _, s, s', v, h => by
    rw [evalValue] at h
    obtain ⟨x, -, h⟩ := Option.bind_eq_some_iff.mp h
    rw [names_of_map h]
  | .call func args, _, s, s', v, h => by
    rw [evalValue] at h
    obtain ⟨xs, -, h⟩ := Option.bind_eq_some_iff.mp h
    rw [names_of_leave h]
  | .methodCall object method args, _, s, s', v, h => by
    rw [evalValue] at h
    obtain ⟨o, -, h⟩ := Option.bind_eq_some_iff.mp h
    obtain ⟨xs, -, h⟩ := Option.bind_eq_some_iff.mp h
    rw [names_of_leave h]
  | .ifValue cond thenBody elseBody results, hn, s, s', v, h => by
    rw [binds] at hn
    have hthen := fun {s s'} {v : V} => @evalBindings_names n thenBody
      (fun hmem => hn (List.mem_append_left _ hmem)) meaning.nothing s s' v
    have helse := fun {s s'} {v : V} => @evalBindings_names n elseBody
      (fun hmem => hn (List.mem_append_right _ hmem)) meaning.nothing s s' v
    rw [evalValue] at h
    obtain ⟨c, -, h⟩ := Option.bind_eq_some_iff.mp h
    obtain ⟨b, -, h⟩ := Option.bind_eq_some_iff.mp h
    split at h
    · exact hthen h
    · exact helse h
  | .loop count body iterVar start step, hn, s, s', v, h => by
    rw [binds] at hn
    have hbody := fun {s s'} {v : V} => @evalBindings_names n body
      (fun hmem => hn (List.mem_cons_of_mem _ hmem)) meaning.nothing s s' v
    rw [evalValue] at h
    exact loopRun_names (fun heq : n = iterVar => hn (heq ▸ List.mem_cons_self)) (fun s v s' hs => hbody hs)
      count start _ s h
  | .assert name, _, s, s', v, h => by
    rw [evalValue] at h
    obtain ⟨x, -, h⟩ := Option.bind_eq_some_iff.mp h
    obtain ⟨b, -, h⟩ := Option.bind_eq_some_iff.mp h
    split at h
    · cases h
      rfl
    · cases h
  | .updateProp name operand, _, s, s', v, h => by
    rw [evalValue] at h
    obtain ⟨x, -, h⟩ := Option.bind_eq_some_iff.mp h
    cases h
    rfl
  | .getStateScript, _, s, s', v, h => by
    rw [evalValue] at h
    rw [names_of_map h]
  | .checkPreimage preimage sighashFlag, _, s, s', v, h => by
    rw [evalValue] at h
    obtain ⟨x, -, h⟩ := Option.bind_eq_some_iff.mp h
    rw [names_of_leave h]
  | .deserializeState preimage, _, s, s', v, h => by
    rw [evalValue] at h
    obtain ⟨x, -, h⟩ := Option.bind_eq_some_iff.mp h
    rw [names_of_leave h]
  | .addOutput satoshis stateValues preimage, _, s, s', v, h => by
    rw [evalValue] at h
    obtain ⟨x, -, h⟩ := Option.bind_eq_some_iff.mp h
    obtain ⟨xs, -, h⟩ := Option.bind_eq_some_iff.mp h
    cases h
    rfl
  | .addRawOutput satoshis scriptBytes, _, s, s', v, h => by
    rw [evalValue] at h
    obtain ⟨x, -, h⟩ := Option.bind_eq_some_iff.mp h
    obtain ⟨b, -, h⟩ := Option.bind_eq_some_iff.mp h
    cases h
    rfl
  | .addDataOutput satoshis scriptBytes, _, s, s', v, h => by
    rw [evalValue] at h
    obtain ⟨x, -, h⟩ := Option.bind_eq_some_iff.mp h
    obtain ⟨b, -, h⟩ := Option.bind_eq_some_iff.mp h
    cases h
    rfl
  | .arrayLiteral elements, _, s, s', v, h => by
    rw [evalValue] at h
    obtain ⟨xs, -, h⟩ := Option.bind_eq_some_iff.mp h
    cases h
    rfl
  | .rawScript bytes inArity outArity, _, s, s', v, h => by
    rw [evalValue] at h
    rw [names_of_leave h]

theorem evalBindings_names (n : String) : ∀ (bindings : List ANFBinding), n ∉ bindsAll bindings →
    ∀ (last : V) {s s' : Store V} {v : V}, evalBindings meaning bindings last s = some (v, s') →
      s'.names n = s.names n
  | [], _, last, s, s', v, h => by
    rw [evalBindings] at h
    cases h
    rfl
  | .mk name value :: rest, hn, last, s, s', v, h => by
    rw [bindsAll] at hn
    rw [evalBindings] at h
    obtain ⟨⟨w, t⟩, hw, hrest⟩ := Option.bind_eq_some_iff.mp h
    rw [evalBindings_names n rest
      (fun hmem => hn (List.mem_cons_of_mem _ (List.mem_append_right _ hmem))) w hrest]
    refine (if_neg fun heq : n = name => hn (heq ▸ List.mem_cons_self)).trans ?_
    exact evalValue_names n value
      (fun hmem => hn (List.mem_cons_of_mem _ (List.mem_append_left _ hmem))) hw

end

end Run

end Runar.Optimizer.ConstantFold
