/-
  Optimizer/ConstantFoldCorrect.lean --- folding keeps what a body does.

  WHAT THIS FILE IS FOR.  The table of the folder is right about the names that a run has bound
  so far, as long as no name in it is bound anew; then an operation and the constant in its
  place do the same, and so do the bodies.  The operations that are folded compute their
  constants under the operators of the interpreter and the compiled builtins, but for the
  equality of constants of two types and for builtins beyond the limits of the compiled ones.
-/
import Runar.Optimizer.ConstantFold
import Runar.Optimizer.Dce

set_option autoImplicit false

namespace Runar.Optimizer.ConstantFold

open Script Anf

section Correct

variable {V : Type} {meaning : Meaning V}

/-! ## Single operations -/

theorem evalValue_const (c : ConstValue) (s : Store V) :
    evalValue meaning (.loadConst (.const c)) s = some (meaning.const (.const c), s) := by
  simp only [evalValue]

theorem evalValue_foldedBinOp {env : ConstEnv} (op : BinaryOp) (left right : String)
    (resultBytes : Bool)
    (hright : ∀ f ∈ foldsOf env (.binOp op left right resultBytes), f.Right meaning)
    {s : Store V} (hholds : Holds meaning env s) :
    evalValue meaning (foldValue env (.binOp op left right resultBytes)) s =
      evalValue meaning (.binOp op left right resultBytes) s := by
  rw [foldValue]
  cases hfold : foldedBinOp env op left right with
  | none => rw [replaced]
  | some c =>
    obtain ⟨l, hl, hrest⟩ := Option.bind_eq_some_iff.mp hfold
    obtain ⟨r, hr, hc⟩ := Option.bind_eq_some_iff.mp hrest
    have hfolded : Fold.binOp op resultBytes l r c ∈
        foldsOf env (.binOp op left right resultBytes) := by
      rw [foldsOf, Option.mem_toList, hl]
      show ((env right).bind fun r' => (evalBinOp op l r').map
        (Fold.binOp op resultBytes l r')) = _
      rw [hr, Option.bind_some, hc]
      rfl
    have hop := hright _ hfolded
    rw [replaced, evalValue_const, evalValue, hholds _ _ hl, hholds _ _ hr]
    show _ = (meaning.binOp op resultBytes (meaning.const l) (meaning.const r)).map fun v => (v, s)
    rw [hop, Option.map_some]

theorem evalValue_foldedUnaryOp {env : ConstEnv} (op : UnaryOp) (operand : String)
    (resultBytes : Bool)
    (hright : ∀ f ∈ foldsOf env (.unaryOp op operand resultBytes), f.Right meaning)
    {s : Store V} (hholds : Holds meaning env s) :
    evalValue meaning (foldValue env (.unaryOp op operand resultBytes)) s =
      evalValue meaning (.unaryOp op operand resultBytes) s := by
  rw [foldValue]
  cases hfold : foldedUnaryOp env op operand with
  | none => rw [replaced]
  | some c =>
    obtain ⟨x, hx, hc⟩ := Option.bind_eq_some_iff.mp hfold
    have hfolded : Fold.unaryOp op resultBytes x c ∈
        foldsOf env (.unaryOp op operand resultBytes) := by
      rw [foldsOf, Option.mem_toList, hx]
      show (evalUnaryOp op x).map (Fold.unaryOp op resultBytes x) = _
      rw [hc]
      rfl
    have hop := hright _ hfolded
    rw [replaced, evalValue_const, evalValue, hholds _ _ hx]
    show _ = (meaning.unaryOp op resultBytes (meaning.const x)).map fun v => (v, s)
    rw [hop, Option.map_some]

/-- The arguments in the table hold their constants. -/
theorem read_constArgs {env : ConstEnv} {args : List String} {values : List ConstValue}
    (h : constArgs env args = some values) {s : Store V} (hholds : Holds meaning env s) :
    s.read args = some (values.map fun c => meaning.const (.const c)) := by
  unfold Store.read constArgs at *
  induction args generalizing values with
  | nil =>
    cases h
    rfl
  | cons arg args ih =>
    rw [List.mapM_cons] at h ⊢
    obtain ⟨value, hvalue, hrest⟩ := Option.bind_eq_some_iff.mp h
    obtain ⟨values', hvalues, hcons⟩ := Option.bind_eq_some_iff.mp hrest
    cases hcons
    obtain ⟨operand, hoperand, hconst⟩ := Option.bind_eq_some_iff.mp hvalue
    have heq : operand = .const value := by
      cases operand with
      | const c =>
        cases hconst
        rfl
      | ref name => cases hconst
      | this => cases hconst
      | void => cases hconst
    rw [hholds arg operand hoperand, ih hvalues, heq]
    rfl

theorem evalValue_foldedCall {env : ConstEnv} (func : String) (args : List String)
    (hright : ∀ f ∈ foldsOf env (.call func args), f.Right meaning)
    {s : Store V} (hholds : Holds meaning env s) :
    evalValue meaning (foldValue env (.call func args)) s =
      evalValue meaning (.call func args) s := by
  rw [foldValue]
  cases hfold : foldedCall env func args with
  | none => rw [replaced]
  | some c =>
    obtain ⟨values, hvalues, hc⟩ := Option.bind_eq_some_iff.mp hfold
    have hfolded : Fold.call func values c ∈ foldsOf env (.call func args) := by
      rw [foldsOf, Option.mem_toList, hvalues]
      show (evalBuiltinCall func values).map (Fold.call func values) = _
      rw [hc]
      rfl
    have hcall := hright _ hfolded s.world
    rw [replaced, evalValue_const, evalValue, read_constArgs hvalues hholds]
    show _ = leave s (meaning.call func (values.map fun c => meaning.const (.const c)) s.world)
    rw [hcall]
    rfl

/-! ## Loops and bodies -/

/-- Two bodies that do the same in every state of a kind that they keep do the same in a
loop. -/
theorem loopRun_eq {P : Store V → Prop} {body body' : Store V → Option (V × Store V)}
    {iterVar : String} (hbind : ∀ s value, P s → P (s.bind iterVar value))
    (hsame : ∀ s, P s → body' s = body s)
    (hkeeps : ∀ s v s', P s → body s = some (v, s') → P s') (step : Int) (count : Nat) (i : Int)
    (last : V) {s : Store V} (hs : P s) :
    loopRun meaning body' iterVar step count i last s =
      loopRun meaning body iterVar step count i last s := by
  induction count generalizing i last s with
  | zero => rfl
  | succ count ih =>
    have hnext := hbind s (meaning.iter i) hs
    rw [loopRun, loopRun, hsame _ hnext]
    cases hrun : body (s.bind iterVar (meaning.iter i)) with
    | none => rfl
    | some r =>
      obtain ⟨v, t⟩ := r
      exact ih (i + step) v (hkeeps _ v t hnext hrun)

theorem noStale_binds {env : ConstEnv} {value : ANFValue} (h : NoStale env value) :
    ∀ n ∈ binds value, env n = none := by
  cases value with
  | ifValue cond thenBody elseBody results =>
    rw [NoStale] at h
    rw [binds]
    exact h.1
  | loop count body iterVar start step =>
    rw [NoStale] at h
    rw [binds]
    exact h.1
  | _ =>
    rw [binds]
    · intro n hn
      cases hn
    all_goals intros; contradiction

/-- What is recorded is what the binding loads. -/
theorem recorded_eq_some {value : ANFValue} {operand : ConstOperand}
    (h : recorded value = some operand) (s : Store V) :
    evalValue meaning value s = some (meaning.const operand, s) := by
  unfold recorded at h
  split at h
  · cases h
  · rename_i operand' hnot
    cases h
    rw [evalValue]
    exact hnot
  · cases h

/-- The table is right after a binding when it was right before. -/
theorem Holds.record {env : ConstEnv} {name : String} {value : ANFValue} {s t : Store V} {v : V}
    (hholds : Holds meaning env s) (hstale : NoStale env value)
    (hname : recorded (foldValue env value) = none → env name = none)
    (hsame : evalValue meaning (foldValue env value) s = evalValue meaning value s)
    (hrun : evalValue meaning value s = some (v, t)) :
    Holds meaning (ConstantFold.record env name (foldValue env value)) (t.bind name v) := by
  have hleft : Holds meaning env t := hholds.of_names fun n hn =>
    evalValue_names n value (fun hmem => hn (noStale_binds hstale n hmem)) hrun
  unfold ConstantFold.record
  cases hrecorded : recorded (foldValue env value) with
  | none => exact hleft.bind_other (hname hrecorded) v
  | some operand =>
    have hload : evalValue meaning (foldValue env value) s = some (meaning.const operand, s) :=
      recorded_eq_some hrecorded s
    rw [hsame, hrun] at hload
    cases hload
    exact hleft.set name operand

mutual

theorem evalValue_foldValue : ∀ (value : ANFValue) {env : ConstEnv}, NoStale env value →
    (∀ f ∈ foldsOf env value, f.Right meaning) → ∀ {s : Store V}, Holds meaning env s →
      evalValue meaning (foldValue env value) s = evalValue meaning value s
  | .binOp op left right resultBytes, env, _, hright, s, hholds =>
    evalValue_foldedBinOp op left right resultBytes hright hholds
  | .unaryOp op operand resultBytes, env, _, hright, s, hholds =>
    evalValue_foldedUnaryOp op operand resultBytes hright hholds
  | .call func args, env, _, hright, s, hholds => evalValue_foldedCall func args hright hholds
  | .ifValue cond thenBody elseBody results, env, hstale, hright, s, hholds => by
    rw [NoStale] at hstale
    rw [foldsOf] at hright
    have hthen := evalBindings_foldBindings thenBody hstale.2.1
      (fun f hf => hright f (List.mem_append_left _ hf)) meaning.nothing hholds
    have helse := evalBindings_foldBindings elseBody hstale.2.2
      (fun f hf => hright f (List.mem_append_right _ hf)) meaning.nothing hholds
    rw [foldValue, evalValue, evalValue, hthen, helse]
  | .loop count body iterVar start step, env, hstale, hright, s, hholds => by
    rw [NoStale] at hstale
    rw [foldsOf] at hright
    have hbody := fun {s} => @evalBindings_foldBindings body env hstale.2 hright meaning.nothing s
    rw [foldValue, evalValue, evalValue]
    refine loopRun_eq (P := Holds meaning env) (fun s v hs => ?_) (fun s hs => hbody hs)
      (fun s v s' hs hrun => ?_) step count start _ hholds
    · exact hs.bind_other (hstale.1 iterVar List.mem_cons_self) v
    · exact hs.of_names fun n hn => evalBindings_names n body
        (fun hmem => hn (hstale.1 n (List.mem_cons_of_mem _ hmem))) _ hrun
  | .loadParam name, env, _, _, s, _ => by rw [foldValue] <;> (intros; contradiction)
  | .loadProp name, env, _, _, s, _ => by rw [foldValue] <;> (intros; contradiction)
  | .loadConst operand, env, _, _, s, _ => by rw [foldValue] <;> (intros; contradiction)
  | .methodCall object method args, env, _, _, s, _ => by
    rw [foldValue] <;> (intros; contradiction)
  | .assert name, env, _, _, s, _ => by rw [foldValue] <;> (intros; contradiction)
  | .updateProp name operand, env, _, _, s, _ => by rw [foldValue] <;> (intros; contradiction)
  | .getStateScript, env, _, _, s, _ => by rw [foldValue] <;> (intros; contradiction)
  | .checkPreimage preimage sighashFlag, env, _, _, s, _ => by
    rw [foldValue] <;> (intros; contradiction)
  | .deserializeState preimage, env, _, _, s, _ => by rw [foldValue] <;> (intros; contradiction)
  | .addOutput satoshis stateValues preimage, env, _, _, s, _ => by
    rw [foldValue] <;> (intros; contradiction)
  | .addRawOutput satoshis scriptBytes, env, _, _, s, _ => by
    rw [foldValue] <;> (intros; contradiction)
  | .addDataOutput satoshis scriptBytes, env, _, _, s, _ => by
    rw [foldValue] <;> (intros; contradiction)
  | .arrayLiteral elements, env, _, _, s, _ => by rw [foldValue] <;> (intros; contradiction)
  | .rawScript bytes inArity outArity, env, _, _, s, _ => by
    rw [foldValue] <;> (intros; contradiction)

theorem evalBindings_foldBindings : ∀ (bindings : List ANFBinding) {env : ConstEnv},
    NoStaleIn env bindings → (∀ f ∈ foldsIn env bindings, f.Right meaning) →
      ∀ (last : V) {s : Store V}, Holds meaning env s →
        evalBindings meaning (foldBindings env bindings) last s =
          evalBindings meaning bindings last s
  | [], env, _, _, last, s, _ => by rw [foldBindings]
  | .mk name value :: rest, env, hstale, hright, last, s, hholds => by
    rw [NoStaleIn] at hstale
    rw [foldsIn] at hright
    have hvalue := evalValue_foldValue value hstale.1
      (fun f hf => hright f (List.mem_append_left _ hf)) hholds
    rw [foldBindings, evalBindings, evalBindings, hvalue]
    cases hrun : evalValue meaning value s with
    | none => rfl
    | some r =>
      obtain ⟨v, t⟩ := r
      exact evalBindings_foldBindings rest hstale.2.2
        (fun f hf => hright f (List.mem_append_right _ hf)) v
        (hholds.record hstale.1 hstale.2.1 hvalue hrun)

end

/-- A body in which no recorded name is bound anew, and whose folded operations compute their
constants. -/
structure Foldable (meaning : Meaning V) (body : List ANFBinding) : Prop where
  noStale : NoStaleIn .empty body
  right : ∀ f ∈ foldsIn .empty body, f.Right meaning

/-- Two methods with the same signature that do the same in every state. -/
structure SameMethod (meaning : Meaning V) (method method' : ANFMethod) : Prop where
  name : method'.name = method.name
  params : method'.params = method.params
  isPublic : method'.isPublic = method.isPublic
  runs : ∀ store, runBody meaning method'.body store = runBody meaning method.body store

end Correct

/-! ## Which operations compute their constants -/

section Compiled

open Interpreter

def numberOf : Value → Option Int
  | .bigint n bytes => numeric n bytes
  | _ => none

/-- The operators as the interpreter has them, and the math builtins as they are compiled; of
these `bool` alone gives a truth value. -/
def compiledMeaning : Meaning Value where
  __ := Dce.operatorMeaning
  call func args world := do
    let ns ← args.mapM numberOf
    let n ← compiledNum func ns
    some (if func = "bool" then .boolean (n != 0) else .num n, world)

/-- Two constants of one type. -/
def SameType : ConstOperand → ConstOperand → Prop
  | .const (.bigint _), .const (.bigint _) => True
  | .const (.boolean _), .const (.boolean _) => True
  | .const (.bytes _), .const (.bytes _) => True
  | _, _ => False

/-- The folds that the operators and the compiled builtins bear out. -/
def Fold.Sound : Fold → Prop
  | .binOp _ _ left right _ => SameType left right
  | .unaryOp _ _ _ _ => True
  | .call func args _ => func ≠ "sqrt" ∧ WithinLimits func (args.filterMap asBigint)

/-- The result of a fold is what the folder evaluates. -/
def Fold.Evaluated : Fold → Prop
  | .binOp op _ left right result => evalBinOp op left right = some result
  | .unaryOp op _ operand result => evalUnaryOp op operand = some result
  | .call func args result => evalBuiltinCall func args = some result

mutual

theorem evaluated_of_mem_foldsOf {f : Fold} : ∀ (value : ANFValue) {env : ConstEnv},
    f ∈ foldsOf env value → f.Evaluated
  | .binOp op left right resultBytes, env, h => by
    rw [foldsOf, Option.mem_toList] at h
    obtain ⟨l, -, h⟩ := Option.bind_eq_some_iff.mp h
    obtain ⟨r, -, h⟩ := Option.bind_eq_some_iff.mp h
    obtain ⟨c, hc, rfl⟩ := Option.map_eq_some_iff.mp h
    exact hc
  | .unaryOp op operand resultBytes, env, h => by
    rw [foldsOf, Option.mem_toList] at h
    obtain ⟨x, -, h⟩ := Option.bind_eq_some_iff.mp h
    obtain ⟨c, hc, rfl⟩ := Option.map_eq_some_iff.mp h
    exact hc
  | .call func args, env, h => by
    rw [foldsOf, Option.mem_toList] at h
    obtain ⟨values, -, h⟩ := Option.bind_eq_some_iff.mp h
    obtain ⟨c, hc, rfl⟩ := Option.map_eq_some_iff.mp h
    exact hc
  | .ifValue cond thenBody elseBody results, env, h => by
    rw [foldsOf] at h
    rcases List.mem_append.mp h with hthen | helse
    · exact evaluated_of_mem_foldsIn thenBody hthen
    · exact evaluated_of_mem_foldsIn elseBody helse
  | .loop count body iterVar start step, env, h => by
    rw [foldsOf] at h
    exact evaluated_of_mem_foldsIn body h
  | .loadParam _, env, h => by simp [foldsOf] at h
  | .loadProp _, env, h => by simp [foldsOf] at h
  | .loadConst _, env, h => by simp [foldsOf] at h
  | .methodCall _ _ _, env, h => by simp [foldsOf] at h
  | .assert _, env, h => by simp [foldsOf] at h
  | .updateProp _ _, env, h => by simp [foldsOf] at h
  | .getStateScript, env, h => by simp [foldsOf] at h
  | .checkPreimage _ _, env, h => by simp [foldsOf] at h
  | .deserializeState _, env, h => by simp [foldsOf] at h
  | .addOutput _ _ _, env, h => by simp [foldsOf] at h
  | .addRawOutput _ _, env, h => by simp [foldsOf] at h
  | .addDataOutput _ _, env, h => by simp [foldsOf] at h
  | .arrayLiteral _, env, h => by simp [foldsOf] at h
  | .rawScript _ _ _, env, h => by simp [foldsOf] at h

theorem evaluated_of_mem_foldsIn {f : Fold} : ∀ (bindings : List ANFBinding) {env : ConstEnv},
    f ∈ foldsIn env bindings → f.Evaluated
  | [], env, h => by simp [foldsIn] at h
  | .mk name value :: rest, env, h => by
    rw [foldsIn] at h
    rcases List.mem_append.mp h with hvalue | hrest
    · exact evaluated_of_mem_foldsOf value hvalue
    · exact evaluated_of_mem_foldsIn rest hrest

end

theorem binOp_right_bigint (op : BinaryOp) (resultBytes : Bool) {left right : Int}
    {result : ConstValue}
    (h : evalBinOp op (.const (.bigint left)) (.const (.bigint right)) = some result) :
    compiledMeaning.binOp op resultBytes (.num left) (.num right) =
      some (compiledMeaning.const (.const result)) := by
  cases op <;> simp only [evalBinOp, Option.some.injEq, reduceCtorEq] at h
  case div =>
    by_cases hzero : right = 0
    · rw [if_pos hzero] at h
      cases h
    · rw [if_neg hzero] at h
      cases h
      show (if right = 0 then none else some (Value.num (left.tdiv right))) = _
      rw [if_neg hzero]
      rfl
  case mod =>
    by_cases hzero : right = 0
    · rw [if_pos hzero] at h
      cases h
    · rw [if_neg hzero] at h
      cases h
      show (if right = 0 then none else some (Value.num (left.tmod right))) = _
      rw [if_neg hzero]
      rfl
  all_goals
    cases h
    rfl

theorem binOp_right_boolean (op : BinaryOp) (resultBytes : Bool) {left right : Bool}
    {result : ConstValue}
    (h : evalBinOp op (.const (.boolean left)) (.const (.boolean right)) = some result) :
    compiledMeaning.binOp op resultBytes (.boolean left) (.boolean right) =
      some (compiledMeaning.const (.const result)) := by
  cases op <;> simp only [evalBinOp, Option.some.injEq, reduceCtorEq] at h
  all_goals
    cases h
    rfl

theorem binOp_right_bytes (op : BinaryOp) (resultBytes : Bool) {left right : Bytes}
    {result : ConstValue}
    (h : evalBinOp op (.const (.bytes left)) (.const (.bytes right)) = some result) :
    compiledMeaning.binOp op resultBytes (.bytes left) (.bytes right) =
      some (compiledMeaning.const (.const result)) := by
  cases op <;> simp only [evalBinOp, Option.some.injEq, reduceCtorEq] at h
  all_goals
    cases h
    rfl

/-- Constants of two types, or markers, are only ever compared. -/
theorem binOp_of_not_sameType {op : BinaryOp} {left right : ConstOperand} {result : ConstValue}
    (hdiff : ¬ SameType left right) (h : evalBinOp op left right = some result)
    (resultBytes : Bool) :
    compiledMeaning.binOp op resultBytes (compiledMeaning.const left)
      (compiledMeaning.const right) = none := by
  have hop : op = .eq ∨ op = .ne := by
    unfold evalBinOp at h
    split at h
    · exact absurd trivial hdiff
    · exact absurd trivial hdiff
    · exact absurd trivial hdiff
    · cases op <;> simp at h ⊢
  rcases hop with rfl | rfl <;> rcases left with (_ | _ | _) | _ | _ | _ <;>
    rcases right with (_ | _ | _) | _ | _ | _ <;> first | rfl | exact absurd trivial hdiff

theorem binOp_right_iff (op : BinaryOp) (resultBytes : Bool) {left right : ConstOperand}
    {result : ConstValue} (h : evalBinOp op left right = some result) :
    compiledMeaning.binOp op resultBytes (compiledMeaning.const left)
        (compiledMeaning.const right) = some (compiledMeaning.const (.const result)) ↔
      SameType left right := by
  constructor
  · intro hright
    by_contra hdiff
    rw [binOp_of_not_sameType hdiff h resultBytes] at hright
    cases hright
  · intro hsame
    unfold SameType at hsame
    split at hsame
    · exact binOp_right_bigint op resultBytes h
    · exact binOp_right_boolean op resultBytes h
    · exact binOp_right_bytes op resultBytes h
    · exact hsame.elim

theorem unaryOp_right (op : UnaryOp) (resultBytes : Bool) {operand : ConstOperand}
    {result : ConstValue} (h : evalUnaryOp op operand = some result) :
    compiledMeaning.unaryOp op resultBytes (compiledMeaning.const operand) =
      some (compiledMeaning.const (.const result)) := by
  unfold evalUnaryOp at h
  split at h
  · cases h
    rfl
  · cases h
    rfl
  · rename_i operand
    cases h
    show some (Value.boolean !(operand != 0)) = some (.boolean (operand == 0))
    rw [bne, Bool.not_not]
  · cases h

/-- The arguments of a folded builtin are numbers. -/
theorem eq_map_bigint {args : List ConstValue}
    (h : (args.filterMap asBigint).length = args.length) :
    args = (args.filterMap asBigint).map .bigint := by
  induction args with
  | nil => rfl
  | cons arg args ih =>
    have hle : (args.filterMap asBigint).length ≤ args.length := List.length_filterMap_le _ _
    cases arg with
    | bigint n =>
      have hcons : (ConstValue.bigint n :: args).filterMap asBigint =
          n :: args.filterMap asBigint := rfl
      rw [hcons, List.length_cons, List.length_cons] at h
      rw [hcons, List.map_cons, ← ih (by omega)]
    | bytes value =>
      have hskip : (ConstValue.bytes value :: args).filterMap asBigint =
          args.filterMap asBigint := rfl
      rw [hskip, List.length_cons] at h
      omega
    | boolean value =>
      have hskip : (ConstValue.boolean value :: args).filterMap asBigint =
          args.filterMap asBigint := rfl
      rw [hskip, List.length_cons] at h
      omega

/-- Of the builtins `bool` alone folds to a truth value. -/
theorem folded_type {func : String} {args : List ConstValue} {c : ConstValue}
    (h : evalBuiltinCall func args = some c) :
    (func = "bool" ∧ ∃ b, c = .boolean b) ∨ (func ≠ "bool" ∧ ∃ n, c = .bigint n) := by
  unfold evalBuiltinCall at h
  simp only at h
  split at h
  · cases h
  · split at h
    case h_15 n =>
      cases h
      exact .inl ⟨rfl, _, rfl⟩
    case h_16 => cases h
    all_goals
      refine .inr ⟨by decide, ?_⟩
      repeat' split at h
      all_goals
        cases h
        try exact ⟨_, rfl⟩

theorem mapM_numberOf (xs : List Int) : (xs.map Value.num).mapM numberOf = some xs := by
  induction xs with
  | nil => rfl
  | cons x xs ih =>
    rw [List.map_cons, List.mapM_cons, ih]
    rfl

/-- A builtin computes its constant exactly within the limits of the compiled loops. -/
theorem call_right_iff {func : String} {args : List ConstValue} {result : ConstValue}
    (h : evalBuiltinCall func args = some result) :
    (∀ world, compiledMeaning.call func (args.map fun c => compiledMeaning.const (.const c))
        world = some (compiledMeaning.const (.const result), world)) ↔
      func ≠ "sqrt" ∧ WithinLimits func (args.filterMap asBigint) := by
  have hargs : args = (args.filterMap asBigint).map .bigint := by
    refine eq_map_bigint ?_
    by_contra hlen
    unfold evalBuiltinCall at h
    simp only [ne_eq, hlen, not_false_eq_true, if_true, reduceCtorEq] at h
  generalize args.filterMap asBigint = xs at hargs ⊢
  subst hargs
  have hcall : ∀ world, compiledMeaning.call func ((xs.map ConstValue.bigint).map fun c =>
      compiledMeaning.const (.const c)) world = (compiledNum func xs).map fun n =>
        (if func = "bool" then .boolean (n != 0) else .num n, world) := by
    intro world
    have hvalues : (xs.map ConstValue.bigint).map (fun c => compiledMeaning.const (.const c)) =
        xs.map Value.num := List.map_map
    show (List.mapM numberOf _).bind _ = _
    rw [hvalues, mapM_numberOf, Option.bind_some]
    cases compiledNum func xs <;> rfl
  simp only [hcall]
  by_cases hsqrt : func = "sqrt"
  · have hnone : compiledNum func xs = none := by
      rw [hsqrt]
      rfl
    rw [hnone]
    exact iff_of_false (fun hall => by cases hall ⟨fun _ => none, [], []⟩) fun hn => hn.1 hsqrt
  · obtain ⟨n, hn, hlimits⟩ := compiledNum_of_folded hsqrt h
    rw [hn, ← hlimits, and_iff_right hsqrt]
    rcases folded_type h with ⟨rfl, b, rfl⟩ | ⟨hbool, m, rfl⟩
    · have hitem : encodeNum n = (StackLower.constPush (.boolean b)).toBytes :=
        hlimits.mpr trivial
      refine iff_of_true (fun world => ?_) hitem
      rw [StackLower.constPush, PushValue.toBytes_boolean, boolBytes_eq_encodeNum] at hitem
      rw [encodeNum_inj hitem]
      cases b <;> rfl
    · rw [StackLower.constPush, PushValue.toBytes_bigint]
      simp only [if_neg hbool]
      constructor
      · intro hall
        have hpair := Option.some.inj (hall ⟨fun _ => none, [], []⟩)
        have hnum : Value.num n = Value.num m := congrArg Prod.fst hpair
        cases hnum
        rfl
      · intro hitem world
        rw [encodeNum_inj hitem]
        rfl

/-- `const t1 = 2 + 3;`, and an assertion in an arm that reads it. -/
def foldedSum : List ANFBinding :=
  [.mk "t0" (.loadConst (.const (.bigint 2))), .mk "t1" (.loadConst (.const (.bigint 3))),
    .mk "t2" (.binOp .add "t0" "t1" false), .mk "t3" (.loadParam "flag"),
    .mk "t4" (.ifValue "t3"
      [.mk "t5" (.binOp .gt "t2" "t0" false), .mk "t6" (.assert "t5")] [] [])]

theorem foldedSum_foldsIn : foldsIn .empty foldedSum =
    [.binOp .add false (.const (.bigint 2)) (.const (.bigint 3)) (.bigint 5),
      .binOp .gt false (.const (.bigint 5)) (.const (.bigint 2)) (.boolean true)] := rfl

theorem foldable_foldedSum : Foldable compiledMeaning foldedSum where
  noStale := by
    simp [foldedSum, NoStaleIn, NoStale, record, recorded, foldValue, foldBindings, replaced,
      foldedBinOp, evalBinOp, ConstEnv.set, ConstEnv.empty, bindsAll, binds]
  right f hf := by
    rw [foldedSum_foldsIn] at hf
    rcases List.mem_cons.mp hf with rfl | hf
    · rfl
    · obtain rfl := List.mem_singleton.mp hf
      rfl

/-- A program with one method that folds. -/
def foldedProgram : ANFProgram := ⟨"Sum", [], [⟨"check", ["flag"], foldedSum, true⟩]⟩

end Compiled

end Runar.Optimizer.ConstantFold
