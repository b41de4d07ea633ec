/-
  StackLower/ForLoops.lean --- loops written out.

  WHAT THIS FILE IS FOR.  A `for` statement becomes one copy of its body for each value of the
  loop variable, and which values these are is read off the statement: a literal to start
  from, a comparison with a literal, an update.  This file has the loop as the reference
  interpreter runs it, and says when its body runs with just these values.

  WHAT IS NOT READ.  The left operand of the comparison, what the update changes and by how
  much, and what the body does to the loop variable.
-/
import Runar.Logic.Rounds
import Runar.AnfLower.Statements
import Runar.StackLower.Context
import Runar.Typecheck.Run

set_option autoImplicit false

namespace Runar.StackLower

open Ast Logic Script
open AnfLower (LoopShape extractLoopShape extractLoopStep extractBigIntValue)
open Interpreter (Value applyBinary applyUnary toBool)
open Typecheck (Runtime TypeEnv EvalM World Outcome evalExpr evalExprs evalStatement evalStatements
  evalDecl envAfter inScope loopRun truth observe observeOperands evalIdentifier assign assignName
  setLocal reservedNames)

/-! ## The emitted loop -/

namespace LoweringContext

/-- Drop the loop variable where the body has left it on top. -/
def dropIterVar (iterVar : String) (ctx : LoweringContext) : Except LowerError LoweringContext :=
  if ctx.stackMap.has iterVar then do
    let depth ← ctx.stackMap.findDepth iterVar
    if depth = 0 then (ctx.emitOp .drop).popSlot else .ok ctx
  else .ok ctx

/-- Push the value of the loop variable. -/
def pushIterVar (iterVar : String) (value : Int) (ctx : LoweringContext) : LoweringContext :=
  (ctx.emitOp (.push (.bigint value))).pushSlot (some iterVar)

/-- The copies of the body from the one on that leaves `left` of them. -/
def lowerIterations (lowerBody : Bool → LoweringContext → Except LowerError LoweringContext)
    (iterVar : String) (start step : Int) (count : Nat) :
    Nat → LoweringContext → Except LowerError LoweringContext
  | 0, ctx => .ok ctx
  | left + 1, ctx => do
      let i := count - (left + 1)
      let ctx ← lowerBody (left == 0) (ctx.pushIterVar iterVar (start + i * step))
      let ctx ← ctx.dropIterVar iterVar
      lowerIterations lowerBody iterVar start step count left ctx

/-- The loop unrolled.  How the bindings of the body are lowered, in the last iteration and in
those before, is a parameter. -/
def lowerLoop (lowerBody : Bool → LoweringContext → Except LowerError LoweringContext)
    (bodyBindingNames : List String) (count : Nat) (iterVar : String) (start step : Int)
    (ctx : LoweringContext) : Except LowerError LoweringContext := do
  let inner ← lowerIterations lowerBody iterVar start step count count
    { ctx with localBindings := ctx.localBindings ++ bodyBindingNames }
  .ok { inner with localBindings := ctx.localBindings }

end LoweringContext

/-- The values of the loop variable, in order. -/
def LoopShape.values (shape : LoopShape) : List Int :=
  (List.range shape.count).map fun (i : Nat) => shape.start + i * shape.step

/-- One copy of the body for each value, behind the push of the value. -/
inductive Unrolled (lowerBody : Bool → LoweringContext → Except LowerError LoweringContext)
    (iterVar : String) : List Int → LoweringContext → LoweringContext → Prop
  | done (ctx : LoweringContext) : Unrolled lowerBody iterVar [] ctx ctx
  | iteration {value : Int} {values : List Int} {ctx mid next last : LoweringContext} :
      lowerBody values.isEmpty (ctx.pushIterVar iterVar value) = .ok mid →
      mid.dropIterVar iterVar = .ok next → Unrolled lowerBody iterVar values next last →
      Unrolled lowerBody iterVar (value :: values) ctx last

/-- The values that are left. -/
def valuesLeft (start step : Int) (count left : Nat) : List Int :=
  (List.range left).map fun (i : Nat) => start + ((count - left + i : Nat) : Int) * step

theorem valuesLeft_succ (start step : Int) (count left : Nat) (h : left + 1 ≤ count) :
    valuesLeft start step count (left + 1) =
      (start + ((count - (left + 1) : Nat) : Int) * step) :: valuesLeft start step count left := by
  unfold valuesLeft
  rw [List.range_succ_eq_map, List.map_cons, List.map_map]
  refine congrArg₂ _ (by rw [Nat.add_zero]) (List.map_congr_left fun i _ => ?_)
  rw [Function.comp_apply, show count - (left + 1) + (i + 1) = count - left + i by omega]

theorem unrolled_lowerIterations
    {lowerBody : Bool → LoweringContext → Except LowerError LoweringContext} {iterVar : String}
    {start step : Int} {count left : Nat} (hleft : left ≤ count) {ctx last : LoweringContext}
    (h : LoweringContext.lowerIterations lowerBody iterVar start step count left ctx = .ok last) :
    Unrolled lowerBody iterVar (valuesLeft start step count left) ctx last := by
  induction left generalizing ctx with
  | zero =>
    cases h
    exact .done _
  | succ left ih =>
    rw [valuesLeft_succ start step count left hleft]
    rw [LoweringContext.lowerIterations] at h
    have hfinal : (valuesLeft start step count left).isEmpty = (left == 0) := by
      cases left with
      | zero => rfl
      | succ left =>
        rw [valuesLeft_succ start step count left (by omega)]
        rfl
    cases hbody : lowerBody (left == 0)
        (ctx.pushIterVar iterVar (start + ((count - (left + 1) : Nat) : Int) * step)) with
    | error e =>
      rw [hbody] at h
      exact nomatch h
    | ok mid =>
      rw [hbody, ok_bind] at h
      cases hdrop : mid.dropIterVar iterVar with
      | error e =>
        rw [hdrop] at h
        exact nomatch h
      | ok next =>
        rw [hdrop, ok_bind] at h
        exact .iteration (by rw [hfinal, hbody]) hdrop (ih (by omega) h)

/-- The emitted loop has a copy of the body for each value. -/
theorem unrolled_lowerLoop
    {lowerBody : Bool → LoweringContext → Except LowerError LoweringContext}
    {names : List String} {iterVar : String} {shape : LoopShape} {ctx last : LoweringContext}
    (h : LoweringContext.lowerLoop lowerBody names shape.count iterVar shape.start shape.step ctx =
      .ok last) :
    ∃ inner, Unrolled lowerBody iterVar (LoopShape.values shape)
      { ctx with localBindings := ctx.localBindings ++ names } inner ∧ last.ops = inner.ops := by
  unfold LoweringContext.lowerLoop at h
  cases hinner : LoweringContext.lowerIterations lowerBody iterVar shape.start shape.step
      shape.count shape.count { ctx with localBindings := ctx.localBindings ++ names } with
  | error e =>
    rw [hinner] at h
    exact nomatch h
  | ok inner =>
    rw [hinner, ok_bind] at h
    cases h
    have hvalues : LoopShape.values shape = valuesLeft shape.start shape.step shape.count
        shape.count := by
      unfold LoopShape.values valuesLeft
      refine List.map_congr_left fun i _ => ?_
      rw [Nat.sub_self, Nat.zero_add]
    exact ⟨inner, hvalues ▸ unrolled_lowerIterations (Nat.le_refl _) hinner, rfl⟩

/-! ## The shape of a loop -/

/-- What the validator takes for a constant; it trusts a name to be one. -/
def isCompileTimeConstant : Expression → Bool
  | .bigintLiteral _ | .boolLiteral _ | .identifier _ => true
  | .unaryExpr .neg operand => isCompileTimeConstant operand
  | _ => false

/-- The validator's check of the bound of a loop; it does not look at the other operand. -/
def validateForStatement : Expression → Bool
  | .binaryExpr _ _ right => isCompileTimeConstant right
  | _ => true

/-- A number satisfies a comparison with a bound. -/
def holdsAt (op : BinaryOp) (bound value : Int) : Bool :=
  match op with
  | .lt => value < bound
  | .le => value ≤ bound
  | .gt => value > bound
  | .ge => value ≥ bound
  | _ => false

/-- The comparison of a loop, with a number as its left operand. -/
def comparison : Expression → Int → Bool
  | .binaryExpr op _ right, value => (extractBigIntValue right).any (holdsAt op · value)
  | _, _ => false

theorem extractLoopStep_cases (condition : Expression) (update : Statement) :
    extractLoopStep condition update = 1 ∨ extractLoopStep condition update = -1 := by
  unfold extractLoopStep
  split
  · exact .inl rfl
  · exact .inr rfl
  · split
    · exact .inr rfl
    · exact .inr rfl
    · exact .inl rfl

/-- What is read off a loop. -/
theorem shape_cases {init condition : Expression} {update : Statement} {shape : LoopShape}
    (h : extractLoopShape init condition update = .ok shape) :
    ∃ op left right bound, condition = .binaryExpr op left right ∧
      extractBigIntValue right = some bound ∧ extractBigIntValue init = some shape.start ∧
      shape.step = extractLoopStep condition update ∧
      (op = .lt ∧ shape.step = 1 ∧ shape.count = (bound - shape.start).toNat ∨
        op = .le ∧ shape.step = 1 ∧ shape.count = (bound - shape.start + 1).toNat ∨
        op = .gt ∧ shape.step = -1 ∧ shape.count = (shape.start - bound).toNat ∨
        op = .ge ∧ shape.step = -1 ∧ shape.count = (shape.start - bound + 1).toNat) := by
  unfold extractLoopShape at h
  cases hstart : extractBigIntValue init with
  | none =>
    rw [hstart] at h
    exact nomatch h
  | some start =>
    rw [hstart] at h
    cases condition with
    | binaryExpr op left right =>
      dsimp only at h
      cases hbound : extractBigIntValue right with
      | none =>
        rw [hbound] at h
        exact nomatch h
      | some bound =>
        rw [hbound] at h
        dsimp only at h
        refine ⟨op, left, right, bound, rfl, hbound, ?_⟩
        by_cases hstep : extractLoopStep (.binaryExpr op left right) update = 1
        · rw [if_pos hstep] at h
          cases op with
          | lt =>
            cases h
            exact ⟨rfl, hstep.symm, .inl ⟨rfl, rfl, rfl⟩⟩
          | le =>
            cases h
            exact ⟨rfl, hstep.symm, .inr (.inl ⟨rfl, rfl, rfl⟩)⟩
          | _ => exact nomatch h
        · have hdown : extractLoopStep (.binaryExpr op left right) update = -1 :=
            (extractLoopStep_cases _ _).resolve_left hstep
          rw [if_neg hstep] at h
          cases op with
          | gt =>
            cases h
            exact ⟨rfl, hdown.symm, .inr (.inr (.inl ⟨rfl, rfl, rfl⟩))⟩
          | ge =>
            cases h
            exact ⟨rfl, hdown.symm, .inr (.inr (.inr ⟨rfl, rfl, rfl⟩))⟩
          | _ => exact nomatch h
    | _ => exact nomatch h

theorem length_values (shape : LoopShape) : (LoopShape.values shape).length = shape.count := by
  rw [LoopShape.values, List.length_map, List.length_range]

/-- The `k`-th number of steps from the start. -/
theorem iterate_step (start step : Int) (k : Nat) :
    (Option.map (· + step))^[k] (some start) = some (start + k * step) := by
  induction k with
  | zero => simp
  | succ k ih =>
    rw [Function.iterate_succ_apply', ih, Option.map_some]
    refine congrArg some ?_
    push_cast
    ring

/-- The values are those that satisfy the comparison. -/
theorem progression_values {init condition : Expression} {update : Statement} {shape : LoopShape}
    (h : extractLoopShape init condition update = .ok shape) :
    Loop.Progression (some shape.start) (Option.map (· + shape.step))
      (fun v => v.any (comparison condition)) ((LoopShape.values shape).map some) := by
  obtain ⟨op, left, right, bound, rfl, hbound, -, -, hshape⟩ := shape_cases h
  have hlength : ((LoopShape.values shape).map some).length = shape.count := by
    rw [List.length_map, length_values]
  refine ⟨fun k hk => ?_, fun k hk => ?_⟩
  · rw [hlength] at hk
    rw [iterate_step, LoopShape.values, List.map_map, List.getElem?_map,
      List.getElem?_range hk]
    rfl
  · rw [hlength] at hk ⊢
    rw [iterate_step, Option.any_some, comparison, hbound, Option.any_some]
    rcases hshape with ⟨rfl, hstep, hcount⟩ | ⟨rfl, hstep, hcount⟩ | ⟨rfl, hstep, hcount⟩ |
      ⟨rfl, hstep, hcount⟩ <;>
    · rw [hstep]
      refine decide_eq_decide.mpr ?_
      omega

/-! ## The source loop -/

/-- A loop of the interpreter, round by round. -/
def evalLoop (condition : EvalM Bool) (body : EvalM Outcome) (step : EvalM Unit) : Loop World where
  enter w :=
    match condition w with
    | (.ok true, w', _) => some w'
    | _ => none
  round w :=
    match body w with
    | (.ok .next, w', _) =>
        match step w' with
        | (.ok _, w'', _) => .next w''
        | (.error _, _, _) => .left
    | (.ok (.returned _), _, _) => .left
    | (.error _, _, _) => .aborted

/-- A round of the interpreter's loop is one of these. -/
theorem loopRun_round {condition : EvalM Bool} {body : EvalM Outcome} {step : EvalM Unit}
    {w b w' : World} (hstart : (evalLoop condition body step).enter w = some b)
    (hround : (evalLoop condition body step).round b = .next w') (n : Nat) :
    (loopRun condition body step (n + 1) w).1 = (loopRun condition body step n w').1 ∧
      (loopRun condition body step (n + 1) w).2.1 = (loopRun condition body step n w').2.1 := by
  dsimp only [evalLoop] at hstart hround
  rw [loopRun, LogM.bind_apply]
  rcases hcondition : condition w with ⟨_ | holds, w₁, log₁⟩
  · rw [hcondition] at hstart
    exact nomatch hstart
  cases holds with
  | false =>
    rw [hcondition] at hstart
    exact nomatch hstart
  | true =>
    rw [hcondition] at hstart
    cases hstart
    dsimp only
    rw [if_pos rfl, LogM.bind_apply]
    rcases hbody : body b with ⟨_ | outcome, w₂, log₂⟩
    · rw [hbody] at hround
      exact nomatch hround
    cases outcome with
    | returned v =>
      rw [hbody] at hround
      exact nomatch hround
    | next =>
      rw [hbody] at hround
      dsimp only at hround ⊢
      rw [LogM.bind_apply]
      rcases hstep : step w₂ with ⟨_ | _, w₃, log₃⟩
      · rw [hstep] at hround
        exact nomatch hround
      · rw [hstep] at hround
        cases hround
        exact ⟨rfl, rfl⟩

/-- Where the test of a loop gives a value, the loop goes on by it. -/
theorem enter_evalLoop {condition : EvalM Bool} {body : EvalM Outcome} {step : EvalM Unit}
    {w w' : World} {holds : Bool} (h : LogM.Gives condition w holds w') :
    (evalLoop condition body step).enter w = if holds then some w' else none := by
  obtain ⟨log, h⟩ := h
  dsimp only [evalLoop]
  rw [h]
  cases holds <;> rfl

section Source

variable (R : Runtime) (checked : Bool) (env : TypeEnv) (name : String)
  (type : Option TypeNode) (init condition : Expression) (update : Statement)
  (body : List Statement)

/-- The environment of a loop. -/
def loopEnv : TypeEnv := envAfter R.tc env.pushScope (.variableDecl name type init)

/-- The body of a loop. -/
def loopBody : EvalM Outcome :=
  inScope (evalStatements R checked (loopEnv R env name type init) body)

/-- The loop of a `for` statement. -/
def sourceLoop : Loop World :=
  evalLoop
    (do
      let c ← evalExpr R checked (loopEnv R env name type init) condition
      truth c)
    (loopBody R checked env name type init body)
    (inScope do
      let _ ← evalStatement R false (loopEnv R env name type init) update)

/-- The number a local holds. -/
def loopVariable (w : World) : Option Int :=
  match w.locals.lookup name with
  | some (.bigint value _) => some value
  | _ => none

/-- From where the loop variable is declared, the source runs the body with the values of the
emitted loop. -/
def KeepsIteration (shape : LoopShape) (w : World) : Prop :=
  (sourceLoop R checked env name type init condition update body).Visits (loopVariable name) w
    ((LoopShape.values shape).map some)

/-- The body of the source loop starts first with the first number, where that satisfies the
comparison; and from one start, unless the body fails, comes the next exactly where the number
one step on satisfies it, with that number. -/
def CountsOn (w : World) : Prop :=
  (sourceLoop R checked env name type init condition update body).Counts (loopVariable name) w
    (extractBigIntValue init) (Option.map (· + extractLoopStep condition update))
    fun v => v.any (comparison condition)

/-- The loop compares its own variable, and steps it. -/
def TestsAndSteps : Prop :=
  name ∉ reservedNames ∧ (∃ op right, condition = .binaryExpr op (.identifier name) right) ∧
    ∃ isPrefix, update = .expressionStatement (.incrementExpr (.identifier name) isPrefix) ∨
      update = .expressionStatement (.decrementExpr (.identifier name) isPrefix)

/-- Where the body does not fail it falls through, and the loop variable is what it was. -/
def LeavesAlone : Prop :=
  ∀ w outcome w', LogM.Gives (loopBody R checked env name type init body) w outcome w' →
    outcome = .next ∧ w'.locals.lookup name = w.locals.lookup name

end Source

/-! ## What the parts of a loop give -/

section Parts

variable (R : Runtime) (checked : Bool) (env : TypeEnv)

theorem gives_observe (type : Typecheck.TType) (v : Value) (w : World) :
    LogM.Gives (observe checked type v) w v w := by
  unfold observe
  split
  · exact .pure v w
  · exact .bind (.record _ w) (.pure v w)

theorem gives_observeOperands (agree : Bool) (operands : List Value) (w : World) :
    LogM.Gives (observeOperands checked agree operands) w () w := by
  unfold observeOperands
  split
  · exact .pure () w
  · exact .record _ w

theorem gives_flow (actual expected : Typecheck.TType) (v : Value) (w : World) :
    LogM.Gives (Typecheck.flow checked actual expected v) w () w := by
  unfold Typecheck.flow
  split
  · exact .pure () w
  · split
    · exact .record _ w
    · split
      · exact .record _ w
      · exact .pure () w

theorem gives_inScope {α : Type} {m : EvalM α} {w w' : World} {a : α} (h : LogM.Gives m w a w') :
    LogM.Gives (inScope m) w a
      { w' with locals := w'.locals.drop (w'.locals.length - w.locals.length) } :=
  .bind (.read w) (.bind h (.bind (.update _ w') (.pure a _)))

/-- A literal gives its number. -/
theorem gives_literal {e : Expression} {n : Int} (h : extractBigIntValue e = some n) (w : World) :
    LogM.Gives (evalExpr R checked env e) w (.num n) w := by
  match e, h with
  | .bigintLiteral value, h =>
    rw [extractBigIntValue] at h
    cases h
    rw [evalExpr]
    exact .pure _ w
  | .unaryExpr .neg operand, h =>
    rw [extractBigIntValue, Option.map_eq_some_iff] at h
    obtain ⟨m, hm, rfl⟩ := h
    rw [evalExpr]
    exact .bind (gives_literal hm w) (.bind (gives_observeOperands checked _ _ w)
      (.bind (.pure (Value.num (-m)) w) (gives_observe checked _ _ w)))

/-- The declaration of a loop. -/
theorem gives_evalDecl {name : String} {type : Option TypeNode} {init : Expression} {n : Int}
    (h : extractBigIntValue init = some n) (w : World) :
    LogM.Gives (evalDecl R checked env name type init) w () (w.define name (.num n)) := by
  unfold evalDecl
  refine .bind (gives_literal R checked env h w) ?_
  cases type with
  | none => exact .update _ w
  | some type => exact .bind (gives_flow checked _ _ _ w) (.update _ w)

/-- A local gives its value. -/
theorem gives_local {name : String} {v : Value} {w : World} (hname : name ∉ reservedNames)
    (hv : w.locals.lookup name = some v) :
    LogM.Gives (evalExpr R checked env (.identifier name)) w v w := by
  rw [evalExpr]
  refine .bind ?_ (gives_observe checked _ v w)
  unfold evalIdentifier
  refine .bind (.read w) ?_
  rw [if_neg hname, hv]
  exact .pure v w

/-- The comparison of the loop variable with the bound. -/
theorem gives_comparison {op : BinaryOp} {name : String} {right : Expression} {bound v : Int}
    {w : World} (hop : op ∈ [BinaryOp.lt, .le, .gt, .ge]) (hname : name ∉ reservedNames)
    (hright : extractBigIntValue right = some bound)
    (hv : w.locals.lookup name = some (.num v)) :
    LogM.Gives (do
      let c ← evalExpr R checked env (.binaryExpr op (.identifier name) right)
      Typecheck.truth c) w (comparison (.binaryExpr op (.identifier name) right) v) w := by
  have hvalue : applyBinary op (.num v) (.num bound) = some (.boolean (holdsAt op bound v)) := by
    simp only [List.mem_cons, List.not_mem_nil, or_false] at hop
    rcases hop with rfl | rfl | rfl | rfl <;> rfl
  have hnot : op ≠ .and ∧ op ≠ .or := by
    simp only [List.mem_cons, List.not_mem_nil, or_false] at hop
    rcases hop with rfl | rfl | rfl | rfl <;> exact ⟨by decide, by decide⟩
  have hcomparison : comparison (.binaryExpr op (.identifier name) right) v =
      holdsAt op bound v := by
    rw [comparison, hright, Option.any_some]
  rw [hcomparison, evalExpr]
  refine .bind (a := .boolean (holdsAt op bound v)) ?_ (.pure _ w)
  refine .bind (gives_local R checked env hname hv) ?_
  dsimp only
  rw [if_neg hnot.1, if_neg hnot.2]
  refine .bind (gives_literal R checked env hright w)
    (.bind (gives_observeOperands checked _ _ w) (.bind ?_ (gives_observe checked _ _ w)))
  rw [hvalue]
  exact .pure _ w

theorem length_setLocal (name : String) (v : Value) (locals : List (String × Value)) :
    (setLocal name v locals).length = locals.length := by
  induction locals with
  | nil => rfl
  | cons entry locals ih =>
    rw [setLocal]
    split
    · rfl
    · rw [List.length_cons, List.length_cons, ih]

theorem lookup_setLocal {name : String} {old : Value} {locals : List (String × Value)}
    (h : locals.lookup name = some old) (v : Value) :
    (setLocal name v locals).lookup name = some v := by
  induction locals with
  | nil => exact nomatch h
  | cons entry locals ih =>
    obtain ⟨n, value⟩ := entry
    rw [setLocal]
    by_cases hn : n = name
    · rw [if_pos hn, hn, List.lookup_cons_self]
    · have hne : (name == n) = false := beq_eq_false_iff_ne.mpr fun heq => hn heq.symm
      rw [if_neg hn, List.lookup_cons, hne]
      rw [List.lookup_cons, hne] at h
      exact ih h

/-- The update of a loop variable. -/
theorem gives_update (condition : Expression) {name : String} {update : Statement} {v : Int}
    {w : World} (hname : name ∉ reservedNames)
    (hupdate : ∃ isPrefix,
      update = .expressionStatement (.incrementExpr (.identifier name) isPrefix) ∨
        update = .expressionStatement (.decrementExpr (.identifier name) isPrefix))
    (hv : w.locals.lookup name = some (.num v)) :
    LogM.Gives (inScope do
      let _ ← evalStatement R checked env update) w ()
      (w.assignLocal name (.num (v + extractLoopStep condition update))) := by
  have hassign : ∀ n : Int, LogM.Gives (assign R checked env (.identifier name) (.num n)) w ()
      (w.assignLocal name (.num n)) := by
    intro n
    rw [assign]
    unfold assignName
    refine .bind (.read w) ?_
    rw [if_neg hname, if_pos (by rw [hv]; rfl)]
    exact .update _ w
  have hscope : ∀ n : Int, ({ w.assignLocal name (.num n) with
      locals := (w.assignLocal name (.num n)).locals.drop
        ((w.assignLocal name (.num n)).locals.length - w.locals.length) } : World) =
      w.assignLocal name (.num n) := by
    intro n
    rw [World.assignLocal, length_setLocal, Nat.sub_self, List.drop_zero]
  obtain ⟨isPrefix, rfl | rfl⟩ := hupdate
  · rw [← hscope]
    refine gives_inScope (.bind (a := Outcome.next) ?_ (.pure () _))
    rw [evalStatement, evalExpr]
    exact .bind (.bind (gives_local R checked env hname hv)
      (.bind (hassign (v + 1)) (.pure _ _))) (.pure Outcome.next _)
  · rw [← hscope]
    refine gives_inScope (.bind (a := Outcome.next) ?_ (.pure () _))
    rw [evalStatement, evalExpr]
    exact .bind (.bind (gives_local R checked env hname hv)
      (.bind (hassign (v - 1)) (.pure _ _))) (.pure Outcome.next _)

end Parts

/-! ## Loops that count -/

section Counting

variable {R : Runtime} {checked : Bool} {env : TypeEnv} {name : String}
  {type : Option TypeNode} {init condition : Expression} {update : Statement}
  {body : List Statement} {shape : LoopShape}

theorem enter_sourceLoop (h : extractLoopShape init condition update = .ok shape)
    (hsteps : TestsAndSteps name condition update) {w : World} {v : Int}
    (hv : w.locals.lookup name = some (.num v)) :
    (sourceLoop R checked env name type init condition update body).enter w =
      if comparison condition v then some w else none := by
  obtain ⟨hname, ⟨op, right, rfl⟩, -⟩ := hsteps
  obtain ⟨_, _, _, bound, hcondition, hbound, -, -, hop⟩ := shape_cases h
  cases hcondition
  have hmem : op ∈ [BinaryOp.lt, .le, .gt, .ge] := by
    rcases hop with ⟨rfl, -⟩ | ⟨rfl, -⟩ | ⟨rfl, -⟩ | ⟨rfl, -⟩ <;> decide
  exact enter_evalLoop (gives_comparison R checked (loopEnv R env name type init) hmem hname
    hbound hv)

/-- Unless the body fails, the loop variable is one step on at the next test. -/
theorem after_sourceLoop (hsteps : TestsAndSteps name condition update)
    (halone : LeavesAlone R checked env name type init body) {b : World} {v : Int}
    (hv : b.locals.lookup name = some (.num v))
    (hround : (sourceLoop R checked env name type init condition update body).round b ≠ .aborted) :
    ∃ w, (sourceLoop R checked env name type init condition update body).after b = some w ∧
      w.locals.lookup name = some (.num (v + extractLoopStep condition update)) := by
  rcases hbody : loopBody R checked env name type init body b with ⟨_ | outcome, w, log⟩
  · refine absurd ?_ hround
    dsimp only [sourceLoop, evalLoop]
    rw [hbody]
  · obtain ⟨rfl, hsame⟩ := halone b outcome w ⟨log, hbody⟩
    have hw : w.locals.lookup name = some (.num v) := hsame.trans hv
    obtain ⟨log', hstep⟩ := gives_update R false (loopEnv R env name type init) condition
      hsteps.1 hsteps.2.2 hw
    refine ⟨w.assignLocal name (.num (v + extractLoopStep condition update)), ?_,
      lookup_setLocal hw _⟩
    dsimp only [sourceLoop, evalLoop, Loop.after]
    rw [hbody]
    dsimp only
    rw [hstep]

/-- At every start of the body the loop variable holds a number. -/
theorem num_of_start (h : extractLoopShape init condition update = .ok shape)
    (hsteps : TestsAndSteps name condition update)
    (halone : LeavesAlone R checked env name type init body) {w : World} {v : Int}
    (hv : w.locals.lookup name = some (.num v)) {k : Nat} {b : World}
    (hstart : (sourceLoop R checked env name type init condition update body).start w k = some b) :
    ∃ v', b.locals.lookup name = some (.num v') := by
  induction k generalizing b with
  | zero =>
    rw [Loop.start, enter_sourceLoop h hsteps hv] at hstart
    split at hstart
    · cases hstart
      exact ⟨v, hv⟩
    · cases hstart
  | succ k ih =>
    rw [Loop.start, Option.bind_eq_some_iff] at hstart
    obtain ⟨w', hafter, henter⟩ := hstart
    obtain ⟨b', hstart', hafter⟩ := Option.bind_eq_some_iff.mp hafter
    obtain ⟨v', hv'⟩ := ih hstart'
    have hround : (sourceLoop R checked env name type init condition update body).round b' ≠
        .aborted := by
      intro habort
      rw [Loop.after, habort] at hafter
      cases hafter
    obtain ⟨w'', hw'', hnum⟩ := after_sourceLoop hsteps halone hv' hround
    obtain rfl := Option.some.inj (hafter.symm.trans hw'')
    rw [enter_sourceLoop h hsteps hnum] at henter
    split at henter
    · cases henter
      exact ⟨_, hnum⟩
    · cases henter

theorem loopVariable_of_num {w : World} {v : Int} (hv : w.locals.lookup name = some (.num v)) :
    loopVariable name w = some v := by
  rw [loopVariable, hv]

/-- A loop that compares and steps its own variable, which the body leaves alone, counts. -/
theorem countsOn_of_leavesAlone (h : extractLoopShape init condition update = .ok shape)
    (hsteps : TestsAndSteps name condition update)
    (halone : LeavesAlone R checked env name type init body) {w : World} {n : Int}
    (hn : extractBigIntValue init = some n) (hv : w.locals.lookup name = some (.num n)) :
    CountsOn R checked env name type init condition update body w := by
  -- what the body starts with where the test meets a number
  have hmap : ∀ {w : World} {v : Int}, w.locals.lookup name = some (.num v) →
      ((sourceLoop R checked env name type init condition update body).enter w).map
          (loopVariable name) =
        if (some v).any (comparison condition) then some (some v) else none := by
    intro w v hv
    rw [enter_sourceLoop h hsteps hv, Option.any_some]
    cases comparison condition v with
    | false => rfl
    | true => exact congrArg some (loopVariable_of_num hv)
  refine ⟨?_, fun k b hstart hround => ?_⟩
  · rw [hn]
    exact hmap hv
  · obtain ⟨v, hnum⟩ := num_of_start h hsteps halone hv hstart
    obtain ⟨w', hafter, hnum'⟩ := after_sourceLoop hsteps halone hnum hround
    rw [Loop.start_succ_of_some hstart, hafter, loopVariable_of_num hnum]
    exact hmap hnum'

/-- The emitted loop has a copy of the body for each value of the loop's shape.  The source
loop runs its body with these values exactly where each of its turns counts on, and it does so
where it compares and steps its own variable and the body leaves that alone. -/
theorem keepsIteration_iff (h : extractLoopShape init condition update = .ok shape) {w₀ w : World}
    (hdecl : LogM.Gives (evalDecl R checked env.pushScope name type init) w₀ () w) :
    (∀ lowerBody names ctx last,
        LoweringContext.lowerLoop lowerBody names shape.count name shape.start shape.step ctx =
          .ok last →
        ∃ inner, Unrolled lowerBody name (LoopShape.values shape)
          { ctx with localBindings := ctx.localBindings ++ names } inner ∧ last.ops = inner.ops) ∧
      (KeepsIteration R checked env name type init condition update body shape w ↔
        CountsOn R checked env name type init condition update body w) ∧
      (TestsAndSteps name condition update → LeavesAlone R checked env name type init body →
        CountsOn R checked env name type init condition update body w) := by
  obtain ⟨-, -, -, -, -, -, hstart, hstep, -⟩ := shape_cases h
  obtain ⟨-, rfl⟩ := hdecl.det (gives_evalDecl R checked env.pushScope hstart w₀)
  refine ⟨fun lowerBody names ctx last hlower => unrolled_lowerLoop hlower, ?_,
    fun hsteps halone => countsOn_of_leavesAlone h hsteps halone hstart ?_⟩
  · unfold KeepsIteration CountsOn
    rw [hstart, ← hstep]
    exact Loop.visits_iff_counts (progression_values h)
  · exact List.lookup_cons_self

end Counting

/-- A run time without functions and constants. -/
def bareRuntime : Runtime where
  tc := .ofContract
    { parentClass := .smartContract
      properties := []
      constructor := ⟨"constructor", [], [], .isPublic, none⟩
      methods := [] }
  builtin := fun _ _ => none
  globals := fun _ => none
  rawScript := fun _ => none
  txPreimage := []
  stateScript := fun _ => []
  callMethod := fun _ _ => LogM.fail .failed
  fuel := 100

/-- `for (let i = 0n; i < 3n; i++) {}` runs its body for 0, 1 and 2. -/
theorem keepsIteration_upTo :
    KeepsIteration bareRuntime true .empty "i" none (.bigintLiteral 0)
      (.binaryExpr .lt (.identifier "i") (.bigintLiteral 3))
      (.expressionStatement (.incrementExpr (.identifier "i") false)) [] ⟨0, 1, 3⟩
      ⟨[("i", .num 0)], []⟩ := by
  have hshape : extractLoopShape (.bigintLiteral 0)
      (.binaryExpr .lt (.identifier "i") (.bigintLiteral 3))
      (.expressionStatement (.incrementExpr (.identifier "i") false)) = .ok ⟨0, 1, 3⟩ := by
    decide
  have hdecl : LogM.Gives (evalDecl bareRuntime true (TypeEnv.pushScope .empty) "i" none
      (.bigintLiteral 0)) ⟨[], []⟩ () ⟨[("i", .num 0)], []⟩ := gives_evalDecl _ _ _ rfl _
  have halone : LeavesAlone bareRuntime true .empty "i" none (.bigintLiteral 0) [] := by
    intro w outcome w' hbody
    have hnil : LogM.Gives (evalStatements bareRuntime true
        (loopEnv bareRuntime .empty "i" none (.bigintLiteral 0)) []) w .next w := by
      rw [evalStatements]
      exact .pure Outcome.next w
    have hnothing := gives_inScope hnil
    rw [Nat.sub_self, List.drop_zero] at hnothing
    obtain ⟨rfl, rfl⟩ := hbody.det hnothing
    exact ⟨rfl, rfl⟩
  obtain ⟨-, hiff, hcounts⟩ := keepsIteration_iff hshape hdecl
  exact hiff.mpr (hcounts ⟨by decide, ⟨.lt, _, rfl⟩, false, .inl rfl⟩ halone)

/-- `let j = 5n; for (let i = 0n; j < 3n; i++) {}` does not run its body; it is written out
three times. -/
theorem not_keepsIteration :
    validateForStatement (.binaryExpr .lt (.identifier "j") (.bigintLiteral 3)) = true ∧
      extractLoopShape (.bigintLiteral 0)
        (.binaryExpr .lt (.identifier "j") (.bigintLiteral 3))
        (.expressionStatement (.incrementExpr (.identifier "i") false)) = .ok ⟨0, 1, 3⟩ ∧
      LogM.Gives (evalDecl bareRuntime true (TypeEnv.pushScope .empty) "i" none
        (.bigintLiteral 0)) ⟨[("j", .num 5)], []⟩ () ⟨[("i", .num 0), ("j", .num 5)], []⟩ ∧
      ¬ KeepsIteration bareRuntime true .empty "i" none (.bigintLiteral 0)
        (.binaryExpr .lt (.identifier "j") (.bigintLiteral 3))
        (.expressionStatement (.incrementExpr (.identifier "i") false)) [] ⟨0, 1, 3⟩
        ⟨[("i", .num 0), ("j", .num 5)], []⟩ := by
  refine ⟨by decide, by decide, gives_evalDecl _ _ _ rfl _, fun hkeeps => ?_⟩
  have htest : LogM.Gives (do
      let c ← evalExpr bareRuntime true (loopEnv bareRuntime .empty "i" none (.bigintLiteral 0))
        (.binaryExpr .lt (.identifier "j") (.bigintLiteral 3))
      Typecheck.truth c) ⟨[("i", .num 0), ("j", .num 5)], []⟩
      (comparison (.binaryExpr .lt (.identifier "j") (.bigintLiteral 3)) 5)
      ⟨[("i", .num 0), ("j", .num 5)], []⟩ :=
    gives_comparison _ _ _ (by decide) (by decide) rfl rfl
  have hfails : comparison (.binaryExpr .lt (.identifier "j") (.bigintLiteral 3)) 5 = false := by
    decide
  rw [hfails] at htest
  rcases hkeeps 0 with hvisit | ⟨j, hlt, -⟩
  · rw [Loop.start] at hvisit
    cases (congrArg _ (enter_evalLoop htest)).symm.trans hvisit
  · exact absurd hlt (Nat.not_lt_zero j)

end Runar.StackLower
