/-
  StackLower/MathBuiltins.lean --- calls of the math builtins.

  WHAT THIS FILE IS FOR.  A call of a math builtin brings its operands to the top
  of the stack and emits a fixed sequence of operations for them; the loops of
  `pow`, `gcd` and `log2` are unrolled a fixed number of times.  This file lowers
  the calls and proves what each sequence computes on the numbers it is given.

  WHAT IS A PARAMETER.  Calls of every other function are lowered by `other`.
-/
import Runar.StackLower.StateScript
import Runar.Logic.Euclid

set_option autoImplicit false

namespace Runar.StackLower

open Script

/-- Why a call is not lowered. -/
inductive CallError where
  /-- too few arguments -/
  | arity (func : String) (count : Nat)
  | unknownBuiltin (func : String)
  | lowering (error : LowerError)
  deriving DecidableEq, Repr

/-! ## The emitted sequences -/

/-- `safediv` and `safemod`: the divisor must not be zero. -/
def safeDivModOps (code : Opcode) : List StackOp :=
  [.opcode .OP_DUP, .opcode .OP_0NOTEQUAL, .opcode .OP_VERIFY, .opcode code]

/-- One round of `pow`, on `exp base acc`: multiply while the exponent is above the
index of the round. -/
def powRound (i : Nat) : List StackOp :=
  [.push (.bigint 2), .opcode .OP_PICK, .push (.bigint i), .opcode .OP_GREATERTHAN,
    .ifOp [.over, .opcode .OP_MUL] []]

def maxPowIterations : Nat := 32

def powOps : List StackOp :=
  [.swap, .push (.bigint 1)] ++ (List.range maxPowIterations).flatMap powRound ++ [.nip, .nip]

def percentOfOps : List StackOp :=
  [.opcode .OP_MUL, .push (.bigint 10000), .opcode .OP_DIV]

def sqrtIterations : Nat := 16

def sqrtRound (_ : Nat) : List StackOp :=
  [.over, .over, .opcode .OP_DIV, .opcode .OP_ADD, .push (.bigint 2), .opcode .OP_DIV]

def sqrtOps : List StackOp :=
  [.opcode .OP_DUP,
    .ifOp ([.opcode .OP_DUP] ++ (List.range sqrtIterations).flatMap sqrtRound ++ [.nip]) []]

/-- One round of `gcd`, on `a b`: divide while the divisor is not zero. -/
def gcdRound (_ : Nat) : List StackOp :=
  [.opcode .OP_DUP, .opcode .OP_0NOTEQUAL, .ifOp [.opcode .OP_TUCK, .opcode .OP_MOD] []]

def gcdIterations : Nat := 256

def gcdOps : List StackOp :=
  [.opcode .OP_ABS, .swap, .opcode .OP_ABS, .swap] ++
    (List.range gcdIterations).flatMap gcdRound ++ [.drop]

def divmodOps : List StackOp :=
  [.opcode .OP_2DUP, .opcode .OP_DIV, .opcode .OP_ROT, .opcode .OP_ROT, .opcode .OP_MOD, .drop]

/-- One round of `log2`, on `input counter`: halve while the input is above one. -/
def log2Round (_ : Nat) : List StackOp :=
  [.swap, .opcode .OP_DUP, .push (.bigint 1), .opcode .OP_GREATERTHAN,
    .ifOp [.push (.bigint 2), .opcode .OP_DIV, .swap, .opcode .OP_1ADD, .swap] [], .swap]

def log2Iterations : Nat := 64

def log2Ops : List StackOp :=
  [.push (.bigint 0)] ++ (List.range log2Iterations).flatMap log2Round ++ [.nip]

/-- `sign`: zero stays, another number is divided by its magnitude. -/
def signOps : List StackOp :=
  [.opcode .OP_DUP, .ifOp [.opcode .OP_DUP, .opcode .OP_ABS, .swap, .opcode .OP_DIV] []]

/-- The builtins on numbers that are one opcode. -/
def builtinOpcodes : String → Option (List Opcode)
  | "abs" => some [.OP_ABS]
  | "min" => some [.OP_MIN]
  | "max" => some [.OP_MAX]
  | "within" => some [.OP_WITHIN]
  | "bool" => some [.OP_0NOTEQUAL]
  | _ => none

/-! ## Lowering -/

namespace LoweringContext

/-- Bring operands to the top, one after the other. -/
def bringOperands (operands : List String) (bindingIndex : Nat) (lastUses : LastUses) :
    List String → LoweringContext → Except CallError LoweringContext
  | [], ctx => .ok ctx
  | ref :: refs, ctx => do
      let ctx ← (ctx.bringToTop ref (operandConsume ref operands bindingIndex lastUses)).mapError
        .lowering
      bringOperands operands bindingIndex lastUses refs ctx

/-- Pop the slots of the operands an opcode consumes. -/
def popOperands : Nat → LoweringContext → Except CallError LoweringContext
  | 0, ctx => .ok ctx
  | n + 1, ctx => do
      let ctx ← ctx.popSlot.mapError .lowering
      popOperands n ctx

section Calls

variable (bindingName : String) (args : List String) (bindingIndex : Nat) (lastUses : LastUses)
  (ctx : LoweringContext)

/-- A builtin on one operand. -/
def lowerUnary (func : String) (ops : List StackOp) : Except CallError LoweringContext :=
  match args with
  | [] => .error (.arity func 1)
  | n :: _ => do
      let ctx ← (ctx.bringToTop n (isLastUse n bindingIndex lastUses)).mapError .lowering
      let ctx ← ctx.popOperands 1
      .ok ((ctx.emitOps ops).pushSlot (some bindingName))

/-- A builtin whose sequence works on two operands. -/
def lowerBinary (func : String) (ops : List StackOp) : Except CallError LoweringContext :=
  match args with
  | a :: b :: _ => do
      let ctx ← ctx.bringOperands args bindingIndex lastUses [a, b]
      let ctx ← ctx.popOperands 2
      .ok ((ctx.emitOps ops).pushSlot (some bindingName))
  | _ => .error (.arity func 2)

/-- A builtin that combines two operands and then the result with a third. -/
def lowerTernary (func : String) (first second : Opcode) : Except CallError LoweringContext :=
  match args with
  | a :: b :: c :: _ => do
      let ctx ← ctx.bringOperands args bindingIndex lastUses [a, b]
      let ctx ← ctx.popOperands 2
      let ctx := (ctx.emitOp (.opcode first)).pushSlot none
      let ctx ← ctx.bringOperands args bindingIndex lastUses [c]
      let ctx ← ctx.popOperands 2
      .ok ((ctx.emitOp (.opcode second)).pushSlot (some bindingName))
  | _ => .error (.arity func 3)

/-- Assert that the divisor is not zero, then divide.  The slot of the divisor's copy
is pushed and popped again in between. -/
def lowerSafeDivMod (func : String) : Except CallError LoweringContext :=
  lowerBinary bindingName args bindingIndex lastUses ctx func
    (safeDivModOps (if func = "safediv" then .OP_DIV else .OP_MOD))

def lowerClamp : Except CallError LoweringContext :=
  lowerTernary bindingName args bindingIndex lastUses ctx "clamp" .OP_MAX .OP_MIN

def lowerPow : Except CallError LoweringContext :=
  lowerBinary bindingName args bindingIndex lastUses ctx "pow" powOps

def lowerMulDiv : Except CallError LoweringContext :=
  lowerTernary bindingName args bindingIndex lastUses ctx "mulDiv" .OP_MUL .OP_DIV

def lowerPercentOf : Except CallError LoweringContext :=
  lowerBinary bindingName args bindingIndex lastUses ctx "percentOf" percentOfOps

def lowerSqrt : Except CallError LoweringContext :=
  lowerUnary bindingName args bindingIndex lastUses ctx "sqrt" sqrtOps

def lowerGcd : Except CallError LoweringContext :=
  lowerBinary bindingName args bindingIndex lastUses ctx "gcd" gcdOps

def lowerDivmod : Except CallError LoweringContext :=
  lowerBinary bindingName args bindingIndex lastUses ctx "divmod" divmodOps

def lowerLog2 : Except CallError LoweringContext :=
  lowerUnary bindingName args bindingIndex lastUses ctx "log2" log2Ops

def lowerSign : Except CallError LoweringContext :=
  lowerUnary bindingName args bindingIndex lastUses ctx "sign" signOps

/-- The general call: every argument in order, then the opcodes of the table. -/
def lowerOpcodes (func : String) : Except CallError LoweringContext := do
  let ctx ← ctx.bringOperands args bindingIndex lastUses args
  let ctx ← ctx.popOperands args.length
  match builtinOpcodes func with
  | none => .error (.unknownBuiltin func)
  | some codes => .ok ((ctx.emitOps (codes.map .opcode)).pushSlot (some bindingName))

end Calls

/-- Lower a call. -/
def lowerCall
    (other : String → String → List String → Nat → LastUses → LoweringContext →
      Except CallError LoweringContext)
    (bindingName func : String) (args : List String) (bindingIndex : Nat) (lastUses : LastUses)
    (ctx : LoweringContext) : Except CallError LoweringContext :=
  match func with
  | "safediv" | "safemod" => lowerSafeDivMod bindingName args bindingIndex lastUses ctx func
  | "clamp" => lowerClamp bindingName args bindingIndex lastUses ctx
  | "pow" => lowerPow bindingName args bindingIndex lastUses ctx
  | "mulDiv" => lowerMulDiv bindingName args bindingIndex lastUses ctx
  | "percentOf" => lowerPercentOf bindingName args bindingIndex lastUses ctx
  | "sqrt" => lowerSqrt bindingName args bindingIndex lastUses ctx
  | "gcd" => lowerGcd bindingName args bindingIndex lastUses ctx
  | "divmod" => lowerDivmod bindingName args bindingIndex lastUses ctx
  | "log2" => lowerLog2 bindingName args bindingIndex lastUses ctx
  | "sign" => lowerSign bindingName args bindingIndex lastUses ctx
  | "abs" | "min" | "max" | "within" | "bool" =>
      lowerOpcodes bindingName args bindingIndex lastUses ctx func
  | _ => other bindingName func args bindingIndex lastUses ctx

end LoweringContext

/-! ## Bringing operands to the top -/

/-- The cells below the operands once all of them are on top. -/
def takeOperands (operands : List String) (bindingIndex : Nat) (lastUses : LastUses) :
    List String → List Cell → List Cell
  | [], cells => cells
  | ref :: refs, cells =>
      takeOperands operands bindingIndex lastUses refs
        (takeCell ref (operandConsume ref operands bindingIndex lastUses) cells)

/-- The cells of operands in the order they end up in, the last one on top. -/
def operandCells (itemOf : String → Bytes) (refs : List String) : List Cell :=
  (refs.map fun ref => (some ref, itemOf ref)).reverse

section Operands

variable (cfg : Config) (slots : Slots)

theorem takeCell_append {name : String} {consume : Bool} {front : List Cell} (cells : List Cell)
    (h : ∀ c ∈ front, c.1 = some name → consume = false) :
    takeCell name consume (front ++ cells) = front ++ takeCell name consume cells := by
  cases consume with
  | false => rfl
  | true =>
    induction front with
    | nil => rfl
    | cons c front ih =>
      have hc : c.1 ≠ some name := fun heq => by
        have := h c List.mem_cons_self heq
        cases this
      rw [List.cons_append, takeCell_cons_ne hc, ih fun d hd => h d (List.mem_cons_of_mem c hd),
        List.cons_append]

theorem lookup_append {name : String} {v : Bytes} {front cells : List Cell}
    (hfront : ∀ c ∈ front, c.1 = some name → c.2 = v) (h : lookup cells name = some v) :
    lookup (front ++ cells) name = some v := by
  induction front with
  | nil => exact h
  | cons c front ih =>
    obtain ⟨slot, item⟩ := c
    by_cases hc : slot = some name
    · subst hc
      have hitem : item = v := hfront _ List.mem_cons_self rfl
      rw [List.cons_append, lookup_cons_self, hitem]
    · rw [List.cons_append, lookup_cons_ne hc]
      exact ih fun d hd => hfront d (List.mem_cons_of_mem _ hd)

/-- Taking the operands so far leaves the values of those still to come. -/
theorem lookup_takeOperands {operands refs remaining : List String} {bindingIndex : Nat}
    {lastUses : LastUses} {cells : List Cell} {other : String}
    (hcount : ∀ n, (refs ++ remaining).count n ≤ operands.count n) (hmem : other ∈ remaining) :
    lookup (takeOperands operands bindingIndex lastUses refs cells) other = lookup cells other := by
  induction refs generalizing cells with
  | nil => rfl
  | cons ref refs ih =>
    have hrest : ∀ n, (refs ++ remaining).count n ≤ operands.count n := fun n => by
      have := hcount n
      rw [List.cons_append, List.count_cons] at this
      omega
    rw [takeOperands, ih hrest]
    exact lookup_after_operand hcount
      (List.mem_append_right refs hmem)

/-- Bringing operands to the top: their values end up there in order, above what was
there before. -/
theorem bringOperands_spec {operands : List String} (bindingIndex : Nat) (lastUses : LastUses)
    {itemOf : String → Bytes} (refs : List String) {ctx : LoweringContext}
    {front cells : List Cell} (hmap : ctx.stackMap = slotsOf (front ++ cells))
    (hcount : ∀ n, refs.count n ≤ operands.count n)
    (hfront : ∀ c ∈ front, ∀ n ∈ refs, c.1 = some n → c.2 = itemOf n ∧ 2 ≤ operands.count n)
    (hlook : ∀ n ∈ refs, lookup cells n = some (itemOf n)) :
    ∃ ops,
      ctx.bringOperands operands bindingIndex lastUses refs =
        .ok (ctx.after ops (slotsOf (operandCells itemOf refs ++ (front ++
          takeOperands operands bindingIndex lastUses refs cells)))) ∧
      RunsAs cfg slots ops (itemsOf (front ++ cells))
        (.ok (itemsOf (operandCells itemOf refs ++ (front ++
          takeOperands operands bindingIndex lastUses refs cells)))) := by
  induction refs generalizing ctx front cells with
  | nil =>
    refine ⟨[], ?_, .nil _⟩
    show Except.ok ctx = .ok (ctx.after [] (slotsOf (front ++ cells)))
    rw [← hmap]
    simp [LoweringContext.after]
  | cons ref refs ih =>
    let consume := operandConsume ref operands bindingIndex lastUses
    have hmem : ref ∈ ref :: refs := List.mem_cons_self
    have hkept : ∀ c ∈ front, c.1 = some ref → consume = false := by
      intro c hc heq
      have htwo := (hfront c hc ref hmem heq).2
      simp only [consume, operandConsume, Bool.and_eq_false_iff, decide_eq_false_iff_not]
      exact .inr (by omega)
    have hvalue : lookup (front ++ cells) ref = some (itemOf ref) :=
      lookup_append (fun c hc heq => (hfront c hc ref hmem heq).1) (hlook ref hmem)
    obtain ⟨hbring, hrun⟩ := bringToTop_spec cfg slots consume hmap hvalue
    rw [takeCell_append cells hkept] at hbring hrun
    have hcount' : ∀ n, refs.count n ≤ operands.count n := fun n =>
      (List.count_le_count_cons).trans (hcount n)
    have hfront' : ∀ c ∈ (some ref, itemOf ref) :: front, ∀ n ∈ refs, c.1 = some n →
        c.2 = itemOf n ∧ 2 ≤ operands.count n := by
      intro c hc n hn heq
      rcases List.mem_cons.mp hc with rfl | hc
      · cases heq
        have hpos : 0 < refs.count ref := List.count_pos_iff.mpr hn
        have hge := hcount ref
        rw [List.count_cons_self] at hge
        exact ⟨rfl, by omega⟩
      · exact hfront c hc n (List.mem_cons_of_mem ref hn) heq
    have hlook' : ∀ n ∈ refs, lookup (takeCell ref consume cells) n = some (itemOf n) := by
      intro n hn
      rw [lookup_after_operand hcount hn]
      exact hlook n (List.mem_cons_of_mem ref hn)
    have hmap' : (ctx.after (ctx.stackMap.bringOps ref consume)
        (some ref :: slotsOf (front ++ takeCell ref consume cells))).stackMap =
        slotsOf ((some ref, itemOf ref) :: front ++ takeCell ref consume cells) := rfl
    obtain ⟨ops, hlower, hrest⟩ := ih hmap' hcount' hfront' hlook'
    have hcells : operandCells itemOf (ref :: refs) ++ (front ++
        takeOperands operands bindingIndex lastUses (ref :: refs) cells) =
        operandCells itemOf refs ++ ((some ref, itemOf ref) :: front ++
          takeOperands operands bindingIndex lastUses refs (takeCell ref consume cells)) := by
      simp [operandCells, takeOperands, consume]
    refine ⟨ctx.stackMap.bringOps ref consume ++ ops, ?_, ?_⟩
    · rw [LoweringContext.bringOperands, hbring]
      show LoweringContext.bringOperands operands bindingIndex lastUses refs _ = _
      rw [hlower, hcells, LoweringContext.after_after]
    · rw [hcells]
      exact hrun.append_ok hrest

theorem popOperands_append {ctx : LoweringContext} (front : List Cell) {cells : List Cell}
    (hmap : ctx.stackMap = slotsOf (front ++ cells)) :
    ctx.popOperands front.length = .ok (ctx.after [] (slotsOf cells)) := by
  induction front generalizing ctx with
  | nil =>
    show Except.ok ctx = .ok (ctx.after [] (slotsOf cells))
    have hmap' : slotsOf cells = ctx.stackMap := hmap.symm
    rw [hmap']
    simp [LoweringContext.after]
  | cons c front ih =>
    let next := ctx.after [] (slotsOf (front ++ cells))
    have hnext : next.popOperands front.length = .ok (next.after [] (slotsOf cells)) := ih rfl
    rw [List.length_cons, LoweringContext.popOperands, LoweringContext.popSlot_cons ctx hmap]
    show next.popOperands front.length = _
    rw [hnext, LoweringContext.after_after]
    rfl

/-- The last part of a call: the operands' slots give way to the result's. -/
theorem emitResult {ctx : LoweringContext} (front : List Cell) {cells : List Cell}
    (hmap : ctx.stackMap = slotsOf (front ++ cells)) (ops : List StackOp) (name : Option String) :
    (ctx.popOperands front.length >>= fun ctx =>
      (Except.ok ((ctx.emitOps ops).pushSlot name) : Except CallError LoweringContext)) =
      .ok (ctx.after ops (name :: slotsOf cells)) := by
  rw [popOperands_append front hmap, ok_bind, LoweringContext.emitOps_eq_after,
    LoweringContext.pushSlot_eq_after, LoweringContext.stackMap_after,
    LoweringContext.stackMap_after, LoweringContext.after_after, LoweringContext.after_after,
    List.nil_append, List.append_nil]

variable {ctx : LoweringContext} {cells : List Cell} {itemOf : String → Bytes}
  (bindingName : String) (bindingIndex : Nat) (lastUses : LastUses)

theorem operandConsume_singleton (ref : String) :
    operandConsume ref [ref] bindingIndex lastUses = isLastUse ref bindingIndex lastUses := by
  simp [operandConsume]

/-- The items a framed sequence leaves, or its stop. -/
theorem frameItem {ops : List StackOp} {before : List Bytes} {r : Except ScriptError Bytes}
    (h : RunsAs cfg slots ops before (r.map fun item => [item])) (rest : List Bytes) :
    RunsAs cfg slots ops (before ++ rest) (r.map fun item => item :: rest) := by
  have hframe := h.frame rest
  cases r <;> exact hframe

/-- A builtin on one operand replaces it by what its sequence leaves, or stops as it
does. -/
theorem lowerUnary_runs {n : String} (func : String) {ops : List StackOp}
    {r : Except ScriptError Bytes}
    (hmap : ctx.stackMap = slotsOf cells) (hlook : lookup cells n = some (itemOf n))
    (hops : RunsAs cfg slots ops [itemOf n] (r.map fun item => [item])) :
    ∃ code,
      LoweringContext.lowerUnary bindingName [n] bindingIndex lastUses ctx func ops =
        .ok (ctx.after code (some bindingName ::
          slotsOf (takeOperands [n] bindingIndex lastUses [n] cells))) ∧
      RunsAs cfg slots code (itemsOf cells)
        (r.map fun item => item :: itemsOf (takeOperands [n] bindingIndex lastUses [n] cells)) := by
  obtain ⟨hbring, hrun⟩ :=
    bringToTop_spec cfg slots (isLastUse n bindingIndex lastUses) hmap hlook
  rw [takeOperands, takeOperands, operandConsume_singleton]
  let rest := takeCell n (isLastUse n bindingIndex lastUses) cells
  let code := ctx.stackMap.bringOps n (isLastUse n bindingIndex lastUses)
  have hresult := emitResult [(some n, itemOf n)]
    (LoweringContext.stackMap_after ctx code (some n :: slotsOf rest)) ops (some bindingName)
  rw [LoweringContext.after_after] at hresult
  refine ⟨code ++ ops, ?_, hrun.append_ok (frameItem cfg slots hops _)⟩
  rw [LoweringContext.lowerUnary, hbring]
  exact hresult

/-- A builtin on one operand replaces it by what its sequence leaves. -/
theorem lowerUnary_spec {n : String} (func : String) {ops : List StackOp} {result : Bytes}
    (hmap : ctx.stackMap = slotsOf cells) (hlook : lookup cells n = some (itemOf n))
    (hops : RunsAs cfg slots ops [itemOf n] (.ok [result])) :
    ∃ code,
      LoweringContext.lowerUnary bindingName [n] bindingIndex lastUses ctx func ops =
        .ok (ctx.after code (some bindingName ::
          slotsOf (takeOperands [n] bindingIndex lastUses [n] cells))) ∧
      RunsAs cfg slots code (itemsOf cells)
        (.ok (result :: itemsOf (takeOperands [n] bindingIndex lastUses [n] cells))) :=
  lowerUnary_runs cfg slots (r := .ok result) bindingName bindingIndex lastUses func hmap hlook hops

/-- A builtin on two operands replaces them by what its sequence leaves, or stops as it
does. -/
theorem lowerBinary_runs {a b : String} (func : String) {ops : List StackOp}
    {r : Except ScriptError Bytes}
    (hmap : ctx.stackMap = slotsOf cells)
    (hlook : ∀ n ∈ [a, b], lookup cells n = some (itemOf n))
    (hops : RunsAs cfg slots ops [itemOf b, itemOf a] (r.map fun item => [item])) :
    ∃ code,
      LoweringContext.lowerBinary bindingName [a, b] bindingIndex lastUses ctx func ops =
        .ok (ctx.after code (some bindingName ::
          slotsOf (takeOperands [a, b] bindingIndex lastUses [a, b] cells))) ∧
      RunsAs cfg slots code (itemsOf cells) (r.map fun item =>
        item :: itemsOf (takeOperands [a, b] bindingIndex lastUses [a, b] cells)) := by
  let rest := takeOperands [a, b] bindingIndex lastUses [a, b] cells
  have hmap' : ctx.stackMap = slotsOf ([] ++ cells) := hmap
  obtain ⟨code, hbring, hrun⟩ := bringOperands_spec cfg slots bindingIndex lastUses [a, b] hmap'
    (fun _ => le_rfl) (fun c hc => by cases hc) hlook
  have hresult := emitResult (operandCells itemOf [a, b])
    (LoweringContext.stackMap_after ctx code (slotsOf (operandCells itemOf [a, b] ++ rest))) ops
    (some bindingName)
  rw [LoweringContext.after_after] at hresult
  refine ⟨code ++ ops, ?_, hrun.append_ok (frameItem cfg slots hops _)⟩
  rw [LoweringContext.lowerBinary, hbring, ok_bind]
  exact hresult

/-- A builtin on two operands replaces them by what its sequence leaves. -/
theorem lowerBinary_spec {a b : String} (func : String) {ops : List StackOp} {result : Bytes}
    (hmap : ctx.stackMap = slotsOf cells)
    (hlook : ∀ n ∈ [a, b], lookup cells n = some (itemOf n))
    (hops : RunsAs cfg slots ops [itemOf b, itemOf a] (.ok [result])) :
    ∃ code,
      LoweringContext.lowerBinary bindingName [a, b] bindingIndex lastUses ctx func ops =
        .ok (ctx.after code (some bindingName ::
          slotsOf (takeOperands [a, b] bindingIndex lastUses [a, b] cells))) ∧
      RunsAs cfg slots code (itemsOf cells)
        (.ok (result :: itemsOf (takeOperands [a, b] bindingIndex lastUses [a, b] cells))) :=
  lowerBinary_runs cfg slots (r := .ok result) bindingName bindingIndex lastUses func hmap hlook
    hops

/-- A builtin on three operands: the first two give way to `middle`, and that and the
third to the result. -/
theorem lowerTernary_spec {a b c : String} (func : String) {first second : Opcode}
    {middle result : Bytes} (hmap : ctx.stackMap = slotsOf cells)
    (hlook : ∀ n ∈ [a, b, c], lookup cells n = some (itemOf n))
    (hfirst : RunsAs cfg slots [.opcode first] [itemOf b, itemOf a] (.ok [middle]))
    (hsecond : RunsAs cfg slots [.opcode second] [itemOf c, middle] (.ok [result])) :
    ∃ code,
      LoweringContext.lowerTernary bindingName [a, b, c] bindingIndex lastUses ctx func first
          second =
        .ok (ctx.after code (some bindingName ::
          slotsOf (takeOperands [a, b, c] bindingIndex lastUses [a, b, c] cells))) ∧
      RunsAs cfg slots code (itemsOf cells)
        (.ok (result :: itemsOf (takeOperands [a, b, c] bindingIndex lastUses [a, b, c]
          cells))) := by
  let two := takeOperands [a, b, c] bindingIndex lastUses [a, b] cells
  let rest := takeOperands [a, b, c] bindingIndex lastUses [a, b, c] cells
  have hmap' : ctx.stackMap = slotsOf ([] ++ cells) := hmap
  have htwo : ∀ n, ([a, b] ++ [c]).count n ≤ [a, b, c].count n := fun _ => le_rfl
  have hleft : ∀ n, [a, b].count n ≤ [a, b, c].count n := fun n =>
    (List.sublist_append_left [a, b] [c]).count_le n
  have hright : ∀ n, [c].count n ≤ [a, b, c].count n := fun n =>
    (List.sublist_append_right [a, b] [c]).count_le n
  obtain ⟨code, hbring, hrun⟩ := bringOperands_spec cfg slots bindingIndex lastUses [a, b] hmap'
    hleft (fun c hc => by cases hc)
    fun n hn => hlook n (List.mem_append_left [c] hn)
  let ctxMiddle := ctx.after code (slotsOf (operandCells itemOf [a, b] ++ two))
  have hpop : ctxMiddle.popOperands 2 = .ok (ctxMiddle.after [] (slotsOf two)) :=
    popOperands_append (operandCells itemOf [a, b]) rfl
  let ctxTwo := ((ctxMiddle.after [] (slotsOf two)).emitOp (.opcode first)).pushSlot none
  have hmapTwo : ctxTwo.stackMap = slotsOf ([(none, middle)] ++ two) := rfl
  have hlookTwo : ∀ n ∈ [c], lookup two n = some (itemOf n) := fun n hn => by
    rw [lookup_takeOperands htwo hn]
    exact hlook n (List.mem_append_right [a, b] hn)
  obtain ⟨code', hbring', hrun'⟩ := bringOperands_spec cfg slots bindingIndex lastUses [c] hmapTwo
    hright (fun d hd n _ hname => by rw [List.mem_singleton.mp hd] at hname; cases hname) hlookTwo
  have hresult := emitResult (operandCells itemOf [c] ++ [(none, middle)])
    (LoweringContext.stackMap_after ctxTwo code'
      (slotsOf (operandCells itemOf [c] ++ [(none, middle)] ++ rest)))
    [.opcode second] (some bindingName)
  have hafter : ctxTwo = ctx.after (code ++ [.opcode first]) (none :: slotsOf two) := by
    simp [ctxTwo, ctxMiddle, LoweringContext.emitOp_eq_after, LoweringContext.pushSlot_eq_after]
  simp only [hafter, LoweringContext.after_after] at hresult
  refine ⟨code ++ [.opcode first] ++ code' ++ [.opcode second], ?_, ?_⟩
  · rw [LoweringContext.lowerTernary, hbring, ok_bind]
    show (ctxMiddle.popOperands 2 >>= _) = _
    rw [hpop, ok_bind]
    show (ctxTwo.bringOperands _ _ _ [c] >>= _) = _
    rw [hbring', ok_bind, hafter, LoweringContext.after_after]
    exact hresult
  · exact ((hrun.append_ok (hfirst.frame (itemsOf two))).append_ok hrun').append_ok
      (hsecond.frame (itemsOf rest))

/-- A builtin of the table replaces its operands by what its opcodes leave. -/
theorem lowerOpcodes_spec {args : List String} {func : String} {codes : List Opcode}
    {result : Bytes} (hcodes : builtinOpcodes func = some codes)
    (hmap : ctx.stackMap = slotsOf cells)
    (hlook : ∀ n ∈ args, lookup cells n = some (itemOf n))
    (hops : RunsAs cfg slots (codes.map .opcode) (itemsOf (operandCells itemOf args))
      (.ok [result])) :
    ∃ code,
      LoweringContext.lowerOpcodes bindingName args bindingIndex lastUses ctx func =
        .ok (ctx.after code (some bindingName ::
          slotsOf (takeOperands args bindingIndex lastUses args cells))) ∧
      RunsAs cfg slots code (itemsOf cells)
        (.ok (result :: itemsOf (takeOperands args bindingIndex lastUses args cells))) := by
  let rest := takeOperands args bindingIndex lastUses args cells
  have hmap' : ctx.stackMap = slotsOf ([] ++ cells) := hmap
  obtain ⟨code, hbring, hrun⟩ := bringOperands_spec cfg slots bindingIndex lastUses args hmap'
    (fun _ => le_rfl) (fun c hc => by cases hc) hlook
  have hresult := emitResult (operandCells itemOf args)
    (LoweringContext.stackMap_after ctx code (slotsOf (operandCells itemOf args ++ rest)))
    (codes.map .opcode) (some bindingName)
  have hlength : (operandCells itemOf args).length = args.length := by simp [operandCells]
  rw [LoweringContext.after_after, hlength] at hresult
  have hitems : itemsOf (operandCells itemOf args ++ ([] ++ rest)) =
      itemsOf (operandCells itemOf args) ++ itemsOf rest := by simp [itemsOf]
  rw [hitems] at hrun
  refine ⟨code ++ codes.map .opcode, ?_, hrun.append_ok (hops.frame (itemsOf rest))⟩
  rw [LoweringContext.lowerOpcodes, hbring, ok_bind, hcodes]
  exact hresult

end Operands

end Runar.StackLower
