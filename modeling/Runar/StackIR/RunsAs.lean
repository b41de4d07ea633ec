/-
  StackIR/RunsAs.lean --- what a list of stack operations does to the items it is
  given.

  WHAT THIS FILE IS FOR.  Lowering knows the items a piece of code works on and
  nothing about the machine around them.  `RunsAs cfg slots ops before r` says that
  wherever the code is executed with the items `before` on top of the main stack,
  it replaces them by those of `r`, or stops with the error of `r`, and leaves the
  items below, the alt stack and the open conditionals alone.
-/
import Runar.StackIR.Syntax
import Runar.Script.Block
import Runar.Script.Refine

set_option autoImplicit false

namespace Runar

open Script

/-- The code turns the items `before` on top of the stack into the outcome `r`. -/
def RunsAs (cfg : Config) (slots : Slots) (ops : List StackOp) (before : List Bytes)
    (r : Except ScriptError (List Bytes)) : Prop :=
  ∀ (m : Machine) (below : List Bytes), m.returned = false → m.running = true →
    m.main = before ++ below →
    runOps cfg slots ops m = r.map fun after => m.withStacks ⟨after ++ below, m.alt⟩

namespace RunsAs

variable {cfg : Config} {slots : Slots} {ops ops' : List StackOp} {before after : List Bytes}
  {r : Except ScriptError (List Bytes)}

theorem nil (before : List Bytes) : RunsAs cfg slots [] before (.ok before) := by
  intro m below _ _ hmain
  obtain ⟨⟨main, alt⟩, exec, returned⟩ := m
  cases hmain
  rfl

/-- Code after code: the second piece starts from the items of the first. -/
theorem append {f : List Bytes → Except ScriptError (List Bytes)}
    (h : RunsAs cfg slots ops before r)
    (h' : ∀ items, r = .ok items → RunsAs cfg slots ops' items (f items)) :
    RunsAs cfg slots (ops ++ ops') before (r >>= f) := by
  intro m below hret hrun hmain
  rw [runOps_append, h m below hret hrun hmain]
  cases r with
  | error e => rfl
  | ok items => exact h' items rfl (m.withStacks ⟨items ++ below, m.alt⟩) below hret hrun rfl

theorem append_ok {r' : Except ScriptError (List Bytes)}
    (h : RunsAs cfg slots ops before (.ok after)) (h' : RunsAs cfg slots ops' after r') :
    RunsAs cfg slots (ops ++ ops') before r' := by
  refine append (f := fun _ => r') h ?_
  intro items hitems
  cases hitems
  exact h'

/-- Code after a stop is not reached. -/
theorem append_error {e : ScriptError} (h : RunsAs cfg slots ops before (.error e)) :
    RunsAs cfg slots (ops ++ ops') before (.error e) := by
  intro m below hret hrun hmain
  rw [runOps_append, h m below hret hrun hmain]
  rfl

/-- Items further down change nothing. -/
theorem frame (h : RunsAs cfg slots ops before r) (rest : List Bytes) :
    RunsAs cfg slots ops (before ++ rest) (r.map (· ++ rest)) := by
  intro m below hret hrun hmain
  rw [h m (rest ++ below) hret hrun (by rw [hmain, List.append_assoc])]
  cases r with
  | error e => rfl
  | ok items => simp [Except.map]

/-- Code that denotes an effect runs as that effect does. -/
theorem of_denotes {f : Effect} (hden : Denotes cfg (emitOps slots ops) f)
    (hf : ∀ below alt, f ⟨before ++ below, alt⟩ = r.map fun after => ⟨after ++ below, alt⟩) :
    RunsAs cfg slots ops before r := by
  intro m below hret hrun hmain
  have hst : m.toStacks = ⟨before ++ below, m.alt⟩ := by
    rw [← hmain]
  unfold runOps
  rw [hden.executed m hret hrun, hst, hf below m.alt]
  cases r <;> rfl

/-- Plain code runs as its effect on the stacks. -/
theorem of_plain (hplain : (emitOps slots ops).all Instr.isPlain = true)
    (hrun : ∀ below alt, plainRun cfg (emitOps slots ops) ⟨before ++ below, alt⟩ =
      r.map fun after => ⟨after ++ below, alt⟩) : RunsAs cfg slots ops before r :=
  of_denotes (.plain hplain) hrun

/-- Only the emitted instructions count. -/
theorem congr (h : RunsAs cfg slots ops before r)
    (heq : emitOps slots ops' = emitOps slots ops) : RunsAs cfg slots ops' before r := by
  intro m below hret hrun hmain
  unfold runOps
  rw [heq]
  exact h m below hret hrun hmain

/-- The outcome of code is determined by the items it is given. -/
theorem outcome_unique {r' : Except ScriptError (List Bytes)} (h : RunsAs cfg slots ops before r)
    (h' : RunsAs cfg slots ops before r') : r = r' := by
  have heq := (h (.start before []) [] rfl rfl (by simp [Machine.start])).symm.trans
    (h' (.start before []) [] rfl rfl (by simp [Machine.start]))
  cases r <;> cases r' <;> simp_all [Except.map, Machine.withStacks, Machine.start]

/-- What code leaves is determined by the items it is given. -/
theorem unique {left right : List Bytes} (h : RunsAs cfg slots ops before (.ok left))
    (h' : RunsAs cfg slots ops before (.ok right)) : left = right :=
  Except.ok.inj (h.outcome_unique h')

/-- A conditional without an `else`, around plain code. -/
theorem ifThen {thenOps : List StackOp} {flag : Bytes}
    (hplain : (emitOps slots thenOps).all Instr.isPlain = true)
    (h : isTruthy flag = true → RunsAs cfg slots thenOps before (.ok after))
    (h' : isTruthy flag = false → before = after) :
    RunsAs cfg slots [.ifOp thenOps []] (flag :: before) (.ok after) := by
  intro m below hret hrun hmain
  have hemit : emitOps slots [.ifOp thenOps []] =
      .op .OP_IF :: (emitOps slots thenOps ++ [.op .OP_ENDIF]) := by
    simp [emitOps_cons, emitStackOp]
  have hmain' : m.main = flag :: (before ++ below) := hmain
  unfold runOps
  rw [hemit, run_cons, step_if_running hret hrun hmain', ok_bind, run_append]
  cases hflag : isTruthy flag with
  | true =>
    have hopen := h hflag
      ((m.withStacks { m.toStacks with main := before ++ below }).openWith true) below hret
      (by simpa using hrun) rfl
    unfold runOps at hopen
    rw [hopen, map_ok, ok_bind, run_singleton]
    exact step_endif_openWith (m := m.withStacks ⟨after ++ below, m.alt⟩) hret true
  | false =>
    have hblock : Denotes cfg (emitOps slots thenOps) _ := .plain hplain
    have hskip := hblock.skipped
      ((m.withStacks { m.toStacks with main := before ++ below }).openWith false) hret rfl
    rw [hskip, ok_bind, run_singleton, ← h' hflag]
    exact step_endif_openWith (m := m.withStacks ⟨before ++ below, m.alt⟩) hret false

/-- An unrolled loop: each round takes the items of its index to those of the next. -/
theorem rounds_of_lt {round : Nat → List StackOp} {items : Nat → List Bytes} {n : Nat}
    (h : ∀ i < n, RunsAs cfg slots (round i) (items i) (.ok (items (i + 1)))) :
    RunsAs cfg slots ((List.range n).flatMap round) (items 0) (.ok (items n)) := by
  induction n with
  | zero => exact nil (items 0)
  | succ n ih =>
    rw [List.range_succ, List.flatMap_append]
    refine (ih fun i hi => h i (Nat.lt_succ_of_lt hi)).append_ok ?_
    rw [List.flatMap_singleton]
    exact h n n.lt_succ_self

theorem rounds {round : Nat → List StackOp} {items : Nat → List Bytes}
    (h : ∀ i, RunsAs cfg slots (round i) (items i) (.ok (items (i + 1)))) (n : Nat) :
    RunsAs cfg slots ((List.range n).flatMap round) (items 0) (.ok (items n)) :=
  rounds_of_lt fun i _ => h i

end RunsAs

section Operations

variable (cfg : Config) (slots : Slots)

theorem runsAs_push (value : PushValue) :
    RunsAs cfg slots [.push value] [] (.ok [value.toBytes]) := by
  refine .of_plain (by simp [emitOps_cons]) fun below alt => ?_
  simp [emitOps_cons, plainRun, plainStep, bind, Except.bind, Except.map]

/-- One opcode that acts on its operands alone. -/
theorem runsAs_opcode {code : Opcode} {before : List Bytes}
    {r : Except ScriptError (List Bytes)} (hplain : (Instr.op code).isPlain = true)
    (h : ∀ below alt, opcodeStep cfg code ⟨before ++ below, alt⟩ =
      r.map fun after => ⟨after ++ below, alt⟩) :
    RunsAs cfg slots [.opcode code] before r := by
  refine .of_plain (by simp [emitOps_cons, hplain]) fun below alt => ?_
  rw [emitOps_cons, emitOps_nil, emitStackOp_opcode]
  simp only [List.append_nil, plainRun, plainStep]
  rw [h below alt]
  cases r <;> rfl

theorem runsAs_drop (a : Bytes) : RunsAs cfg slots [.drop] [a] (.ok []) := by
  refine .of_plain (by simp [emitOps_cons]; rfl) fun below alt => ?_
  simp [emitOps_cons, plainRun, plainStep, opcodeStep, shuffle, bind, Except.bind, Except.map]

theorem runsAs_swap (b a : Bytes) : RunsAs cfg slots [.swap] [b, a] (.ok [a, b]) := by
  refine .of_plain (by simp [emitOps_cons]; rfl) fun below alt => ?_
  simp [emitOps_cons, plainRun, plainStep, opcodeStep, shuffle, bind, Except.bind, Except.map]

theorem runsAs_dup (a : Bytes) : RunsAs cfg slots [.dup] [a] (.ok [a, a]) := by
  refine .of_plain (by simp [emitOps_cons]; rfl) fun below alt => ?_
  simp [emitOps_cons, plainRun, plainStep, opcodeStep, shuffle, bind, Except.bind, Except.map]

theorem runsAs_over (b a : Bytes) : RunsAs cfg slots [.over] [b, a] (.ok [a, b, a]) := by
  refine .of_plain (by simp [emitOps_cons]; rfl) fun below alt => ?_
  simp [emitOps_cons, plainRun, plainStep, opcodeStep, shuffle, bind, Except.bind, Except.map]

theorem runsAs_rot (c b a : Bytes) : RunsAs cfg slots [.rot] [c, b, a] (.ok [a, c, b]) := by
  refine .of_plain (by simp [emitOps_cons]; rfl) fun below alt => ?_
  simp [emitOps_cons, plainRun, plainStep, opcodeStep, shuffle, bind, Except.bind, Except.map]

theorem runsAs_nip (b a : Bytes) : RunsAs cfg slots [.nip] [b, a] (.ok [b]) := by
  refine .of_plain (by simp [emitOps_cons, emitStackOp]; rfl) fun below alt => ?_
  simp [emitOps_cons, emitStackOp, plainRun, plainStep, opcodeStep, shuffle, bind, Except.bind,
    Except.map]

end Operations

end Runar
