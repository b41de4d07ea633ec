/-
  Script/Block.lean --- structured code on the flat machine.

  WHAT THIS FILE IS FOR.  The machine runs a flat list of instructions and keeps a
  stack of conditional flags.  Most code is nevertheless built from plain
  instructions and properly nested conditionals, and such a block has an effect on
  the two data stacks alone: `Denotes cfg is f` says that the block `is` applies
  `f` where the machine executes and does nothing where it skips.  Blocks compose,
  and a conditional of blocks is a block, so code is proved about by computing
  with functions on stacks.
-/
import Runar.Script.Machine

set_option autoImplicit false

namespace Runar.Script

/-- An effect on the stacks. -/
abbrev Effect : Type := Stacks → Except ScriptError Stacks

/-- The block applies `f` where it is executed and does nothing where it is
skipped. -/
structure Denotes (cfg : Config) (is : List Instr) (f : Effect) : Prop where
  executed : ∀ m : Machine, m.returned = false → m.running = true →
    run cfg is m = (f m.toStacks).map m.withStacks
  skipped : ∀ m : Machine, m.returned = false → m.running = false → run cfg is m = .ok m

/-- The conditional of two effects. -/
def ifEffect (f g : Effect) : Effect := fun st =>
  match st.main with
  | a :: s => if isTruthy a then f { st with main := s } else g { st with main := s }
  | [] => .error .invalidStackOperation

section Blocks

variable {cfg : Config} {is js : List Instr} {f g : Effect}

theorem Denotes.nil : Denotes cfg [] .ok where
  executed _ _ _ := rfl
  skipped _ _ _ := rfl

/-- A list of plain instructions is a block. -/
theorem Denotes.plain (h : is.all Instr.isPlain = true) : Denotes cfg is (plainRun cfg is) where
  executed m hret hrun := by
    rw [run_plain cfg (List.all_eq_true.mp h), if_pos ⟨hret, hrun⟩]
  skipped m _ hrun := by
    rw [run_plain cfg (List.all_eq_true.mp h), if_neg]
    rintro ⟨_, hrun'⟩
    rw [hrun] at hrun'
    cases hrun'

theorem Denotes.append (hf : Denotes cfg is f) (hg : Denotes cfg js g) :
    Denotes cfg (is ++ js) (fun st => f st >>= g) where
  executed m hret hrun := by
    rw [run_append, hf.executed m hret hrun]
    show _ = (f m.toStacks >>= g).map m.withStacks
    cases f m.toStacks with
    | error e => rfl
    | ok st => exact hg.executed (m.withStacks st) hret hrun
  skipped m hret hrun := by
    rw [run_append, hf.skipped m hret hrun]
    exact hg.skipped m hret hrun

/-- Two effects that agree on every pair of stacks describe the same block. -/
theorem Denotes.congr (h : Denotes cfg is f) (hfg : ∀ st, f st = g st) : Denotes cfg is g := by
  obtain rfl : f = g := funext hfg
  exact h

/-- Running a block at the start of a script. -/
theorem Denotes.run_start (h : Denotes cfg is f) (main alt : List Bytes) :
    run cfg is (.start main alt) = (f ⟨main, alt⟩).map fun st => .start st.main st.alt :=
  h.executed _ rfl rfl

/-! ## Conditionals -/

/-- A machine with one more open conditional. -/
def Machine.openWith (m : Machine) (b : Bool) : Machine := { m with exec := b :: m.exec }

@[simp] theorem Machine.running_openWith (m : Machine) (b : Bool) :
    (m.openWith b).running = (b && m.running) := rfl

theorem step_if_running {m : Machine} {a : Bytes} {s : List Bytes} (hret : m.returned = false)
    (hrun : m.running = true) (hmain : m.main = a :: s) :
    step cfg (.op .OP_IF) m =
      .ok ((m.withStacks { m.toStacks with main := s }).openWith (isTruthy a)) := by
  simp [step, openIf, hret, hrun, hmain, Machine.openWith, Machine.withStacks]

theorem step_if_skipped {m : Machine} (hret : m.returned = false) (hrun : m.running = false) :
    step cfg (.op .OP_IF) m = .ok (m.openWith false) := by
  simp [step, openIf, hret, hrun, Machine.openWith]

theorem step_else_openWith {m : Machine} (hret : m.returned = false) (b : Bool) :
    step cfg (.op .OP_ELSE) (m.openWith b) = .ok (m.openWith (!b)) := by
  simp [step, hret, Machine.openWith]

theorem step_endif_openWith {m : Machine} (hret : m.returned = false) (b : Bool) :
    step cfg (.op .OP_ENDIF) (m.openWith b) = .ok m := by
  unfold step
  rw [if_neg (by simp [Machine.openWith, hret])]
  rfl

/-- A block whose innermost flag is false is skipped. -/
theorem Denotes.run_openWith_false (h : Denotes cfg is f) {m : Machine}
    (hret : m.returned = false) : run cfg is (m.openWith false) = .ok (m.openWith false) :=
  h.skipped _ hret rfl

/-- A block in a conditional that is itself skipped is skipped. -/
theorem Denotes.run_openWith_skipped (h : Denotes cfg is f) {m : Machine}
    (hret : m.returned = false) (hrun : m.running = false) (b : Bool) :
    run cfg is (m.openWith b) = .ok (m.openWith b) := by
  refine h.skipped _ hret ?_
  rw [Machine.running_openWith, hrun, Bool.and_false]

/-- A block whose innermost flag is true is executed if the conditional is. -/
theorem Denotes.run_openWith_true (h : Denotes cfg is f) {m : Machine}
    (hret : m.returned = false) (hrun : m.running = true) :
    run cfg is (m.openWith true) =
      (f m.toStacks).map fun st => (m.withStacks st).openWith true := by
  refine h.executed _ hret ?_
  rw [Machine.running_openWith, hrun, Bool.and_true]

/-- The arms of an executed conditional and its end: the arm of the flag is
executed. -/
theorem run_arms (hf : Denotes cfg is f) (hg : Denotes cfg js g) {m : Machine}
    (hret : m.returned = false) (hrun : m.running = true) (b : Bool) :
    run cfg (is ++ .op .OP_ELSE :: (js ++ [.op .OP_ENDIF])) (m.openWith b) =
      (if b then f m.toStacks else g m.toStacks).map m.withStacks := by
  rw [run_append]
  cases b with
  | true =>
      rw [hf.run_openWith_true hret hrun, if_pos rfl]
      cases f m.toStacks with
      | error e => rfl
      | ok st =>
          have hret' : (m.withStacks st).returned = false := hret
          show run cfg (Instr.op .OP_ELSE :: (js ++ [Instr.op .OP_ENDIF]))
            ((m.withStacks st).openWith true) = .ok (m.withStacks st)
          rw [run_cons, step_else_openWith hret']
          show run cfg (js ++ [Instr.op .OP_ENDIF]) ((m.withStacks st).openWith false) = _
          rw [run_append, hg.run_openWith_false hret']
          show run cfg [.op .OP_ENDIF] ((m.withStacks st).openWith false) = _
          rw [run_singleton, step_endif_openWith hret']
  | false =>
      rw [hf.run_openWith_false hret]
      show run cfg (Instr.op .OP_ELSE :: (js ++ [Instr.op .OP_ENDIF])) (m.openWith false) = _
      rw [run_cons, step_else_openWith hret]
      show run cfg (js ++ [Instr.op .OP_ENDIF]) (m.openWith true) =
        (g m.toStacks).map m.withStacks
      rw [run_append, hg.run_openWith_true hret hrun]
      cases g m.toStacks with
      | error e => rfl
      | ok st =>
          have hret' : (m.withStacks st).returned = false := hret
          show run cfg [.op .OP_ENDIF] ((m.withStacks st).openWith true) = .ok (m.withStacks st)
          rw [run_singleton, step_endif_openWith hret']

/-- A conditional of two blocks is a block. -/
theorem Denotes.ifElse (hf : Denotes cfg is f) (hg : Denotes cfg js g) :
    Denotes cfg (.op .OP_IF :: (is ++ .op .OP_ELSE :: (js ++ [.op .OP_ENDIF])))
      (ifEffect f g) where
  executed m hret hrun := by
    rw [run_cons]
    cases hmain : m.main with
    | nil => simp [step, openIf, hret, hrun, hmain, ifEffect, bind, Except.bind, Except.map]
    | cons a s =>
        rw [step_if_running hret hrun hmain]
        refine (run_arms hf hg (m := m.withStacks { m.toStacks with main := s }) hret hrun
          (isTruthy a)).trans ?_
        simp only [ifEffect, hmain]
        rfl
  skipped m hret hrun := by
    rw [run_cons, step_if_skipped hret hrun]
    show run cfg (is ++ Instr.op .OP_ELSE :: (js ++ [Instr.op .OP_ENDIF])) (m.openWith false) =
      .ok m
    rw [run_append, hf.run_openWith_false hret]
    show run cfg (Instr.op .OP_ELSE :: (js ++ [Instr.op .OP_ENDIF])) (m.openWith false) = .ok m
    rw [run_cons, step_else_openWith hret]
    show run cfg (js ++ [Instr.op .OP_ENDIF]) (m.openWith true) = .ok m
    rw [run_append, hg.run_openWith_skipped hret hrun]
    show run cfg [.op .OP_ENDIF] (m.openWith true) = .ok m
    rw [run_singleton, step_endif_openWith hret]

/-- A conditional without an `else`. -/
theorem Denotes.ifThen (hf : Denotes cfg is f) :
    Denotes cfg (.op .OP_IF :: (is ++ [.op .OP_ENDIF])) (ifEffect f .ok) where
  executed m hret hrun := by
    rw [run_cons]
    cases hmain : m.main with
    | nil => simp [step, openIf, hret, hrun, hmain, ifEffect, bind, Except.bind, Except.map]
    | cons a s =>
        let opened := m.withStacks { m.toStacks with main := s }
        rw [step_if_running hret hrun hmain, ok_bind, run_append]
        simp only [ifEffect, hmain]
        cases isTruthy a with
        | true =>
            rw [hf.run_openWith_true (m := opened) hret hrun, if_pos rfl]
            show _ = (f { m.toStacks with main := s }).map m.withStacks
            have hstacks : opened.toStacks = { m.toStacks with main := s } := rfl
            rw [hstacks]
            cases f { m.toStacks with main := s } with
            | error e => rfl
            | ok st =>
                rw [map_ok, ok_bind, run_singleton]
                exact step_endif_openWith (m := opened.withStacks st) hret true
        | false =>
            rw [hf.run_openWith_false (m := opened) hret, ok_bind, run_singleton]
            exact step_endif_openWith (m := opened) hret false
  skipped m hret hrun := by
    rw [run_cons, step_if_skipped hret hrun, ok_bind, run_append, hf.run_openWith_false hret,
      ok_bind, run_singleton, step_endif_openWith hret]

end Blocks

end Runar.Script
