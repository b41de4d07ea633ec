/-
  StackIR/RunsOn.lean --- what a list of stack operations does to both stacks.

  WHAT THIS FILE IS FOR.  Code generators for hashes and signatures keep values on the
  alt stack from one piece of code to the next.  `RunsOn cfg slots ops before r` is
  `RunsAs` for pieces that are not balanced: it names the items on top of both stacks.
  Code that takes the alt stack back to where it was runs as it does there.
-/
import Runar.StackIR.RunsAs

set_option autoImplicit false

namespace Runar

open Script

/-- Items below those of both stacks. -/
def Script.Stacks.onto (st below : Stacks) : Stacks := ⟨st.main ++ below.main, st.alt ++ below.alt⟩

theorem Script.Stacks.onto_onto (st rest below : Stacks) :
    (st.onto rest).onto below = st.onto (rest.onto below) := by
  simp [Stacks.onto]

/-- The code turns the items `before` on top of the two stacks into the outcome `r`. -/
def RunsOn (cfg : Config) (slots : Slots) (ops : List StackOp) (before : Stacks)
    (r : Except ScriptError Stacks) : Prop :=
  ∀ (m : Machine) (below : Stacks), m.returned = false → m.running = true →
    m.toStacks = before.onto below →
    runOps cfg slots ops m = r.map fun after => m.withStacks (after.onto below)

namespace RunsOn

variable {cfg : Config} {slots : Slots} {ops ops' : List StackOp} {before after : Stacks}
  {r : Except ScriptError Stacks}

theorem nil (before : Stacks) : RunsOn cfg slots [] before (.ok before) := by
  intro m below _ _ hst
  obtain ⟨st, exec, returned⟩ := m
  cases hst
  rfl

theorem append_ok {r' : Except ScriptError Stacks} (h : RunsOn cfg slots ops before (.ok after))
    (h' : RunsOn cfg slots ops' after r') : RunsOn cfg slots (ops ++ ops') before r' := by
  intro m below hret hrun hst
  rw [runOps_append, h m below hret hrun hst, map_ok, ok_bind,
    h' (m.withStacks (after.onto below)) below hret hrun rfl]
  rfl

/-- Code after a stop is not reached. -/
theorem append_error {e : ScriptError} (h : RunsOn cfg slots ops before (.error e)) :
    RunsOn cfg slots (ops ++ ops') before (.error e) := by
  intro m below hret hrun hst
  rw [runOps_append, h m below hret hrun hst]
  rfl

/-- Items further down change nothing. -/
theorem frame (h : RunsOn cfg slots ops before r) (rest : Stacks) :
    RunsOn cfg slots ops (before.onto rest) (r.map (·.onto rest)) := by
  intro m below hret hrun hst
  rw [h m (rest.onto below) hret hrun (by rw [hst, Stacks.onto_onto])]
  cases r with
  | error e => rfl
  | ok after => rw [map_ok, map_ok, map_ok, Stacks.onto_onto]

/-- Plain code runs as its effect on the stacks. -/
theorem of_plain (hplain : (emitOps slots ops).all Instr.isPlain = true)
    (hrun : ∀ below, plainRun cfg (emitOps slots ops) (before.onto below) =
      r.map (·.onto below)) : RunsOn cfg slots ops before r := by
  intro m below hret hrunning hst
  unfold runOps
  rw [run_plain cfg (List.all_eq_true.mp hplain), if_pos ⟨hret, hrunning⟩, hst, hrun below]
  cases r <;> rfl

/-- Balanced code leaves the alt stack alone. -/
theorem of_runsAs {items : List Bytes} {r' : Except ScriptError (List Bytes)}
    (h : RunsAs cfg slots ops items r') (alt : List Bytes) :
    RunsOn cfg slots ops ⟨items, alt⟩ (r'.map fun left => ⟨left, alt⟩) := by
  intro m below hret hrun hst
  have hmain : m.main = items ++ below.main := by rw [hst, Stacks.onto]
  have halt : m.alt = alt ++ below.alt := by rw [hst, Stacks.onto]
  rw [h m below.main hret hrun hmain, halt]
  cases r' <;> rfl

/-- Code that takes the alt stack back to where it was. -/
theorem runsAs {items : List Bytes} {r' : Except ScriptError (List Bytes)}
    (h : RunsOn cfg slots ops ⟨items, []⟩ (r'.map fun left => ⟨left, []⟩)) :
    RunsAs cfg slots ops items r' := by
  intro m below hret hrun hmain
  have hst : m.toStacks = Stacks.onto ⟨items, []⟩ ⟨below, m.alt⟩ := by
    rw [Stacks.onto, List.nil_append, ← hmain]
  rw [h m ⟨below, m.alt⟩ hret hrun hst]
  cases r' <;> rfl

/-- An unrolled loop that may stop: a round goes on to the items of the next one where that is
reached, and stops where it is not. -/
theorem rounds_reached {round : Nat → List StackOp} (items : Nat → Stacks)
    (reached : Nat → Prop) [DecidablePred reached] {e : ScriptError} {n : Nat} (hstart : reached 0)
    (hmono : ∀ i, reached (i + 1) → reached i)
    (h : ∀ i < n, reached i → RunsOn cfg slots (round i) (items i)
      (if reached (i + 1) then .ok (items (i + 1)) else .error e)) :
    RunsOn cfg slots ((List.range n).flatMap round) (items 0)
      (if reached n then .ok (items n) else .error e) := by
  induction n with
  | zero =>
    rw [if_pos hstart]
    exact nil (items 0)
  | succ n ih =>
    rw [List.range_succ, List.flatMap_append, List.flatMap_singleton]
    have hbefore := ih fun i hi => h i (Nat.lt_succ_of_lt hi)
    by_cases hn : reached n
    · rw [if_pos hn] at hbefore
      exact hbefore.append_ok (h n n.lt_succ_self hn)
    · rw [if_neg hn] at hbefore
      rw [if_neg fun hnext => hn (hmono n hnext)]
      exact hbefore.append_error

end RunsOn

/-- Code without conditionals, which a skipped branch may hold. -/
def IsPlain (slots : Slots) (ops : List StackOp) : Prop :=
  (emitOps slots ops).all Instr.isPlain = true

section IsPlain

variable {cfg : Config} {slots : Slots} {ops ops' : List StackOp} {before : Stacks}
  {r : Except ScriptError Stacks}

theorem IsPlain.append (h : IsPlain slots ops) (h' : IsPlain slots ops') :
    IsPlain slots (ops ++ ops') := by
  rw [IsPlain, emitOps_append, List.all_append, h, h']
  rfl

theorem IsPlain.flatMap {ι : Type} {round : ι → List StackOp} (is : List ι)
    (h : ∀ i, IsPlain slots (round i)) : IsPlain slots (is.flatMap round) := by
  induction is with
  | nil => simp [IsPlain]
  | cons i is ih => exact (h i).append ih

theorem IsPlain.replicate (n : Nat) (h : IsPlain slots ops) :
    IsPlain slots (List.replicate n ops).flatten := by
  induction n with
  | zero => simp [IsPlain]
  | succ n ih => exact h.append ih

/-- Plain code has the effect that its runs show. -/
theorem RunsOn.plainRun_eq (h : RunsOn cfg slots ops before r) (hplain : IsPlain slots ops)
    (below : Stacks) : plainRun cfg (emitOps slots ops) (before.onto below) =
      r.map (·.onto below) := by
  have hrun := h ⟨before.onto below, [], false⟩ below rfl rfl rfl
  unfold runOps at hrun
  rw [run_plain cfg (List.all_eq_true.mp hplain), if_pos ⟨rfl, rfl⟩] at hrun
  have hst := congrArg (Except.map Machine.toStacks) hrun
  cases hplainRun : plainRun cfg (emitOps slots ops) (before.onto below) <;> cases r <;>
    simp_all [Except.map, Machine.withStacks]

/-- A conditional around plain code runs as the branch that is taken. -/
theorem RunsOn.ifElse {thenOps elseOps : List StackOp} {flag : Bytes} {items alt : List Bytes}
    (hthen : IsPlain slots thenOps) (helse : IsPlain slots elseOps)
    (h : RunsOn cfg slots (if isTruthy flag then thenOps else elseOps) ⟨items, alt⟩ r) :
    RunsOn cfg slots ([.opcode .OP_IF] ++ thenOps ++ [.opcode .OP_ELSE] ++ elseOps ++
      [.opcode .OP_ENDIF]) ⟨flag :: items, alt⟩ r := by
  intro m below hret hrun hst
  have hemit : emitOps slots ([StackOp.opcode .OP_IF] ++ thenOps ++ [StackOp.opcode .OP_ELSE] ++
      elseOps ++ [StackOp.opcode .OP_ENDIF]) =
      Instr.op .OP_IF :: (emitOps slots thenOps ++ Instr.op .OP_ELSE ::
        (emitOps slots elseOps ++ [Instr.op .OP_ENDIF])) := by
    simp [emitOps_append, emitOps_cons]
  have hblock : Denotes cfg _ _ := Denotes.ifElse (Denotes.plain hthen) (.plain helse)
  unfold runOps
  rw [hemit, hblock.executed m hret hrun, hst]
  have hbranch : ifEffect (plainRun cfg (emitOps slots thenOps))
      (plainRun cfg (emitOps slots elseOps)) (Stacks.onto ⟨flag :: items, alt⟩ below) =
        r.map (·.onto below) := by
    rw [ifEffect]
    cases hflag : isTruthy flag with
    | true =>
      rw [hflag, if_pos rfl] at h
      simpa [Stacks.onto, hflag] using h.plainRun_eq hthen below
    | false =>
      rw [hflag, if_neg (by decide)] at h
      simpa [Stacks.onto, hflag] using h.plainRun_eq helse below
  rw [hbranch]
  cases r <;> rfl

end IsPlain

end Runar
