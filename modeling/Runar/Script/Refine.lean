/-
  Script/Refine.lean --- one script in place of another.

  WHAT THIS FILE IS FOR.  A rewriting pass replaces a script by a shorter one.
  Few rewrites are right for every operand: most assume that the items they read
  are there, or that a number is minimally encoded.  `RefinesUpTo excused r r'`
  says that `r'` is the same result as `r`, unless `r` is a stop the comparison
  excuses.  It is a preorder and a congruence for sequencing, so a proof about a
  whole script is assembled from proofs about its windows.

  THE STRICT RUN AS A PRECONDITION.  Running the first script with number checks
  switched on for some opcodes, and excusing the stop such a check causes, says
  that those opcodes only meet minimal operands.  `run_strictOn` connects that run
  to the one without the checks.
-/
import Runar.Script.Machine

set_option autoImplicit false

namespace Runar.Script

/-! ## The order on results -/

section Results

variable {α β : Type} {excused : ScriptError → Prop}

/-- The second result is the first one, unless the first is an excused stop. -/
def RefinesUpTo (excused : ScriptError → Prop) (r r' : Except ScriptError α) : Prop :=
  (∃ e, r = .error e ∧ excused e) ∨ r = r'

theorem RefinesUpTo.refl (r : Except ScriptError α) : RefinesUpTo excused r r := .inr rfl

theorem RefinesUpTo.of_eq {r r' : Except ScriptError α} (h : r = r') : RefinesUpTo excused r r' :=
  .inr h

theorem RefinesUpTo.of_error {e : ScriptError} (h : excused e) (r' : Except ScriptError α) :
    RefinesUpTo excused (.error e) r' :=
  .inl ⟨e, rfl, h⟩

theorem RefinesUpTo.trans {r₁ r₂ r₃ : Except ScriptError α} (h : RefinesUpTo excused r₁ r₂)
    (h' : RefinesUpTo excused r₂ r₃) : RefinesUpTo excused r₁ r₃ := by
  rcases h with hstop | rfl
  · exact .inl hstop
  · exact h'

theorem RefinesUpTo.mono {excused' : ScriptError → Prop} (himp : ∀ e, excused e → excused' e)
    {r r' : Except ScriptError α} (h : RefinesUpTo excused r r') : RefinesUpTo excused' r r' := by
  rcases h with ⟨e, he, hex⟩ | rfl
  · exact .inl ⟨e, he, himp e hex⟩
  · exact .refl r

theorem RefinesUpTo.bind {r r' : Except ScriptError α} {f f' : α → Except ScriptError β}
    (h : RefinesUpTo excused r r') (hf : ∀ a, RefinesUpTo excused (f a) (f' a)) :
    RefinesUpTo excused (r >>= f) (r' >>= f') := by
  rcases h with ⟨e, rfl, hex⟩ | rfl
  · exact .inl ⟨e, rfl, hex⟩
  · cases r with
    | error e => exact .refl _
    | ok a => exact hf a

theorem RefinesUpTo.map {r r' : Except ScriptError α} (f : α → β) (h : RefinesUpTo excused r r') :
    RefinesUpTo excused (r.map f) (r'.map f) := by
  rcases h with ⟨e, rfl, hex⟩ | rfl
  · exact .inl ⟨e, rfl, hex⟩
  · exact .refl _

end Results

/-! ## The order on scripts -/

section Scripts

variable {excused : ScriptError → Prop} {cfg : Config}

/-- Every run of the second script gives what the first one gives. -/
def RefinesRun (excused : ScriptError → Prop) (cfg : Config) (is js : List Instr) : Prop :=
  ∀ m, RefinesUpTo excused (run cfg is m) (run cfg js m)

theorem RefinesRun.refl (is : List Instr) : RefinesRun excused cfg is is := fun _ => .refl _

theorem RefinesRun.trans {is js ks : List Instr} (h : RefinesRun excused cfg is js)
    (h' : RefinesRun excused cfg js ks) : RefinesRun excused cfg is ks :=
  fun m => (h m).trans (h' m)

theorem RefinesRun.append {is is' js js' : List Instr} (h : RefinesRun excused cfg is js)
    (h' : RefinesRun excused cfg is' js') : RefinesRun excused cfg (is ++ is') (js ++ js') := by
  intro m
  rw [run_append, run_append]
  exact (h m).bind h'

/-- For plain scripts it is enough to compare the effects on the stacks: where the
machine skips, it skips both. -/
theorem RefinesRun.of_plain {is js : List Instr} (his : ∀ i ∈ is, i.isPlain = true)
    (hjs : ∀ i ∈ js, i.isPlain = true)
    (h : ∀ st, RefinesUpTo excused (plainRun cfg is st) (plainRun cfg js st)) :
    RefinesRun excused cfg is js := by
  intro m
  rw [run_plain cfg his, run_plain cfg hjs]
  split
  · exact (h m.toStacks).map m.withStacks
  · exact .refl _

/-- An `ELSE` right before an `ENDIF` does nothing. -/
theorem run_else_endif (m : Machine) :
    run cfg [.op .OP_ELSE, .op .OP_ENDIF] m = run cfg [.op .OP_ENDIF] m := by
  rw [run_cons, run_singleton]
  have hrun : run cfg [.op .OP_ENDIF] = step cfg (.op .OP_ENDIF) :=
    funext fun m' => run_singleton cfg _ m'
  rw [hrun]
  unfold step
  cases hret : m.returned with
  | true => simp [bind, Except.bind, hret]
  | false =>
      cases hexec : m.exec with
      | nil => rfl
      | cons b e => simp [bind, Except.bind]

end Scripts

/-! ## Number checks switched on -/

/-- The configuration with number checks switched on for some opcodes. -/
def Config.strictOn (cfg : Config) (codes : Opcode → Bool) : Config :=
  { cfg with requireMinimal := fun code => cfg.requireMinimal code || codes code }

/-- The configuration of an interpreter that checks every number operand, or
none. -/
def Config.withMinimal (cfg : Config) (strict : Bool) : Config :=
  { cfg with requireMinimal := fun _ => strict }

section Strict

variable (cfg : Config) (codes : Opcode → Bool)

/-- The only stop a number check adds. -/
def NonMinimal (e : ScriptError) : Prop := e = .minimalData

theorem readNum_strictOn (code : Opcode) (bs : Bytes) :
    RefinesUpTo NonMinimal (readNum (cfg.strictOn codes) code bs) (readNum cfg code bs) := by
  by_cases hmin : IsMinimal bs
  · rw [readNum_of_isMinimal hmin, readNum_of_isMinimal hmin]
    exact .refl _
  · unfold readNum
    split
    · exact .of_error (show NonMinimal _ from rfl) _
    · rename_i hstrict
      rw [if_neg]
      · exact .refl _
      · simp [Config.strictOn, hmin] at hstrict
        simp [hmin, hstrict]

theorem top1_strictOn {f f' : Bytes → Except ScriptError Bytes}
    (h : ∀ a, RefinesUpTo NonMinimal (f a) (f' a)) (st : Stacks) :
    RefinesUpTo NonMinimal (top1 f st) (top1 f' st) := by
  unfold top1
  split
  · exact (h _).bind fun _ => .refl _
  · exact .refl _

theorem top2_strictOn {f f' : Bytes → Bytes → Except ScriptError Bytes}
    (h : ∀ a b, RefinesUpTo NonMinimal (f a b) (f' a b)) (st : Stacks) :
    RefinesUpTo NonMinimal (top2 f st) (top2 f' st) := by
  unfold top2
  split
  · exact (h _ _).bind fun _ => .refl _
  · exact .refl _

theorem numOp1_strictOn (code : Opcode) (f : Int → Except ScriptError Bytes) (st : Stacks) :
    RefinesUpTo NonMinimal (numOp1 (cfg.strictOn codes) code f st) (numOp1 cfg code f st) :=
  top1_strictOn (fun _ => (readNum_strictOn cfg codes code _).bind fun _ => .refl _) st

theorem numOp2_strictOn (code : Opcode) (f : Int → Int → Except ScriptError Bytes) (st : Stacks) :
    RefinesUpTo NonMinimal (numOp2 (cfg.strictOn codes) code f st) (numOp2 cfg code f st) :=
  top2_strictOn (fun _ _ => (readNum_strictOn cfg codes code _).bind fun _ =>
    (readNum_strictOn cfg codes code _).bind fun _ => .refl _) st

theorem popCounted_strictOn (code : Opcode) (s : List Bytes) :
    RefinesUpTo NonMinimal (popCounted (cfg.strictOn codes) code s) (popCounted cfg code s) := by
  unfold popCounted
  split
  · exact .refl _
  · exact (readNum_strictOn cfg codes code _).bind fun _ => .refl _

theorem checkMultiSigStep_strictOn (st : Stacks) :
    RefinesUpTo NonMinimal (checkMultiSigStep (cfg.strictOn codes) st)
      (checkMultiSigStep cfg st) := by
  unfold checkMultiSigStep
  refine (popCounted_strictOn cfg codes _ _).bind fun keys => ?_
  refine (popCounted_strictOn cfg codes _ _).bind fun sigs => ?_
  exact .refl _

/-- An opcode with its number checks on gives what it gives without them, or stops
at an operand that is not minimal. -/
theorem opcodeStep_strictOn (code : Opcode) (st : Stacks) :
    RefinesUpTo NonMinimal (opcodeStep (cfg.strictOn codes) code st) (opcodeStep cfg code st) := by
  have hread := readNum_strictOn cfg codes
  cases code with
  | OP_PICK | OP_ROLL =>
      simp only [opcodeStep]
      split
      · exact .refl _
      · exact (hread _ _).bind fun _ => .refl _
  | OP_SPLIT | OP_NUM2BIN =>
      simp only [opcodeStep]
      split
      · exact (hread _ _).bind fun _ => .refl _
      · exact .refl _
  | OP_LSHIFT | OP_RSHIFT | OP_LEFT | OP_RIGHT =>
      exact top2_strictOn (fun _ _ => (hread _ _).bind fun _ => .refl _) st
  | OP_SUBSTR =>
      simp only [opcodeStep]
      split
      · exact (hread _ _).bind fun _ => (hread _ _).bind fun _ => .refl _
      · exact .refl _
  | OP_WITHIN =>
      simp only [opcodeStep]
      split
      · exact (hread _ _).bind fun _ => (hread _ _).bind fun _ => (hread _ _).bind fun _ => .refl _
      · exact .refl _
  | OP_NUMEQUALVERIFY => exact (numOp2_strictOn cfg codes _ _ st).bind fun _ => .refl _
  | OP_CHECKMULTISIG => exact checkMultiSigStep_strictOn cfg codes st
  | OP_CHECKMULTISIGVERIFY => exact (checkMultiSigStep_strictOn cfg codes st).bind fun _ => .refl _
  | OP_1ADD | OP_1SUB | OP_2MUL | OP_2DIV | OP_NEGATE | OP_ABS | OP_NOT | OP_0NOTEQUAL =>
      exact numOp1_strictOn cfg codes _ _ st
  | OP_ADD | OP_SUB | OP_MUL | OP_DIV | OP_MOD | OP_BOOLAND | OP_BOOLOR | OP_NUMEQUAL
  | OP_NUMNOTEQUAL | OP_LESSTHAN | OP_GREATERTHAN | OP_LESSTHANOREQUAL | OP_GREATERTHANOREQUAL
  | OP_MIN | OP_MAX | OP_LSHIFTNUM | OP_RSHIFTNUM =>
      exact numOp2_strictOn cfg codes _ _ st
  | _ => exact .refl _

theorem step_strictOn (i : Instr) (m : Machine) :
    RefinesUpTo NonMinimal (step (cfg.strictOn codes) i m) (step cfg i m) := by
  cases i with
  | push data => exact .refl _
  | raw span => exact .refl _
  | op code =>
      by_cases hplain : (Instr.op code).isPlain = true
      · rw [step_plain _ hplain, step_plain _ hplain]
        split
        · exact (opcodeStep_strictOn cfg codes code _).map _
        · exact .refl _
      · cases code <;> first | exact .refl _ | exact absurd rfl hplain

/-- A run with number checks on gives what the run without them gives, or stops at
an operand that is not minimal. -/
theorem run_strictOn (is : List Instr) (m : Machine) :
    RefinesUpTo NonMinimal (run (cfg.strictOn codes) is m) (run cfg is m) := by
  induction is generalizing m with
  | nil => exact .refl _
  | cons i is ih =>
      rw [run_cons, run_cons]
      exact (step_strictOn cfg codes i m).bind ih

end Strict

end Runar.Script
