/-
  Optimizer/PeepholeCorrect.lean --- what the peephole optimizer preserves.

  WHAT THIS FILE IS FOR.  Each rule is compared with its window on every pair of
  stacks, the comparison is lifted to a scan, to the iteration and through nested
  conditionals, and the result is read back for the interpreter that is actually
  run.

  WHAT THE RULES ASSUME.  A window may read items its replacement does not touch,
  and `x + 0`, `x - 0` and `-(-x)` are `x` only when `x` is minimally encoded.  The
  comparison therefore runs the original list with the operands of ADD, SUB and
  NEGATE checked, and excuses two stops of that run: a missing item and an operand
  that is not minimal.
-/
import Runar.Optimizer.Peephole
import Runar.Script.Refine

set_option autoImplicit false

namespace Runar.Peephole

open Script

/-- The stops of the original list that the comparison excuses. -/
def Excused (e : ScriptError) : Prop := e = .invalidStackOperation ∨ e = .minimalData

/-- The opcodes whose operands are checked. -/
def arithmeticOperands : Opcode → Bool
  | .OP_ADD | .OP_SUB | .OP_NEGATE => true
  | _ => false

/-- The interpreter with the operands of ADD, SUB and NEGATE checked. -/
def checked (cfg : Config) (strict : Bool) : Config :=
  (cfg.withMinimal strict).strictOn arithmeticOperands

/-! ## Rules on the stacks -/

section Windows

variable (cfg : Config) (strict : Bool)

/-- `js` may stand for `is`, on every pair of stacks. -/
def Window (is js : List Instr) : Prop :=
  ∀ st, RefinesUpTo Excused (plainRun (checked cfg strict) is st)
    (plainRun (checked cfg strict) js st)

theorem excused_invalidStackOperation : Excused .invalidStackOperation := .inl rfl

theorem excused_minimalData : Excused .minimalData := .inr rfl

theorem window_push_drop (data : Bytes) : Window cfg strict [.push data, .op .OP_DROP] [] := by
  intro st
  exact .refl _

theorem window_dup_drop : Window cfg strict [.op .OP_DUP, .op .OP_DROP] [] := by
  intro st
  obtain ⟨main, alt⟩ := st
  cases main with
  | nil => exact .of_error excused_invalidStackOperation _
  | cons a s => exact .refl _

theorem window_swap_swap : Window cfg strict [.op .OP_SWAP, .op .OP_SWAP] [] := by
  intro st
  obtain ⟨main, alt⟩ := st
  rcases main with _ | ⟨b, _ | ⟨a, s⟩⟩
  · exact .of_error excused_invalidStackOperation _
  · exact .of_error excused_invalidStackOperation _
  · exact .refl _

/-- A window that finds two items on the stack, or stops. -/
theorem window_of_two {is js : List Instr}
    (hnil : ∀ alt, plainRun (checked cfg strict) is ⟨[], alt⟩ = .error .invalidStackOperation)
    (hone : ∀ a alt,
      plainRun (checked cfg strict) is ⟨[a], alt⟩ = .error .invalidStackOperation)
    (htwo : ∀ b a s alt, plainRun (checked cfg strict) is ⟨b :: a :: s, alt⟩ =
      plainRun (checked cfg strict) js ⟨b :: a :: s, alt⟩) : Window cfg strict is js := by
  intro st
  obtain ⟨main, alt⟩ := st
  rcases main with _ | ⟨b, _ | ⟨a, s⟩⟩
  · rw [hnil]
    exact .of_error excused_invalidStackOperation _
  · rw [hone]
    exact .of_error excused_invalidStackOperation _
  · exact .of_eq (htwo b a s alt)

/-- The checked operand of an addition, a subtraction or a negation is minimal, or
the read stops. -/
theorem readNum_checked {code : Opcode} (h : arithmeticOperands code = true) (bs : Bytes) :
    readNum (checked cfg strict) code bs = .error .minimalData ∨ ∃ x, bs = encodeNum x := by
  by_cases hmin : IsMinimal bs
  · exact .inr ⟨decodeNum bs, hmin.symm⟩
  · left
    simp [readNum, checked, Config.strictOn, h, hmin]

/-- A window that begins by reading the top item as a checked operand of `code`. -/
theorem window_of_operand (code : Opcode) {is js : List Instr}
    (hcode : arithmeticOperands code = true)
    (hnil : ∀ alt, plainRun (checked cfg strict) is ⟨[], alt⟩ = .error .invalidStackOperation)
    (hread : ∀ a s alt, readNum (checked cfg strict) code a = .error .minimalData →
      plainRun (checked cfg strict) is ⟨a :: s, alt⟩ = .error .minimalData)
    (hmin : ∀ x s alt, plainRun (checked cfg strict) is ⟨encodeNum x :: s, alt⟩ =
      plainRun (checked cfg strict) js ⟨encodeNum x :: s, alt⟩) : Window cfg strict is js := by
  intro st
  obtain ⟨main, alt⟩ := st
  cases main with
  | nil =>
      rw [hnil]
      exact .of_error excused_invalidStackOperation _
  | cons a s =>
      rcases readNum_checked cfg strict hcode a with hstop | ⟨x, rfl⟩
      · rw [hread a s alt hstop]
        exact .of_error excused_minimalData _
      · exact .of_eq (hmin x s alt)

/-! ### Arithmetic -/

theorem window_push1_add :
    Window cfg strict [.push (encodeNum 1), .op .OP_ADD] [.op .OP_1ADD] := by
  refine window_of_operand cfg strict .OP_ADD rfl (fun alt => rfl) ?_ ?_
  · intro a s alt hstop
    simp [plainRun, plainStep, opcodeStep, numOp2, top2, hstop, bind, Except.bind]
  · intro x s alt
    simp [plainRun, plainStep, opcodeStep, numOp1, numOp2, top1, top2, bind, Except.bind]

theorem window_push1_sub :
    Window cfg strict [.push (encodeNum 1), .op .OP_SUB] [.op .OP_1SUB] := by
  refine window_of_operand cfg strict .OP_SUB rfl (fun alt => rfl) ?_ ?_
  · intro a s alt hstop
    simp [plainRun, plainStep, opcodeStep, numOp2, top2, hstop, bind, Except.bind]
  · intro x s alt
    simp [plainRun, plainStep, opcodeStep, numOp1, numOp2, top1, top2, bind, Except.bind]

theorem window_push0_add : Window cfg strict [.push (encodeNum 0), .op .OP_ADD] [] := by
  refine window_of_operand cfg strict .OP_ADD rfl (fun alt => rfl) ?_ ?_
  · intro a s alt hstop
    simp [plainRun, plainStep, opcodeStep, numOp2, top2, hstop, bind, Except.bind]
  · intro x s alt
    simp only [plainRun, plainStep, opcodeStep, numOp2, top2, readNum_encodeNum, bind,
      Except.bind, Int.add_zero]

theorem window_push0_sub : Window cfg strict [.push (encodeNum 0), .op .OP_SUB] [] := by
  refine window_of_operand cfg strict .OP_SUB rfl (fun alt => rfl) ?_ ?_
  · intro a s alt hstop
    simp [plainRun, plainStep, opcodeStep, numOp2, top2, hstop, bind, Except.bind]
  · intro x s alt
    simp only [plainRun, plainStep, opcodeStep, numOp2, top2, readNum_encodeNum, bind,
      Except.bind, Int.sub_zero]

theorem window_negate_negate : Window cfg strict [.op .OP_NEGATE, .op .OP_NEGATE] [] := by
  refine window_of_operand cfg strict .OP_NEGATE rfl (fun alt => rfl) ?_ ?_
  · intro a s alt hstop
    simp [plainRun, plainStep, opcodeStep, numOp1, top1, hstop, bind, Except.bind]
  · intro x s alt
    simp only [plainRun, plainStep, opcodeStep, numOp1, top1, readNum_encodeNum, bind,
      Except.bind, Int.neg_neg]

theorem window_chain_add (a b : Int) :
    Window cfg strict [.push (encodeNum a), .op .OP_ADD, .push (encodeNum b), .op .OP_ADD]
      [.push (encodeNum (a + b)), .op .OP_ADD] := by
  refine window_of_operand cfg strict .OP_ADD rfl (fun alt => rfl) ?_ ?_
  · intro a s alt hstop
    simp [plainRun, plainStep, opcodeStep, numOp2, top2, hstop, bind, Except.bind]
  · intro x s alt
    simp only [plainRun, plainStep, opcodeStep, numOp2, top2, readNum_encodeNum, bind,
      Except.bind, Int.add_assoc]

theorem window_chain_sub (a b : Int) :
    Window cfg strict [.push (encodeNum a), .op .OP_SUB, .push (encodeNum b), .op .OP_SUB]
      [.push (encodeNum (a + b)), .op .OP_SUB] := by
  refine window_of_operand cfg strict .OP_SUB rfl (fun alt => rfl) ?_ ?_
  · intro a s alt hstop
    simp [plainRun, plainStep, opcodeStep, numOp2, top2, hstop, bind, Except.bind]
  · intro x s alt
    simp only [plainRun, plainStep, opcodeStep, numOp2, top2, readNum_encodeNum, bind,
      Except.bind, Int.sub_sub]

/-- Folding a binary opcode over two pushed numbers is exact in both modes. -/
theorem window_fold {code : Opcode} {f : Int → Int → Int}
    (h : opcodeStep (checked cfg strict) code =
      numOp2 (checked cfg strict) code fun x y => .ok (encodeNum (f x y))) (a b : Int) :
    Window cfg strict [.push (encodeNum a), .push (encodeNum b), .op code]
      [.push (encodeNum (f a b))] := by
  intro st
  refine .of_eq ?_
  simp only [plainRun, plainStep, h, numOp2, top2, readNum_encodeNum, bind, Except.bind]

/-- Without the added checks, comparing with zero is NOT: both opcodes read their
operand in the same mode. -/
theorem window_push0_numequal :
    Window cfg strict [.push (encodeNum 0), .op .OP_NUMEQUAL] [.op .OP_NOT] := by
  intro st
  obtain ⟨main, alt⟩ := st
  cases main with
  | nil => exact .of_error excused_invalidStackOperation _
  | cons a s =>
      have hread : readNum (checked cfg strict) .OP_NUMEQUAL a =
          readNum (checked cfg strict) .OP_NOT a := rfl
      refine .of_eq ?_
      simp only [plainRun, plainStep, opcodeStep, numOp1, numOp2, top1, top2, hread,
        readNum_encodeNum, bind, Except.bind]

/-! ### Truth values -/

/-- What an operation that produces a canonical truth value leaves on the stack. -/
def LeavesBool (r : Except ScriptError Stacks) : Prop :=
  ∀ st, r = .ok st → ∃ b s, st.main = boolBytes b :: s

theorem leavesBool_top1 {f : Bytes → Except ScriptError Bytes}
    (h : ∀ a r, f a = .ok r → ∃ b, r = boolBytes b) (st : Stacks) : LeavesBool (top1 f st) := by
  intro st' hst
  unfold top1 at hst
  split at hst
  · rename_i a s _
    cases hf : f a with
    | error e => rw [hf] at hst; cases hst
    | ok r =>
        rw [hf] at hst
        obtain ⟨b, rfl⟩ := h a r hf
        cases hst
        exact ⟨b, s, rfl⟩
  · cases hst

theorem leavesBool_top2 {f : Bytes → Bytes → Except ScriptError Bytes}
    (h : ∀ a b r, f a b = .ok r → ∃ v, r = boolBytes v) (st : Stacks) :
    LeavesBool (top2 f st) := by
  intro st' hst
  unfold top2 at hst
  split at hst
  · rename_i b a s _
    cases hf : f a b with
    | error e => rw [hf] at hst; cases hst
    | ok r =>
        rw [hf] at hst
        obtain ⟨v, rfl⟩ := h a b r hf
        cases hst
        exact ⟨v, s, rfl⟩
  · cases hst

theorem leavesBool_numOp1 (c : Config) (code : Opcode) (f : Int → Bool) (st : Stacks) :
    LeavesBool (numOp1 c code (fun x => .ok (boolBytes (f x))) st) := by
  refine leavesBool_top1 ?_ st
  intro a r hr
  cases hread : readNum c code a with
  | error e => rw [hread] at hr; cases hr
  | ok x =>
      rw [hread] at hr
      cases hr
      exact ⟨f x, rfl⟩

theorem leavesBool_numOp2 (c : Config) (code : Opcode) (f : Int → Int → Bool) (st : Stacks) :
    LeavesBool (numOp2 c code (fun x y => .ok (boolBytes (f x y))) st) := by
  refine leavesBool_top2 ?_ st
  intro a b r hr
  cases hx : readNum c code a with
  | error e => rw [hx] at hr; cases hr
  | ok x =>
      cases hy : readNum c code b with
      | error e => rw [hx, hy] at hr; cases hr
      | ok y =>
          rw [hx, hy] at hr
          cases hr
          exact ⟨f x y, rfl⟩

theorem leavesBool_checkMultiSig (c : Config) (st : Stacks) :
    LeavesBool (checkMultiSigStep c st) := by
  intro st' hst
  unfold checkMultiSigStep at hst
  cases hkeys : popCounted c .OP_CHECKMULTISIG st.main with
  | error e => rw [hkeys] at hst; cases hst
  | ok ks =>
      obtain ⟨keys, s₁⟩ := ks
      cases hsigs : popCounted c .OP_CHECKMULTISIG s₁ with
      | error e => simp [hkeys, hsigs, bind, Except.bind] at hst
      | ok ss =>
          obtain ⟨sigs, s₂⟩ := ss
          simp only [hkeys, hsigs, bind, Except.bind] at hst
          split at hst
          · cases hst
          · split at hst
            · cases hst
            · cases hst
              exact ⟨_, _, rfl⟩

theorem leavesBool_within (c : Config) (st : Stacks) : LeavesBool (opcodeStep c .OP_WITHIN st) := by
  intro st' hst
  simp only [opcodeStep] at hst
  split at hst
  · rename_i hi lo a s _
    cases hx : readNum c .OP_WITHIN a with
    | error e => simp [hx, bind, Except.bind] at hst
    | ok x =>
        cases hl : readNum c .OP_WITHIN lo with
        | error e => simp [hx, hl, bind, Except.bind] at hst
        | ok l =>
            cases hh : readNum c .OP_WITHIN hi with
            | error e => simp [hx, hl, hh, bind, Except.bind] at hst
            | ok h =>
                simp only [hx, hl, hh, bind, Except.bind, Except.ok.injEq] at hst
                subst hst
                exact ⟨_, s, rfl⟩
  · cases hst

/-- Every opcode of the compiler's list leaves a canonical truth value. -/
theorem leavesBool_opcodeStep (c : Config) {code : Opcode}
    (h : canonicalBoolOpcodes.contains code = true) (st : Stacks) :
    LeavesBool (opcodeStep c code st) := by
  cases code with
  | OP_EQUAL | OP_CHECKSIG =>
      refine leavesBool_top2 ?_ st
      intro a b r hr
      cases hr
      exact ⟨_, rfl⟩
  | OP_NUMEQUAL | OP_NUMNOTEQUAL | OP_LESSTHAN | OP_GREATERTHAN | OP_LESSTHANOREQUAL
  | OP_GREATERTHANOREQUAL | OP_BOOLAND | OP_BOOLOR =>
      exact leavesBool_numOp2 c _ _ st
  | OP_NOT | OP_0NOTEQUAL => exact leavesBool_numOp1 c _ _ st
  | OP_WITHIN => exact leavesBool_within c st
  | OP_CHECKMULTISIG => exact leavesBool_checkMultiSig c st
  | _ => simp [canonicalBoolOpcodes] at h

/-- Negating a canonical truth value twice gives it back. -/
theorem plainRun_not_not (c : Config) (b : Bool) (s alt : List Bytes) :
    plainRun c [.op .OP_NOT, .op .OP_NOT] ⟨boolBytes b :: s, alt⟩ =
      .ok ⟨boolBytes b :: s, alt⟩ := by
  simp only [plainRun, plainStep, opcodeStep, numOp1, top1,
    readNum_of_isMinimal (isMinimal_boolBytes _), decodeNum_boolBytes, bind, Except.bind]
  cases b <;> rfl

theorem window_not_not {i : Instr} (h : ∀ st, LeavesBool (plainStep (checked cfg strict) i st)) :
    Window cfg strict [i, .op .OP_NOT, .op .OP_NOT] [i] := by
  intro st
  rw [plainRun_cons, plainRun_cons _ i []]
  cases hstep : plainStep (checked cfg strict) i st with
  | error e => exact .refl _
  | ok st' =>
      obtain ⟨b, s, hs⟩ := h st st' hstep
      obtain ⟨main, alt⟩ := st'
      cases hs
      exact .of_eq (plainRun_not_not _ b s alt)

theorem leavesBool_push {data : Bytes} {b : Bool} (h : data = boolBytes b) (c : Config)
    (st : Stacks) : LeavesBool (plainStep c (.push data) st) := by
  intro st' hst
  cases hst
  exact ⟨b, st.main, by rw [h]⟩

/-- A fused VERIFY opcode is its two halves. -/
theorem window_verify {code fused : Opcode}
    (h : ∀ st, opcodeStep (checked cfg strict) fused st =
      opcodeStep (checked cfg strict) code st >>= verifyTop) :
    Window cfg strict [.op code, .op .OP_VERIFY] [.op fused] := by
  intro st
  refine .of_eq ?_
  simp only [plainRun, plainStep, h, bind_assoc]
  rfl

/-! ### Stack shuffles -/

theorem window_over_over : Window cfg strict [.op .OP_OVER, .op .OP_OVER] [.op .OP_2DUP] :=
  window_of_two cfg strict (fun _ => rfl) (fun _ _ => rfl) fun _ _ _ _ => rfl

theorem window_drop_drop : Window cfg strict [.op .OP_DROP, .op .OP_DROP] [.op .OP_2DROP] :=
  window_of_two cfg strict (fun _ => rfl) (fun _ _ => rfl) fun _ _ _ _ => rfl

theorem window_push0_roll0 : Window cfg strict [.push (encodeNum 0), .op .OP_ROLL] [] := by
  intro st
  obtain ⟨main, alt⟩ := st
  rw [show (0 : Int) = (0 : Nat) from rfl, plainRun_roll]
  cases main with
  | nil => exact .of_error excused_invalidStackOperation _
  | cons a s => exact .refl _

theorem window_push1_roll1 :
    Window cfg strict [.push (encodeNum 1), .op .OP_ROLL] [.op .OP_SWAP] := by
  intro st
  obtain ⟨main, alt⟩ := st
  rw [show (1 : Int) = (1 : Nat) from rfl, plainRun_roll]
  rcases main with _ | ⟨b, _ | ⟨a, s⟩⟩ <;> exact .refl _

theorem window_push2_roll2 :
    Window cfg strict [.push (encodeNum 2), .op .OP_ROLL] [.op .OP_ROT] := by
  intro st
  obtain ⟨main, alt⟩ := st
  rw [show (2 : Int) = (2 : Nat) from rfl, plainRun_roll]
  rcases main with _ | ⟨c, _ | ⟨b, _ | ⟨a, s⟩⟩⟩ <;> exact .refl _

theorem window_push0_pick0 :
    Window cfg strict [.push (encodeNum 0), .op .OP_PICK] [.op .OP_DUP] := by
  intro st
  obtain ⟨main, alt⟩ := st
  rw [show (0 : Int) = (0 : Nat) from rfl, plainRun_pick]
  cases main <;> exact .refl _

theorem window_push1_pick1 :
    Window cfg strict [.push (encodeNum 1), .op .OP_PICK] [.op .OP_OVER] := by
  intro st
  obtain ⟨main, alt⟩ := st
  rw [show (1 : Int) = (1 : Nat) from rfl, plainRun_pick]
  rcases main with _ | ⟨b, _ | ⟨a, s⟩⟩ <;> exact .refl _

theorem window_sha256_sha256 :
    Window cfg strict [.op .OP_SHA256, .op .OP_SHA256] [.op .OP_HASH256] := by
  intro st
  obtain ⟨main, alt⟩ := st
  cases main <;> exact .refl _

end Windows

/-! ## Rules on operations -/

section Rules

variable (cfg : Config) (strict : Bool) (slots : Slots)

/-- `ys` may stand for `xs` in every script. -/
def Rewrites (xs ys : List StackOp) : Prop :=
  RefinesRun Excused (checked cfg strict) (emitOps slots xs) (emitOps slots ys)

/-- Whatever the rule puts in place of a window may stand for it. -/
def PeepholeRule.Sound (rule : PeepholeRule) : Prop :=
  ∀ window replacement, rule.matchOps window = some replacement →
    Rewrites cfg strict slots window replacement

/-- A window of plain instructions may be rewritten where its effect on the stacks
may. -/
theorem Rewrites.of_window {xs ys : List StackOp} {is js : List Instr}
    (hxs : emitOps slots xs = is) (hys : emitOps slots ys = js)
    (his : is.all Instr.isPlain = true) (hjs : js.all Instr.isPlain = true)
    (h : Window cfg strict is js) : Rewrites cfg strict slots xs ys := by
  unfold Rewrites
  rw [hxs, hys]
  exact RefinesRun.of_plain (List.all_eq_true.mp his) (List.all_eq_true.mp hjs) h

theorem pairRule_sound {first second : StackOp → Bool} {replacement : List StackOp}
    (h : ∀ a b, first a = true → second b = true →
      Rewrites cfg strict slots [a, b] replacement) :
    (pairRule first second replacement).Sound cfg strict slots := by
  intro window r hmatch
  simp only [pairRule] at hmatch
  split at hmatch
  · rename_i a b
    split at hmatch
    · rename_i hab
      rw [Bool.and_eq_true] at hab
      cases hmatch
      exact h a b hab.1 hab.2
    · cases hmatch
  · cases hmatch

theorem eq_opcode_of_isOpcode {op : StackOp} {code : Opcode} (h : isOpcode op code = true) :
    op = .opcode code := by
  cases op <;> simp_all [isOpcode]

theorem eq_push_of_pushedBigInt {op : StackOp} {n : Int} (h : pushedBigInt op = some n) :
    op = .push (.bigint n) := by
  unfold pushedBigInt at h
  split at h
  · cases h
    rfl
  · cases h

theorem eq_push_of_isPushBigInt {op : StackOp} {n : Int} (h : isPushBigInt op n = true) :
    op = .push (.bigint n) :=
  eq_push_of_pushedBigInt (by simpa [isPushBigInt] using h)

variable {cfg strict slots}

/-- A rule whose two predicates each recognise one operation is sound if the
instructions those emit may be rewritten. -/
theorem fixedPair_sound {first second : StackOp → Bool} {op₁ op₂ : StackOp} {i₁ i₂ : Instr}
    {replacement : List StackOp} {js : List Instr}
    (hop₁ : ∀ {a}, first a = true → a = op₁) (hop₂ : ∀ {b}, second b = true → b = op₂)
    (hemit₁ : emitStackOp slots op₁ = [i₁]) (hemit₂ : emitStackOp slots op₂ = [i₂])
    (hys : emitOps slots replacement = js) (his : [i₁, i₂].all Instr.isPlain = true)
    (hjs : js.all Instr.isPlain = true) (h : Window cfg strict [i₁, i₂] js) :
    (pairRule first second replacement).Sound cfg strict slots := by
  refine pairRule_sound cfg strict slots fun a b ha hb => ?_
  rw [hop₁ ha, hop₂ hb]
  refine Rewrites.of_window cfg strict slots ?_ hys his hjs h
  simp [emitOps_cons, hemit₁, hemit₂]

/-- A rule for two opcodes. -/
theorem opcodePair_sound {code₁ code₂ : Opcode} {replacement : List StackOp} {js : List Instr}
    (hys : emitOps slots replacement = js)
    (his : [Instr.op code₁, .op code₂].all Instr.isPlain = true)
    (hjs : js.all Instr.isPlain = true) (h : Window cfg strict [.op code₁, .op code₂] js) :
    (pairRule (isOpcode · code₁) (isOpcode · code₂) replacement).Sound cfg strict slots :=
  fixedPair_sound eq_opcode_of_isOpcode eq_opcode_of_isOpcode (by simp) (by simp) hys his hjs h

/-- A rule for a pushed number and an operation that emits one opcode. -/
theorem pushPair_sound {n : Int} {second : StackOp → Bool} {op : StackOp} {code : Opcode}
    {replacement : List StackOp} {js : List Instr} (hop : ∀ {b}, second b = true → b = op)
    (hemit : emitStackOp slots op = [.op code]) (hys : emitOps slots replacement = js)
    (his : (Instr.op code).isPlain = true) (hjs : js.all Instr.isPlain = true)
    (h : Window cfg strict [.push (encodeNum n), .op code] js) :
    (pairRule (isPushBigInt · n) second replacement).Sound cfg strict slots :=
  fixedPair_sound eq_push_of_isPushBigInt hop (by simp) hemit hys (by simp [his]) hjs h

theorem eq_drop {op : StackOp} (h : (op matches .drop) = true) : op = .drop := by
  cases op <;> first | rfl | cases h

theorem eq_dup {op : StackOp} (h : (op matches .dup) = true) : op = .dup := by
  cases op <;> first | rfl | cases h

theorem eq_swap {op : StackOp} (h : (op matches .swap) = true) : op = .swap := by
  cases op <;> first | rfl | cases h

theorem eq_over {op : StackOp} (h : (op matches .over) = true) : op = .over := by
  cases op <;> first | rfl | cases h

theorem pushDropElim_sound : pushDropElim.Sound cfg strict slots := by
  refine pairRule_sound cfg strict slots fun a b ha hb => ?_
  obtain ⟨value, rfl⟩ : ∃ value, a = .push value := by
    cases a <;> simp_all [isPush]
  obtain rfl : b = .drop := by
    cases b <;> simp_all
  refine Rewrites.of_window cfg strict slots ?_ (emitOps_nil slots) rfl rfl
    (window_push_drop cfg strict value.toBytes)
  simp [emitOps_cons, emitStackOp]

theorem notNotElim_sound : notNotElim.Sound cfg strict slots := by
  intro window r hmatch
  simp only [notNotElim] at hmatch
  split at hmatch
  · rename_i a b c
    split at hmatch
    · rename_i habc
      rw [Bool.and_eq_true, Bool.and_eq_true] at habc
      obtain ⟨⟨ha, hb⟩, hc⟩ := habc
      cases hmatch
      rw [eq_opcode_of_isOpcode hb, eq_opcode_of_isOpcode hc]
      -- the producer emits one plain instruction that leaves a canonical truth value
      obtain ⟨i, hemit, hplain, hbool⟩ : ∃ i, emitStackOp slots a = [i] ∧ i.isPlain = true ∧
          ∀ st, LeavesBool (plainStep (checked cfg strict) i st) := by
        unfold producesCanonicalBool at ha
        split at ha
        · rename_i code
          refine ⟨.op code, by simp, ?_, leavesBool_opcodeStep _ ha⟩
          cases code <;> first | rfl | simp [canonicalBoolOpcodes] at ha
        · rename_i v
          exact ⟨.push (boolBytes v), by simp [PushValue.toBytes], rfl, leavesBool_push rfl _⟩
        · rename_i n
          refine ⟨.push (encodeNum n), by simp, rfl, ?_⟩
          rw [Bool.or_eq_true, beq_iff_eq, beq_iff_eq] at ha
          rcases ha with rfl | rfl
          · exact leavesBool_push (b := false) rfl _
          · exact leavesBool_push (b := true) rfl _
        · cases ha
      have hwindow := window_not_not cfg strict hbool
      refine Rewrites.of_window cfg strict slots ?_ ?_ ?_ ?_ hwindow
      · simp [emitOps_cons, hemit]
      · simp [emitOps_cons, hemit]
      · simp [hplain, show (Instr.op .OP_NOT).isPlain = true from rfl]
      · simp [hplain]
    · cases hmatch
  · cases hmatch

theorem foldRule_sound {code : Opcode} {f : Int → Int → Int}
    (hplain : (Instr.op code).isPlain = true)
    (h : opcodeStep (checked cfg strict) code =
      numOp2 (checked cfg strict) code fun x y => .ok (encodeNum (f x y))) :
    (foldRule code f).Sound cfg strict slots := by
  intro window r hmatch
  simp only [foldRule] at hmatch
  split at hmatch
  · rename_i x y op
    split at hmatch
    · rename_i a b ha hb
      split at hmatch
      · rename_i hop
        cases hmatch
        rw [eq_push_of_pushedBigInt ha, eq_push_of_pushedBigInt hb, eq_opcode_of_isOpcode hop]
        refine Rewrites.of_window cfg strict slots ?_ ?_ ?_ ?_ (window_fold cfg strict h a b)
        · simp [emitOps_cons]
        · simp [emitOps_cons]
        · simp [hplain]
        · rfl
      · cases hmatch
    · cases hmatch
  · cases hmatch

theorem chainRule_sound {code : Opcode} (hplain : (Instr.op code).isPlain = true)
    (h : ∀ a b, Window cfg strict
      [.push (encodeNum a), .op code, .push (encodeNum b), .op code]
      [.push (encodeNum (a + b)), .op code]) :
    (chainRule code).Sound cfg strict slots := by
  intro window r hmatch
  simp only [chainRule] at hmatch
  split at hmatch
  · rename_i x op₁ y op₂
    split at hmatch
    · rename_i a b ha hb
      split at hmatch
      · rename_i hops
        rw [Bool.and_eq_true] at hops
        cases hmatch
        rw [eq_push_of_pushedBigInt ha, eq_push_of_pushedBigInt hb,
          eq_opcode_of_isOpcode hops.1, eq_opcode_of_isOpcode hops.2]
        refine Rewrites.of_window cfg strict slots ?_ ?_ ?_ ?_ (h a b)
        · simp [emitOps_cons]
        · simp [emitOps_cons]
        · simp [hplain]
        · simp [hplain]
      · cases hmatch
    · cases hmatch
  · cases hmatch

theorem eq_roll {op : StackOp} {k : Nat} (h : isRoll op k = true) : op = .roll k := by
  cases op <;> simp_all [isRoll]

theorem eq_pick {op : StackOp} {k : Nat} (h : isPick op k = true) : op = .pick k := by
  cases op <;> simp_all [isPick]

/-- Every rule of the optimizer is sound. -/
theorem rules_sound : ∀ rule ∈ rules, rule.Sound cfg strict slots := by
  have hcode : ∀ code, emitOps slots [.opcode code] = [.op code] := by
    intro code
    simp [emitOps_cons]
  have hswap : emitOps slots [.swap] = [.op .OP_SWAP] := by simp [emitOps_cons, emitStackOp]
  have hrot : emitOps slots [.rot] = [.op .OP_ROT] := by simp [emitOps_cons, emitStackOp]
  have hdup : emitOps slots [.dup] = [.op .OP_DUP] := by simp [emitOps_cons, emitStackOp]
  have hover : emitOps slots [.over] = [.op .OP_OVER] := by simp [emitOps_cons, emitStackOp]
  have hnil : emitOps slots [] = [] := emitOps_nil slots
  simp only [rules, List.forall_mem_cons]
  refine ⟨pushDropElim_sound, ?dupDrop, ?swapSwap, ?push1Add, ?push1Sub, ?push0Add, ?push0Sub,
    notNotElim_sound, ?negateNegate, ?equalVerify, ?checksigVerify, ?numequalVerify,
    ?checkmultisigVerify, ?opDupOpDrop, ?overOver, ?dropDrop, ?roll0, ?roll1, ?roll2, ?pick0,
    ?pick1, ?sha256, ?numequal, foldRule_sound rfl rfl, foldRule_sound rfl rfl,
    foldRule_sound rfl rfl, chainRule_sound rfl ?chainAdd, chainRule_sound rfl ?chainSub,
    fun _ h => absurd h List.not_mem_nil⟩
  case dupDrop =>
    exact fixedPair_sound eq_dup eq_drop (by rw [emitStackOp]) (by rw [emitStackOp]) hnil rfl rfl
      (window_dup_drop cfg strict)
  case swapSwap =>
    exact fixedPair_sound eq_swap eq_swap (by rw [emitStackOp]) (by rw [emitStackOp]) hnil rfl rfl
      (window_swap_swap cfg strict)
  case push1Add =>
    exact pushPair_sound eq_opcode_of_isOpcode (by simp) (hcode _) rfl rfl
      (window_push1_add cfg strict)
  case push1Sub =>
    exact pushPair_sound eq_opcode_of_isOpcode (by simp) (hcode _) rfl rfl
      (window_push1_sub cfg strict)
  case push0Add =>
    exact pushPair_sound eq_opcode_of_isOpcode (by simp) hnil rfl rfl (window_push0_add cfg strict)
  case push0Sub =>
    exact pushPair_sound eq_opcode_of_isOpcode (by simp) hnil rfl rfl (window_push0_sub cfg strict)
  case negateNegate => exact opcodePair_sound hnil rfl rfl (window_negate_negate cfg strict)
  case equalVerify =>
    exact opcodePair_sound (hcode _) rfl rfl (window_verify cfg strict fun _ => rfl)
  case checksigVerify =>
    exact opcodePair_sound (hcode _) rfl rfl (window_verify cfg strict fun _ => rfl)
  case numequalVerify =>
    exact opcodePair_sound (hcode _) rfl rfl (window_verify cfg strict fun _ => rfl)
  case checkmultisigVerify =>
    exact opcodePair_sound (hcode _) rfl rfl (window_verify cfg strict fun _ => rfl)
  case opDupOpDrop => exact opcodePair_sound hnil rfl rfl (window_dup_drop cfg strict)
  case overOver =>
    exact fixedPair_sound eq_over eq_over (by rw [emitStackOp]) (by rw [emitStackOp]) (hcode _)
      rfl rfl (window_over_over cfg strict)
  case dropDrop =>
    exact fixedPair_sound eq_drop eq_drop (by rw [emitStackOp]) (by rw [emitStackOp]) (hcode _)
      rfl rfl (window_drop_drop cfg strict)
  case roll0 =>
    exact pushPair_sound eq_roll (by rw [emitStackOp]) hnil rfl rfl
      (window_push0_roll0 cfg strict)
  case roll1 =>
    exact pushPair_sound eq_roll (by rw [emitStackOp]) hswap rfl rfl
      (window_push1_roll1 cfg strict)
  case roll2 =>
    exact pushPair_sound eq_roll (by rw [emitStackOp]) hrot rfl rfl
      (window_push2_roll2 cfg strict)
  case pick0 =>
    exact pushPair_sound eq_pick (by rw [emitStackOp]) hdup rfl rfl
      (window_push0_pick0 cfg strict)
  case pick1 =>
    exact pushPair_sound eq_pick (by rw [emitStackOp]) hover rfl rfl
      (window_push1_pick1 cfg strict)
  case sha256 => exact opcodePair_sound (hcode _) rfl rfl (window_sha256_sha256 cfg strict)
  case numequal =>
    exact pushPair_sound eq_opcode_of_isOpcode (by simp) (hcode _) rfl rfl
      (window_push0_numequal cfg strict)
  case chainAdd => exact fun a b => window_chain_add cfg strict a b
  case chainSub => exact fun a b => window_chain_sub cfg strict a b

end Rules

/-! ## The pass -/

section Pass

variable {cfg : Config} {strict : Bool} {slots : Slots}

theorem Rewrites.refl (xs : List StackOp) : Rewrites cfg strict slots xs xs := RefinesRun.refl _

theorem Rewrites.append {xs xs' ys ys' : List StackOp} (h : Rewrites cfg strict slots xs ys)
    (h' : Rewrites cfg strict slots xs' ys') :
    Rewrites cfg strict slots (xs ++ xs') (ys ++ ys') := by
  unfold Rewrites
  rw [emitOps_append, emitOps_append]
  exact RefinesRun.append h h'

theorem Rewrites.cons (op : StackOp) {xs ys : List StackOp} (h : Rewrites cfg strict slots xs ys) :
    Rewrites cfg strict slots (op :: xs) (op :: ys) := by
  have hop : Rewrites cfg strict slots [op] [op] := .refl [op]
  exact hop.append h

/-- A match replaces its window soundly. -/
theorem findMatch_sound {ops replacement : List StackOp} {size : Nat}
    (h : findMatch ops = some (size, replacement)) :
    Rewrites cfg strict slots (ops.take size) replacement := by
  have hmatch : matchWindow ops size = some replacement := (findMatch_size h).2
  unfold matchWindow at hmatch
  split at hmatch
  · cases hmatch
  · dsimp only at hmatch
    split at hmatch
    · cases hmatch
    · obtain ⟨rule, hrule, hr⟩ := List.exists_of_findSome?_eq_some hmatch
      exact rules_sound rule (List.mem_filter.mp hrule).1 _ _ hr

theorem scan_sound (fuel : Nat) (ops : List StackOp) :
    Rewrites cfg strict slots ops (scan fuel ops).1 := by
  induction fuel generalizing ops with
  | zero => exact .refl ops
  | succ fuel ih =>
      cases ops with
      | nil => exact .refl []
      | cons op rest =>
          rw [scan]
          split
          · exact .cons op (ih rest)
          · split
            · rename_i size replacement hfind
              have hwindow : Rewrites cfg strict slots ((op :: rest).take size) replacement :=
                findMatch_sound hfind
              have happ := hwindow.append (ih ((op :: rest).drop size))
              rwa [List.take_append_drop] at happ
            · exact .cons op (ih rest)

theorem iterate_sound (n : Nat) (ops : List StackOp) :
    Rewrites cfg strict slots ops (iterate n ops) := by
  induction n generalizing ops with
  | zero => exact .refl ops
  | succ n ih =>
      rw [iterate]
      split
      · exact RefinesRun.trans (scan_sound ops.length ops) (ih _)
      · exact .refl ops

/-- The emitted end of a conditional runs as if its `ELSE` were always there. -/
theorem run_elseTail (c : Config) (elseOps : List StackOp) (m : Machine) :
    run c ((if elseOps.isEmpty then [] else .op .OP_ELSE :: emitOps slots elseOps) ++
        [.op .OP_ENDIF]) m =
      run c (.op .OP_ELSE :: (emitOps slots elseOps ++ [.op .OP_ENDIF])) m := by
  cases elseOps with
  | nil => exact (run_else_endif m).symm
  | cons op ops => rfl

/-- Rewriting the arms of a conditional rewrites the conditional. -/
theorem Rewrites.ifOp {thenOps thenOps' elseOps elseOps' : List StackOp}
    (hthen : Rewrites cfg strict slots thenOps thenOps')
    (helse : Rewrites cfg strict slots elseOps elseOps') :
    Rewrites cfg strict slots [.ifOp thenOps elseOps] [.ifOp thenOps' elseOps'] := by
  have htail : RefinesRun Excused (checked cfg strict)
      ((if elseOps.isEmpty then [] else .op .OP_ELSE :: emitOps slots elseOps) ++
        [Instr.op .OP_ENDIF])
      ((if elseOps'.isEmpty then [] else .op .OP_ELSE :: emitOps slots elseOps') ++
        [Instr.op .OP_ENDIF]) := by
    intro m
    rw [run_elseTail, run_elseTail]
    exact RefinesRun.append (.refl [.op .OP_ELSE])
      (RefinesRun.append helse (.refl [.op .OP_ENDIF])) m
  unfold Rewrites
  rw [emitOps_cons, emitOps_cons, emitOps_nil, emitStackOp, emitStackOp, List.append_nil,
    List.append_nil]
  exact RefinesRun.append (.refl [.op .OP_IF]) (RefinesRun.append hthen htail)

mutual

/-- Optimizing the arms of an operation is sound. -/
theorem optimizeNestedIf_sound (op : StackOp) :
    Rewrites cfg strict slots [op] [optimizeNestedIf op] := by
  cases op with
  | ifOp thenOps elseOps =>
      rw [optimizeNestedIf]
      exact .ifOp
        (RefinesRun.trans (optimizeNestedIfs_sound thenOps) (iterate_sound maxIterations _))
        (RefinesRun.trans (optimizeNestedIfs_sound elseOps) (iterate_sound maxIterations _))
  | _ =>
      rw [optimizeNestedIf]
      · exact .refl _
      · intro thenOps elseOps h
        cases h

theorem optimizeNestedIfs_sound (ops : List StackOp) :
    Rewrites cfg strict slots ops (optimizeNestedIfs ops) := by
  cases ops with
  | nil =>
      rw [optimizeNestedIfs]
      exact .refl []
  | cons op rest =>
      rw [optimizeNestedIfs]
      have hop : Rewrites cfg strict slots [op] [optimizeNestedIf op] := optimizeNestedIf_sound op
      exact hop.append (optimizeNestedIfs_sound rest)

end

/-- The optimized list may stand for the original one. -/
theorem optimizeStackIR_sound (ops : List StackOp) :
    Rewrites cfg strict slots ops (optimizeStackIR ops) :=
  RefinesRun.trans (optimizeNestedIfs_sound ops) (iterate_sound maxIterations _)

end Pass

/-! ## What a run observes -/

/-- The optimized list has the behaviour of the original one, from one pair of
stacks: the same final machine, or a failure where the original fails. -/
def PreservesBehaviour (cfg : Config) (slots : Slots) (ops : List StackOp)
    (main alt : List Bytes) : Prop :=
  (∀ m, runOps cfg slots ops (.start main alt) = .ok m →
    runOps cfg slots (optimizeStackIR ops) (.start main alt) = .ok m) ∧
  (∀ e, runOps cfg slots ops (.start main alt) = .error e →
    ∃ e', runOps cfg slots (optimizeStackIR ops) (.start main alt) = .error e')

/-- Negative zero on the stack: `0 ADD` re-encodes it as the empty string, and the
optimizer deletes `0 ADD`. -/
theorem not_preservesBehaviour_negativeZero :
    ¬ ∀ (cfg : Config) (slots : Slots) (ops : List StackOp) (main alt : List Bytes),
      PreservesBehaviour cfg slots ops main alt := by
  intro h
  have hrun := (h ⟨fun _ => false, id, id, id, fun _ _ => false, fun _ _ => false,
    fun _ m => .ok m⟩ ⟨fun _ _ => [], []⟩ [.push (.bigint 0), .opcode .OP_ADD] [[0x80]] []).1
    (.start [[]] []) rfl
  have hopt : optimizeStackIR [.push (.bigint 0), .opcode .OP_ADD] = [] := rfl
  rw [hopt] at hrun
  have hmain : ([[0x80]] : List Bytes) = [[]] :=
    congrArg (fun r => (r.toOption.map (·.main)).getD []) hrun
  exact absurd hmain (by decide)

/-- Either the run of the original list stops at a missing item or at an operand of
ADD, SUB or NEGATE that is not minimal, or the optimized list gives exactly the
result of the original one, in a strict interpreter and in a relaxed one. -/
theorem optimizeStackIR_preserves (cfg : Config) (strict : Bool) (slots : Slots)
    (ops : List StackOp) (main alt : List Bytes) :
    (∃ e, runOps (checked cfg strict) slots ops (.start main alt) = .error e ∧ Excused e) ∨
      (runOps (cfg.withMinimal strict) slots (optimizeStackIR ops) (.start main alt) =
          runOps (cfg.withMinimal strict) slots ops (.start main alt) ∧
        runOps (checked cfg strict) slots ops (.start main alt) =
          runOps (cfg.withMinimal strict) slots ops (.start main alt)) := by
  have hnonMinimal : ∀ e, NonMinimal e → Excused e := fun _ he => .inr he
  have hops : RefinesUpTo Excused (runOps (checked cfg strict) slots ops (.start main alt))
      (runOps (cfg.withMinimal strict) slots ops (.start main alt)) :=
    (run_strictOn _ arithmeticOperands _ _).mono hnonMinimal
  have hopt : RefinesUpTo Excused (runOps (checked cfg strict) slots ops (.start main alt))
      (runOps (cfg.withMinimal strict) slots (optimizeStackIR ops) (.start main alt)) :=
    (optimizeStackIR_sound ops (.start main alt)).trans
      ((run_strictOn _ arithmeticOperands _ _).mono hnonMinimal)
  rcases hops with hstop | hops
  · exact .inl hstop
  · rcases hopt with hstop | hopt
    · exact .inl hstop
    · exact .inr ⟨hopt.symm.trans hops, hops⟩

end Runar.Peephole
