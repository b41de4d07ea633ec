/-
  Testing/PathExactness.lean --- the path of an execution.

  WHAT THIS FILE IS FOR.  Every execution of a script with balanced conditionals follows one of
  the paths that the analyser lists: the opcodes are those of the path.  The depth of the path is
  that of the execution only where the script has no conditional: the walk leaves the OP_IF and
  OP_NOTIF out, and with them the operand that each of them takes.
-/
import Runar.Logic.Nested
import Runar.Script.Nesting
import Runar.Testing.BranchBlocks

set_option autoImplicit false

namespace Runar.Testing

open Script Logic
open Artifact (opcodeByte)

/-! ## Executions -/

/-- What is executed of an opcode: conditionals only lead along the path. -/
def executedAt (m : Machine) (op : ParsedOpcode) : List ParsedOpcode :=
  if m.running && !m.returned && !isFlowControl op then [op] else []

/-- An execution of a script, with the opcodes that are executed. -/
inductive Executes (cfg : Config) :
    List ParsedOpcode → Machine → List ParsedOpcode → Machine → Prop
  | nil (m : Machine) : Executes cfg [] m [] m
  | cons {op : ParsedOpcode} {i : Instr} {script taken : List ParsedOpcode} {m m₁ m₂ : Machine}
      (reads : ReadsAs op i) (first : step cfg i m = .ok m₁)
      (rest : Executes cfg script m₁ taken m₂) :
      Executes cfg (op :: script) m (executedAt m op ++ taken) m₂

/-- The depth of the stack after an opcode does not depend on the data. -/
def StaticEffect (op : ParsedOpcode) : Prop :=
  ∀ code, ReadsAs op (.op code) → dependsOnData code = false

section Executions

variable {cfg : Config} {m m' : Machine} {taken : List ParsedOpcode}

/-- An execution is a run of the machine. -/
theorem Executes.run {script : List ParsedOpcode} (h : Executes cfg script m taken m') :
    ∃ is, List.Forall₂ ReadsAs script is ∧ Script.run cfg is m = .ok m' := by
  induction h with
  | nil m => exact ⟨[], .nil, rfl⟩
  | cons reads first _ ih =>
    obtain ⟨is, hreads, hrun⟩ := ih
    refine ⟨_ :: is, .cons reads hreads, ?_⟩
    rw [run_cons, first]
    exact hrun

theorem Executes.split {xs ys : List ParsedOpcode} (h : Executes cfg (xs ++ ys) m taken m') :
    ∃ m₁ taken₁ taken₂, Executes cfg xs m taken₁ m₁ ∧ Executes cfg ys m₁ taken₂ m' ∧
      taken = taken₁ ++ taken₂ := by
  induction xs generalizing m taken with
  | nil => exact ⟨m, [], taken, .nil m, h, rfl⟩
  | cons x xs ih =>
    rw [List.cons_append] at h
    cases h with
    | cons reads first rest =>
      obtain ⟨m₁, taken₁, taken₂, hxs, hys, rfl⟩ := ih rest
      exact ⟨m₁, _, taken₂, .cons reads first hxs, hys, (List.append_assoc _ _ _).symm⟩

/-- Behind a return nothing changes. -/
theorem Executes.not_returned {script : List ParsedOpcode} (h : Executes cfg script m taken m')
    (hend : m'.returned = false) : m.returned = false := by
  induction h with
  | nil m => exact hend
  | @cons op i script taken m m₁ m₂ _ first _ ih =>
    cases hret : m.returned with
    | false => rfl
    | true =>
      rw [step_returned hret] at first
      obtain rfl := Except.ok.inj first
      exact hret.symm.trans (ih hend)

end Executions

/-! ## One opcode -/

section Opcodes

variable {cfg : Config} {op : ParsedOpcode} {i : Instr} {m m₁ : Machine}

theorem readsAs_opening (h : ReadsAs op i) (hopens : opensBranch op = true) :
    i = .op .OP_IF ∨ i = .op .OP_NOTIF := by
  rw [opensBranch, Bool.or_eq_true, beq_iff_eq, beq_iff_eq] at hopens
  cases h with
  | push hopcode =>
    rcases hopens with heq | heq <;> exact absurd (heq ▸ hopcode.2) (by decide)
  | @op code hopcode =>
    rcases hopens with heq | heq
    · rw [heq] at hopcode
      cases code <;> first | exact .inl rfl | exact absurd hopcode (by decide)
    · rw [heq] at hopcode
      cases code <;> first | exact .inr rfl | exact absurd hopcode (by decide)
  | undefined hopcode =>
    rcases hopens with heq | heq <;> exact absurd (heq ▸ hopcode) (by decide)

theorem readsAs_middle (h : ReadsAs op i) (hturns : op.opcode = 0x67) : i = .op .OP_ELSE := by
  cases h with
  | push hopcode => exact absurd (hturns ▸ hopcode.2) (by decide)
  | @op code hopcode =>
    rw [hturns] at hopcode
    cases code <;> first | rfl | exact absurd hopcode (by decide)
  | undefined hopcode => exact absurd (hturns ▸ hopcode) (by decide)

theorem readsAs_closing (h : ReadsAs op i) (hcloses : op.opcode = 0x68) : i = .op .OP_ENDIF := by
  cases h with
  | push hopcode => exact absurd (hcloses ▸ hopcode.2) (by decide)
  | @op code hopcode =>
    rw [hcloses] at hopcode
    cases code <;> first | rfl | exact absurd hopcode (by decide)
  | undefined hopcode => exact absurd (hcloses ▸ hopcode) (by decide)

theorem conditional_of_plain {code : Script.Opcode} (h : ReadsAs op (.op code))
    (hplain : isFlowControl op = false) : conditional code = false := by
  cases h with
  | op hopcode =>
    rw [isFlowControl, opensBranch] at hplain
    simp only [Bool.or_eq_false_iff, beq_eq_false_iff_ne, ne_eq, ← UInt8.toNat_inj, hopcode]
      at hplain
    cases code <;> first | rfl | exact absurd hplain (by decide)
  | undefined => rfl

theorem executedAt_conditional (h : isFlowControl op = true) : executedAt m op = [] := by
  rw [executedAt, h, Bool.not_true, Bool.and_false]
  rfl

theorem executedAt_skipped (h : m.running = false) : executedAt m op = [] := by
  rw [executedAt, h, Bool.false_and]
  rfl

theorem executedAt_plain (hrun : m.running = true) (hret : m.returned = false)
    (h : isFlowControl op = false) : executedAt m op = [op] := by
  rw [executedAt, hrun, hret, h]
  rfl

theorem isFlowControl_opening (h : opensBranch op = true) : isFlowControl op = true := by
  rw [isFlowControl, h]
  rfl

theorem isFlowControl_middle (h : op.opcode = 0x67) : isFlowControl op = true := by
  rw [isFlowControl, h, beq_self_eq_true, Bool.or_true, Bool.true_or]

theorem isFlowControl_closing (h : op.opcode = 0x68) : isFlowControl op = true := by
  rw [isFlowControl, h, beq_self_eq_true, Bool.or_true]

/-- An executed opcode returns, or changes the depth as the table says, but for what the table
does not know of. -/
theorem step_executed (hreads : ReadsAs op i) (hplain : isFlowControl op = false)
    (hstatic : StaticEffect op) (hrun : m.running = true) (hret : m.returned = false)
    (h : step cfg i m = .ok m₁) :
    m₁.returned = true ∨ op.opcode ≠ 0x6a ∧ m₁.exec = m.exec ∧ m₁.returned = false ∧
      (m₁.main.length : Int) = m.main.length + (tableChange op - untold op) := by
  cases i with
  | raw span => cases hreads
  | push data =>
    right
    have hnot : op.opcode ≠ 0x6a := by
      cases hreads with
      | push hopcode => exact fun heq => absurd (heq ▸ hopcode.2) (by decide)
    rw [step_plain cfg rfl, if_pos ⟨hret, hrun⟩] at h
    obtain rfl := Except.ok.inj h
    refine ⟨hnot, rfl, hret, ?_⟩
    rw [tableChange_push hreads, Int.add_sub_cancel]
    exact Int.natCast_succ _
  | op code =>
    have hcond := conditional_of_plain hreads hplain
    by_cases hreturn : code = .OP_RETURN
    · subst hreturn
      left
      have hstep : step cfg (.op .OP_RETURN) m = .ok { m with returned := true } := by
        unfold step
        rw [hret, if_neg Bool.false_ne_true]
        exact if_pos hrun
      obtain rfl := Except.ok.inj (hstep.symm.trans h)
      rfl
    · right
      have hinstr : (Instr.op code).isPlain = true := by
        cases code <;> first | rfl | exact absurd hcond (by decide) | exact absurd rfl hreturn
      have hnot : op.opcode ≠ 0x6a := by
        intro heq
        cases hreads with
        | op hopcode =>
          rw [heq] at hopcode
          cases code <;> first | exact hreturn rfl | exact absurd hopcode (by decide)
        | undefined hopcode => exact absurd (heq ▸ hopcode) (by decide)
      rw [step_plain cfg hinstr, if_pos ⟨hret, hrun⟩, plainStep] at h
      cases hst : opcodeStep cfg code m.toStacks with
      | error e =>
        rw [hst] at h
        cases h
      | ok st =>
        rw [hst] at h
        obtain rfl := Except.ok.inj h
        refine ⟨hnot, rfl, hret, ?_⟩
        rw [tableChange_op hreads (hstatic code hreads) hcond, Int.add_sub_cancel]
        exact length_opcodeStep (hstatic code hreads) hst

/-- A conditional takes its operand and opens with its truth value. -/
theorem step_opening (hreads : ReadsAs op i) (hopens : opensBranch op = true)
    (hrun : m.running = true) (hret : m.returned = false) (h : step cfg i m = .ok m₁) :
    ∃ b, m₁.exec = b :: m.exec ∧ m₁.returned = false ∧
      (m₁.main.length : Int) = m.main.length - 1 := by
  have hopen {f : Bytes → Bool} (hf : openIf f m = .ok m₁) : ∃ b, m₁.exec = b :: m.exec ∧
      m₁.returned = false ∧ (m₁.main.length : Int) = m.main.length - 1 := by
    rw [openIf, if_pos hrun] at hf
    split at hf
    · next a s hmain =>
      obtain rfl := Except.ok.inj hf
      refine ⟨f a, rfl, hret, ?_⟩
      rw [hmain, List.length_cons]
      push_cast
      omega
    · cases hf
  unfold step at h
  rw [hret, if_neg Bool.false_ne_true] at h
  rcases readsAs_opening hreads hopens with rfl | rfl
  · exact hopen h
  · exact hopen h

/-- Where nothing is executed, a conditional opens as one that is not. -/
theorem step_opening_skipped (hreads : ReadsAs op i) (hopens : opensBranch op = true)
    (hrun : m.running = false) (hret : m.returned = false) (h : step cfg i m = .ok m₁) :
    m₁ = { m with exec := false :: m.exec } := by
  have hopen {f : Bytes → Bool} (hf : openIf f m = .ok m₁) :
      m₁ = { m with exec := false :: m.exec } := by
    rw [openIf, hrun, if_neg Bool.false_ne_true] at hf
    exact (Except.ok.inj hf).symm
  unfold step at h
  rw [hret, if_neg Bool.false_ne_true] at h
  rcases readsAs_opening hreads hopens with rfl | rfl
  · exact hopen h
  · exact hopen h

theorem step_middle (hreads : ReadsAs op i) (hturns : op.opcode = 0x67)
    (hret : m.returned = false) {b : Bool} {e : List Bool} (hexec : m.exec = b :: e)
    (h : step cfg i m = .ok m₁) : m₁ = { m with exec := (!b) :: e } := by
  rw [readsAs_middle hreads hturns] at h
  unfold step at h
  rw [hret, if_neg Bool.false_ne_true] at h
  dsimp only at h
  rw [hexec] at h
  rw [hret]
  exact (Except.ok.inj h).symm

theorem step_closing (hreads : ReadsAs op i) (hcloses : op.opcode = 0x68)
    (hret : m.returned = false) {b : Bool} {e : List Bool} (hexec : m.exec = b :: e)
    (h : step cfg i m = .ok m₁) : m₁ = { m with exec := e } := by
  rw [readsAs_closing hreads hcloses] at h
  unfold step at h
  rw [hret, if_neg Bool.false_ne_true] at h
  dsimp only at h
  rw [hexec] at h
  rw [hret]
  exact (Except.ok.inj h).symm

theorem step_skipped_op (hreads : ReadsAs op i) (hplain : isFlowControl op = false)
    (hrun : m.running = false) (hret : m.returned = false) (h : step cfg i m = .ok m₁) :
    m₁ = m := by
  have hnot : ¬ (m.returned = false ∧ m.running = true) := by
    rw [hrun]
    exact fun hboth => Bool.false_ne_true hboth.2
  cases i with
  | raw span => cases hreads
  | push data =>
    rw [step_plain cfg rfl, if_neg hnot] at h
    exact (Except.ok.inj h).symm
  | op code =>
    have hcond := conditional_of_plain hreads hplain
    by_cases hreturn : code = .OP_RETURN
    · subst hreturn
      have hstep : step cfg (.op .OP_RETURN) m = .ok m := by
        unfold step
        rw [hret, if_neg Bool.false_ne_true]
        exact if_neg (by rw [hrun]; exact Bool.false_ne_true)
      exact (Except.ok.inj (hstep.symm.trans h)).symm
    · have hinstr : (Instr.op code).isPlain = true := by
        cases code <;> first | rfl | exact absurd hcond (by decide) | exact absurd rfl hreturn
      rw [step_plain cfg hinstr, if_neg hnot] at h
      exact (Except.ok.inj h).symm

end Opcodes

/-! ## A block -/

section Blocks

variable {cfg : Config} {op : ParsedOpcode} {script : List ParsedOpcode} {m m' : Machine}
  {taken : List ParsedOpcode} {b : Bool} {e : List Bool}

theorem executes_closing (h : Executes cfg (op :: script) m taken m')
    (hcloses : op.opcode = 0x68) (hexec : m.exec = b :: e) (hret : m.returned = false) :
    Executes cfg script { m with exec := e } taken m' := by
  cases h with
  | cons reads first rest =>
    rw [executedAt_conditional (isFlowControl_closing hcloses), List.nil_append]
    exact step_closing reads hcloses hret hexec first ▸ rest

theorem executes_middle (h : Executes cfg (op :: script) m taken m') (hturns : op.opcode = 0x67)
    (hexec : m.exec = b :: e) (hret : m.returned = false) :
    Executes cfg script { m with exec := (!b) :: e } taken m' := by
  cases h with
  | cons reads first rest =>
    rw [executedAt_conditional (isFlowControl_middle hturns), List.nil_append]
    exact step_middle reads hturns hret hexec first ▸ rest

theorem executes_opening_skipped (hopens : opensBranch op = true) (hrun : m.running = false)
    (hret : m.returned = false) (h : Executes cfg (op :: script) m taken m') :
    Executes cfg script { m with exec := false :: m.exec } taken m' := by
  cases h with
  | cons reads first rest =>
    rw [executedAt_conditional (isFlowControl_opening hopens), List.nil_append]
    exact step_opening_skipped reads hopens hrun hret first ▸ rest

theorem executes_opening (hopens : opensBranch op = true) (hrun : m.running = true)
    (hret : m.returned = false) (h : Executes cfg (op :: script) m taken m') :
    ∃ b m₁, m₁.exec = b :: m.exec ∧ m₁.returned = false ∧
      (m₁.main.length : Int) = m.main.length - 1 ∧ Executes cfg script m₁ taken m' := by
  cases h with
  | cons reads first rest =>
    obtain ⟨b, hexec, hreturned, hlength⟩ := step_opening reads hopens hrun hret first
    rw [executedAt_conditional (isFlowControl_opening hopens), List.nil_append]
    exact ⟨b, _, hexec, hreturned, hlength, rest⟩

theorem running_deeper (hexec : e.all id = false) (b : Bool) : (b :: e).all id = false := by
  rw [List.all_cons, hexec, Bool.and_false]

/-- A block that is not executed leaves the machine as it is. -/
theorem executes_skipped {block : Block} (h : Executes cfg block.opcodes m taken m')
    (hrun : m.exec.all id = false) (hret : m.returned = false) : m' = m ∧ taken = [] := by
  induction block generalizing m taken m' with
  | done =>
    cases h
    exact ⟨rfl, rfl⟩
  | op o plain rest ih =>
    cases h with
    | cons reads first hrest =>
      obtain rfl := step_skipped_op reads plain hrun hret first
      obtain ⟨rfl, rfl⟩ := ih hrest hrun hret
      rw [executedAt_skipped hrun]
      exact ⟨rfl, rfl⟩
  | oneArm opening opens arm closing closes rest iharm ihrest =>
    obtain ⟨m₂, taken₁, taken₂, harm, hend, rfl⟩ :=
      (executes_opening_skipped opens hrun hret h).split
    obtain ⟨rfl, rfl⟩ := iharm harm (running_deeper hrun false) hret
    have hrest := executes_closing hend closes rfl hret
    exact ihrest hrest hrun hret
  | twoArms opening opens arm middle turns other closing closes rest iharm ihother ihrest =>
    obtain ⟨m₂, taken₁, taken₂, harm, hmiddle, rfl⟩ :=
      (executes_opening_skipped opens hrun hret h).split
    obtain ⟨rfl, rfl⟩ := iharm harm (running_deeper hrun false) hret
    obtain ⟨m₃, taken₃, taken₄, hother, hend, rfl⟩ :=
      (executes_middle hmiddle turns rfl hret).split
    obtain ⟨rfl, rfl⟩ := ihother hother (running_deeper hrun true) hret
    have hrest := executes_closing hend closes rfl hret
    exact ihrest hrest hrun hret

/-- What an execution that reaches the end of a block has followed: the choices at the
conditionals it met, and a depth that has changed as the table says for the opcodes taken, but
for what the table does not know of and the operands of those conditionals. -/
structure Follows (block : Block) (m : Machine) (taken : List ParsedOpcode) (m' : Machine) :
    Prop where
  exec : m'.exec = m.exec
  noReturn : ∀ op ∈ taken, op.opcode ≠ 0x6a
  choices : ∃ choices, block.Takes choices taken ∧ (m'.main.length : Int) = m.main.length +
    ((taken.map tableChange).sum - (taken.map untold).sum) - choices.length

theorem noReturn_append {xs ys : List ParsedOpcode} (hxs : ∀ op ∈ xs, op.opcode ≠ 0x6a)
    (hys : ∀ op ∈ ys, op.opcode ≠ 0x6a) : ∀ op ∈ xs ++ ys, op.opcode ≠ 0x6a :=
  List.forall_mem_append.mpr ⟨hxs, hys⟩

/-- The depth after two parts, the first behind a conditional. -/
theorem depth_append {xs ys : List ParsedOpcode} {d d₁ d₂ d₃ : Int} {choices choices' : List Bool}
    (hopen : d₁ = d - 1)
    (hfirst : d₂ = d₁ + ((xs.map tableChange).sum - (xs.map untold).sum) - choices.length)
    (hsecond : d₃ = d₂ + ((ys.map tableChange).sum - (ys.map untold).sum) - choices'.length)
    (first : Bool) :
    d₃ = d + (((xs ++ ys).map tableChange).sum - ((xs ++ ys).map untold).sum) -
      (first :: (choices ++ choices')).length := by
  simp only [List.map_append, List.sum_append, List.length_cons, List.length_append]
  push_cast
  omega

/-- An execution that reaches the end of a block follows the choices at its conditionals. -/
theorem follows_block {block : Block} (h : Executes cfg block.opcodes m taken m')
    (hstatic : ∀ op ∈ block.opcodes, StaticEffect op) (hrun : m.exec.all id = true)
    (hret : m.returned = false) (hend : m'.returned = false) : Follows block m taken m' := by
  induction block generalizing m taken m' with
  | done =>
    cases h
    refine ⟨rfl, fun _ h => (nomatch h), [], .done, ?_⟩
    simp
  | op o plain rest ih =>
    obtain ⟨ho, hstatic⟩ := List.forall_mem_cons.mp hstatic
    cases h with
    | @cons _ i _ taken _ m₁ _ reads first hrest =>
      have hnext := hrest.not_returned hend
      rcases step_executed reads plain ho hrun hret first with hreturned |
        ⟨hnot, hexec, hreturned, hlength⟩
      · exact absurd (hreturned.symm.trans hnext) (by decide)
      obtain ⟨hexec', hnone, choices, htakes, hdepth⟩ := ih hrest hstatic (hexec ▸ hrun) hnext hend
      rw [executedAt_plain hrun hret plain]
      refine ⟨hexec'.trans hexec, List.forall_mem_cons.mpr ⟨hnot, hnone⟩, choices, .op htakes, ?_⟩
      simp only [List.singleton_append, List.map_cons, List.sum_cons]
      omega
  | oneArm opening opens arm closing closes rest iharm ihrest =>
    obtain ⟨-, hstatic⟩ := List.forall_mem_cons.mp hstatic
    obtain ⟨hstaticArm, hstatic⟩ := List.forall_mem_append.mp hstatic
    have hstaticRest := (List.forall_mem_cons.mp hstatic).2
    obtain ⟨b, m₁, hexec, hreturned, hopen, hbody⟩ := executes_opening opens hrun hret h
    obtain ⟨m₂, taken₁, taken₂, harm, hclosing, rfl⟩ := hbody.split
    have hnot := hclosing.not_returned hend
    cases b with
    | true =>
      obtain ⟨hexec', hnone, choices, htakes, hdepth⟩ :=
        iharm harm hstaticArm (by rw [hexec]; exact hrun) hreturned hnot
      have hrest := executes_closing hclosing closes (hexec'.trans hexec) hnot
      obtain ⟨hexec'', hnone', choices', htakes', hdepth'⟩ :=
        ihrest hrest hstaticRest hrun hnot hend
      exact ⟨hexec'', noReturn_append hnone hnone', _, .inside htakes htakes',
        depth_append hopen hdepth hdepth' true⟩
    | false =>
      obtain ⟨rfl, rfl⟩ := executes_skipped harm (by rw [hexec]; rfl) hreturned
      have hrest := executes_closing hclosing closes hexec hnot
      obtain ⟨hexec'', hnone', choices', htakes', hdepth'⟩ :=
        ihrest hrest hstaticRest hrun hnot hend
      have hfirst : (m₂.main.length : Int) = m₂.main.length +
          ((([] : List ParsedOpcode).map tableChange).sum -
            (([] : List ParsedOpcode).map untold).sum) - ([] : List Bool).length := by simp
      exact ⟨hexec'', hnone', _, .past htakes', depth_append hopen hfirst hdepth' false⟩
  | twoArms opening opens arm middle turns other closing closes rest iharm ihother ihrest =>
    obtain ⟨-, hstatic⟩ := List.forall_mem_cons.mp hstatic
    obtain ⟨hstaticArm, hstatic⟩ := List.forall_mem_append.mp hstatic
    obtain ⟨hstaticOther, hstatic⟩ :=
      List.forall_mem_append.mp (List.forall_mem_cons.mp hstatic).2
    have hstaticRest := (List.forall_mem_cons.mp hstatic).2
    obtain ⟨b, m₁, hexec, hreturned, hopen, hbody⟩ := executes_opening opens hrun hret h
    obtain ⟨m₂, taken₁, taken₂, harm, hmiddle, rfl⟩ := hbody.split
    have hnot := hmiddle.not_returned hend
    cases b with
    | true =>
      obtain ⟨hexec', hnone, choices, htakes, hdepth⟩ :=
        iharm harm hstaticArm (by rw [hexec]; exact hrun) hreturned hnot
      obtain ⟨m₃, taken₃, taken₄, hother, hclosing, rfl⟩ :=
        (executes_middle hmiddle turns (hexec'.trans hexec) hnot).split
      obtain ⟨rfl, rfl⟩ := executes_skipped hother rfl hnot
      have hrest := executes_closing hclosing closes rfl hnot
      obtain ⟨hexec'', hnone', choices', htakes', hdepth'⟩ :=
        ihrest hrest hstaticRest hrun hnot hend
      exact ⟨hexec'', noReturn_append hnone hnone', _, .first htakes htakes',
        depth_append hopen hdepth hdepth' true⟩
    | false =>
      obtain ⟨rfl, rfl⟩ := executes_skipped harm (by rw [hexec]; rfl) hreturned
      obtain ⟨m₃, taken₃, taken₄, hother, hclosing, rfl⟩ :=
        (executes_middle hmiddle turns hexec hnot).split
      have hnot' := hclosing.not_returned hend
      obtain ⟨hexec', hnone, choices, htakes, hdepth⟩ :=
        ihother hother hstaticOther hrun hnot hnot'
      have hrest := executes_closing hclosing closes hexec' hnot'
      obtain ⟨hexec'', hnone', choices', htakes', hdepth'⟩ :=
        ihrest hrest hstaticRest hrun hnot' hend
      rw [List.nil_append]
      exact ⟨hexec'', noReturn_append hnone hnone', _, .second htakes htakes',
        depth_append hopen hdepth hdepth' false⟩

end Blocks

/-! ## The paths that are listed -/

section Listed

variable {block : Block} {taken : List ParsedOpcode}

theorem forall₂_of_mapM_some {α β : Type} {f : α → Option β} {xs : List α} {ys : List β}
    (h : xs.mapM f = some ys) : List.Forall₂ (fun x y => f x = some y) xs ys := by
  induction xs generalizing ys with
  | nil =>
    cases h
    exact .nil
  | cons x xs ih =>
    rw [List.mapM_cons] at h
    obtain ⟨y, hy, h⟩ := Option.bind_eq_some_iff.mp h
    obtain ⟨rest, hrest, h⟩ := Option.bind_eq_some_iff.mp h
    cases h
    exact .cons hy (ih hrest)

/-- The paths of an analysis have each the depth that the effects of its opcodes add up to. -/
def Adds (script : List ParsedOpcode) (path : ExecutionPath) : Prop :=
  ∃ taken, pathOpcodes script path.branchChoices = some taken ∧
    path.stackDepthAtEnd = (analyzeStackLinear taken 0).depth

theorem adds_of_branchingPath {script : List ParsedOpcode} {combo : Nat}
    {each : ExecutionPath × List AnalysisFinding} (h : branchingPath script combo = some each) :
    Adds script each.1 ∧ each.1.branchChoices = choicesOf (countBranchPoints script) combo := by
  obtain ⟨taken, htaken, rfl⟩ := Option.map_eq_some_iff.mp h
  exact ⟨⟨taken, htaken, rfl⟩, rfl⟩

/-- The analysis of a block ends, each path has its depth, and with eight conditionals at most
every way through the block is listed. -/
theorem analyzePaths_block (block : Block) :
    ∃ analysis, analyzePaths block.opcodes = some analysis ∧
      (∀ path ∈ analysis.paths, Adds block.opcodes path) ∧
      (countBranchPoints block.opcodes ≤ 8 → ∀ choices taken, block.Takes choices taken →
        ∃ path ∈ analysis.paths, pathOpcodes block.opcodes path.branchChoices = some taken) := by
  rw [analyzePaths, buildBranchStructure_block]
  dsimp only
  rw [List.any_nil, if_neg Bool.false_ne_true]
  split
  · next hzero =>
    have hnone {choices : List Bool} {taken : List ParsedOpcode} (h : block.Takes choices taken) :
        pathOpcodes block.opcodes [] = some taken := by
      have hlength := h.length_le
      rw [hzero, Nat.le_zero, List.length_eq_zero_iff] at hlength
      subst hlength
      exact pathOpcodes_block h []
    obtain ⟨choices, taken, more, htakes, -⟩ := @exists_takes block [] (Nat.le_of_eq hzero)
    rw [hnone htakes]
    refine ⟨_, rfl, fun path hpath => ?_, fun _ choices' taken' htakes' => ?_⟩
    · rw [List.mem_singleton.mp hpath]
      exact ⟨taken, hnone htakes, rfl⟩
    · exact ⟨_, List.mem_singleton_self _, hnone htakes'⟩
  · have hsome : (List.range (totalCombinations (countBranchPoints block.opcodes))).mapM
        (branchingPath block.opcodes) ≠ none := by
      intro hnone
      obtain ⟨combo, -, hcombo⟩ := Nested.mapM_eq_none_iff.mp hnone
      have hlength : (choicesOf (countBranchPoints block.opcodes) combo).length =
          countBranchPoints block.opcodes := by
        rw [choicesOf, List.length_map, List.length_range]
      obtain ⟨choices, taken, more, htakes, hall⟩ := exists_takes block (Nat.le_of_eq hlength.symm)
      have hpath := pathOpcodes_block htakes more
      rw [branchingPath, Option.map_eq_none_iff, hall, hpath] at hcombo
      cases hcombo
    obtain ⟨each, heach⟩ := Option.ne_none_iff_exists'.mp hsome
    have hpaths := forall₂_of_mapM_some heach
    rw [heach]
    refine ⟨_, rfl, fun path hpath => ?_, fun height choices taken htakes => ?_⟩
    · obtain ⟨pair, hpair, rfl⟩ := List.mem_map.mp hpath
      obtain ⟨combo, -, hcombo⟩ := exists_of_forall₂ hpaths.flip hpair
      exact (adds_of_branchingPath hcombo).1
    · -- the choices that are left are decided one way or the other
      obtain ⟨combo, hcombo, hbits⟩ := exists_choicesOf (Nat.le_trans height (by decide))
        (show (choices ++ List.replicate
          (countBranchPoints block.opcodes - choices.length) false).length = _ by
          rw [List.length_append, List.length_replicate,
            Nat.add_sub_cancel' htakes.length_le])
      have hpow : 2 ^ countBranchPoints block.opcodes ≤ 256 :=
        Nat.pow_le_pow_right (show 0 < 2 by decide) height
      have hrange : combo < totalCombinations (countBranchPoints block.opcodes) := by
        rw [totalCombinations, if_pos (by omega), MAX_PATHS, Nat.min_eq_left hpow]
        exact hcombo
      obtain ⟨pair, hpair, hof⟩ := exists_of_forall₂ hpaths (List.mem_range.mpr hrange)
      refine ⟨pair.1, List.mem_map_of_mem hpair, ?_⟩
      rw [(adds_of_branchingPath hof).2, hbits]
      exact pathOpcodes_block htakes _

/-- The analysis lists a path with these opcodes and this depth at its end. -/
def Lists (script taken : List ParsedOpcode) (change : Int) : Prop :=
  ∃ analysis, analyzePaths script = some analysis ∧ ∃ path ∈ analysis.paths,
    pathOpcodes script path.branchChoices = some taken ∧ path.stackDepthAtEnd = change

/-- No conditional, and no opcode that the table of effects leaves out. -/
def Told (script : List ParsedOpcode) : Prop :=
  ∀ op ∈ script, opensBranch op = false ∧ untold op = 0

/-- The only depth that is listed for opcodes without a return is the sum of their effects. -/
theorem lists_iff (hcount : countBranchPoints block.opcodes ≤ 8) {choices : List Bool}
    (htakes : block.Takes choices taken) (hnone : ∀ op ∈ taken, op.opcode ≠ 0x6a) {change : Int} :
    Lists block.opcodes taken change ↔ change = (taken.map tableChange).sum := by
  obtain ⟨analysis, hanalysis, hadds, hall⟩ := analyzePaths_block block
  constructor
  · rintro ⟨analysis', hanalysis', path, hpath, htaken, rfl⟩
    obtain rfl := Option.some.inj (hanalysis.symm.trans hanalysis')
    obtain ⟨taken', htaken', hdepth⟩ := hadds path hpath
    obtain rfl := Option.some.inj (htaken.symm.trans htaken')
    rw [hdepth, depth_analyzeStackLinear hnone]
  · rintro rfl
    obtain ⟨path, hpath, htaken⟩ := hall hcount choices taken htakes
    refine ⟨analysis, hanalysis, path, hpath, htaken, ?_⟩
    obtain ⟨taken', htaken', hdepth⟩ := hadds path hpath
    obtain rfl := Option.some.inj (htaken.symm.trans htaken')
    rw [hdepth, depth_analyzeStackLinear hnone]

theorem sum_untold_nonneg (taken : List ParsedOpcode) : 0 ≤ (taken.map untold).sum :=
  List.sum_nonneg fun x hx => by
    obtain ⟨op, -, rfl⟩ := List.mem_map.mp hx
    exact untold_nonneg op

theorem sum_untold_eq_zero_iff : (taken.map untold).sum = 0 ↔ ∀ op ∈ taken, untold op = 0 := by
  induction taken with
  | nil => exact ⟨fun _ _ h => (nomatch h), fun _ => rfl⟩
  | cons op taken ih =>
    have hop := untold_nonneg op
    have hrest := sum_untold_nonneg taken
    rw [List.map_cons, List.sum_cons, List.forall_mem_cons, ← ih]
    omega

/-- A way through a block meets no conditional exactly where the block has none, and then takes
all of its opcodes. -/
theorem takes_told_iff {choices : List Bool} (h : block.Takes choices taken) :
    (choices = [] ∧ ∀ op ∈ taken, untold op = 0) ↔ Told block.opcodes := by
  induction h with
  | done => exact ⟨fun _ _ h => (nomatch h), fun _ => ⟨rfl, fun _ h => (nomatch h)⟩⟩
  | @op o plain rest choices taken _ ih =>
    have hopens : opensBranch o = false := by
      rw [isFlowControl, Bool.or_eq_false_iff, Bool.or_eq_false_iff] at plain
      exact plain.1.1
    rw [Told, Block.opcodes, List.forall_mem_cons, List.forall_mem_cons, hopens, and_left_comm]
    exact and_congr ⟨fun hzero => ⟨rfl, hzero⟩, fun hboth => hboth.2⟩ ih
  | @inside _ _ opens | @past _ _ opens | @first _ _ _ opens | @second _ _ _ opens =>
    refine ⟨fun hnone => absurd hnone.1 (List.cons_ne_nil _ _), fun htold => ?_⟩
    have hopens := (htold _ List.mem_cons_self).1
    exact absurd (opens.symm.trans hopens) (by decide)

/-- An execution that reaches the end follows a listed path, and the depth of the path is right
exactly where the script has no conditional and no opcode without an entry. -/
theorem analyzesExecution_iff (block : Block) (hcount : countBranchPoints block.opcodes ≤ 8)
    (hstatic : ∀ op ∈ block.opcodes, StaticEffect op) {cfg : Config} {main alt : List Bytes}
    {m : Machine} (h : Executes cfg block.opcodes (.start main alt) taken m)
    (hend : m.returned = false) :
    (∃ change, Lists block.opcodes taken change) ∧
      (Lists block.opcodes taken (m.main.length - main.length) ↔ Told block.opcodes) := by
  obtain ⟨-, hnone, choices, htakes, hdepth⟩ := follows_block h hstatic rfl rfl hend
  have hlists := @lists_iff block taken hcount choices htakes hnone
  refine ⟨⟨_, hlists.mpr rfl⟩, ?_⟩
  have huntold := sum_untold_nonneg taken
  rw [hlists, ← takes_told_iff htakes, ← sum_untold_eq_zero_iff, ← List.length_eq_zero_iff, hdepth]
  show (main.length : Int) + _ - _ - main.length = _ ↔ _
  omega

end Listed

/-! ## Two scripts -/

/-- A machine with no hashes and signatures of its own. -/
def bareConfig : Config :=
  ⟨fun _ => false, id, id, id, fun _ _ => true, fun _ _ => true, fun _ m => .ok m⟩

def opcodeAt (offset : Int) (opcode : UInt8) : ParsedOpcode :=
  { offset, opcode, name := opcodeName opcode, size := 1 }

theorem readsAs_opcodeAt {offset : Int} {opcode : UInt8} {code : Script.Opcode}
    (h : opcode.toNat = opcodeByte code) (hhigh : 0x60 < opcodeByte code) :
    ReadsAs (opcodeAt offset opcode) (.op code) :=
  .op h (by rw [decide_eq_false (Nat.not_le.mpr hhigh)]; rfl)

theorem staticEffect_opcodeAt {offset : Int} {opcode : UInt8}
    (h : opcode.toNat ≠ 0x73 ∧ opcode.toNat ≠ 0xae ∧ opcode.toNat ≠ 0xaf) :
    StaticEffect (opcodeAt offset opcode) := by
  intro code hreads
  cases hreads with
  | op hopcode =>
    rw [show (opcodeAt offset opcode).opcode = opcode from rfl] at hopcode
    rw [hopcode] at h
    cases code <;> first | rfl | exact absurd h (by decide)
  | undefined => rfl

/-- OP_DUP. -/
def duplicate : Block := .op (opcodeAt 0 0x76) rfl .done

theorem duplicate_lists :
    Lists duplicate.opcodes [opcodeAt 0 0x76] (([[1], [1]] : List Bytes).length - 1) :=
  (analyzesExecution_iff duplicate (by decide)
    (List.forall_mem_singleton.mpr (staticEffect_opcodeAt (by decide)))
    (.cons (readsAs_opcodeAt rfl (by decide)) (show step bareConfig (.op .OP_DUP)
      (.start [[1]] []) = .ok (.start [[1], [1]] []) from rfl) (.nil _)) rfl).2.mpr
    (List.forall_mem_singleton.mpr ⟨rfl, rfl⟩)

/-- OP_IF OP_ENDIF. -/
def emptyArm : Block := .oneArm (opcodeAt 0 0x63) rfl .done (opcodeAt 1 0x68) rfl .done

/-- The operand of the OP_IF is not in the depth of either path. -/
theorem emptyArm_not_lists : ¬ ∀ (block : Block), countBranchPoints block.opcodes ≤ 8 →
    (∀ op ∈ block.opcodes, StaticEffect op) → ∀ (cfg : Config) (main alt : List Bytes)
      (taken : List ParsedOpcode) (m : Machine), Executes cfg block.opcodes (.start main alt) taken m →
      m.returned = false → Lists block.opcodes taken (m.main.length - main.length) := by
  intro h
  have hrun : Executes bareConfig emptyArm.opcodes (.start [[1]] []) [] (.start [] []) :=
    .cons (@readsAs_opcodeAt 0 0x63 .OP_IF rfl (by decide)) rfl
      (.cons (@readsAs_opcodeAt 1 0x68 .OP_ENDIF rfl (by decide)) rfl (.nil _))
  have hlists := h emptyArm (by decide) (List.forall_mem_cons.mpr
    ⟨staticEffect_opcodeAt (by decide), List.forall_mem_singleton.mpr
      (staticEffect_opcodeAt (by decide))⟩) bareConfig [[1]] [] [] _ hrun rfl
  have hsum := (lists_iff (by decide) (.inside .done .done) (fun _ h => nomatch h)).mp hlists
  exact absurd hsum (by decide)

end Runar.Testing
