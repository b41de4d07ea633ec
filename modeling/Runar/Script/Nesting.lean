/-
  Script/Nesting.lean --- code whose conditionals are balanced.

  WHAT THIS FILE IS FOR.  Compiled code opens and closes its conditionals opcode by
  opcode, and a raw span may hold conditional opcodes too.  What matters of such code is
  that it is balanced: then it is skipped as a whole where the machine skips, and where
  the machine executes it does what it does outside every conditional.  A raw span is
  read as the instructions it consists of.
-/
import Runar.Script.Block

set_option autoImplicit false

namespace Runar.Script

/-! ## Counting conditionals -/

/-- How many conditionals are open after an instruction, out of those opened here. -/
def nest : Instr → Nat → Option Nat
  | .op .OP_IF, d | .op .OP_NOTIF, d => some (d + 1)
  | .op .OP_ELSE, 0 | .op .OP_ENDIF, 0 => none
  | .op .OP_ENDIF, d + 1 => some d
  | _, d => some d

/-- The same after a list of instructions. -/
def nesting : Nat → List Instr → Option Nat
  | d, [] => some d
  | d, i :: is => (nest i d).bind fun d' => nesting d' is

/-- A reading of raw spans as instructions. -/
structure SpanReader (cfg : Config) where
  read : Bytes → List Instr
  noRaw : ∀ span i, i ∈ read span → ∀ span', i ≠ .raw span'
  raw_eq : ∀ span m, m.returned = false → cfg.raw span m = run cfg (read span) m

/-- An instruction, read if it is a raw span. -/
def SpanReader.instrs {cfg : Config} (reader : SpanReader cfg) : Instr → List Instr
  | .raw span => reader.read span
  | i => [i]

/-- The instructions with the raw spans read. -/
def SpanReader.expand {cfg : Config} (reader : SpanReader cfg) (is : List Instr) : List Instr :=
  is.flatMap reader.instrs

/-- Every conditional that is opened is closed, and no other. -/
def Balanced {cfg : Config} (reader : SpanReader cfg) (is : List Instr) : Prop :=
  nesting 0 (reader.expand is) = some 0

instance {cfg : Config} (reader : SpanReader cfg) (is : List Instr) :
    Decidable (Balanced reader is) :=
  inferInstanceAs (Decidable (_ = _))

/-- The machine inside more conditionals. -/
def Machine.within (outer : List Bool) (m : Machine) : Machine :=
  { m with exec := m.exec ++ outer }

section Frames

variable {cfg : Config} {outer : List Bool}

@[simp] theorem Machine.within_nil (m : Machine) : m.within [] = m := by
  simp [Machine.within]

theorem Machine.running_within (m : Machine) :
    (m.within outer).running = (m.running && outer.all id) := by
  simp [Machine.within, Machine.running, List.all_append]

theorem step_returned {i : Instr} {m : Machine} (h : m.returned = true) :
    step cfg i m = .ok m := if_pos h

theorem run_returned {is : List Instr} {m : Machine} (h : m.returned = true) :
    run cfg is m = .ok m := by
  induction is with
  | nil => rfl
  | cons i is ih =>
    rw [run_cons, step_returned h]
    exact ih

/-- An instruction that neither opens nor closes a conditional. -/
theorem nest_plain {i : Instr} (h : i.isPlain = true) (d : Nat) : nest i d = some d := by
  cases i with
  | push _ => rfl
  | raw _ => rfl
  | op code => cases code <;> first | rfl | exact Bool.noConfusion h

/-! ## One instruction -/

/-- What an instruction does at a given depth, inside conditionals that are all executed:
what it does outside them. -/
structure StepsWithin (cfg : Config) (i : Instr) (d' : Nat) (outer : List Bool)
    (m : Machine) : Prop where
  frame : step cfg i (m.within outer) = (step cfg i m).map (·.within outer)
  depth : ∀ m', step cfg i m = .ok m' → m'.returned = false → m'.exec.length = d'

theorem stepsWithin_plain {i : Instr} (h : i.isPlain = true) (hall : outer.all id = true)
    (m : Machine) : StepsWithin cfg i m.exec.length outer m where
  frame := by
    have hret : (m.within outer).returned = m.returned := rfl
    rw [step_plain cfg h, step_plain cfg h, Machine.running_within, hall, Bool.and_true, hret]
    by_cases hm : m.returned = false ∧ m.running = true
    · rw [if_pos hm, if_pos hm]
      cases hst : plainStep cfg i m.toStacks with
      | error e => simp [Machine.within, hst]
      | ok st => simp [Machine.within, hst, Machine.withStacks]
    · rw [if_neg hm, if_neg hm]
      rfl
  depth := by
    intro m' hm' _
    rw [step_plain cfg h] at hm'
    split at hm'
    · cases hst : plainStep cfg i m.toStacks with
      | error e =>
        rw [hst] at hm'
        cases hm'
      | ok st =>
        rw [hst] at hm'
        cases hm'
        rfl
    · cases hm'
      rfl

theorem stepsWithin_open {f : Bytes → Bool} {code : Opcode}
    (hcode : ∀ m : Machine, m.returned = false → step cfg (.op code) m = openIf f m)
    (hall : outer.all id = true) {m : Machine} (hret : m.returned = false) :
    StepsWithin cfg (.op code) (m.exec.length + 1) outer m where
  frame := by
    have hret' : (m.within outer).returned = false := hret
    rw [hcode _ hret', hcode m hret]
    unfold openIf
    rw [Machine.running_within, hall, Bool.and_true]
    split
    · have hmain : (m.within outer).main = m.main := rfl
      rw [hmain]
      cases m.main <;> rfl
    · rfl
  depth := by
    intro m' hm' _
    rw [hcode m hret] at hm'
    unfold openIf at hm'
    split at hm'
    · split at hm'
      · cases hm'
        rfl
      · cases hm'
    · cases hm'
      rfl

/-- An instruction inside conditionals that are executed. -/
theorem stepsWithin {i : Instr} {d d' : Nat} (hraw : ∀ span, i ≠ .raw span)
    (hnest : nest i d = some d') (hall : outer.all id = true) {m : Machine}
    (hret : m.returned = false) (hd : m.exec.length = d) : StepsWithin cfg i d' outer m := by
  subst hd
  by_cases hplain : i.isPlain = true
  · rw [nest_plain hplain] at hnest
    cases hnest
    exact stepsWithin_plain hplain hall m
  · cases i with
    | push data => exact absurd rfl hplain
    | raw span => exact absurd rfl (hraw span)
    | op code =>
      cases code with
      | OP_IF =>
        cases hnest
        refine stepsWithin_open (f := isTruthy) (fun m h => ?_) hall hret
        unfold step
        rw [h]
        rfl
      | OP_NOTIF =>
        cases hnest
        refine stepsWithin_open (f := fun a => !isTruthy a) (fun m h => ?_) hall hret
        unfold step
        rw [h]
        rfl
      | OP_ELSE =>
        obtain ⟨st, exec, returned⟩ := m
        cases exec with
        | nil => cases hnest
        | cons b e =>
          cases hnest
          cases hret
          exact ⟨rfl, by rintro _ ⟨⟩ _; rfl⟩
      | OP_ENDIF =>
        obtain ⟨st, exec, returned⟩ := m
        cases exec with
        | nil => cases hnest
        | cons b e =>
          cases hnest
          cases hret
          exact ⟨rfl, by rintro _ ⟨⟩ _; rfl⟩
      | OP_RETURN =>
        cases hnest
        have hreturn : ∀ m : Machine, m.returned = false → step cfg (.op .OP_RETURN) m =
            if m.running then .ok { m with returned := true } else .ok m := by
          intro m h
          unfold step
          rw [h]
          rfl
        refine ⟨?_, ?_⟩
        · have hret' : (m.within outer).returned = false := hret
          rw [hreturn _ hret', hreturn _ hret, Machine.running_within, hall, Bool.and_true]
          split <;> rfl
        · intro m' hm' hret'
          rw [hreturn _ hret] at hm'
          split at hm'
          · cases hm'
            cases hret'
          · cases hm'
            rfl
      | _ => exact absurd rfl hplain

/-- An instruction inside a conditional that is skipped only counts conditionals. -/
theorem step_skipped (cfg : Config) {i : Instr} {d d' : Nat} (hraw : ∀ span, i ≠ .raw span)
    (hnest : nest i d = some d') (hall : outer.all id = false) {m : Machine}
    (hret : m.returned = false) (hd : m.exec.length = d) :
    ∃ e : List Bool, e.length = d' ∧
      step cfg i (m.within outer) = .ok (({ m with exec := e } : Machine).within outer) := by
  subst hd
  have hrun : (m.within outer).running = false := by
    rw [Machine.running_within, hall, Bool.and_false]
  by_cases hplain : i.isPlain = true
  · rw [nest_plain hplain] at hnest
    cases hnest
    refine ⟨m.exec, rfl, ?_⟩
    rw [step_plain cfg hplain, if_neg (by rw [hrun]; rintro ⟨_, ⟨⟩⟩)]
  · have hret' : (m.within outer).returned = false := hret
    cases i with
    | push data => exact absurd rfl hplain
    | raw span => exact absurd rfl (hraw span)
    | op code =>
      cases code with
      | OP_IF =>
        cases hnest
        exact ⟨false :: m.exec, rfl, step_if_skipped hret' hrun⟩
      | OP_NOTIF =>
        cases hnest
        refine ⟨false :: m.exec, rfl, ?_⟩
        have hstep : step cfg (.op .OP_NOTIF) (m.within outer) =
            openIf (fun a => !isTruthy a) (m.within outer) := by
          unfold step
          rw [hret']
          rfl
        rw [hstep, openIf, hrun]
        rfl
      | OP_ELSE =>
        obtain ⟨st, exec, returned⟩ := m
        cases exec with
        | nil => cases hnest
        | cons b e =>
          cases hnest
          cases hret
          exact ⟨(!b) :: e, rfl, rfl⟩
      | OP_ENDIF =>
        obtain ⟨st, exec, returned⟩ := m
        cases exec with
        | nil => cases hnest
        | cons b e =>
          cases hnest
          cases hret
          exact ⟨e, rfl, rfl⟩
      | OP_RETURN =>
        cases hnest
        refine ⟨m.exec, rfl, ?_⟩
        simp [step, hret', hrun]
      | _ => exact absurd rfl hplain

/-! ## Balanced code -/

/-- Code at a given depth, inside conditionals that are executed. -/
theorem run_within (cfg : Config) {outer : List Bool} {is : List Instr} {d d' : Nat}
    (hraw : ∀ i ∈ is, ∀ span, i ≠ .raw span) (hnest : nesting d is = some d') (hall : outer.all id = true) {m : Machine}
    (hret : m.returned = false) (hd : m.exec.length = d) :
    run cfg is (m.within outer) = (run cfg is m).map (·.within outer) ∧
      ∀ m', run cfg is m = .ok m' → m'.returned = false → m'.exec.length = d' := by
  induction is generalizing m d with
  | nil =>
    refine ⟨rfl, ?_⟩
    rintro _ ⟨⟩ _
    cases hnest
    exact hd
  | cons i is ih =>
    obtain ⟨mid, hmid, hrest⟩ := Option.bind_eq_some_iff.mp hnest
    have hi := hraw i List.mem_cons_self
    have his := fun j hj => hraw j (List.mem_cons_of_mem i hj)
    obtain ⟨hframe, hdepth⟩ : StepsWithin cfg i mid outer m := stepsWithin hi hmid hall hret hd
    rw [run_cons, run_cons, hframe]
    cases hstep : step cfg i m with
    | error e => exact ⟨rfl, by rintro _ ⟨⟩⟩
    | ok m₁ =>
      show run cfg is (m₁.within outer) = _ ∧ _
      cases hret₁ : m₁.returned with
      | true =>
        have hwithin : (m₁.within outer).returned = true := hret₁
        rw [ok_bind, run_returned hret₁, run_returned hwithin]
        refine ⟨rfl, ?_⟩
        rintro _ ⟨⟩ hfalse
        rw [hret₁] at hfalse
        cases hfalse
      | false => exact ih his hrest hret₁ (hdepth m₁ hstep hret₁)

/-- Code at a given depth, inside a conditional that is skipped. -/
theorem run_skipped (cfg : Config) {is : List Instr} {d d' : Nat}
    (hraw : ∀ i ∈ is, ∀ span, i ≠ .raw span) (hnest : nesting d is = some d') (hall : outer.all id = false) {m : Machine}
    (hret : m.returned = false) (hd : m.exec.length = d) :
    ∃ e : List Bool, e.length = d' ∧
      run cfg is (m.within outer) = .ok (({ m with exec := e } : Machine).within outer) := by
  induction is generalizing m d with
  | nil =>
    cases hnest
    exact ⟨m.exec, hd, rfl⟩
  | cons i is ih =>
    obtain ⟨mid, hmid, hrest⟩ := Option.bind_eq_some_iff.mp hnest
    have hi := hraw i List.mem_cons_self
    have his := fun j hj => hraw j (List.mem_cons_of_mem i hj)
    obtain ⟨e, he, hstep⟩ := step_skipped cfg hi hmid hall hret hd
    obtain ⟨e', he', hrun⟩ := ih his hrest (m := { m with exec := e }) hret he
    refine ⟨e', he', ?_⟩
    rw [run_cons, hstep]
    exact hrun

/-! ## Reading the spans -/

theorem run_expand (reader : SpanReader cfg) (is : List Instr) (m : Machine) :
    run cfg (reader.expand is) m = run cfg is m := by
  induction is generalizing m with
  | nil => rfl
  | cons i is ih =>
    cases hret : m.returned with
    | true => rw [run_returned hret, run_returned hret]
    | false =>
      have hhead : run cfg (reader.instrs i) m = step cfg i m := by
        cases i with
        | raw span =>
          have hstep : step cfg (.raw span) m = cfg.raw span m := by
            unfold step
            rw [hret]
            rfl
          rw [hstep, reader.raw_eq span m hret]
          rfl
        | push data => exact run_singleton cfg _ m
        | op code => exact run_singleton cfg _ m
      have hexpand : reader.expand (i :: is) = reader.instrs i ++ reader.expand is :=
        List.flatMap_cons
      rw [hexpand, run_append, hhead, run_cons]
      cases step cfg i m with
      | error e => rfl
      | ok m' => exact ih m'

theorem expand_noRaw (reader : SpanReader cfg) (is : List Instr) :
    ∀ i ∈ reader.expand is, ∀ span, i ≠ .raw span := by
  intro i hi
  obtain ⟨j, -, hj⟩ := List.mem_flatMap.mp hi
  cases j with
  | raw span => exact reader.noRaw span i hj
  | push data =>
    intro span h
    rw [List.mem_singleton.mp hj] at h
    cases h
  | op code =>
    intro span h
    rw [List.mem_singleton.mp hj] at h
    cases h

/-- Balanced code does inside executed conditionals what it does outside them. -/
theorem Balanced.run_executed {reader : SpanReader cfg} {is : List Instr}
    (h : Balanced reader is) {m : Machine} (hret : m.returned = false)
    (hrun : m.running = true) :
    run cfg is m = (run cfg is (.start m.main m.alt)).map (·.within m.exec) := by
  have hm : m = (Machine.start m.main m.alt).within m.exec := by
    obtain ⟨st, exec, returned⟩ := m
    cases hret
    rfl
  have hframe := (run_within cfg (expand_noRaw reader is) h hrun
    (m := .start m.main m.alt) rfl rfl).1
  rw [run_expand, run_expand, ← hm] at hframe
  exact hframe

/-- Balanced code that does not return closes what it opens. -/
theorem Balanced.exec_eq_nil {reader : SpanReader cfg} {is : List Instr}
    (h : Balanced reader is) {main alt : List Bytes} {m : Machine}
    (hrun : run cfg is (.start main alt) = .ok m) (hret : m.returned = false) : m.exec = [] := by
  have hall : ([] : List Bool).all id = true := rfl
  have hdepth := (run_within cfg (expand_noRaw reader is) h hall (m := .start main alt) rfl rfl).2
  rw [run_expand] at hdepth
  exact List.eq_nil_of_length_eq_zero (hdepth m hrun hret)

/-- Balanced code is skipped where the machine skips. -/
theorem Balanced.run_skipped {reader : SpanReader cfg} {is : List Instr}
    (h : Balanced reader is) {m : Machine} (hret : m.returned = false)
    (hrun : m.running = false) : run cfg is m = .ok m := by
  have hm : m = ({ m with exec := [] } : Machine).within m.exec := rfl
  obtain ⟨e, he, hskip⟩ := Script.run_skipped cfg (expand_noRaw reader is) h hrun
    (m := { m with exec := [] }) hret rfl
  obtain rfl : e = [] := List.eq_nil_of_length_eq_zero he
  rw [run_expand, ← hm] at hskip
  exact hskip

end Frames

end Runar.Script
