/-
  Artifact/Dispatch.lean --- the method selector.

  WHAT THIS FILE IS FOR.  A contract with several public methods is one script: the
  unlocking script leaves the number of a method on top of its arguments, and a chain of
  conditionals compares it with every method's own.  This file reads that chain as
  instructions, shows that it is what the emitter writes, and runs it: the method of the
  number is entered on the arguments alone, no other is, and a number without a method
  fails.

  AND ONLY FOR BALANCED BODIES.  A raw span in a body may close the conditional around it.
-/
import Runar.Artifact.EmitCorrect
import Runar.Script.Nesting

set_option autoImplicit false

namespace Runar.Artifact

open Script

/-! ## The chain as instructions -/

/-- The test of a selector against a method's number. -/
def selectorTest (i : Nat) : List Instr :=
  [.op .OP_DUP, .push (PushValue.bigint i).toBytes, .op .OP_NUMEQUAL, .op .OP_IF, .op .OP_DROP]

/-- The last test, which must hold. -/
def selectorVerify (i : Nat) : List Instr :=
  [.push (PushValue.bigint i).toBytes, .op .OP_NUMEQUALVERIFY]

/-- The methods from the `i`-th on, each behind its test. -/
def dispatchCases (slots : Slots) (i : Nat) : List StackMethod → List Instr
  | [] => []
  | [last] => selectorVerify i ++ Runar.emitOps slots last.ops
  | method :: rest =>
      selectorTest i ++ (Runar.emitOps slots method.ops ++
        .op .OP_ELSE :: dispatchCases slots (i + 1) rest)

/-- The same, with its conditionals closed. -/
def dispatchFrom (slots : Slots) (i : Nat) (methods : List StackMethod) : List Instr :=
  dispatchCases slots i methods ++ List.replicate (methods.length - 1) (.op .OP_ENDIF)

/-- The dispatch script. -/
def dispatchScript (slots : Slots) (methods : List StackMethod) : List Instr :=
  dispatchFrom slots 0 methods

/-- What stands before the body of the `j`-th of these methods. -/
def casesBefore (slots : Slots) (i : Nat) : Nat → List StackMethod → List Instr
  | _, [] => []
  | 0, [_] => selectorVerify i
  | 0, _ :: _ => selectorTest i
  | j + 1, method :: rest =>
      selectorTest i ++ (Runar.emitOps slots method.ops ++
        .op .OP_ELSE :: casesBefore slots (i + 1) j rest)

theorem dispatchFrom_cons (slots : Slots) (i : Nat) (method next : StackMethod)
    (rest : List StackMethod) :
    dispatchFrom slots i (method :: next :: rest) =
      selectorTest i ++ (Runar.emitOps slots method.ops ++
        .op .OP_ELSE :: (dispatchFrom slots (i + 1) (next :: rest) ++ [.op .OP_ENDIF])) := by
  have hends : List.replicate (rest.length + 1) (Instr.op .OP_ENDIF) =
      List.replicate rest.length (.op .OP_ENDIF) ++ [Instr.op .OP_ENDIF] := List.replicate_succ'
  unfold dispatchFrom
  rw [dispatchCases]
  · simp only [List.length_cons, Nat.add_sub_cancel, hends, List.append_assoc, List.cons_append]
  · rintro ⟨⟩

/-- A body stands where its test leads. -/
theorem dispatchCases_eq_before (slots : Slots) (i j : Nat) (methods : List StackMethod)
    (hj : j < methods.length) :
    ∃ after, dispatchCases slots i methods =
      casesBefore slots i j methods ++ Runar.emitOps slots methods[j].ops ++ after := by
  induction methods generalizing i j with
  | nil => exact absurd hj (Nat.not_lt_zero j)
  | cons method rest ih =>
    cases rest with
    | nil =>
      obtain rfl : j = 0 := by
        rw [List.length_singleton] at hj
        omega
      exact ⟨[], (List.append_nil _).symm⟩
    | cons next rest =>
      have hcases : dispatchCases slots i (method :: next :: rest) =
          selectorTest i ++ (Runar.emitOps slots method.ops ++
            .op .OP_ELSE :: dispatchCases slots (i + 1) (next :: rest)) := by
        rw [dispatchCases]
        rintro ⟨⟩
      cases j with
      | zero =>
        refine ⟨.op .OP_ELSE :: dispatchCases slots (i + 1) (next :: rest), ?_⟩
        rw [hcases, List.append_assoc]
        rfl
      | succ j =>
        obtain ⟨after, hafter⟩ := ih (i + 1) j (Nat.lt_of_succ_lt_succ hj)
        refine ⟨after, ?_⟩
        rw [hcases, hafter]
        simp only [casesBefore, List.append_assoc, List.cons_append, List.getElem_cons_succ]

/-! ## The emitter writes it -/

/-- The text of an instruction. -/
def instrText : Instr → HexText
  | .push data => encodePushValue (.bytes data)
  | .op code => hexNumber (opcodeByte code)
  | .raw span => toHex span

/-- The text of a script. -/
def scriptText (is : List Instr) : HexText := is.flatMap instrText

/-- Placeholders that are not filled. -/
def Slots.blank : Slots := ⟨fun _ _ => [], []⟩

theorem scriptText_append (is js : List Instr) :
    scriptText (is ++ js) = scriptText is ++ scriptText js := List.flatMap_append

theorem scriptText_cons (i : Instr) (is : List Instr) :
    scriptText (i :: is) = instrText i ++ scriptText is := List.flatMap_cons

/-- A number is pushed as its bytes are. -/
theorem encodePushValue_toBytes (value : PushValue) :
    encodePushValue (.bytes value.toBytes) = encodePushValue value := by
  cases value with
  | bytes value => rfl
  | boolean b => cases b <;> decide +kernel
  | bigint n =>
    have hbytes : (PushValue.bigint n).toBytes = encodeScriptNumber n := rfl
    have hdecode : decodeNum (encodeScriptNumber n) = n := by
      rw [encodeScriptNumber_eq, decodeNum_encodeNum]
    rw [hbytes]
    show _ = encodePushBigIntHex n
    unfold encodePushBigIntHex
    by_cases hzero : n = 0
    · subst hzero
      decide +kernel
    by_cases hneg : n = -1
    · subst hneg
      decide +kernel
    rw [if_neg hzero, if_neg hneg]
    by_cases hsmall : 1 ≤ n ∧ n ≤ 16
    · rw [if_pos hsmall]
      obtain ⟨m, rfl⟩ := Int.eq_ofNat_of_zero_le (by omega : (0 : Int) ≤ n)
      have hm : m ∈ List.range 17 := List.mem_range.mpr (by omega)
      have hall : ∀ m ∈ List.range 17, m ≠ 0 → encodePushValue (.bytes (encodeScriptNumber m)) =
          hexNumber (0x50 + ((m : Nat) : Int).toNat) := by decide +kernel
      exact hall m hm (by omega)
    · rw [if_neg hsmall]
      match hword : encodeScriptNumber n, hdecode with
      | [], hdecode => exact absurd hdecode.symm hzero
      | [b], hdecode =>
        -- a single byte with an opcode of its own is a number with one
        have hall : ∀ b : Fin 256, (1 ≤ b.val ∧ b.val ≤ 16 →
              1 ≤ decodeNum [UInt8.ofNat b.val] ∧ decodeNum [UInt8.ofNat b.val] ≤ 16) ∧
            (b.val = 0x81 → decodeNum [UInt8.ofNat b.val] = -1) := by decide +kernel
        have hb := hall ⟨b.toNat, b.toNat_lt⟩
        have hofNat : UInt8.ofNat b.toNat = b := UInt8.ofNat_toNat
        simp only [hofNat, hdecode] at hb
        have hrange : ¬ (1 ≤ b ∧ b ≤ 16) := by
          rintro ⟨h1, h16⟩
          exact hsmall (hb.1 ⟨UInt8.le_iff_toNat_le.mp h1, UInt8.le_iff_toNat_le.mp h16⟩)
        have hminus : b ≠ 0x81 := by
          rintro rfl
          exact hneg (hb.2 rfl)
        show (if 1 ≤ b ∧ b ≤ 16 then _ else if b = 0x81 then _ else _) = _
        rw [if_neg hrange, if_neg hminus]
      | _ :: _ :: _, _ => rfl

mutual

theorem text_emitStackOp : ∀ op, template (opPieces op) =
    scriptText (Runar.emitStackOp Slots.blank op)
  | .push value => by
      rw [opPieces, Runar.emitStackOp]
      exact congrArg (· ++ []) (encodePushValue_toBytes value).symm
  | .ifOp thenOps elseOps => by
      have hthen := text_emitOps thenOps
      have helse := text_emitOps elseOps
      rw [opPieces, Runar.emitStackOp, template_cons, scriptText_cons, template_append,
        scriptText_append, template_append, scriptText_append, hthen]
      by_cases hempty : elseOps.isEmpty = true
      · rw [if_pos hempty, if_pos hempty]
        rfl
      · rw [if_neg hempty, if_neg hempty, template_cons, scriptText_cons, helse]
        rfl
  | .dup | .swap | .roll _ | .pick _ | .drop | .nip | .over | .rot | .tuck | .opcode _
  | .placeholder _ _ | .pushCodesepIndex | .rawBytes _ _ _ => by
      rw [opPieces, Runar.emitStackOp]
      rfl

theorem text_emitOps : ∀ ops, template (opsPieces ops) =
    scriptText (Runar.emitOps Slots.blank ops)
  | [] => rfl
  | op :: ops => by
      rw [opsPieces, Runar.emitOps_cons, template_append, scriptText_append, text_emitStackOp op,
        text_emitOps ops]

end

theorem text_selectorTest (i : Nat) :
    template [opcodePiece .OP_DUP, pushPiece (.bigint i), opcodePiece .OP_NUMEQUAL,
      opcodePiece .OP_IF, opcodePiece .OP_DROP] = scriptText (selectorTest i) := by
  have hpush := encodePushValue_toBytes (.bigint i)
  unfold selectorTest
  simp only [template_cons, scriptText_cons, pushPiece, Piece.template, instrText, hpush]
  rfl

theorem text_selectorVerify (i : Nat) :
    template [pushPiece (.bigint i), opcodePiece .OP_NUMEQUALVERIFY] =
      scriptText (selectorVerify i) := by
  have hpush := encodePushValue_toBytes (.bigint i)
  unfold selectorVerify
  simp only [template_cons, scriptText_cons, pushPiece, Piece.template, instrText, hpush]
  rfl

theorem text_casePieces (methods : List StackMethod) (i : Nat) :
    template (casePieces i methods) = scriptText (dispatchCases Slots.blank i methods) := by
  induction methods generalizing i with
  | nil => rfl
  | cons method rest ih =>
    cases rest with
    | nil =>
      rw [dispatchCases, scriptText_append, ← text_selectorVerify, ← text_emitOps,
        ← template_append]
      rfl
    | cons next rest =>
      have helse : template (opcodePiece .OP_ELSE :: casePieces (i + 1) (next :: rest)) =
          scriptText (.op .OP_ELSE :: dispatchCases Slots.blank (i + 1) (next :: rest)) := by
        rw [template_cons, scriptText_cons, ih (i + 1)]
        rfl
      rw [casePieces, dispatchCases]
      · rw [template_append, template_append, text_selectorTest, text_emitOps, helse,
          ← scriptText_append, ← scriptText_append, List.append_assoc]
      all_goals rintro ⟨⟩

/-- The emitted template of several methods is the text of the chain. -/
theorem emitMethodDispatch_hex (methods : List StackMethod) :
    (emitMethodDispatch methods .new).hex = scriptText (dispatchScript Slots.blank methods) := by
  have hwrote := (wrote_emitCases methods 0).comp (wrote_emitEnds (methods.length - 1))
  have hends : ∀ n, template (List.replicate n (opcodePiece .OP_ENDIF)) =
      scriptText (List.replicate n (.op .OP_ENDIF)) := by
    intro n
    induction n with
    | zero => rfl
    | succ n ih =>
      rw [List.replicate_succ, List.replicate_succ, template_cons, scriptText_cons, ih]
      rfl
  have hhex := hwrote.hex .new
  rw [template_append, text_casePieces, hends, ← scriptText_append] at hhex
  exact hhex

/-! ## Running it -/

section Running

variable {cfg : Config} {slots : Slots} {k : Int} {rest : List Bytes}

/-- What a run leaves: the stacks, and whether the script has returned. -/
def outcome (m : Machine) : Stacks × Bool := (m.toStacks, m.returned)

theorem run_ok {is js : List Instr} {m m' : Machine} (h : run cfg is m = .ok m') :
    run cfg (is ++ js) m = run cfg js m' := by
  rw [run_append, h]
  rfl

/-- A selector that is the method's number opens its arm on the arguments. -/
theorem run_selectorTest {i : Nat} {m : Machine} (hret : m.returned = false)
    (hrun : m.running = true) (hmain : m.main = encodeNum k :: rest) :
    run cfg (selectorTest i) m =
      .ok (if k = i then (m.withStacks ⟨rest, m.alt⟩).openWith true
        else (m.withStacks ⟨rest.cons (encodeNum k), m.alt⟩).openWith false) := by
  obtain ⟨⟨main, alt⟩, exec, returned⟩ := m
  cases hret
  cases hmain
  have hall : exec.all id = true := hrun
  have htop : PushValue.toBytes (.bigint i) = encodeNum i := PushValue.toBytes_bigint i
  have hdup : run cfg [.op .OP_DUP, .push (encodeNum i), .op .OP_NUMEQUAL]
      ⟨⟨encodeNum k :: rest, alt⟩, exec, false⟩ =
      .ok ⟨⟨boolBytes (k == i) :: encodeNum k :: rest, alt⟩, exec, false⟩ := by
    rw [run_plain cfg (List.all_eq_true.mp rfl), if_pos ⟨rfl, hrun⟩]
    simp [plainRun, plainStep, opcodeStep, shuffle, numOp2, top2, Machine.withStacks]
  have hsplit : selectorTest i = [Instr.op .OP_DUP, .push (encodeNum i), .op .OP_NUMEQUAL] ++
      [Instr.op .OP_IF, .op .OP_DROP] := by
    rw [selectorTest, htop]
    rfl
  have hif : step cfg (.op .OP_IF) ⟨⟨boolBytes (k == i) :: encodeNum k :: rest, alt⟩, exec, false⟩ =
      .ok ⟨⟨encodeNum k :: rest, alt⟩, (k == i) :: exec, false⟩ := by
    have h : step cfg (.op .OP_IF)
        ⟨⟨boolBytes (k == i) :: encodeNum k :: rest, alt⟩, exec, false⟩ =
        .ok ⟨⟨encodeNum k :: rest, alt⟩, isTruthy (boolBytes (k == i)) :: exec, false⟩ :=
      step_if_running rfl hrun rfl
    rw [isTruthy_boolBytes] at h
    exact h
  rw [hsplit, run_ok hdup, run_cons, hif]
  by_cases hk : k = i
  · rw [if_pos hk, beq_iff_eq.mpr hk, ok_bind, run_singleton]
    simp [step, Machine.openWith, Machine.withStacks, Machine.running, hall, opcodeStep, shuffle]
  · rw [if_neg hk, beq_eq_false_iff_ne.mpr hk, ok_bind, run_singleton]
    simp [step, Machine.openWith, Machine.withStacks, Machine.running]

theorem skip_selectorTest (i : Nat) {m : Machine} (hret : m.returned = false)
    (hrun : m.running = false) : run cfg (selectorTest i) m = .ok (m.openWith false) := by
  have hplain : run cfg [.op .OP_DUP, .push (PushValue.bigint i).toBytes, .op .OP_NUMEQUAL] m =
      .ok m := by
    rw [run_plain cfg (List.all_eq_true.mp rfl), if_neg (by rw [hrun]; rintro ⟨_, ⟨⟩⟩)]
  have hsplit : selectorTest i =
      [Instr.op .OP_DUP, .push (PushValue.bigint i).toBytes, .op .OP_NUMEQUAL] ++
        [Instr.op .OP_IF, .op .OP_DROP] := rfl
  have hdrop : run cfg [.op .OP_DROP] (m.openWith false) = .ok (m.openWith false) := by
    rw [run_plain cfg (List.all_eq_true.mp rfl), if_neg]
    rintro ⟨_, h⟩
    exact Bool.noConfusion h
  rw [hsplit, run_ok hplain, run_cons, step_if_skipped hret hrun]
  exact hdrop

/-- The last test. -/
theorem run_selectorVerify {i : Nat} {m : Machine} (hret : m.returned = false)
    (hrun : m.running = true) (hmain : m.main = encodeNum k :: rest) :
    run cfg (selectorVerify i) m =
      if k = i then .ok (m.withStacks ⟨rest, m.alt⟩) else .error .verify := by
  obtain ⟨⟨main, alt⟩, exec, returned⟩ := m
  cases hret
  cases hmain
  have htop : PushValue.toBytes (.bigint i) = encodeNum i := PushValue.toBytes_bigint i
  unfold selectorVerify
  rw [htop, run_plain cfg (List.all_eq_true.mp rfl), if_pos ⟨rfl, hrun⟩]
  by_cases hk : k = i
  · simp [plainRun, plainStep, opcodeStep, numOp2, top2, verifyTop, hk, bind, Except.bind,
      Except.map, Machine.withStacks]
  · simp [plainRun, plainStep, opcodeStep, numOp2, top2, verifyTop, hk, bind, Except.bind,
      Except.map]

theorem skip_selectorVerify (i : Nat) {m : Machine} (hrun : m.running = false) :
    run cfg (selectorVerify i) m = .ok m := by
  unfold selectorVerify
  rw [run_plain cfg (List.all_eq_true.mp rfl), if_neg (by rw [hrun]; rintro ⟨_, ⟨⟩⟩)]

/-- A run that ends with the stacks of another, and the given conditionals open unless it
has returned. -/
structure EndsAs (exec : List Bool) (r r₀ : Except ScriptError Machine) : Prop where
  outcome : r.map Artifact.outcome = r₀.map Artifact.outcome
  open_eq : ∀ m, r = .ok m → m.returned = false → m.exec = exec

/-- What follows only sees to the conditionals. -/
theorem EndsAs.andThen {exec exec' : List Bool} {r r₀ : Except ScriptError Machine}
    {js : List Instr} (h : EndsAs exec r r₀)
    (hjs : ∀ m : Machine, m.returned = false → m.exec = exec →
      run cfg js m = .ok { m with exec := exec' }) :
    EndsAs exec' (r >>= run cfg js) r₀ := by
  cases r with
  | error e => exact ⟨h.outcome, by rintro _ ⟨⟩⟩
  | ok m =>
    rw [ok_bind]
    cases hret : m.returned with
    | true =>
      rw [run_returned hret]
      refine ⟨h.outcome, ?_⟩
      rintro _ ⟨⟩ hfalse
      rw [hret] at hfalse
      cases hfalse
    | false =>
      rw [hjs m hret (h.open_eq m rfl hret)]
      exact ⟨h.outcome, by rintro _ ⟨⟩ _; rfl⟩

variable {reader : SpanReader cfg}

/-- A balanced body ends as it does outside every conditional. -/
theorem balanced_endsAs {is : List Instr} (h : Balanced reader is) {m : Machine}
    (hret : m.returned = false) (hrun : m.running = true) :
    EndsAs m.exec (run cfg is m) (run cfg is (.start m.main m.alt)) := by
  rw [h.run_executed hret hrun]
  cases hstart : run cfg is (.start m.main m.alt) with
  | error e => exact ⟨rfl, by rintro _ ⟨⟩⟩
  | ok m' =>
    refine ⟨rfl, ?_⟩
    rintro _ ⟨⟩ hret'
    have hexec : m'.exec = [] := h.exec_eq_nil hstart hret'
    simp [Machine.within, hexec]

theorem eq_openWith {m : Machine} {b : Bool} {exec : List Bool} (h : m.exec = b :: exec) :
    m = ({ m with exec := exec } : Machine).openWith b := by
  obtain ⟨st, e, returned⟩ := m
  cases h
  rfl

theorem run_else_openWith {m : Machine} (hret : m.returned = false) (b : Bool)
    (js : List Instr) :
    run cfg (.op .OP_ELSE :: js) (m.openWith b) = run cfg js (m.openWith (!b)) := by
  rw [run_cons, step_else_openWith hret, ok_bind]

/-- A chain is skipped where the machine skips. -/
theorem skip_dispatchFrom {methods : List StackMethod}
    (hbal : ∀ method ∈ methods, Balanced reader (Runar.emitOps slots method.ops)) (i : Nat)
    {m : Machine} (hret : m.returned = false) (hrun : m.running = false) :
    run cfg (dispatchFrom slots i methods) m = .ok m := by
  induction methods generalizing i m with
  | nil => rfl
  | cons method methods ih =>
    have hbody := hbal method List.mem_cons_self
    cases methods with
    | nil =>
      have hcases : dispatchFrom slots i [method] =
          selectorVerify i ++ Runar.emitOps slots method.ops := List.append_nil _
      rw [hcases, run_ok (skip_selectorVerify i hrun)]
      exact hbody.run_skipped hret hrun
    | cons next methods =>
      have hrest := ih (fun method h => hbal method (List.mem_cons_of_mem _ h)) (i + 1)
        (m := m.openWith true) hret (by rw [Machine.running_openWith, hrun]; rfl)
      rw [dispatchFrom_cons, run_ok (skip_selectorTest i hret hrun),
        run_ok (hbody.run_skipped (m := m.openWith false) hret rfl), run_else_openWith hret]
      refine (run_ok hrest).trans ?_
      rw [run_singleton, step_endif_openWith hret]

/-- The chain runs the body of the selected method on the arguments, or fails. -/
theorem run_dispatchFrom {methods : List StackMethod}
    (hbal : ∀ method ∈ methods, Balanced reader (Runar.emitOps slots method.ops)) (i : Nat)
    {m : Machine} (hret : m.returned = false) (hrun : m.running = true)
    (hmain : m.main = encodeNum k :: rest) :
    (∀ j (hj : j < methods.length), k = (i + j : Nat) →
      EndsAs m.exec (run cfg (dispatchFrom slots i methods) m)
        (run cfg (Runar.emitOps slots methods[j].ops) (.start rest m.alt))) ∧
    (methods ≠ [] → (∀ j < methods.length, k ≠ (i + j : Nat)) →
      run cfg (dispatchFrom slots i methods) m = .error .verify) := by
  induction methods generalizing i m with
  | nil => exact ⟨fun j hj => absurd hj (Nat.not_lt_zero j), fun h => absurd rfl h⟩
  | cons method methods ih =>
    have hbody := hbal method List.mem_cons_self
    have hrestbal := fun method' h => hbal method' (List.mem_cons_of_mem method h)
    cases methods with
    | nil =>
      have hcases : dispatchFrom slots i [method] =
          selectorVerify i ++ Runar.emitOps slots method.ops := List.append_nil _
      rw [hcases, run_append, run_selectorVerify hret hrun hmain]
      constructor
      · intro j hj hk
        obtain rfl : j = 0 := by
          rw [List.length_singleton] at hj
          omega
        have hk : k = (i : Int) := hk
        rw [if_pos hk]
        exact balanced_endsAs hbody (m := m.withStacks ⟨rest, m.alt⟩) hret hrun
      · intro _ hnone
        have hk : k ≠ (i : Int) := hnone 0 Nat.one_pos
        rw [if_neg hk]
        rfl
    | cons next methods =>
      rw [dispatchFrom_cons, run_append, run_selectorTest hret hrun hmain, ok_bind, run_append]
      by_cases hk : k = i
      · -- this method's number: its body runs and the rest of the chain is skipped
        rw [if_pos hk]
        have hends := balanced_endsAs hbody (m := (m.withStacks ⟨rest, m.alt⟩).openWith true)
          hret hrun
        constructor
        · intro j hj hk'
          obtain rfl : j = 0 := by omega
          refine hends.andThen fun m' hret' hexec => ?_
          have hm' := eq_openWith (show m'.exec = true :: m.exec from hexec)
          have hskip := skip_dispatchFrom hrestbal (i + 1)
            (m := ({ m' with exec := m.exec } : Machine).openWith false) hret' rfl
          rw [hm', run_else_openWith (m := { m' with exec := m.exec }) hret']
          refine (run_ok hskip).trans ?_
          rw [run_singleton]
          exact step_endif_openWith (m := { m' with exec := m.exec }) hret' false
        · intro _ hnone
          exact absurd hk (hnone 0 (Nat.succ_pos _))
      · -- another number: the body is skipped and the rest of the chain runs
        rw [if_neg hk]
        have hm : m.withStacks ⟨encodeNum k :: rest, m.alt⟩ = m := by
          rw [← hmain]
          rfl
        have hskip := hbody.run_skipped (m := m.openWith false) hret rfl
        have hrun' : (m.openWith true).running = true := by
          rw [Machine.running_openWith, hrun]
          rfl
        obtain ⟨hselected, hnone'⟩ := ih hrestbal (i + 1) (m := m.openWith true) hret hrun' hmain
        rw [show rest.cons (encodeNum k) = encodeNum k :: rest from rfl, hm, hskip, ok_bind,
          run_else_openWith hret, run_append]
        constructor
        · intro j hj hk'
          cases j with
          | zero => exact absurd hk' hk
          | succ j =>
            have hends := hselected j (Nat.lt_of_succ_lt_succ hj) (by omega)
            refine hends.andThen fun m' hret' hexec => ?_
            have hm' := eq_openWith (show m'.exec = true :: m.exec from hexec)
            refine (congrArg (run cfg [.op .OP_ENDIF]) hm').trans ?_
            rw [run_singleton]
            exact step_endif_openWith (m := { m' with exec := m.exec }) hret' true
        · intro _ hnone
          have herror := hnone' (List.cons_ne_nil _ _) fun j hj hk' =>
            hnone (j + 1) (Nat.succ_lt_succ hj) (by omega)
          show (run cfg (dispatchFrom slots (i + 1) (next :: methods)) (m.openWith true) >>=
            run cfg [.op .OP_ENDIF]) = _
          rw [herror]
          rfl

/-! ## Entering a body -/

/-- The stacks a body is executed on, if a run comes to it executing. -/
def entered (r : Except ScriptError Machine) : Option Stacks :=
  match r with
  | .ok m => if m.returned = false ∧ m.running = true then some m.toStacks else none
  | .error _ => none

theorem entered_of_not_running {m : Machine} (h : m.running = false) :
    entered (.ok m) = none := by
  refine if_neg ?_
  rw [h]
  rintro ⟨_, ⟨⟩⟩

theorem skip_casesBefore {methods : List StackMethod}
    (hbal : ∀ method ∈ methods, Balanced reader (Runar.emitOps slots method.ops)) (i j : Nat)
    {m : Machine} (hret : m.returned = false) (hrun : m.running = false) :
    ∃ m', run cfg (casesBefore slots i j methods) m = .ok m' ∧ m'.running = false := by
  induction methods generalizing i j m with
  | nil => exact ⟨m, by cases j <;> rfl, hrun⟩
  | cons method methods ih =>
    cases j with
    | zero =>
      cases methods with
      | nil => exact ⟨m, skip_selectorVerify i hrun, hrun⟩
      | cons next methods => exact ⟨m.openWith false, skip_selectorTest i hret hrun, rfl⟩
    | succ j =>
      have hbody := hbal method List.mem_cons_self
      obtain ⟨m', hm', hrun'⟩ := ih (fun method h => hbal method (List.mem_cons_of_mem _ h))
        (i + 1) j (m := m.openWith true) hret (by rw [Machine.running_openWith, hrun]; rfl)
      refine ⟨m', ?_, hrun'⟩
      rw [casesBefore, run_ok (skip_selectorTest i hret hrun),
        run_ok (hbody.run_skipped (m := m.openWith false) hret rfl), run_else_openWith hret]
      exact hm'

/-- The body of the selected method is entered on the arguments, and no other. -/
theorem entered_casesBefore {methods : List StackMethod}
    (hbal : ∀ method ∈ methods, Balanced reader (Runar.emitOps slots method.ops)) (i j : Nat)
    (hj : j < methods.length) {m : Machine} (hret : m.returned = false)
    (hrun : m.running = true) (hmain : m.main = encodeNum k :: rest) :
    entered (run cfg (casesBefore slots i j methods) m) =
      if k = (i + j : Nat) then some ⟨rest, m.alt⟩ else none := by
  induction methods generalizing i j m with
  | nil => exact absurd hj (Nat.not_lt_zero j)
  | cons method methods ih =>
    have hbody := hbal method List.mem_cons_self
    have hrestbal := fun method' h => hbal method' (List.mem_cons_of_mem method h)
    cases j with
    | zero =>
      rw [Nat.add_zero]
      cases methods with
      | nil =>
        rw [casesBefore, run_selectorVerify hret hrun hmain]
        by_cases hk : k = i
        · rw [if_pos hk, if_pos hk]
          exact if_pos ⟨hret, hrun⟩
        · rw [if_neg hk, if_neg hk]
          rfl
      | cons next methods =>
        rw [casesBefore, run_selectorTest hret hrun hmain]
        by_cases hk : k = i
        · rw [if_pos hk, if_pos hk]
          exact if_pos ⟨hret, hrun⟩
        · rw [if_neg hk, if_neg hk]
          exact entered_of_not_running rfl
        rintro ⟨⟩
    | succ j =>
      rw [casesBefore, run_append, run_selectorTest hret hrun hmain, ok_bind, run_append]
      by_cases hk : k = i
      · rw [if_pos hk, if_neg (by omega)]
        have hends := balanced_endsAs hbody (m := (m.withStacks ⟨rest, m.alt⟩).openWith true)
          hret hrun
        cases hres : run cfg (Runar.emitOps slots method.ops)
            ((m.withStacks ⟨rest, m.alt⟩).openWith true) with
        | error e => rfl
        | ok m' =>
          rw [ok_bind]
          cases hret' : m'.returned with
          | true =>
            rw [run_returned hret']
            refine if_neg ?_
            rw [hret']
            rintro ⟨⟨⟩, _⟩
          | false =>
            have hexec := hends.open_eq m' hres hret'
            have hm' := eq_openWith (show m'.exec = true :: m.exec from hexec)
            rw [hm', run_else_openWith (m := { m' with exec := m.exec }) hret']
            obtain ⟨m'', hm'', hrun''⟩ := skip_casesBefore hrestbal (i + 1) j
              (m := ({ m' with exec := m.exec } : Machine).openWith false) hret' rfl
            refine (congrArg entered hm'').trans ?_
            exact entered_of_not_running hrun''
      · have hm : m.withStacks ⟨encodeNum k :: rest, m.alt⟩ = m := by
          rw [← hmain]
          rfl
        have hskip := hbody.run_skipped (m := m.openWith false) hret rfl
        have hrun' : (m.openWith true).running = true := by
          rw [Machine.running_openWith, hrun]
          rfl
        rw [if_neg hk, show rest.cons (encodeNum k) = encodeNum k :: rest from rfl, hm, hskip,
          ok_bind, run_else_openWith hret]
        have hnext := ih hrestbal (i + 1) j (Nat.lt_of_succ_lt_succ hj) (m := m.openWith true)
          hret hrun' hmain
        rw [Nat.add_right_comm] at hnext
        exact hnext

end Running

/-! ## The selector is exact -/

/-- Run the dispatch script on a selector above the arguments. -/
def runDispatch (cfg : Config) (slots : Slots) (methods : List StackMethod) (k : Int)
    (args alt : List Bytes) : Except ScriptError Machine :=
  run cfg (dispatchScript slots methods) (.start (encodeNum k :: args) alt)

/-- What the selector promises for one unlocking stack. -/
structure DispatchExact (cfg : Config) (slots : Slots) (methods : List StackMethod) (k : Int)
    (args alt : List Bytes) : Prop where
  /-- the method of the number is run on the arguments -/
  selected : ∀ (i : Nat) (hi : i < methods.length), k = i →
    (runDispatch cfg slots methods k args alt).map outcome =
      (runOps cfg slots methods[i].ops (.start args alt)).map outcome
  /-- its body is entered, on the arguments, and no other -/
  entered : ∀ i < methods.length,
    entered (run cfg (casesBefore slots 0 i methods) (.start (encodeNum k :: args) alt)) =
      if k = i then some ⟨args, alt⟩ else none
  /-- a number without a method fails -/
  rejected : k < 0 ∨ (methods.length : Int) ≤ k →
    runDispatch cfg slots methods k args alt = .error .verify

theorem emitMethodDispatch_exact (cfg : Config) (reader : SpanReader cfg) (slots : Slots)
    (methods : List StackMethod) (hmany : 2 ≤ methods.length)
    (hbal : ∀ method ∈ methods, Balanced reader (Runar.emitOps slots method.ops)) (k : Int)
    (args alt : List Bytes) : DispatchExact cfg slots methods k args alt := by
  obtain ⟨hselected, hnone⟩ := run_dispatchFrom hbal 0 (m := .start (encodeNum k :: args) alt)
    rfl rfl rfl
  refine ⟨?_, ?_, ?_⟩
  · intro i hi hk
    rw [← Nat.zero_add i] at hk
    exact (hselected i hi hk).outcome
  · intro i hi
    have henter := entered_casesBefore hbal 0 i hi (m := .start (encodeNum k :: args) alt)
      rfl rfl rfl
    rw [Nat.zero_add] at henter
    exact henter
  · intro hout
    refine hnone ?_ ?_
    · rintro rfl
      exact absurd hmany (by decide)
    · intro j hj
      omega

/-! ## Spans that are not balanced -/

/-- The instructions of a span of conditional opcodes. -/
def conditionalSpan (span : Bytes) : List Instr :=
  span.filterMap fun b =>
    if b = 0x63 then some (.op .OP_IF)
    else if b = 0x64 then some (.op .OP_NOTIF)
    else if b = 0x67 then some (.op .OP_ELSE)
    else if b = 0x68 then some (.op .OP_ENDIF)
    else none

/-- A machine without hashes and signatures, and with a given effect of spans. -/
def bareConfig (raw : Bytes → Machine → Except ScriptError Machine) : Config where
  requireMinimal := fun _ => true
  sha1 := id
  sha256 := id
  ripemd160 := id
  checkSig := fun _ _ => false
  checkMultiSig := fun _ _ => false
  raw := raw

/-- A machine that runs spans of conditional opcodes. -/
def spanConfig : Config :=
  bareConfig fun span m =>
    run (bareConfig fun _ _ => .error .raw) (conditionalSpan span) m

theorem run_conditionalSpan (cfg cfg' : Config) (span : Bytes) (m : Machine) :
    run cfg (conditionalSpan span) m = run cfg' (conditionalSpan span) m := by
  have hstep : ∀ b i, (if b = (0x63 : UInt8) then some (.op .OP_IF)
      else if b = 0x64 then some (.op .OP_NOTIF)
      else if b = 0x67 then some (.op .OP_ELSE)
      else if b = 0x68 then some (.op .OP_ENDIF)
      else none : Option Instr) = some i → ∀ m, step cfg i m = step cfg' i m := by
    intro b i hi m
    split at hi
    · cases hi; rfl
    split at hi
    · cases hi; rfl
    split at hi
    · cases hi; rfl
    split at hi
    · cases hi; rfl
    · cases hi
  unfold conditionalSpan
  induction span generalizing m with
  | nil => rfl
  | cons b span ih =>
    rw [List.filterMap_cons]
    split
    · exact ih m
    · rename_i i hi
      rw [run_cons, run_cons, hstep b i hi m]
      congr 1
      funext m'
      exact ih m'

/-- Its spans are read as the instructions they run. -/
def spanReader : SpanReader spanConfig where
  read := conditionalSpan
  noRaw := by
    intro span i hi span' heq
    obtain ⟨b, -, hb⟩ := List.mem_filterMap.mp hi
    subst heq
    split at hb
    · cases hb
    split at hb
    · cases hb
    split at hb
    · cases hb
    split at hb
    · cases hb
    · cases hb
  raw_eq := fun span m _ => run_conditionalSpan _ _ span m

/-- A method that accepts, its span balanced. -/
def acceptMethod : StackMethod :=
  ⟨"accept", [.rawBytes [0x63, 0x68] 1 0, .push (.boolean true)]⟩

/-- A method that rejects. -/
def rejectMethod : StackMethod := ⟨"reject", [.push (.boolean false)]⟩

theorem emitMethodDispatch_exact_span :
    DispatchExact spanConfig Slots.blank [acceptMethod, rejectMethod] 0 [[1]] [] := by
  refine emitMethodDispatch_exact spanConfig spanReader Slots.blank [acceptMethod, rejectMethod]
    (by decide) ?_ 0 [[1]] []
  intro method hmem
  rcases List.mem_cons.mp hmem with rfl | hmem
  · decide +kernel
  · obtain rfl := List.mem_singleton.mp hmem
    decide +kernel

/-- A method whose span closes the arm it stands in. -/
def leakMethod : StackMethod := ⟨"leak", [.rawBytes [0x67] 0 0, .push (.boolean true)]⟩

/-- With the number of the method that rejects, the end of the other is run. -/
theorem not_dispatchExact :
    ¬ DispatchExact spanConfig Slots.blank [leakMethod, rejectMethod] 1 [] [] := by
  intro h
  have hleft : (runDispatch spanConfig Slots.blank [leakMethod, rejectMethod] 1 [] []).map
      outcome = .ok (⟨[[1], [1]], []⟩, false) := by decide +kernel
  have hright : (runOps spanConfig Slots.blank rejectMethod.ops (.start [] [])).map outcome =
      .ok (⟨[[]], []⟩, false) := by decide +kernel
  have hsame := h.selected 1 (by decide) rfl
  rw [hleft] at hsame
  exact absurd (hsame.trans hright) (by decide)

end Runar.Artifact
