/-
  Decompiler/Dispatch.lean --- the splitter of methods.

  WHAT THIS FILE IS FOR.  `dispatch.ts` takes the opcodes of a script with several methods apart:
  the test of each method, its body up to the OP_ELSE of the test, and behind the last body as
  many OP_ENDIF as there are tests before it.  On opcodes that are such a chain, with balanced
  bodies, it returns the bodies.
-/
import Runar.Decompiler.Disasm

set_option autoImplicit false

namespace Runar.Decompiler

open Script Logic Testing

/-! ## The source -/

structure MethodStream where
  index : Nat
  ops : List Op

structure DispatchResult where
  methodCount : Nat
  methods : List MethodStream

/-- The number that an opcode pushes.  `decodeScriptNumber` reads the bytes as the machine
does. -/
def readSmallInt (op : Op) : Option Int :=
  if op.name = "OP_0" then some 0
  else if 0x51 ≤ op.byte ∧ op.byte ≤ 0x60 then some ((op.byte.toNat : Int) - 0x50)
  else if op.name = "OP_1NEGATE" then some (-1)
  else op.data.map decodeNum

/-- Whether the test of a method stands at a place. -/
def isDispatchStart (ops : List Op) (i expectedIndex : Nat) : Bool :=
  match (ops.drop i).take 5 with
  | [dup, push, numEqual, opening, drop] =>
      dup.name == "OP_DUP" && readSmallInt push == some (expectedIndex : Int) &&
        numEqual.name == "OP_NUMEQUAL" && opening.name == "OP_IF" && drop.name == "OP_DROP"
  | _ => false

/-- The walk to the end of an arm, over the opcodes from a place on. -/
def scanLoop : List Op → Nat → Nat → Nat × Bool
  | [], j, _ => (j, false)
  | op :: rest, j, depth =>
      if op.name = "OP_IF" ∨ op.name = "OP_NOTIF" then scanLoop rest (j + 1) (depth + 1)
      else if op.name = "OP_ENDIF" then
        if depth = 0 then (j, false) else scanLoop rest (j + 1) (depth - 1)
      else if op.name = "OP_ELSE" ∧ depth = 0 then (j, true)
      else scanLoop rest (j + 1) depth

/-- The place of the OP_ELSE that ends an arm, or where the search for it ends. -/
def scanToBranchClose (ops : List Op) (start : Nat) : Nat × Bool :=
  scanLoop (ops.drop start) start 0

/-- `ops.slice(start, stop)`. -/
def sliceOps (ops : List Op) (start stop : Nat) : List Op := (ops.drop start).take (stop - start)

/-- The whole script as one method. -/
def wholeScript (ops : List Op) : DispatchResult := ⟨1, [⟨0, ops⟩]⟩

/-- The result where the last method stands at a place. -/
def terminalForm (ops : List Op) (i methodIndex : Nat) (methods : List MethodStream) :
    Option DispatchResult :=
  if ops[i]?.bind readSmallInt = some (methodIndex : Int) ∧
      ops[i + 1]?.map Op.name = some "OP_NUMEQUALVERIFY" then
    if ops.length < i + 2 + methodIndex then none
    else
      let bodyTerminalEnd := ops.length - methodIndex
      if (ops.drop bodyTerminalEnd).all fun op => op.name == "OP_ENDIF" then
        let methods := methods ++ [⟨methodIndex, sliceOps ops (i + 2) bodyTerminalEnd⟩]
        some ⟨methods.length, methods⟩
      else none
  else none

/-- The loop, for some rounds at most: it is at the test of a method. -/
def splitLoop (ops : List Op) : Nat → Nat → Nat → List MethodStream → Option DispatchResult
  | 0, _, _, _ => none
  | fuel + 1, i, methodIndex, methods =>
      if isDispatchStart ops i methodIndex then
        match scanToBranchClose ops (i + 5) with
        | (_, false) => some (wholeScript ops)
        | (bodyEnd, true) =>
            let methods := methods ++ [⟨methodIndex, sliceOps ops (i + 5) bodyEnd⟩]
            if isDispatchStart ops (bodyEnd + 1) (methodIndex + 1) then
              splitLoop ops fuel (bodyEnd + 1) (methodIndex + 1) methods
            else
              some ((terminalForm ops (bodyEnd + 1) (methodIndex + 1) methods).getD
                (wholeScript ops))
      else some (wholeScript ops)

/-- The methods of a script.  Each round goes on behind its place. -/
def splitMethods (ops : List Op) : Option DispatchResult :=
  if ops = [] then some ⟨1, [⟨0, []⟩]⟩
  else if isDispatchStart ops 0 0 then splitLoop ops (ops.length + 1) 0 0 []
  else some (wholeScript ops)

/-! ## Balanced bodies -/

/-- How deep the conditionals are behind some opcodes, if none of them is closed or turned
outside of the opcodes. -/
def depthAfter : Nat → List Op → Option Nat
  | depth, [] => some depth
  | depth, op :: rest =>
      if op.name = "OP_IF" ∨ op.name = "OP_NOTIF" then depthAfter (depth + 1) rest
      else if op.name = "OP_ENDIF" then
        if depth = 0 then none else depthAfter (depth - 1) rest
      else if op.name = "OP_ELSE" then
        if depth = 0 then none else depthAfter depth rest
      else depthAfter depth rest

/-- Every conditional of a body is closed in the body. -/
def BalancedOps (ops : List Op) : Prop := depthAfter 0 ops = some 0

instance (ops : List Op) : Decidable (BalancedOps ops) := inferInstanceAs (Decidable (_ = _))

/-- The walk goes over opcodes that close no conditional around them. -/
theorem scanLoop_append {body : List Op} {depth depth' : Nat}
    (h : depthAfter depth body = some depth') (rest : List Op) (j : Nat) :
    scanLoop (body ++ rest) j depth = scanLoop rest (j + body.length) depth' := by
  induction body generalizing depth j with
  | nil =>
    obtain rfl := Option.some.inj h
    rfl
  | cons op body ih =>
    have hlength : j + (op :: body).length = j + 1 + body.length := by
      rw [List.length_cons]
      omega
    rw [depthAfter] at h
    rw [List.cons_append, scanLoop, hlength]
    split at h
    · next hopens =>
      rw [if_pos hopens]
      exact ih h (j + 1)
    · next hopens =>
      rw [if_neg hopens]
      split at h
      · next hcloses =>
        rw [if_pos hcloses]
        split at h
        · exact nomatch h
        · next hdeep =>
          rw [if_neg hdeep]
          exact ih h (j + 1)
      · next hcloses =>
        rw [if_neg hcloses]
        split at h
        · split at h
          · exact nomatch h
          · next hdeep =>
            rw [if_neg fun hboth => hdeep hboth.2]
            exact ih h (j + 1)
        · next hturns =>
          rw [if_neg fun hboth => hturns hboth.1]
          exact ih h (j + 1)

/-! ## The chain -/

/-- The opcodes of a test against a method's number. -/
def IsTest (i : Nat) (test : List Op) : Prop :=
  ∃ dup push numEqual opening drop, test = [dup, push, numEqual, opening, drop] ∧
    dup.name = "OP_DUP" ∧ readSmallInt push = some (i : Int) ∧ numEqual.name = "OP_NUMEQUAL" ∧
    opening.name = "OP_IF" ∧ drop.name = "OP_DROP"

/-- The opcodes of the last test. -/
def IsVerify (i : Nat) (test : List Op) : Prop :=
  ∃ push verify, test = [push, verify] ∧ push.name ≠ "OP_DUP" ∧
    readSmallInt push = some (i : Int) ∧ verify.name = "OP_NUMEQUALVERIFY"

/-- The chain of the methods from the `i`-th on, without the ends of its conditionals. -/
inductive Chain : Nat → List (List Op) → List Op → Prop
  | last {i : Nat} {test body : List Op} (verifies : IsVerify i test) :
      Chain i [body] (test ++ body)
  | next {i : Nat} {test body rest : List Op} {turn : Op} {bodies : List (List Op)}
      (tests : IsTest i test) (balanced : BalancedOps body) (turns : turn.name = "OP_ELSE")
      (chain : Chain (i + 1) bodies rest) :
      Chain i (body :: bodies) (test ++ (body ++ turn :: rest))

/-- The streams of the methods from the `i`-th on. -/
def streamsFrom : Nat → List (List Op) → List MethodStream
  | _, [] => []
  | i, body :: bodies => ⟨i, body⟩ :: streamsFrom (i + 1) bodies

theorem length_streamsFrom (i : Nat) (bodies : List (List Op)) :
    (streamsFrom i bodies).length = bodies.length := by
  induction bodies generalizing i with
  | nil => rfl
  | cons body bodies ih => exact congrArg Nat.succ (ih (i + 1))

section Splitting

variable {i : Nat} {before test body rest ends ops : List Op} {bodies : List (List Op)}

theorem isDispatchStart_test (h : IsTest i test) (before rest : List Op) :
    isDispatchStart (before ++ (test ++ rest)) before.length i = true := by
  obtain ⟨dup, push, numEqual, opening, drop, rfl, hdup, hpush, hequal, hopen, hdrop⟩ := h
  rw [isDispatchStart, List.drop_left]
  show (_ && _ && _ && _ && _) = true
  rw [hdup, hpush, hequal, hopen, hdrop]
  simp only [beq_self_eq_true, Bool.and_self]

theorem isDispatchStart_verify (h : IsVerify i test) (before rest : List Op) :
    isDispatchStart (before ++ (test ++ rest)) before.length i = false := by
  obtain ⟨push, verify, rfl, hpush, -⟩ := h
  rw [isDispatchStart, List.drop_left]
  match rest with
  | [] | [_] | [_, _] => rfl
  | _ :: _ :: _ :: _ =>
    show (_ && _ && _ && _ && _) = false
    rw [beq_eq_false_iff_ne.mpr hpush]
    rfl

theorem length_test (h : IsTest i test) : test.length = 5 := by
  obtain ⟨dup, push, numEqual, opening, drop, rfl, -⟩ := h
  rfl

theorem sliceOps_append (before body rest : List Op) :
    sliceOps (before ++ (body ++ rest)) before.length (before.length + body.length) = body := by
  rw [sliceOps, List.drop_left, Nat.add_sub_cancel_left, List.take_left]

/-- A balanced arm ends at its OP_ELSE. -/
theorem scanToBranchClose_arm (hbalanced : BalancedOps body) {turn : Op}
    (hturn : turn.name = "OP_ELSE") (before rest : List Op) :
    scanToBranchClose (before ++ (body ++ turn :: rest)) before.length =
      (before.length + body.length, true) := by
  rw [scanToBranchClose, List.drop_left, scanLoop_append hbalanced, scanLoop, hturn]
  rfl

/-- The last method runs up to the ends of the conditionals. -/
theorem terminalForm_last (h : IsVerify i test) (hends : ∀ op ∈ ends, op.name = "OP_ENDIF")
    (hlength : ends.length = i) (before body : List Op) (methods : List MethodStream) :
    terminalForm (before ++ (test ++ body ++ ends)) before.length i methods =
      some ⟨methods.length + 1, methods ++ [⟨i, body⟩]⟩ := by
  obtain ⟨push, verify, rfl, -, hpush, hverify⟩ := h
  have hfirst : (before ++ ([push, verify] ++ body ++ ends))[before.length]? = some push := by
    rw [List.getElem?_append_right (Nat.le_refl _), Nat.sub_self]
    rfl
  have hsecond : (before ++ ([push, verify] ++ body ++ ends))[before.length + 1]? =
      some verify := by
    rw [List.getElem?_append_right (Nat.le_add_right _ _), Nat.add_sub_cancel_left]
    rfl
  have htotal : (before ++ ([push, verify] ++ body ++ ends)).length =
      before.length + 2 + body.length + i := by
    rw [List.length_append, List.length_append, List.length_append, hlength]
    show before.length + (2 + body.length + i) = _
    omega
  have hcut := sliceOps_append (before ++ [push, verify]) body ends
  rw [List.append_assoc, List.length_append] at hcut
  have htail : (before ++ ([push, verify] ++ body ++ ends)).drop
      (before.length + 2 + body.length) = ends := by
    have hplace : before.length + 2 + body.length = (before ++ [push, verify] ++ body).length := by
      rw [List.length_append, List.length_append]
      rfl
    rw [hplace, ← List.append_assoc, ← List.append_assoc, List.drop_left]
  rw [terminalForm, hfirst, hsecond, if_pos ⟨hpush, congrArg some hverify⟩, htotal,
    if_neg (by omega), Nat.add_sub_cancel]
  dsimp only
  have hslice : sliceOps (before ++ ([push, verify] ++ body ++ ends)) (before.length + 2)
      (before.length + 2 + body.length) = body := hcut
  rw [htail, if_pos (List.all_eq_true.mpr fun op hop => beq_iff_eq.mpr (hends op hop)), hslice,
    List.length_append]
  rfl

/-- The loop splits a chain that it comes to. -/
theorem splitLoop_chain (h : Chain i bodies rest) (hmany : 2 ≤ bodies.length)
    (hops : ops = before ++ (rest ++ ends)) (hends : ∀ op ∈ ends, op.name = "OP_ENDIF")
    (hlength : ends.length = i + bodies.length - 1) {methods : List MethodStream}
    (hmethods : methods.length = i) {fuel : Nat} (hfuel : bodies.length ≤ fuel) :
    splitLoop ops fuel before.length i methods =
      some ⟨i + bodies.length, methods ++ streamsFrom i bodies⟩ := by
  induction h generalizing before methods fuel with
  | last => exact absurd hmany (Nat.not_le.mpr (Nat.lt_succ_self 1))
  | @next i test body rest turn bodies htest hbalanced hturn hchain ih =>
    obtain ⟨fuel, rfl⟩ := Nat.exists_eq_succ_of_ne_zero (show fuel ≠ 0 by
      rw [List.length_cons] at hfuel
      omega)
    have hbody : ops = (before ++ test) ++ (body ++ turn :: (rest ++ ends)) := by
      rw [hops]
      simp only [List.append_assoc, List.cons_append]
    have hrest : ops = (before ++ (test ++ (body ++ [turn]))) ++ (rest ++ ends) := by
      rw [hops]
      simp only [List.append_assoc, List.cons_append, List.nil_append]
    have hplace : (before ++ test).length = before.length + 5 := by
      rw [List.length_append, length_test htest]
    have hplace' : (before ++ (test ++ (body ++ [turn]))).length =
        before.length + 5 + body.length + 1 := by
      simp only [List.length_append, length_test htest, List.length_singleton]
      omega
    have hstart : isDispatchStart ops before.length i = true := by
      rw [hops, List.append_assoc test]
      exact isDispatchStart_test htest _ _
    have hclose := scanToBranchClose_arm hbalanced hturn (before ++ test) (rest ++ ends)
    have hslice := sliceOps_append (before ++ test) body (turn :: (rest ++ ends))
    rw [hplace, ← hbody] at hclose hslice
    have hmethods' : (methods ++ [MethodStream.mk i body]).length = i + 1 := by
      rw [List.length_append, hmethods]
      rfl
    rw [splitLoop, if_pos hstart, hclose]
    dsimp only
    rw [hslice, ← hplace']
    cases hchain with
    | @last _ test' body' hverify =>
      have hstart' : isDispatchStart ops (before ++ (test ++ (body ++ [turn]))).length (i + 1) =
          false := by
        rw [hrest, List.append_assoc test']
        exact isDispatchStart_verify hverify _ _
      have hlast := terminalForm_last hverify hends (show ends.length = i + 1 from hlength)
        (before ++ (test ++ (body ++ [turn]))) body' (methods ++ [⟨i, body⟩])
      rw [← hrest, hmethods'] at hlast
      rw [hstart', if_neg Bool.false_ne_true, hlast, List.append_assoc]
      rfl
    | @next _ test' body' rest' turn' bodies' htest' hbalanced' hturn' hchain' =>
      have hstart' : isDispatchStart ops (before ++ (test ++ (body ++ [turn]))).length (i + 1) =
          true := by
        rw [hrest, List.append_assoc test']
        exact isDispatchStart_test htest' _ _
      have hmore : 0 < bodies'.length := by
        cases hchain' <;> exact Nat.succ_pos _
      have hmany' : 2 ≤ (body' :: bodies').length := Nat.succ_le_succ hmore
      have hlength' : ends.length = i + 1 + (body' :: bodies').length - 1 := by
        rw [hlength, List.length_cons]
        omega
      have hfuel' : (body' :: bodies').length ≤ fuel := Nat.le_of_succ_le_succ hfuel
      rw [if_pos hstart', ih hmany' hrest hlength' hmethods' hfuel', List.append_assoc,
        List.length_cons (a := body), Nat.add_assoc i 1, Nat.add_comm 1]
      rfl

theorem Chain.length_le (h : Chain i bodies rest) : bodies.length ≤ rest.length := by
  induction h with
  | last hverify =>
    obtain ⟨push, verify, rfl, -⟩ := hverify
    exact Nat.succ_le_succ (Nat.zero_le _)
  | next htest _ _ _ ih =>
    rw [List.length_append, List.length_append, length_test htest]
    simp only [List.length_cons]
    omega

end Splitting

/-- A chain with the ends of its conditionals is split into its bodies. -/
theorem splitMethods_chain {bodies : List (List Op)} {chain ends : List Op}
    (h : Chain 0 bodies chain) (hmany : 2 ≤ bodies.length)
    (hends : ∀ op ∈ ends, op.name = "OP_ENDIF") (hlength : ends.length = bodies.length - 1) :
    splitMethods (chain ++ ends) = some ⟨bodies.length, streamsFrom 0 bodies⟩ := by
  have hsize := h.length_le
  have hfuel : bodies.length ≤ (chain ++ ends).length + 1 := by
    rw [List.length_append]
    omega
  have hloop := splitLoop_chain h hmany (show chain ++ ends = [] ++ (chain ++ ends) from rfl) hends
    (by rw [hlength, Nat.zero_add]) (show ([] : List MethodStream).length = 0 from rfl) hfuel
  rw [Nat.zero_add, List.nil_append] at hloop
  have hstart : isDispatchStart (chain ++ ends) 0 0 = true := by
    cases h with
    | last => exact absurd hmany (Nat.not_le.mpr (Nat.lt_succ_self 1))
    | next htest =>
      rw [List.append_assoc]
      exact isDispatchStart_test htest [] _
  have hne : chain ++ ends ≠ [] := by
    intro hnil
    rw [hnil] at hstart
    exact nomatch hstart
  rw [splitMethods, if_neg hne, if_pos hstart]
  exact hloop

end Runar.Decompiler
