/-
  Testing/StackAnalyzer.lean --- the stack effects of the script analyser.

  WHAT THIS FILE IS FOR.  `analyzer/stack-analyzer.ts` adds up the effects of the opcodes of a
  path, from a table.  What an opcode does to the depth of the stack of the machine is what its
  entry says, for every opcode whose effect does not depend on data, but for five that have no
  entry and take more than they leave.
-/
import Runar.Artifact.Emit
import Runar.Testing.ScriptParser

set_option autoImplicit false

namespace Runar.Testing

open Script Logic
open Artifact (opcodeByte)

/-! ## Findings -/

inductive FindingSeverity where
  | error
  | warning
  | info
  deriving DecidableEq, Repr

inductive FindingCode where
  | STACK_UNDERFLOW
  | INCONSISTENT_BRANCH_DEPTH
  | UNREACHABLE_AFTER_RETURN
  | UNBALANCED_IF_ENDIF
  | UNCONDITIONALLY_SUCCEEDS
  | PATHS_TRUNCATED
  deriving DecidableEq, Repr

structure AnalysisFinding where
  severity : FindingSeverity
  code : FindingCode
  message : String
  offset : Option Int := none
  opcode : Option String := none
  path : Option String := none
  deriving DecidableEq, Repr

/-! ## The table -/

/-- What an opcode pops and pushes. -/
def STACK_EFFECTS : List (Nat × (Nat × Nat)) :=
  [(0x61, (0, 0)), (0x63, (1, 0)), (0x64, (1, 0)), (0x67, (0, 0)), (0x68, (0, 0)), (0x69, (1, 0)),
   (0x6a, (0, 0)),
   -- stack
   (0x6b, (1, 0)), (0x6c, (0, 1)), (0x6d, (2, 0)), (0x6e, (2, 4)), (0x6f, (3, 6)), (0x70, (4, 6)),
   (0x71, (6, 6)), (0x72, (4, 4)), (0x73, (1, 1)), (0x74, (0, 1)), (0x75, (1, 0)), (0x76, (1, 2)),
   (0x77, (2, 1)), (0x78, (2, 3)), (0x79, (1, 1)), (0x7a, (1, 0)), (0x7b, (3, 3)), (0x7c, (2, 2)),
   (0x7d, (2, 3)),
   -- byte strings
   (0x7e, (2, 1)), (0x7f, (2, 2)), (0x80, (2, 1)), (0x81, (1, 1)), (0x82, (1, 2)),
   -- bits
   (0x83, (1, 1)), (0x84, (2, 1)), (0x85, (2, 1)), (0x86, (2, 1)), (0x87, (2, 1)), (0x88, (2, 0)),
   -- numbers
   (0x8b, (1, 1)), (0x8c, (1, 1)), (0x8f, (1, 1)), (0x90, (1, 1)), (0x91, (1, 1)), (0x92, (1, 1)),
   (0x93, (2, 1)), (0x94, (2, 1)), (0x95, (2, 1)), (0x96, (2, 1)), (0x97, (2, 1)), (0x98, (2, 1)),
   (0x99, (2, 1)), (0x9a, (2, 1)), (0x9b, (2, 1)), (0x9c, (2, 1)), (0x9d, (2, 0)), (0x9e, (2, 1)),
   (0x9f, (2, 1)), (0xa0, (2, 1)), (0xa1, (2, 1)), (0xa2, (2, 1)), (0xa3, (2, 1)), (0xa4, (2, 1)),
   (0xa5, (3, 1)),
   -- hashes and signatures
   (0xa6, (1, 1)), (0xa7, (1, 1)), (0xa8, (1, 1)), (0xa9, (1, 1)), (0xaa, (1, 1)), (0xac, (2, 1)),
   (0xad, (2, 0)), (0xae, (3, 1)), (0xaf, (3, 0))]

def isPushOpcode (op : ParsedOpcode) : Bool := op.pushEncoding.isSome

/-- The entry of an opcode.  The declared effect of a raw span is left out: the parser makes no
such step. -/
def getStackEffect (op : ParsedOpcode) : Nat × Nat :=
  if isPushOpcode op then (0, 1) else (STACK_EFFECTS.lookup op.opcode.toNat).getD (0, 0)

/-! ## The analysis of a path -/

structure StackAnalysisState where
  depth : Int
  maxDepth : Int
  findings : List AnalysisFinding

/-- The loop over the opcodes, before a return and after one. -/
def analyzeLoop (initialDepth : Int) :
    List ParsedOpcode → Bool → StackAnalysisState → StackAnalysisState
  | [], _, state => state
  | op :: opcodes, true, state =>
      analyzeLoop initialDepth opcodes true { state with
        findings := state.findings ++ [{
          severity := .warning
          code := .UNREACHABLE_AFTER_RETURN
          message := "Unreachable opcode " ++ op.name ++ " after OP_RETURN"
          offset := some op.offset
          opcode := some op.name }] }
  | op :: opcodes, false, state =>
      if op.opcode = 0x6a then analyzeLoop initialDepth opcodes true state
      else
        let (pops, pushes) := getStackEffect op
        let underflow : List AnalysisFinding :=
          if initialDepth > 0 ∧ state.depth < pops then
            [{ severity := .error
               code := .STACK_UNDERFLOW
               message := op.name ++ " requires " ++ toString pops ++
                 " stack item(s) but only " ++ toString state.depth ++ " available"
               offset := some op.offset
               opcode := some op.name }]
          else []
        let depth := state.depth - pops + pushes
        analyzeLoop initialDepth opcodes false
          { depth, maxDepth := max depth state.maxDepth, findings := state.findings ++ underflow }

def analyzeStackLinear (opcodes : List ParsedOpcode) (initialDepth : Int) : StackAnalysisState :=
  analyzeLoop initialDepth opcodes false ⟨initialDepth, initialDepth, []⟩

/-- What the table says an opcode adds to the depth. -/
def tableChange (op : ParsedOpcode) : Int := (getStackEffect op).2 - (getStackEffect op).1

theorem depth_analyzeLoop {initialDepth : Int} {opcodes : List ParsedOpcode}
    (h : ∀ op ∈ opcodes, op.opcode ≠ 0x6a) (state : StackAnalysisState) :
    (analyzeLoop initialDepth opcodes false state).depth =
      state.depth + (opcodes.map tableChange).sum := by
  induction opcodes generalizing state with
  | nil => exact (Int.add_zero _).symm
  | cons op opcodes ih =>
    obtain ⟨hop, hopcodes⟩ := List.forall_mem_cons.mp h
    rw [analyzeLoop, if_neg hop, ih hopcodes, List.map_cons, List.sum_cons, tableChange]
    dsimp only
    omega

/-- Without a return, the depth at the end is the sum of the effects. -/
theorem depth_analyzeStackLinear {opcodes : List ParsedOpcode}
    (h : ∀ op ∈ opcodes, op.opcode ≠ 0x6a) :
    (analyzeStackLinear opcodes 0).depth = (opcodes.map tableChange).sum := by
  rw [analyzeStackLinear, depth_analyzeLoop h]
  exact Int.zero_add _

/-! ## The effects of the machine -/

/-- What an opcode adds to the depth of the main stack, where that does not depend on data. -/
def depthChange : Script.Opcode → Int
  | .OP_0 | .OP_1NEGATE | .OP_1 | .OP_2 | .OP_3 | .OP_4 | .OP_5 | .OP_6 | .OP_7 | .OP_8 | .OP_9
  | .OP_10 | .OP_11 | .OP_12 | .OP_13 | .OP_14 | .OP_15 | .OP_16 | .OP_FROMALTSTACK | .OP_DEPTH
  | .OP_DUP | .OP_OVER | .OP_TUCK | .OP_SIZE => 1
  | .OP_2DUP | .OP_2OVER => 2
  | .OP_3DUP => 3
  | .OP_VERIFY | .OP_TOALTSTACK | .OP_DROP | .OP_NIP | .OP_ROLL | .OP_CAT | .OP_NUM2BIN | .OP_AND
  | .OP_OR | .OP_XOR | .OP_EQUAL | .OP_ADD | .OP_SUB | .OP_MUL | .OP_DIV | .OP_MOD | .OP_LSHIFT
  | .OP_RSHIFT | .OP_BOOLAND | .OP_BOOLOR | .OP_NUMEQUAL | .OP_NUMNOTEQUAL | .OP_LESSTHAN
  | .OP_GREATERTHAN | .OP_LESSTHANOREQUAL | .OP_GREATERTHANOREQUAL | .OP_MIN | .OP_MAX
  | .OP_CHECKSIG | .OP_LEFT | .OP_RIGHT | .OP_LSHIFTNUM | .OP_RSHIFTNUM => -1
  | .OP_2DROP | .OP_EQUALVERIFY | .OP_NUMEQUALVERIFY | .OP_WITHIN | .OP_CHECKSIGVERIFY
  | .OP_SUBSTR => -2
  | _ => 0

/-- Whether the effect of an opcode on the depth depends on the data it meets. -/
def dependsOnData : Script.Opcode → Bool
  | .OP_IFDUP | .OP_CHECKMULTISIG | .OP_CHECKMULTISIGVERIFY => true
  | _ => false

section Effects

variable {cfg : Config} {code : Script.Opcode} {st st' : Stacks}

theorem length_pushNum {n : Int} (h : pushNum n st = .ok st') :
    (st'.main.length : Int) = st.main.length + 1 := by
  obtain rfl := Except.ok.inj h
  exact Int.natCast_succ _

/-- A result of a step followed by others is a result of the step. -/
theorem of_bind_ok {α β : Type} {x : Except ScriptError α} {f : α → Except ScriptError β} {b : β}
    (h : (x >>= f) = .ok b) : ∃ a, x = .ok a ∧ f a = .ok b := by
  cases x with
  | error e => exact nomatch h
  | ok a => exact ⟨a, rfl, h⟩

theorem length_top1 {f : Bytes → Except ScriptError Bytes} (h : top1 f st = .ok st') :
    (st'.main.length : Int) = st.main.length + 0 := by
  obtain ⟨main, alt⟩ := st
  cases main with
  | nil => exact nomatch h
  | cons a s =>
    obtain ⟨r, -, hr⟩ := of_bind_ok h
    obtain rfl := Except.ok.inj hr
    exact (Int.add_zero _).symm

theorem length_top2 {f : Bytes → Bytes → Except ScriptError Bytes} (h : top2 f st = .ok st') :
    (st'.main.length : Int) = st.main.length + -1 := by
  obtain ⟨main, alt⟩ := st
  match main with
  | [] | [_] => exact nomatch h
  | b :: a :: s =>
    obtain ⟨r, -, hr⟩ := of_bind_ok h
    obtain rfl := Except.ok.inj hr
    simp only [List.length_cons]
    omega

theorem length_verifyTop (h : verifyTop st = .ok st') :
    (st'.main.length : Int) = st.main.length + -1 := by
  obtain ⟨main, alt⟩ := st
  cases main with
  | nil => exact nomatch h
  | cons a s =>
    rw [verifyTop] at h
    dsimp only at h
    split at h
    · obtain rfl := Except.ok.inj h
      simp only [List.length_cons]
      omega
    · exact nomatch h

theorem length_top2_verify {f : Bytes → Bytes → Except ScriptError Bytes}
    (h : (top2 f st >>= verifyTop) = .ok st') : (st'.main.length : Int) = st.main.length + -2 := by
  obtain ⟨mid, hmid, hend⟩ := of_bind_ok h
  have hfirst := length_top2 hmid
  have hsecond := length_verifyTop hend
  omega

theorem length_shuffle {f : List Bytes → Option (List Bytes)} {k : Int}
    (hf : ∀ s s', f s = some s' → (s'.length : Int) = s.length + k) (h : shuffle f st = .ok st') :
    (st'.main.length : Int) = st.main.length + k := by
  rw [shuffle] at h
  split at h
  · next s hs =>
    obtain rfl := Except.ok.inj h
    exact hf _ _ hs
  · exact nomatch h

/-- An executed opcode changes the depth by its own amount. -/
theorem length_opcodeStep (hdata : dependsOnData code = false)
    (h : opcodeStep cfg code st = .ok st') :
    (st'.main.length : Int) = st.main.length + depthChange code := by
  have hshuffle {f : List Bytes → Option (List Bytes)} (hop : shuffle f st = .ok st')
      (hf : ∀ s s', f s = some s' → (s'.length : Int) = s.length + depthChange code) :=
    length_shuffle hf hop
  obtain ⟨main, alt⟩ := st
  cases code with
  | OP_0 | OP_1NEGATE | OP_1 | OP_2 | OP_3 | OP_4 | OP_5 | OP_6 | OP_7 | OP_8 | OP_9 | OP_10 | OP_11
  | OP_12 | OP_13 | OP_14 | OP_15 | OP_16 | OP_DEPTH => exact length_pushNum h
  | OP_NOP | OP_CODESEPARATOR | OP_IF | OP_NOTIF | OP_ELSE | OP_ENDIF | OP_RETURN =>
    obtain rfl := Except.ok.inj h
    exact (Int.add_zero _).symm
  | OP_BIN2NUM | OP_INVERT | OP_1ADD | OP_1SUB | OP_2MUL | OP_2DIV | OP_NEGATE | OP_ABS | OP_NOT
  | OP_0NOTEQUAL | OP_RIPEMD160 | OP_SHA1 | OP_SHA256 | OP_HASH160 | OP_HASH256 =>
    exact length_top1 h
  | OP_CAT | OP_AND | OP_OR | OP_XOR | OP_EQUAL | OP_ADD | OP_SUB | OP_MUL | OP_DIV | OP_MOD
  | OP_LSHIFT | OP_RSHIFT | OP_BOOLAND | OP_BOOLOR | OP_NUMEQUAL | OP_NUMNOTEQUAL | OP_LESSTHAN
  | OP_GREATERTHAN | OP_LESSTHANOREQUAL | OP_GREATERTHANOREQUAL | OP_MIN | OP_MAX | OP_CHECKSIG
  | OP_LEFT | OP_RIGHT | OP_LSHIFTNUM | OP_RSHIFTNUM => exact length_top2 h
  | OP_VERIFY => exact length_verifyTop h
  | OP_EQUALVERIFY | OP_NUMEQUALVERIFY | OP_CHECKSIGVERIFY => exact length_top2_verify h
  | OP_2DROP | OP_2DUP | OP_3DUP | OP_2OVER | OP_2ROT | OP_2SWAP | OP_DROP | OP_DUP | OP_NIP
  | OP_OVER | OP_ROT | OP_SWAP | OP_TUCK | OP_SIZE =>
    rw [opcodeStep] at h
    refine hshuffle h fun s s' hs => ?_
    split at hs
    · obtain rfl := Option.some.inj hs
      simp only [List.length_cons, depthChange]
      omega
    · cases hs
  | OP_IFDUP | OP_CHECKMULTISIG | OP_CHECKMULTISIGVERIFY => cases hdata
  | OP_TOALTSTACK =>
    cases main with
    | nil => cases h
    | cons a s =>
      obtain rfl := Except.ok.inj h
      simp only [List.length_cons, depthChange]
      omega
  | OP_FROMALTSTACK =>
    cases alt with
    | nil => cases h
    | cons a s =>
      obtain rfl := Except.ok.inj h
      simp only [List.length_cons, depthChange]
      omega
  | OP_PICK | OP_ROLL =>
    cases main with
    | nil => cases h
    | cons n s =>
      obtain ⟨k, -, hk⟩ := of_bind_ok h
      split at hk
      · cases hk
      split at hk
      · next a ha =>
        obtain rfl := Except.ok.inj hk
        have hlt := (List.getElem?_eq_some_iff.mp ha).1
        simp only [List.length_cons, List.length_eraseIdx, depthChange, if_pos hlt]
        omega
      · cases hk
  | OP_SPLIT | OP_NUM2BIN =>
    rcases main with _ | ⟨n, _ | ⟨a, s⟩⟩
    · cases h
    · cases h
    · obtain ⟨k, -, hk⟩ := of_bind_ok h
      obtain ⟨r, -, hr⟩ := of_bind_ok hk
      obtain rfl := Except.ok.inj hr
      simp only [List.length_cons, depthChange]
      omega
  | OP_WITHIN =>
    rcases main with _ | ⟨hi, _ | ⟨lo, _ | ⟨a, s⟩⟩⟩
    · cases h
    · cases h
    · cases h
    · obtain ⟨x, -, hx⟩ := of_bind_ok h
      obtain ⟨l, -, hl⟩ := of_bind_ok hx
      obtain ⟨u, -, hu⟩ := of_bind_ok hl
      obtain rfl := Except.ok.inj hu
      simp only [List.length_cons, depthChange]
      omega
  | OP_SUBSTR =>
    rcases main with _ | ⟨len, _ | ⟨start, _ | ⟨a, s⟩⟩⟩
    · cases h
    · cases h
    · cases h
    · obtain ⟨n, -, hn⟩ := of_bind_ok h
      obtain ⟨k, -, hk⟩ := of_bind_ok hn
      obtain ⟨behind, -, hbehind⟩ := of_bind_ok hk
      obtain ⟨mid, -, hmid⟩ := of_bind_ok hbehind
      obtain rfl := Except.ok.inj hmid
      simp only [List.length_cons, depthChange]
      omega

end Effects

/-! ## The table and the machine -/

/-- The bytes that are neither pushes nor opcodes of the machine. -/
def isUndefined (byte : Nat) : Bool :=
  byte == 0x50 || byte == 0x62 || byte == 0x65 || byte == 0x66 || byte == 0x89 || byte == 0x8a ||
    (0xb0 ≤ byte && byte ≤ 0xb2) || 0xb8 ≤ byte

/-- The instruction that a parsed opcode is run as.  An undefined byte, where it is executed at
all, does nothing. -/
inductive ReadsAs : ParsedOpcode → Instr → Prop
  | push {op : ParsedOpcode} (opcode : 0x01 ≤ op.opcode ∧ op.opcode ≤ 0x4e)
      (encoding : op.pushEncoding.isSome) : ReadsAs op (.push (op.data.getD []))
  | op {op : ParsedOpcode} {code : Script.Opcode} (opcode : op.opcode.toNat = opcodeByte code)
      (encoding : op.pushEncoding.isSome = decide (opcodeByte code ≤ 0x60)) : ReadsAs op (.op code)
  | undefined {op : ParsedOpcode} (opcode : isUndefined op.opcode.toNat = true)
      (encoding : op.pushEncoding.isSome = false) : ReadsAs op (.op .OP_NOP)

/-- What an opcode without an entry takes off the stack: OP_SUBSTR two items, OP_LEFT, OP_RIGHT,
OP_LSHIFTNUM and OP_RSHIFTNUM one. -/
def untold (op : ParsedOpcode) : Int :=
  if op.opcode.toNat = 0xb3 then 2
  else if 0xb4 ≤ op.opcode.toNat ∧ op.opcode.toNat ≤ 0xb7 then 1
  else 0

theorem untold_nonneg (op : ParsedOpcode) : 0 ≤ untold op := by
  unfold untold
  split
  · decide
  split <;> decide

/-- The conditionals, whose operand the table has but the path has not. -/
def conditional : Script.Opcode → Bool
  | .OP_IF | .OP_NOTIF | .OP_ELSE | .OP_ENDIF => true
  | _ => false

theorem tableChange_op {op : ParsedOpcode} {code : Script.Opcode} (h : ReadsAs op (.op code))
    (hdata : dependsOnData code = false) (hcond : conditional code = false) :
    tableChange op = depthChange code + untold op := by
  cases h with
  | op hopcode hencoding =>
    rw [tableChange, getStackEffect, isPushOpcode, hencoding, untold, hopcode]
    cases code <;> first | rfl | exact absurd hcond (by decide) | exact absurd hdata (by decide)
  | undefined hopcode hencoding =>
    have hkeys : ∀ p ∈ STACK_EFFECTS, isUndefined p.1 = false := by decide
    have hlookup : STACK_EFFECTS.lookup op.opcode.toNat = none := by
      refine List.lookup_eq_none_iff.mpr fun p hp => bne_iff_ne.mpr fun heq => ?_
      rw [heq, hkeys p hp] at hopcode
      exact Bool.false_ne_true hopcode
    have huntold : untold op = 0 := by
      rw [untold]
      simp only [isUndefined, Bool.or_eq_true, Bool.and_eq_true, beq_iff_eq, decide_eq_true_eq]
        at hopcode
      rw [if_neg (by omega), if_neg (by omega)]
    rw [tableChange, getStackEffect, isPushOpcode, hencoding, hlookup, huntold]
    rfl

theorem tableChange_push {op : ParsedOpcode} {data : Bytes} (h : ReadsAs op (.push data)) :
    tableChange op = 1 + untold op := by
  cases h with
  | push hopcode hencoding =>
    have hlow : op.opcode.toNat ≤ 0x4e := UInt8.le_iff_toNat_le.mp hopcode.2
    rw [tableChange, getStackEffect, isPushOpcode, if_pos hencoding, untold, if_neg (by omega),
      if_neg (by omega)]
    rfl

end Runar.Testing
