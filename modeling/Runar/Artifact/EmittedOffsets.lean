/-
  Artifact/EmittedOffsets.lean --- the offsets the emitter records.

  WHAT THIS FILE IS FOR.  While it writes, the emitter records where it has put placeholders,
  code separators and spans of raw bytes, and the SDK writes and reads at those offsets
  without looking at the script.  This file carries one invariant through the emitter: what
  has been written so far, and that everything recorded is where that says.

  RAW SPANS are opaque: a separator inside of one is not recorded, and a span that ends
  inside of a push takes the bytes behind it into the push.
-/
import Runar.Sdk.Marks

set_option autoImplicit false

namespace Runar.Artifact

open Script
open Sdk (ConstructorSlot CodeSepIndexSlot WholeText InertText)

/-! ## The spans of raw bytes -/

/-- The range of a span of raw bytes, with what it takes from the stack and leaves. -/
structure RawScriptSpan where
  offset : Nat
  length : Nat
  inArity : Nat
  outArity : Nat
  deriving DecidableEq, Repr

mutual

/-- The spans recorded while an operation is emitted. -/
def spansOfOp : StackOp → EmitContext → List RawScriptSpan
  | .rawBytes bytes inArity outArity, ctx =>
      if bytes.isEmpty then [] else [⟨ctx.byteLength, bytes.length, inArity, outArity⟩]
  | .ifOp thenOps elseOps, ctx =>
      let ctx := ctx.emitOpcode .OP_IF
      spansOfOps thenOps ctx ++
        if elseOps.isEmpty then []
        else spansOfOps elseOps ((emitOps thenOps ctx).emitOpcode .OP_ELSE)
  | .push _, _ | .dup, _ | .swap, _ | .roll _, _ | .pick _, _ | .drop, _ | .nip, _ | .over, _
  | .rot, _ | .tuck, _ | .opcode _, _ | .placeholder _ _, _ | .pushCodesepIndex, _ => []

def spansOfOps : List StackOp → EmitContext → List RawScriptSpan
  | [], _ => []
  | op :: ops, ctx => spansOfOp op ctx ++ spansOfOps ops (emitStackOp op ctx)

end

/-- The context behind the test of a selector. -/
def testSelector (i : Nat) (ctx : EmitContext) : EmitContext :=
  ((((ctx.emitOpcode .OP_DUP).emitPush (.bigint i)).emitOpcode .OP_NUMEQUAL).emitOpcode
    .OP_IF).emitOpcode .OP_DROP

def spansOfCases (i : Nat) : List StackMethod → EmitContext → List RawScriptSpan
  | [], _ => []
  | [last], ctx =>
      spansOfOps last.ops ((ctx.emitPush (.bigint i)).emitOpcode .OP_NUMEQUALVERIFY)
  | method :: rest, ctx =>
      let ctx := testSelector i ctx
      spansOfOps method.ops ctx ++
        spansOfCases (i + 1) rest ((emitOps method.ops ctx).emitOpcode .OP_ELSE)

/-- The spans recorded for a program. -/
def rawScriptSpans (methods : List StackMethod) : List RawScriptSpan :=
  match methods.filter (·.name ≠ "constructor") with
  | [] => []
  | [method] => spansOfOps method.ops .new
  | methods => spansOfCases 0 methods .new

/-! ## What has been written -/

/-- What one call of the emitter writes. -/
inductive Written where
  | opcode (code : Opcode)
  | push (value : PushValue)
  | placeholder (paramIndex : Nat)
  | codeSepIndex
  | rawBytes (bytes : Bytes) (inArity outArity : Nat)

def Written.text : Written → HexText
  | .opcode code => hexNumber (opcodeByte code)
  | .push value => encodePushValue value
  | .placeholder _ | .codeSepIndex => Artifact.placeholder
  | .rawBytes bytes _ _ => toHex bytes

/-- How many bytes are written. -/
def Written.size (w : Written) : Nat := w.text.length / 2

mutual

def opWritten : StackOp → List Written
  | .push value => [.push value]
  | .dup => [.opcode .OP_DUP]
  | .swap => [.opcode .OP_SWAP]
  | .roll _ => [.opcode .OP_ROLL]
  | .pick _ => [.opcode .OP_PICK]
  | .drop => [.opcode .OP_DROP]
  | .nip => [.opcode .OP_NIP]
  | .over => [.opcode .OP_OVER]
  | .rot => [.opcode .OP_ROT]
  | .tuck => [.opcode .OP_TUCK]
  | .opcode code => [.opcode code]
  | .ifOp thenOps elseOps =>
      .opcode .OP_IF :: (opsWritten thenOps ++
        ((if elseOps.isEmpty then [] else .opcode .OP_ELSE :: opsWritten elseOps) ++
          [.opcode .OP_ENDIF]))
  | .placeholder paramIndex _ => [.placeholder paramIndex]
  | .pushCodesepIndex => [.codeSepIndex]
  | .rawBytes bytes inArity outArity => [.rawBytes bytes inArity outArity]

def opsWritten : List StackOp → List Written
  | [] => []
  | op :: ops => opWritten op ++ opsWritten ops

end

def selectorWritten (i : Nat) : List Written :=
  [.opcode .OP_DUP, .push (.bigint i), .opcode .OP_NUMEQUAL, .opcode .OP_IF, .opcode .OP_DROP]

def casesWritten (i : Nat) : List StackMethod → List Written
  | [] => []
  | [last] => .push (.bigint i) :: .opcode .OP_NUMEQUALVERIFY :: opsWritten last.ops
  | method :: rest =>
      selectorWritten i ++ (opsWritten method.ops ++
        (.opcode .OP_ELSE :: casesWritten (i + 1) rest))

/-- What is written for a program. -/
def programWritten (methods : List StackMethod) : List Written :=
  match methods.filter (·.name ≠ "constructor") with
  | [] => []
  | [method] => opsWritten method.ops
  | methods => casesWritten 0 methods ++ List.replicate (methods.length - 1) (.opcode .OP_ENDIF)

/-! ## Where it stands -/

/-- Each thing written with its offset. -/
def placed (offset : Nat) : List Written → List (Nat × Written)
  | [] => []
  | w :: ws => (offset, w) :: placed (offset + w.size) ws

/-- The text of what is written. -/
def textOf (ws : List Written) : HexText := ws.flatMap Written.text

def totalSize (ws : List Written) : Nat := (ws.map Written.size).sum

def slotAt : Nat × Written → Option ConstructorSlot
  | (offset, .placeholder paramIndex) => some ⟨paramIndex, offset⟩
  | _ => none

def sepSlotAt : Nat × Written → Option Nat
  | (offset, .codeSepIndex) => some offset
  | _ => none

def separatorAt : Nat × Written → Option Nat
  | (offset, .opcode .OP_CODESEPARATOR) => some offset
  | _ => none

def spanAt : Nat × Written → Option RawScriptSpan
  | (offset, .rawBytes bytes inArity outArity) =>
      if bytes.isEmpty then none else some ⟨offset, bytes.length, inArity, outArity⟩
  | _ => none

theorem length_text (w : Written) : w.text.length = 2 * w.size := by
  have heven : w.text.length % 2 = 0 := by
    cases w with
    | opcode code => exact (wrote_emitOpcode code).whole _ List.mem_cons_self
    | push value => exact even_encodePushValue value
    | placeholder paramIndex =>
      exact (wrote_emitPlaceholder paramIndex).whole _ List.mem_cons_self
    | codeSepIndex => rfl
    | rawBytes bytes inArity outArity => exact even_toHex bytes
  unfold Written.size
  omega

theorem textOf_append (xs ys : List Written) : textOf (xs ++ ys) = textOf xs ++ textOf ys :=
  List.flatMap_append

theorem totalSize_append (xs ys : List Written) :
    totalSize (xs ++ ys) = totalSize xs + totalSize ys := by
  rw [totalSize, List.map_append, List.sum_append]
  rfl

theorem length_textOf (ws : List Written) : (textOf ws).length = 2 * totalSize ws := by
  induction ws with
  | nil => rfl
  | cons w ws ih =>
    have htext : textOf (w :: ws) = w.text ++ textOf ws := List.flatMap_cons
    have hsize : totalSize (w :: ws) = w.size + totalSize ws := rfl
    rw [htext, hsize, List.length_append, length_text, ih]
    omega

theorem placed_append (offset : Nat) (xs ys : List Written) :
    placed offset (xs ++ ys) = placed offset xs ++ placed (offset + totalSize xs) ys := by
  induction xs generalizing offset with
  | nil => rfl
  | cons w xs ih =>
    have hsize : totalSize (w :: xs) = w.size + totalSize xs := rfl
    rw [List.cons_append, placed, placed, ih, hsize, List.cons_append, Nat.add_assoc]

/-- What stands at an offset has what comes before it in front of it. -/
theorem split_of_mem_placed {offset : Nat} {ws : List Written} {p : Nat × Written}
    (h : p ∈ placed offset ws) :
    ∃ before after, ws = before ++ p.2 :: after ∧ p.1 = offset + totalSize before := by
  induction ws generalizing offset with
  | nil => exact absurd h List.not_mem_nil
  | cons w ws ih =>
    rcases List.mem_cons.mp h with rfl | h
    · exact ⟨[], ws, rfl, rfl⟩
    · obtain ⟨before, after, rfl, hp⟩ := ih h
      refine ⟨w :: before, after, rfl, ?_⟩
      have hsize : totalSize (w :: before) = w.size + totalSize before := rfl
      rw [hp, hsize, Nat.add_assoc]

theorem map_snd_placed (offset : Nat) (ws : List Written) :
    (placed offset ws).map Prod.snd = ws := by
  induction ws generalizing offset with
  | nil => rfl
  | cons w ws ih => rw [placed, List.map_cons, ih]

theorem placed_le {ws : List Written} {p : Nat × Written} (h : p ∈ placed 0 ws) :
    p.1 + p.2.size ≤ totalSize ws := by
  obtain ⟨before, after, hws, hp⟩ := split_of_mem_placed h
  have hsize : totalSize (p.2 :: after) = p.2.size + totalSize after := rfl
  rw [hws, totalSize_append, hsize]
  omega

/-! ## What is recorded -/

/-- What has been recorded is where what has been written says. -/
structure Recorded (ws : List Written) (ctx : EmitContext) (spans : List RawScriptSpan) :
    Prop where
  hex : ctx.hex = textOf ws
  constructorSlots : ctx.constructorSlots = (placed 0 ws).filterMap slotAt
  sepSlots : ctx.codeSepIndexSlots.map (·.byteOffset) = (placed 0 ws).filterMap sepSlotAt
  separators : ctx.codeSeparatorIndices = (placed 0 ws).filterMap separatorAt
  last : ctx.codeSeparatorIndex = ctx.codeSeparatorIndices.getLast?
  preceding : ∀ slot ∈ ctx.codeSepIndexSlots, slot.codeSepIndex =
    ((ctx.codeSeparatorIndices.filter (· < slot.byteOffset)).getLast?).getD 0
  spans : spans = (placed 0 ws).filterMap spanAt

theorem Recorded.new : Recorded [] .new [] :=
  ⟨rfl, rfl, rfl, rfl, rfl, fun _ h => absurd h List.not_mem_nil, rfl⟩

namespace Recorded

variable {ws : List Written} {ctx : EmitContext} {spans : List RawScriptSpan}

theorem byteLength (h : Recorded ws ctx spans) : ctx.byteLength = totalSize ws := by
  have hlength := length_textOf ws
  unfold EmitContext.byteLength
  rw [h.hex]
  omega

theorem filterMap_concat {α : Type} (f : Nat × Written → Option α) (ws : List Written)
    (w : Written) : (placed 0 (ws ++ [w])).filterMap f =
      (placed 0 ws).filterMap f ++ (f (totalSize ws, w)).toList := by
  have hone : placed (0 + totalSize ws) [w] = [(totalSize ws, w)] := by
    rw [Nat.zero_add]
    rfl
  rw [placed_append, hone, List.filterMap_append, List.filterMap_cons]
  cases f (totalSize ws, w) <;> rfl

/-- A placeholder stands before what is written next, and a separator too. -/
theorem mem_filterMap_le {f : Nat × Written → Option Nat}
    (hf : ∀ p o, f p = some o → p.1 = o ∧ p.2.size = 1) {o : Nat}
    (h : o ∈ (placed 0 ws).filterMap f) : o < totalSize ws := by
  obtain ⟨p, hp, ho⟩ := List.mem_filterMap.mp h
  obtain ⟨hoffset, hsize⟩ := hf p o ho
  have hle := placed_le hp
  omega

theorem sepSlotAt_eq (p : Nat × Written) (o : Nat) (h : sepSlotAt p = some o) :
    p.1 = o ∧ p.2 = .codeSepIndex := by
  obtain ⟨offset, w⟩ := p
  cases w with
  | codeSepIndex => exact ⟨Option.some.inj h, rfl⟩
  | opcode code | push value | placeholder paramIndex | rawBytes bytes inArity outArity =>
    exact nomatch h

theorem separatorAt_eq (p : Nat × Written) (o : Nat) (h : separatorAt p = some o) :
    p.1 = o ∧ p.2 = .opcode .OP_CODESEPARATOR := by
  unfold separatorAt at h
  split at h
  · exact ⟨Option.some.inj h, rfl⟩
  · exact nomatch h

theorem size_codeSepIndex : Written.codeSepIndex.size = 1 := rfl

theorem size_opcode (code : Opcode) : (Written.opcode code).size = 1 := by
  have hlength := length_hexNumber_of_lt (opcodeByte_lt code)
  show (hexNumber (opcodeByte code)).length / 2 = 1
  rw [hlength]

theorem sepSlot_lt (h : Recorded ws ctx spans) {slot : CodeSepIndexSlot}
    (hslot : slot ∈ ctx.codeSepIndexSlots) : slot.byteOffset < totalSize ws := by
  have hmem : slot.byteOffset ∈ ctx.codeSepIndexSlots.map (·.byteOffset) :=
    List.mem_map_of_mem hslot
  rw [h.sepSlots] at hmem
  refine mem_filterMap_le (fun p o ho => ?_) hmem
  obtain ⟨hoffset, hw⟩ := sepSlotAt_eq p o ho
  exact ⟨hoffset, by rw [hw, size_codeSepIndex]⟩

theorem separator_lt (h : Recorded ws ctx spans) {o : Nat}
    (ho : o ∈ ctx.codeSeparatorIndices) : o < totalSize ws := by
  rw [h.separators] at ho
  refine mem_filterMap_le (fun p o ho => ?_) ho
  obtain ⟨hoffset, hw⟩ := separatorAt_eq p o ho
  exact ⟨hoffset, by rw [hw, size_opcode]⟩

/-- Writing what records nothing. -/
theorem silent (h : Recorded ws ctx spans) (w : Written) (ctx' : EmitContext)
    (hhex : ctx'.hex = ctx.hex ++ w.text) (hslots : ctx'.constructorSlots = ctx.constructorSlots)
    (hseps : ctx'.codeSepIndexSlots = ctx.codeSepIndexSlots)
    (hindices : ctx'.codeSeparatorIndices = ctx.codeSeparatorIndices)
    (hindex : ctx'.codeSeparatorIndex = ctx.codeSeparatorIndex)
    (hw : ∀ o, slotAt (o, w) = none ∧ sepSlotAt (o, w) = none ∧ separatorAt (o, w) = none)
    {more : List RawScriptSpan} (hmore : more = (spanAt (totalSize ws, w)).toList) :
    Recorded (ws ++ [w]) ctx' (spans ++ more) where
  hex := by
    rw [hhex, h.hex, textOf_append]
    exact congrArg _ (List.append_nil _).symm
  constructorSlots := by
    rw [hslots, h.constructorSlots, filterMap_concat, (hw _).1]
    exact (List.append_nil _).symm
  sepSlots := by
    rw [hseps, h.sepSlots, filterMap_concat, (hw _).2.1]
    exact (List.append_nil _).symm
  separators := by
    rw [hindices, h.separators, filterMap_concat, (hw _).2.2]
    exact (List.append_nil _).symm
  last := by rw [hindex, hindices, h.last]
  preceding := by
    rw [hseps, hindices]
    exact h.preceding
  spans := by rw [h.spans, filterMap_concat, hmore]

theorem emitSeparator (h : Recorded ws ctx spans) :
    Recorded (ws ++ [.opcode .OP_CODESEPARATOR]) (ctx.emitOpcode .OP_CODESEPARATOR) spans where
  hex := by
    rw [textOf_append, ← h.hex]
    exact congrArg (ctx.hex ++ ·) (List.append_nil _).symm
  constructorSlots := by
    rw [filterMap_concat]
    exact h.constructorSlots.trans (List.append_nil _).symm
  sepSlots := by
    rw [filterMap_concat]
    exact h.sepSlots.trans (List.append_nil _).symm
  separators := by
    rw [filterMap_concat, ← h.separators]
    show ctx.codeSeparatorIndices ++ [ctx.byteLength] = _
    rw [h.byteLength]
    rfl
  last := (List.getLast?_concat ..).symm
  preceding := by
    -- the separator stands behind the placeholders there are
    intro slot hslot
    have hlt := h.sepSlot_lt hslot
    show _ = (((ctx.codeSeparatorIndices ++ [ctx.byteLength]).filter
      (· < slot.byteOffset)).getLast?).getD 0
    have hbehind : decide (totalSize ws < slot.byteOffset) = false :=
      decide_eq_false (Nat.not_lt_of_lt hlt)
    rw [List.filter_append, h.byteLength, List.filter_singleton, hbehind, cond_false,
      List.append_nil]
    exact h.preceding slot hslot
  spans := by
    rw [filterMap_concat]
    exact h.spans.trans (List.append_nil _).symm

theorem emitOpcode (h : Recorded ws ctx spans) (code : Opcode) :
    Recorded (ws ++ [.opcode code]) (ctx.emitOpcode code) spans := by
  by_cases hsep : code = .OP_CODESEPARATOR
  · rw [hsep]
    exact h.emitSeparator
  · have hctx : ctx.emitOpcode code = ctx.appendHex (hexNumber (opcodeByte code)) := by
      unfold EmitContext.emitOpcode
      rw [if_neg hsep]
    rw [hctx]
    have hnone : ∀ o, separatorAt (o, .opcode code) = none := by
      intro o
      unfold separatorAt
      split
      · rename_i heq
        exact absurd (Written.opcode.inj (Prod.mk.inj heq).2) hsep
      · rfl
    have hwritten : Recorded (ws ++ [.opcode code])
        (ctx.appendHex (hexNumber (opcodeByte code))) (spans ++ []) :=
      h.silent (.opcode code) (ctx.appendHex _) rfl rfl rfl rfl rfl (fun o => ⟨rfl, rfl, hnone o⟩) rfl
    rwa [List.append_nil] at hwritten

theorem emitPush (h : Recorded ws ctx spans) (value : PushValue) :
    Recorded (ws ++ [.push value]) (ctx.emitPush value) spans := by
  have hwritten : Recorded (ws ++ [.push value]) (ctx.emitPush value) (spans ++ []) :=
    h.silent (.push value) (ctx.emitPush value) rfl rfl rfl rfl rfl (fun o => ⟨rfl, rfl, rfl⟩) rfl
  rwa [List.append_nil] at hwritten

theorem emitRawBytes (h : Recorded ws ctx spans) (bytes : Bytes) (inArity outArity : Nat) :
    Recorded (ws ++ [.rawBytes bytes inArity outArity]) (ctx.appendHex (toHex bytes))
      (spans ++ if bytes.isEmpty then []
        else [⟨ctx.byteLength, bytes.length, inArity, outArity⟩]) := by
  refine h.silent (.rawBytes bytes inArity outArity) (ctx.appendHex _) rfl rfl rfl rfl rfl
    (fun o => ⟨rfl, rfl, rfl⟩) ?_
  rw [h.byteLength]
  unfold spanAt
  dsimp only
  split <;> rfl

theorem emitPlaceholder (h : Recorded ws ctx spans) (paramIndex : Nat) :
    Recorded (ws ++ [.placeholder paramIndex]) (ctx.emitPlaceholder paramIndex) spans where
  hex := by
    rw [textOf_append, ← h.hex]
    exact congrArg (ctx.hex ++ ·) (List.append_nil _).symm
  constructorSlots := by
    rw [filterMap_concat, ← h.constructorSlots]
    show ctx.constructorSlots ++ [⟨paramIndex, ctx.byteLength⟩] = _
    rw [h.byteLength]
    rfl
  sepSlots := by
    rw [filterMap_concat]
    exact h.sepSlots.trans (List.append_nil _).symm
  separators := by
    rw [filterMap_concat]
    exact h.separators.trans (List.append_nil _).symm
  last := h.last
  preceding := h.preceding
  spans := by
    rw [filterMap_concat]
    exact h.spans.trans (List.append_nil _).symm

theorem emitCodeSepIndexPlaceholder (h : Recorded ws ctx spans) :
    Recorded (ws ++ [.codeSepIndex]) ctx.emitCodeSepIndexPlaceholder spans where
  hex := by
    rw [textOf_append, ← h.hex]
    exact congrArg (ctx.hex ++ ·) (List.append_nil _).symm
  constructorSlots := by
    rw [filterMap_concat]
    exact h.constructorSlots.trans (List.append_nil _).symm
  sepSlots := by
    rw [filterMap_concat, ← h.sepSlots]
    show (ctx.codeSepIndexSlots ++ [_]).map _ = _
    rw [List.map_append, ← h.byteLength]
    rfl
  separators := by
    rw [filterMap_concat]
    exact h.separators.trans (List.append_nil _).symm
  last := h.last
  preceding := by
    intro slot hslot
    rcases List.mem_append.mp hslot with hslot | hslot
    · exact h.preceding slot hslot
    · -- all separators stand before the new placeholder
      obtain rfl := List.mem_singleton.mp hslot
      have hall : ctx.codeSeparatorIndices.filter (· < ctx.byteLength) =
          ctx.codeSeparatorIndices := by
        refine List.filter_eq_self.mpr fun o ho => decide_eq_true ?_
        rw [h.byteLength]
        exact h.separator_lt ho
      show ctx.codeSeparatorIndex.getD 0 =
        ((ctx.codeSeparatorIndices.filter (· < ctx.byteLength)).getLast?).getD 0
      rw [hall, h.last]
  spans := by
    rw [filterMap_concat]
    exact h.spans.trans (List.append_nil _).symm

end Recorded

mutual

theorem recorded_op {ws : List Written} {ctx : EmitContext} {spans : List RawScriptSpan}
    (h : Recorded ws ctx spans) : ∀ op, Recorded (ws ++ opWritten op) (emitStackOp op ctx)
      (spans ++ spansOfOp op ctx)
  | .push value => by
      rw [opWritten, emitStackOp, spansOfOp, List.append_nil]
      exact h.emitPush value
  | .dup => by rw [opWritten, emitStackOp, spansOfOp, List.append_nil]; exact h.emitOpcode _
  | .swap => by rw [opWritten, emitStackOp, spansOfOp, List.append_nil]; exact h.emitOpcode _
  | .roll _ => by rw [opWritten, emitStackOp, spansOfOp, List.append_nil]; exact h.emitOpcode _
  | .pick _ => by rw [opWritten, emitStackOp, spansOfOp, List.append_nil]; exact h.emitOpcode _
  | .drop => by rw [opWritten, emitStackOp, spansOfOp, List.append_nil]; exact h.emitOpcode _
  | .nip => by rw [opWritten, emitStackOp, spansOfOp, List.append_nil]; exact h.emitOpcode _
  | .over => by rw [opWritten, emitStackOp, spansOfOp, List.append_nil]; exact h.emitOpcode _
  | .rot => by rw [opWritten, emitStackOp, spansOfOp, List.append_nil]; exact h.emitOpcode _
  | .tuck => by rw [opWritten, emitStackOp, spansOfOp, List.append_nil]; exact h.emitOpcode _
  | .opcode code => by
      rw [opWritten, emitStackOp, spansOfOp, List.append_nil]
      exact h.emitOpcode code
  | .ifOp thenOps elseOps => by
      rw [opWritten, emitStackOp, spansOfOp]
      have hthen := recorded_ops (h.emitOpcode .OP_IF) thenOps
      by_cases hempty : elseOps.isEmpty = true
      · simp only [if_pos hempty, List.nil_append, List.append_nil]
        have hend := hthen.emitOpcode .OP_ENDIF
        simp only [List.append_assoc, List.singleton_append] at hend
        exact hend
      · simp only [if_neg hempty]
        have helse := recorded_ops (hthen.emitOpcode .OP_ELSE) elseOps
        have hend := helse.emitOpcode .OP_ENDIF
        simp only [List.append_assoc, List.singleton_append] at hend
        simp only [List.cons_append]
        exact hend
  | .placeholder paramIndex _ => by
      rw [opWritten, emitStackOp, spansOfOp, List.append_nil]
      exact h.emitPlaceholder paramIndex
  | .pushCodesepIndex => by
      rw [opWritten, emitStackOp, spansOfOp, List.append_nil]
      exact h.emitCodeSepIndexPlaceholder
  | .rawBytes bytes inArity outArity => by
      rw [opWritten, emitStackOp, spansOfOp]
      exact h.emitRawBytes bytes inArity outArity

theorem recorded_ops {ws : List Written} {ctx : EmitContext} {spans : List RawScriptSpan}
    (h : Recorded ws ctx spans) : ∀ ops, Recorded (ws ++ opsWritten ops) (emitOps ops ctx)
      (spans ++ spansOfOps ops ctx)
  | [] => by
      rw [opsWritten, emitOps, spansOfOps, List.append_nil, List.append_nil]
      exact h
  | op :: ops => by
      rw [opsWritten, emitOps, spansOfOps, ← List.append_assoc, ← List.append_assoc]
      exact recorded_ops (recorded_op h op) ops

end

theorem recorded_testSelector {ws : List Written} {ctx : EmitContext}
    {spans : List RawScriptSpan} (h : Recorded ws ctx spans) (i : Nat) :
    Recorded (ws ++ selectorWritten i) (testSelector i ctx) spans := by
  have htest := ((((h.emitOpcode .OP_DUP).emitPush (.bigint i)).emitOpcode .OP_NUMEQUAL).emitOpcode
    .OP_IF).emitOpcode .OP_DROP
  simp only [List.append_assoc, List.singleton_append] at htest
  exact htest

theorem recorded_cases {ws : List Written} {ctx : EmitContext} {spans : List RawScriptSpan}
    (h : Recorded ws ctx spans) (methods : List StackMethod) (i : Nat) :
    Recorded (ws ++ casesWritten i methods) (emitCases i methods ctx)
      (spans ++ spansOfCases i methods ctx) := by
  induction methods generalizing i ws ctx spans with
  | nil =>
    rw [casesWritten, emitCases, spansOfCases, List.append_nil, List.append_nil]
    exact h
  | cons method rest ih =>
    cases rest with
    | nil =>
      have hops := recorded_ops ((h.emitPush (.bigint i)).emitOpcode .OP_NUMEQUALVERIFY) method.ops
      simp only [List.append_assoc, List.singleton_append] at hops
      exact hops
    | cons next rest =>
      have hops := recorded_ops (recorded_testSelector h i) method.ops
      have hcases := ih (hops.emitOpcode .OP_ELSE) (i + 1)
      simp only [List.append_assoc, List.singleton_append] at hcases
      exact hcases

theorem recorded_ends {ws : List Written} {ctx : EmitContext} {spans : List RawScriptSpan}
    (h : Recorded ws ctx spans) (n : Nat) :
    Recorded (ws ++ List.replicate n (.opcode .OP_ENDIF)) (emitEnds n ctx) spans := by
  induction n generalizing ws ctx with
  | zero =>
    rw [List.replicate_zero, List.append_nil]
    exact h
  | succ n ih =>
    have hends := ih (h.emitOpcode .OP_ENDIF)
    rw [List.append_assoc] at hends
    exact hends

/-- All that is recorded for a program is where it has been written. -/
theorem emit_recorded (methods : List StackMethod) :
    Recorded (programWritten methods) (emit methods) (rawScriptSpans methods) := by
  unfold programWritten emit rawScriptSpans
  dsimp only
  cases hpublic : methods.filter (·.name ≠ "constructor") with
  | nil => exact .new
  | cons method rest =>
    cases rest with
    | nil => exact recorded_ops .new method.ops
    | cons next rest =>
      exact recorded_ends (recorded_cases .new (method :: next :: rest) 0) _

/-! ## The offsets in the script -/

/-- The bytes of a script from an offset on. -/
def rangeOf (script : HexText) (offset length : Nat) : HexText :=
  (script.drop (2 * offset)).take (2 * length)

/-- What stands before the offset is whole opcodes and pushes. -/
def AtBoundary (script : HexText) (offset : Nat) : Prop := WholeText (script.take (2 * offset))

/-- The offsets of the OP_CODESEPARATOR operations. -/
def separatorOffsets (methods : List StackMethod) : List Nat :=
  (placed 0 (programWritten methods)).filterMap separatorAt

/-- The placeholder operations with their offsets. -/
def placeholderOffsets (methods : List StackMethod) : List ConstructorSlot :=
  (placed 0 (programWritten methods)).filterMap slotAt

def rawOf : Written → Option (Bytes × Nat × Nat)
  | .rawBytes bytes inArity outArity =>
      if bytes.isEmpty then none else some (bytes, inArity, outArity)
  | _ => none

/-- The raw operations that write anything, in order. -/
def rawOperations (methods : List StackMethod) : List (Bytes × Nat × Nat) :=
  (programWritten methods).filterMap rawOf

/-- Every offset that is recorded. -/
def recordedOffsets (methods : List StackMethod) : List Nat :=
  (emit methods).constructorSlots.map (·.byteOffset) ++
    (emit methods).codeSepIndexSlots.map (·.byteOffset) ++
    (emit methods).codeSeparatorIndices ++ (rawScriptSpans methods).map (·.offset)

/-- The pushes fit the memory. -/
def ShortPushes (methods : List StackMethod) : Prop :=
  ∀ value, Written.push value ∈ programWritten methods → value.toBytes.length < 2 ^ 31

/-- The raw spans in front of an offset are whole opcodes and pushes. -/
def WholeBefore (methods : List StackMethod) (offset : Nat) : Prop :=
  ∀ span ∈ rawScriptSpans methods, span.offset < offset →
    WholeText (rangeOf (emit methods).hex span.offset span.length)

/-- What is written stands in the text at its offset. -/
theorem rangeOf_placed {ws : List Written} {p : Nat × Written} (h : p ∈ placed 0 ws) :
    rangeOf (textOf ws) p.1 p.2.size = p.2.text := by
  obtain ⟨before, after, hws, hp⟩ := split_of_mem_placed h
  have htext : textOf (before ++ p.2 :: after) = textOf before ++ (p.2.text ++ textOf after) := by
    rw [textOf_append]
    exact congrArg (textOf before ++ ·) List.flatMap_cons
  have hfront : (textOf before).length = 2 * p.1 := by
    rw [length_textOf, hp, Nat.zero_add]
  unfold rangeOf
  rw [hws, htext, List.drop_left' hfront, List.take_left' (length_text p.2)]

theorem wholeText_append {text text' : HexText} (h : WholeText text) (h' : WholeText text') :
    WholeText (text ++ text') := by
  obtain ⟨elements, helements, rfl⟩ := h
  obtain ⟨elements', helements', rfl⟩ := h'
  exact ⟨elements ++ elements', List.forall_mem_append.mpr ⟨helements, helements'⟩,
    List.flatten_append.symm⟩

theorem wholeText_textOf {ws : List Written} (h : ∀ w ∈ ws, WholeText w.text) :
    WholeText (textOf ws) := by
  induction ws with
  | nil => exact ⟨[], fun _ h => absurd h List.not_mem_nil, rfl⟩
  | cons w ws ih =>
    obtain ⟨hw, hws⟩ := List.forall_mem_cons.mp h
    have htext : textOf (w :: ws) = w.text ++ textOf ws := List.flatMap_cons
    rw [htext]
    exact wholeText_append hw (ih hws)

theorem exists_mem_placed (offset : Nat) {ws : List Written} {w : Written} (h : w ∈ ws) :
    ∃ o, (o, w) ∈ placed offset ws := by
  induction ws generalizing offset with
  | nil => exact absurd h List.not_mem_nil
  | cons v ws ih =>
    rcases List.mem_cons.mp h with rfl | h
    · exact ⟨offset, List.mem_cons_self⟩
    · obtain ⟨o, ho⟩ := ih _ h
      exact ⟨o, List.mem_cons_of_mem _ ho⟩

section Offsets

variable {methods : List StackMethod}

theorem mem_rawScriptSpans {o : Nat} {bytes : Bytes} {inArity outArity : Nat}
    (h : (o, Written.rawBytes bytes inArity outArity) ∈ placed 0 (programWritten methods))
    (hne : bytes.isEmpty = false) :
    ⟨o, bytes.length, inArity, outArity⟩ ∈ rawScriptSpans methods := by
  rw [(emit_recorded methods).spans]
  refine List.mem_filterMap.mpr ⟨_, h, ?_⟩
  show (if bytes.isEmpty then none else some _) = _
  rw [hne]
  rfl

theorem size_rawBytes (bytes : Bytes) (inArity outArity : Nat) :
    (Written.rawBytes bytes inArity outArity).size = bytes.length := by
  have hlength := length_toHex bytes
  show (toHex bytes).length / 2 = bytes.length
  omega

/-- In front of what is written all is whole, where the raw spans there are. -/
theorem atBoundary_placed (hshort : ShortPushes methods) {p : Nat × Written}
    (hp : p ∈ placed 0 (programWritten methods)) (hbefore : WholeBefore methods p.1) :
    AtBoundary (emit methods).hex p.1 := by
  have hrecorded := emit_recorded methods
  obtain ⟨before, after, hws, hoffset⟩ := split_of_mem_placed hp
  rw [Nat.zero_add] at hoffset
  have hfront : (textOf before).length = 2 * p.1 := by rw [length_textOf, hoffset]
  have htake : (emit methods).hex.take (2 * p.1) = textOf before := by
    rw [hrecorded.hex, hws, textOf_append, List.take_left' hfront]
  rw [AtBoundary, htake]
  refine wholeText_textOf fun w hw => ?_
  obtain ⟨o, ho⟩ := exists_mem_placed 0 hw
  have hmem : (o, w) ∈ placed 0 (programWritten methods) := by
    rw [hws, placed_append]
    exact List.mem_append_left _ ho
  cases w with
  | opcode code => exact (Sdk.marked_emitOpcode code).opcodes _ List.mem_cons_self
  | push value =>
    have hvalue := hshort value (hws ▸ List.mem_append_left _ hw)
    exact (InertText.of_inert (Sdk.inert_encodePushValue hvalue)).whole
  | placeholder paramIndex => exact Sdk.inertText_placeholder.whole
  | codeSepIndex => exact Sdk.inertText_placeholder.whole
  | rawBytes bytes inArity outArity =>
    cases hempty : bytes.isEmpty with
    | true =>
      rw [List.isEmpty_iff.mp hempty]
      exact ⟨[], fun _ h => absurd h List.not_mem_nil, rfl⟩
    | false =>
      have hpos : 0 < bytes.length := by
        rw [List.length_pos_iff]
        rintro rfl
        exact nomatch hempty
      have hle := placed_le ho
      rw [size_rawBytes] at hle
      have hwhole := hbefore _ (mem_rawScriptSpans hmem hempty) (by
        show o < p.1
        omega)
      have hrange := rangeOf_placed hmem
      rw [size_rawBytes, ← hrecorded.hex] at hrange
      rwa [hrange] at hwhole

theorem slotAt_eq {p : Nat × Written} {slot : ConstructorSlot} (h : slotAt p = some slot) :
    p = (slot.byteOffset, .placeholder slot.paramIndex) := by
  unfold slotAt at h
  split at h
  · cases h
    rfl
  · exact nomatch h

theorem spanAt_eq {p : Nat × Written} {span : RawScriptSpan} (h : spanAt p = some span) :
    ∃ bytes, p = (span.offset, .rawBytes bytes span.inArity span.outArity) ∧
      span.length = bytes.length := by
  unfold spanAt at h
  split at h
  · split at h
    · exact nomatch h
    · cases h
      exact ⟨_, rfl, rfl⟩
  · exact nomatch h

/-- What is recorded is an offset of what has been written. -/
theorem placed_of_recorded {offset : Nat} (h : offset ∈ recordedOffsets methods) :
    ∃ w, (offset, w) ∈ placed 0 (programWritten methods) := by
  have hrecorded := emit_recorded methods
  unfold recordedOffsets at h
  rw [hrecorded.constructorSlots, hrecorded.sepSlots, hrecorded.separators, hrecorded.spans] at h
  rcases List.mem_append.mp h with h | h
  · rcases List.mem_append.mp h with h | h
    · rcases List.mem_append.mp h with h | h
      · obtain ⟨slot, hslot, rfl⟩ := List.mem_map.mp h
        obtain ⟨p, hp, hat⟩ := List.mem_filterMap.mp hslot
        exact ⟨_, slotAt_eq hat ▸ hp⟩
      · obtain ⟨p, hp, hat⟩ := List.mem_filterMap.mp h
        obtain ⟨rfl, -⟩ := Recorded.sepSlotAt_eq p offset hat
        exact ⟨p.2, hp⟩
    · obtain ⟨p, hp, hat⟩ := List.mem_filterMap.mp h
      obtain ⟨rfl, -⟩ := Recorded.separatorAt_eq p offset hat
      exact ⟨p.2, hp⟩
  · obtain ⟨span, hspan, rfl⟩ := List.mem_map.mp h
    obtain ⟨p, hp, hat⟩ := List.mem_filterMap.mp hspan
    obtain ⟨bytes, rfl, -⟩ := spanAt_eq hat
    exact ⟨_, hp⟩

/-- The spans are those of the raw operations. -/
theorem spans_eq_rawOperations :
    (rawScriptSpans methods).map (fun span => (rangeOf (emit methods).hex span.offset span.length,
      span.length, span.inArity, span.outArity)) =
    (rawOperations methods).map fun raw => (toHex raw.1, raw.1.length, raw.2) := by
  have hrecorded := emit_recorded methods
  have hraw : rawOperations methods =
      (placed 0 (programWritten methods)).filterMap (rawOf ∘ Prod.snd) := by
    rw [← List.filterMap_map, map_snd_placed, rawOperations]
  rw [hrecorded.spans, hraw, List.map_filterMap, List.map_filterMap]
  refine List.filterMap_congr fun p hp => ?_
  have hrange := rangeOf_placed hp
  rw [← hrecorded.hex] at hrange
  obtain ⟨o, w⟩ := p
  cases w with
  | rawBytes bytes inArity outArity =>
    rw [size_rawBytes] at hrange
    show Option.map _ (if bytes.isEmpty then none else some _) =
      Option.map _ (if bytes.isEmpty then none else some _)
    cases hempty : bytes.isEmpty with
    | true => rfl
    | false => exact congrArg (fun text => some (text, bytes.length, inArity, outArity)) hrange
  | opcode code | push value | placeholder paramIndex | codeSepIndex => rfl

/-- A constructor slot is a placeholder of one byte. -/
theorem rangeOf_constructorSlot {slot : ConstructorSlot}
    (h : slot ∈ (emit methods).constructorSlots) :
    rangeOf (emit methods).hex slot.byteOffset 1 = placeholder := by
  have hrecorded := emit_recorded methods
  rw [hrecorded.constructorSlots] at h
  obtain ⟨p, hp, hat⟩ := List.mem_filterMap.mp h
  have hrange := rangeOf_placed (slotAt_eq hat ▸ hp)
  have hsize : (Written.placeholder slot.paramIndex).size = 1 := by
    show placeholder.length / 2 = 1
    rfl
  rw [← hrecorded.hex, hsize] at hrange
  exact hrange

theorem rangeOf_sepSlot {slot : CodeSepIndexSlot} (h : slot ∈ (emit methods).codeSepIndexSlots) :
    rangeOf (emit methods).hex slot.byteOffset 1 = placeholder := by
  have hrecorded := emit_recorded methods
  have hmem : slot.byteOffset ∈ (emit methods).codeSepIndexSlots.map (·.byteOffset) :=
    List.mem_map_of_mem h
  rw [hrecorded.sepSlots] at hmem
  obtain ⟨p, hp, hat⟩ := List.mem_filterMap.mp hmem
  obtain ⟨hoffset, hw⟩ := Recorded.sepSlotAt_eq p _ hat
  have hrange := rangeOf_placed hp
  rw [← hrecorded.hex, hoffset, hw] at hrange
  exact hrange

theorem rangeOf_separator {o : Nat} (h : o ∈ (emit methods).codeSeparatorIndices) :
    rangeOf (emit methods).hex o 1 = ['a', 'b'] := by
  have hrecorded := emit_recorded methods
  rw [hrecorded.separators] at h
  obtain ⟨p, hp, hat⟩ := List.mem_filterMap.mp h
  obtain ⟨hoffset, hw⟩ := Recorded.separatorAt_eq p o hat
  have hrange := rangeOf_placed hp
  rw [← hrecorded.hex, hoffset, hw, Recorded.size_opcode] at hrange
  exact hrange

end Offsets

/-- What the emitter records is in the script: a placeholder at each slot, with the last
separator operation in front of it, an OP_CODESEPARATOR at each index, the bytes of the raw
operations at the spans; and these offsets are at opcodes and pushes, as far as the raw spans
in front of them are whole. -/
theorem emitted_offsets (methods : List StackMethod) :
    (emit methods).constructorSlots = placeholderOffsets methods ∧
    (∀ slot ∈ (emit methods).constructorSlots,
      rangeOf (emit methods).hex slot.byteOffset 1 = ['0', '0']) ∧
    (∀ slot ∈ (emit methods).codeSepIndexSlots,
      rangeOf (emit methods).hex slot.byteOffset 1 = ['0', '0'] ∧
      slot.codeSepIndex =
        (((separatorOffsets methods).filter (· < slot.byteOffset)).getLast?).getD 0) ∧
    (emit methods).codeSeparatorIndices = separatorOffsets methods ∧
    (emit methods).codeSeparatorIndex = (separatorOffsets methods).getLast? ∧
    (∀ o ∈ separatorOffsets methods, rangeOf (emit methods).hex o 1 = ['a', 'b']) ∧
    (rawScriptSpans methods).map (fun span => (rangeOf (emit methods).hex span.offset span.length,
        span.length, span.inArity, span.outArity)) =
      (rawOperations methods).map (fun raw => (toHex raw.1, raw.1.length, raw.2)) ∧
    (ShortPushes methods → ∀ offset ∈ recordedOffsets methods, WholeBefore methods offset →
      AtBoundary (emit methods).hex offset) := by
  have hrecorded := emit_recorded methods
  refine ⟨hrecorded.constructorSlots, fun slot h => rangeOf_constructorSlot h, fun slot h => ?_,
    hrecorded.separators, ?_, fun o ho => ?_, spans_eq_rawOperations,
    fun hshort offset h hwhole => ?_⟩
  · refine ⟨rangeOf_sepSlot h, ?_⟩
    have hpreceding := hrecorded.preceding slot h
    rwa [hrecorded.separators] at hpreceding
  · rw [hrecorded.last, hrecorded.separators]
    rfl
  · exact rangeOf_separator (hrecorded.separators ▸ ho)
  · obtain ⟨w, hw⟩ := placed_of_recorded h
    exact atBoundary_placed hshort hw hwhole

/-- A separator, its position, a raw OP_DUP and an argument. -/
def markedProgram : List StackMethod :=
  [⟨"spend", [.opcode .OP_CODESEPARATOR, .pushCodesepIndex, .rawBytes [0x76] 1 2,
    .placeholder 0 "x"]⟩]

/-- The argument is behind three opcodes. -/
theorem emitted_offsets_marked : AtBoundary (emit markedProgram).hex 3 := by
  have hpushes : ShortPushes markedProgram := by
    intro value hvalue
    simp [programWritten, markedProgram, opsWritten, opWritten] at hvalue
  have hspans : rawScriptSpans markedProgram = [⟨2, 1, 1, 2⟩] := by decide +kernel
  have hrange : rangeOf (emit markedProgram).hex 2 1 = hexNumber (opcodeByte .OP_DUP) := by
    decide +kernel
  refine (emitted_offsets markedProgram).2.2.2.2.2.2.2 hpushes 3 (by decide +kernel) ?_
  intro span hspan _
  rw [hspans] at hspan
  rw [List.mem_singleton.mp hspan, hrange]
  exact (InertText.of_inert (Sdk.inert_opcode (by decide))).whole

/-- A length byte alone is not whole. -/
theorem not_wholeText_length : ¬ WholeText ['0', '1'] := by
  rintro ⟨elements, helements, htext⟩
  cases elements with
  | nil => exact nomatch htext
  | cons e elements =>
    obtain ⟨n, hopcode, hlong, -, hpush, -⟩ := (helements e List.mem_cons_self).opcode
    have hlength := congrArg List.length htext
    rw [List.flatten_cons, List.length_append, List.length_cons, List.length_singleton] at hlength
    have htwo : e = ['0', '1'] := by
      have htake := congrArg (List.take 2) htext
      rw [List.flatten_cons, List.take_left' (by omega)] at htake
      exact htake.symm
    rw [htwo] at hopcode hpush
    obtain rfl := Option.some.inj ((show Sdk.opcodeOf ['0', '1'] = some 1 by decide).symm.trans
      hopcode)
    exact absurd (hpush (by decide) (by decide)) (by decide)

/-- Behind a raw span that ends inside of a push an argument is data of the push; and a raw
separator is not the one whose position is recorded. -/
theorem not_emitted_offsets :
    (¬ ∀ methods, ∀ slot ∈ (emit methods).constructorSlots,
      AtBoundary (emit methods).hex slot.byteOffset) ∧
    ¬ ∀ methods, ∀ slot ∈ (emit methods).codeSepIndexSlots, ∀ o < slot.byteOffset,
      AtBoundary (emit methods).hex o → rangeOf (emit methods).hex o 1 = ['a', 'b'] →
      o ≤ slot.codeSepIndex := by
  constructor
  · intro h
    have hslots : (emit [⟨"spend", [.rawBytes [0x01] 0 1, .placeholder 0 "x"]⟩]).constructorSlots =
        [⟨0, 1⟩] := by rfl
    have hslot := h [⟨"spend", [.rawBytes [0x01] 0 1, .placeholder 0 "x"]⟩] ⟨0, 1⟩
      (hslots ▸ List.mem_cons_self)
    have htake : (emit [⟨"spend", [.rawBytes [0x01] 0 1, .placeholder 0 "x"]⟩]).hex.take (2 * 1) =
        ['0', '1'] := by decide +kernel
    rw [AtBoundary, htake] at hslot
    exact not_wholeText_length hslot
  · intro h
    have hslots : (emit [⟨"spend", [.dup, .rawBytes [0xab] 0 0,
        .pushCodesepIndex]⟩]).codeSepIndexSlots = [⟨2, 0⟩] := by rfl
    have hslot := h [⟨"spend", [.dup, .rawBytes [0xab] 0 0, .pushCodesepIndex]⟩] ⟨2, 0⟩
      (hslots ▸ List.mem_cons_self) 1 (by decide)
    have htake : (emit [⟨"spend", [.dup, .rawBytes [0xab] 0 0, .pushCodesepIndex]⟩]).hex.take
        (2 * 1) = hexNumber (opcodeByte .OP_DUP) := by decide +kernel
    rw [AtBoundary, htake] at hslot
    have hwhole : WholeText (hexNumber (opcodeByte .OP_DUP)) :=
      (InertText.of_inert (Sdk.inert_opcode (by decide))).whole
    exact absurd (hslot hwhole (by decide +kernel)) (by decide)

end Runar.Artifact
