/-
  Sdk/Marks.lean --- the separators the emitter records and a run executes.

  WHAT THIS FILE IS FOR.  The emitter records the offset of every OP_CODESEPARATOR it
  writes, in order, and the offset of the last.  A span of raw bytes may have others, which
  it does not record.  The instructions of the program have as many as its text, so a
  separator that a run executes has a number among those of the text.
-/
import Runar.Sdk.Separators

set_option autoImplicit false

namespace Runar.Sdk

open Script Artifact Codec Logic

/-! ## Where the emitter marks them -/

/-- The offsets of the separators among the pieces of a template. -/
def marks (offset : Nat) : List Piece → List Nat
  | [] => []
  | piece :: rest =>
      (findCodesepOffsets piece.template).map (offset + ·) ++
        marks (offset + piece.template.length / 2) rest

theorem marks_append {xs : List Piece} (h : Artifact.Whole xs) (offset : Nat) (ys : List Piece) :
    marks offset (xs ++ ys) = marks offset xs ++ marks (offset + size xs) ys := by
  induction xs generalizing offset with
  | nil => rfl
  | cons piece xs ih =>
    have htail : Artifact.Whole xs := fun p hp => h p (List.mem_cons_of_mem _ hp)
    rw [List.cons_append, marks, marks, ih htail, h.size_cons, List.append_assoc, Nat.add_assoc]

/-- A step of the emitter that writes whole opcodes and pushes and records separators among
those it writes. -/
structure Marked (pieces : List Piece) (f : EmitContext → EmitContext) : Prop
    extends Wrote pieces f where
  opcodes : ∀ piece ∈ pieces, WholeText piece.template
  indices : ∀ ctx, ctx.hex.length % 2 = 0 → ∃ recorded,
    (f ctx).codeSeparatorIndices = ctx.codeSeparatorIndices ++ recorded ∧
      recorded.Sublist (marks ctx.byteLength pieces)
  last : ∀ ctx, ctx.codeSeparatorIndex = ctx.codeSeparatorIndices.getLast? →
    (f ctx).codeSeparatorIndex = (f ctx).codeSeparatorIndices.getLast?

namespace Marked

variable {xs ys : List Piece} {f g : EmitContext → EmitContext}

theorem nil : Marked [] fun ctx => ctx where
  toWrote := .nil
  opcodes _ h := absurd h List.not_mem_nil
  indices _ _ := ⟨[], (List.append_nil _).symm, List.Sublist.slnil⟩
  last _ h := h

/-- One step after another. -/
theorem comp (hf : Marked xs f) (hg : Marked ys g) : Marked (xs ++ ys) fun ctx => g (f ctx) where
  toWrote := hf.toWrote.comp hg.toWrote
  opcodes := List.forall_mem_append.mpr ⟨hf.opcodes, hg.opcodes⟩
  indices ctx h := by
    obtain ⟨recorded, hrecorded, hsub⟩ := hf.indices ctx h
    obtain ⟨recorded', hrecorded', hsub'⟩ := hg.indices (f ctx) (hf.even h)
    rw [hf.byteLength h] at hsub'
    refine ⟨recorded ++ recorded', ?_, ?_⟩
    · rw [hrecorded', hrecorded, List.append_assoc]
    · rw [marks_append hf.whole]
      exact hsub.append hsub'
  last ctx h := hg.last _ (hf.last ctx h)

end Marked

/-- A step that records nothing. -/
theorem marked_silent {piece : Piece} {f : EmitContext → EmitContext} (hwrote : Wrote [piece] f)
    (hwhole : WholeText piece.template)
    (hindices : ∀ ctx, (f ctx).codeSeparatorIndices = ctx.codeSeparatorIndices)
    (hindex : ∀ ctx, (f ctx).codeSeparatorIndex = ctx.codeSeparatorIndex) : Marked [piece] f where
  toWrote := hwrote
  opcodes := List.forall_mem_singleton.mpr hwhole
  indices ctx _ := ⟨[], by rw [hindices, List.append_nil], List.nil_sublist _⟩
  last ctx h := by rw [hindex, hindices, h]

theorem inert_opcode {code : Opcode} (h : code ≠ .OP_CODESEPARATOR) :
    Inert (hexNumber (opcodeByte code)) := by
  have hbyte : (opcodeByte code = 0 ∨ 0x4e < opcodeByte code) ∧
      (opcodeByte code = 0xab → code = .OP_CODESEPARATOR) := by
    cases code <;> decide
  exact inert_hexNumber hbyte.1 (opcodeByte_lt code) fun hsep => h (hbyte.2 hsep)

/-- The text of OP_CODESEPARATOR is a byte. -/
theorem isByte_separator : IsByte (opcodePiece .OP_CODESEPARATOR).template 0xab :=
  isByte_hexNumber (k := 0xab) (by decide)

theorem find_separator :
    findCodesepOffsets (opcodePiece .OP_CODESEPARATOR).template = [0] :=
  (walked_separator isByte_separator).find_eq

theorem whole_separator : WholeText (opcodePiece .OP_CODESEPARATOR).template :=
  ⟨[_], List.forall_mem_singleton.mpr (.inl (.op isByte_separator (.inr (by decide)) (by decide))),
    (List.append_nil _).symm⟩

theorem marked_emitOpcode (code : Opcode) : Marked [opcodePiece code] (·.emitOpcode code) := by
  by_cases hsep : code = .OP_CODESEPARATOR
  · subst hsep
    have hmarks (offset : Nat) : marks offset [opcodePiece .OP_CODESEPARATOR] = [offset] := by
      rw [marks, find_separator]
      rfl
    exact {
      toWrote := wrote_emitOpcode _
      opcodes := List.forall_mem_singleton.mpr whole_separator
      indices := fun ctx _ => ⟨[ctx.byteLength], rfl, by rw [hmarks]⟩
      last := fun ctx _ => (List.getLast?_concat ..).symm }
  · refine marked_silent (wrote_emitOpcode code) (InertText.of_inert (inert_opcode hsep)).whole
      (fun ctx => ?_) fun ctx => ?_
    all_goals
      unfold EmitContext.emitOpcode
      rw [if_neg hsep]
      rfl

/-- The bytes of a push behind their header. -/
theorem toHex_encodePushData {data : Bytes} (h : data ≠ []) :
    toHex (Artifact.encodePushData data) = pushHeader data.length ++ toHex data := by
  have hpos := List.length_pos_of_ne_nil h
  have hbyte {n : Nat} (hn : n < 256) : n.toUInt8.toNat = n := Nat.mod_eq_of_lt hn
  unfold Artifact.encodePushData pushHeader
  dsimp only
  rw [if_neg (by omega)]
  by_cases h75 : data.length ≤ 75
  · rw [if_pos h75, if_pos h75, toHex_cons, hbyte (by omega)]
  rw [if_neg h75, if_neg h75]
  by_cases h255 : data.length ≤ 255
  · rw [if_pos h255, if_pos h255, toHex_cons, toHex_cons, hbyte (by omega), List.append_assoc]
    rfl
  rw [if_neg h255, if_neg h255]
  by_cases h65535 : data.length ≤ 65535
  · rw [if_pos h65535, if_pos h65535, toHex_cons, toHex_append, toHex_leBytes_two]
    simp only [List.append_assoc]
    rfl
  · rw [if_neg h65535, if_neg h65535, toHex_cons, toHex_append, toHex_leBytes_four]
    simp only [List.append_assoc]
    rfl

/-- A value that is pushed is one opcode or one push. -/
theorem inert_encodePushValue {value : PushValue} (h : value.toBytes.length < 2 ^ 31) :
    Inert (encodePushValue value) := by
  rw [← encodePushValue_toBytes]
  have hpush {data : Bytes} (hne : data ≠ []) (hlt : data.length < 2 ^ 31) :
      Inert (toHex (Artifact.encodePushData data)) := by
    rw [toHex_encodePushData hne]
    exact inert_push (List.length_pos_of_ne_nil hne) hlt (length_toHex data)
  match value.toBytes, h with
  | [], _ => exact inert_hexNumber (k := 0) (.inl rfl) (by decide) (by decide)
  | [b], h =>
    show Inert (if 1 ≤ b ∧ b ≤ 16 then _ else if b = 0x81 then _ else _)
    by_cases hsmall : 1 ≤ b ∧ b ≤ 16
    · have hb : b.toNat ≤ 16 := UInt8.le_iff_toNat_le.mp hsmall.2
      rw [if_pos hsmall]
      exact inert_hexNumber (.inr (by omega)) (by omega) (by omega)
    rw [if_neg hsmall]
    by_cases hneg : b = 0x81
    · rw [if_pos hneg]
      exact inert_hexNumber (k := 0x4f) (.inr (by decide)) (by decide) (by decide)
    · rw [if_neg hneg]
      exact hpush (List.cons_ne_nil _ _) h
  | _ :: _ :: _, h => exact hpush (List.cons_ne_nil _ _) h

mutual

/-- Pushes fit the memory, and spans are whole opcodes and pushes. -/
def PlainOp : StackOp → Prop
  | .push value => value.toBytes.length < 2 ^ 31
  | .ifOp thenOps elseOps => PlainOps thenOps ∧ PlainOps elseOps
  | .rawBytes bytes _ _ => WholeText (toHex bytes)
  | .dup | .swap | .roll _ | .pick _ | .drop | .nip | .over | .rot | .tuck | .opcode _
  | .placeholder _ _ | .pushCodesepIndex => True

def PlainOps : List StackOp → Prop
  | [] => True
  | op :: ops => PlainOp op ∧ PlainOps ops

end

theorem inertText_placeholder : InertText placeholder :=
  .of_inert (inert_hexNumber (k := 0) (.inl rfl) (by decide) (by decide))

mutual

theorem marked_emitStackOp : ∀ op, PlainOp op → Marked (opPieces op) (Artifact.emitStackOp op)
  | .push value, h => by
      rw [PlainOp] at h
      rw [opPieces, Artifact.emitStackOp]
      exact marked_silent (wrote_emitPush value)
        (InertText.of_inert (inert_encodePushValue h)).whole (fun _ => rfl) fun _ => rfl
  | .dup, _ => by rw [opPieces, Artifact.emitStackOp]; exact marked_emitOpcode _
  | .swap, _ => by rw [opPieces, Artifact.emitStackOp]; exact marked_emitOpcode _
  | .roll _, _ => by rw [opPieces, Artifact.emitStackOp]; exact marked_emitOpcode _
  | .pick _, _ => by rw [opPieces, Artifact.emitStackOp]; exact marked_emitOpcode _
  | .drop, _ => by rw [opPieces, Artifact.emitStackOp]; exact marked_emitOpcode _
  | .nip, _ => by rw [opPieces, Artifact.emitStackOp]; exact marked_emitOpcode _
  | .over, _ => by rw [opPieces, Artifact.emitStackOp]; exact marked_emitOpcode _
  | .rot, _ => by rw [opPieces, Artifact.emitStackOp]; exact marked_emitOpcode _
  | .tuck, _ => by rw [opPieces, Artifact.emitStackOp]; exact marked_emitOpcode _
  | .opcode code, _ => by rw [opPieces, Artifact.emitStackOp]; exact marked_emitOpcode code
  | .ifOp thenOps elseOps, h => by
      rw [PlainOp] at h
      rw [opPieces, Artifact.emitStackOp]
      have hthen := (marked_emitOpcode .OP_IF).comp (marked_emitOps thenOps h.1)
      by_cases hempty : elseOps.isEmpty = true
      · simp only [if_pos hempty]
        exact hthen.comp (marked_emitOpcode .OP_ENDIF)
      · simp only [if_neg hempty]
        have helse := (marked_emitOpcode .OP_ELSE).comp (marked_emitOps elseOps h.2)
        exact hthen.comp (helse.comp (marked_emitOpcode .OP_ENDIF))
  | .placeholder paramIndex _, _ => by
      rw [opPieces, Artifact.emitStackOp]
      exact marked_silent (wrote_emitPlaceholder paramIndex) inertText_placeholder.whole
        (fun _ => rfl) fun _ => rfl
  | .pushCodesepIndex, _ => by
      rw [opPieces, Artifact.emitStackOp]
      exact marked_silent wrote_emitCodeSepIndexPlaceholder inertText_placeholder.whole
        (fun _ => rfl) fun _ => rfl
  | .rawBytes bytes _ _, h => by
      rw [PlainOp] at h
      rw [opPieces, Artifact.emitStackOp]
      exact marked_silent (wrote_rawBytes bytes) h (fun _ => rfl) fun _ => rfl

theorem marked_emitOps : ∀ ops, PlainOps ops → Marked (opsPieces ops) (Artifact.emitOps ops)
  | [], _ => by
      rw [opsPieces]
      exact .nil
  | op :: ops, h => by
      rw [PlainOps] at h
      rw [opsPieces]
      exact (marked_emitStackOp op h.1).comp (marked_emitOps ops h.2)

end

/-- Every operation is plain, and a selector has at most four bytes. -/
structure PlainProgram (methods : List StackMethod) : Prop where
  ops : ∀ method ∈ methods, PlainOps method.ops
  few : methods.length < 2 ^ 31

theorem length_selector {i : Nat} (h : i < 2 ^ 31) :
    (PushValue.bigint i).toBytes.length < 2 ^ 31 := by
  have hle : (encodeNum i).length ≤ 4 := (length_encodeNum_le_iff _ _).mpr (by
    have hsign : signBit 4 = 2 ^ 31 := rfl
    rw [Fits, hsign, Int.natAbs_natCast]
    exact h)
  show (Runar.encodeScriptNumber i).length < 2 ^ 31
  rw [encodeScriptNumber_eq]
  omega

theorem marked_selector {i : Nat} (h : i < 2 ^ 31) :
    Marked [pushPiece (.bigint i)] (·.emitPush (.bigint i)) :=
  marked_silent (wrote_emitPush _)
    (InertText.of_inert (inert_encodePushValue (length_selector h))).whole
    (fun _ => rfl) fun _ => rfl

theorem marked_emitCases (methods : List StackMethod) (h : ∀ method ∈ methods, PlainOps method.ops)
    (i : Nat) (hi : i + methods.length ≤ 2 ^ 31) :
    Marked (casePieces i methods) (emitCases i methods) := by
  induction methods generalizing i with
  | nil => exact .nil
  | cons method rest ih =>
    obtain ⟨hmethod, hrest⟩ := List.forall_mem_cons.mp h
    rw [List.length_cons] at hi
    have hselector : Marked [pushPiece (.bigint i)] (·.emitPush (.bigint i)) :=
      marked_selector (by omega)
    cases rest with
    | nil =>
      exact hselector.comp ((marked_emitOpcode .OP_NUMEQUALVERIFY).comp
        (marked_emitOps method.ops hmethod))
    | cons next rest =>
      have htest := (marked_emitOpcode .OP_DUP).comp (hselector.comp
        ((marked_emitOpcode .OP_NUMEQUAL).comp ((marked_emitOpcode .OP_IF).comp
          (marked_emitOpcode .OP_DROP))))
      exact (htest.comp (marked_emitOps method.ops hmethod)).comp
        ((marked_emitOpcode .OP_ELSE).comp (ih hrest (i + 1) (by omega)))

theorem marked_emitEnds (n : Nat) :
    Marked (List.replicate n (opcodePiece .OP_ENDIF)) (emitEnds n) := by
  induction n with
  | zero => exact .nil
  | succ n ih => exact (marked_emitOpcode .OP_ENDIF).comp ih

/-- The emitter records separators of a plain program. -/
theorem emit_marked {methods : List StackMethod} (h : PlainProgram methods) :
    ∃ f, Marked (programPieces methods) f ∧ emit methods = f .new := by
  have hops : ∀ method ∈ methods.filter (·.name ≠ "constructor"), PlainOps method.ops :=
    fun method hmem => h.ops method (List.mem_of_mem_filter hmem)
  have hfew : (methods.filter (·.name ≠ "constructor")).length ≤ 2 ^ 31 :=
    (List.length_filter_le ..).trans (Nat.le_of_lt h.few)
  unfold emit programPieces
  dsimp only
  cases hpublic : methods.filter (·.name ≠ "constructor") with
  | nil => exact ⟨_, .nil, rfl⟩
  | cons method rest =>
    rw [hpublic] at hops hfew
    cases rest with
    | nil => exact ⟨_, marked_emitOps _ (hops method List.mem_cons_self), rfl⟩
    | cons next rest =>
      exact ⟨_, (marked_emitCases _ hops 0 (by omega)).comp (marked_emitEnds _), rfl⟩

/-! ## The separators of the instructions -/

/-- The number of separators among pieces. -/
def separatorCount (pieces : List Piece) : Nat :=
  (pieces.map fun piece => (findCodesepOffsets piece.template).length).sum

theorem length_marks (offset : Nat) (pieces : List Piece) :
    (marks offset pieces).length = separatorCount pieces := by
  induction pieces generalizing offset with
  | nil => rfl
  | cons piece pieces ih =>
    rw [marks, List.length_append, List.length_map, ih]
    rfl

/-- The number of separators of an instruction. -/
def instrSeparators : Instr → Nat
  | .op .OP_CODESEPARATOR => 1
  | .raw span => (findCodesepOffsets (toHex span)).length
  | .op _ | .push _ => 0

/-- The number of separators among instructions. -/
def separatorInstrs (is : List Instr) : Nat := (is.map instrSeparators).sum

theorem separatorInstrs_append (is js : List Instr) :
    separatorInstrs (is ++ js) = separatorInstrs is + separatorInstrs js := by
  rw [separatorInstrs, List.map_append, List.sum_append]
  rfl

theorem separatorCount_append (xs ys : List Piece) :
    separatorCount (xs ++ ys) = separatorCount xs + separatorCount ys := by
  rw [separatorCount, List.map_append, List.sum_append]
  rfl

theorem separatorInstrs_cons (i : Instr) (is : List Instr) :
    separatorInstrs (i :: is) = separatorInstrs [i] + separatorInstrs is :=
  separatorInstrs_append [i] is

theorem separatorCount_cons (piece : Piece) (pieces : List Piece) :
    separatorCount (piece :: pieces) = separatorCount [piece] + separatorCount pieces :=
  separatorCount_append [piece] pieces

theorem separatorCount_inert (piece : Piece) (h : InertText piece.template) :
    separatorCount [piece] = 0 := by
  rw [separatorCount, List.map_singleton, h.walked.find_eq]
  rfl

theorem separatorCount_opcode (code : Opcode) :
    separatorInstrs [.op code] = separatorCount [opcodePiece code] := by
  by_cases hsep : code = .OP_CODESEPARATOR
  · subst hsep
    rw [separatorCount, List.map_singleton, find_separator]
    rfl
  · rw [separatorCount_inert (opcodePiece code) (.of_inert (inert_opcode hsep))]
    cases code <;> first
      | rfl
      | exact absurd rfl hsep

mutual

theorem separators_emitStackOp (slots : Slots) : ∀ op, PlainOp op →
    separatorInstrs (Runar.emitStackOp slots op) = separatorCount (opPieces op)
  | .push value, h => by
      rw [PlainOp] at h
      rw [opPieces, Runar.emitStackOp]
      exact (separatorCount_inert (pushPiece value) (.of_inert (inert_encodePushValue h))).symm
  | .dup, _ => by rw [opPieces, Runar.emitStackOp]; exact separatorCount_opcode _
  | .swap, _ => by rw [opPieces, Runar.emitStackOp]; exact separatorCount_opcode _
  | .roll _, _ => by rw [opPieces, Runar.emitStackOp]; exact separatorCount_opcode _
  | .pick _, _ => by rw [opPieces, Runar.emitStackOp]; exact separatorCount_opcode _
  | .drop, _ => by rw [opPieces, Runar.emitStackOp]; exact separatorCount_opcode _
  | .nip, _ => by rw [opPieces, Runar.emitStackOp]; exact separatorCount_opcode _
  | .over, _ => by rw [opPieces, Runar.emitStackOp]; exact separatorCount_opcode _
  | .rot, _ => by rw [opPieces, Runar.emitStackOp]; exact separatorCount_opcode _
  | .tuck, _ => by rw [opPieces, Runar.emitStackOp]; exact separatorCount_opcode _
  | .opcode code, _ => by rw [opPieces, Runar.emitStackOp]; exact separatorCount_opcode code
  | .ifOp thenOps elseOps, h => by
      rw [PlainOp] at h
      have hthen := separators_emitOps slots thenOps h.1
      have helse := separators_emitOps slots elseOps h.2
      have hif := separatorCount_opcode .OP_IF
      have hend := separatorCount_opcode .OP_ENDIF
      rw [opPieces, Runar.emitStackOp, separatorInstrs_cons, separatorCount_cons,
        separatorInstrs_append, separatorInstrs_append, separatorCount_append,
        separatorCount_append, hthen, hif, hend]
      by_cases hempty : elseOps.isEmpty = true
      · rw [if_pos hempty, if_pos hempty]
        rfl
      · have hor := separatorCount_opcode .OP_ELSE
        rw [if_neg hempty, if_neg hempty, separatorInstrs_cons (.op .OP_ELSE),
          separatorCount_cons (opcodePiece .OP_ELSE), hor, helse]
  | .placeholder paramIndex _, _ => by
      rw [opPieces, Runar.emitStackOp]
      exact (separatorCount_inert (.arg paramIndex) inertText_placeholder).symm
  | .pushCodesepIndex, _ => by
      rw [opPieces, Runar.emitStackOp]
      exact (separatorCount_inert .codeSep inertText_placeholder).symm
  | .rawBytes bytes _ _, _ => by
      rw [opPieces, Runar.emitStackOp]
      rfl

theorem separators_emitOps (slots : Slots) : ∀ ops, PlainOps ops →
    separatorInstrs (Runar.emitOps slots ops) = separatorCount (opsPieces ops)
  | [], _ => by
      rw [opsPieces, Runar.emitOps]
      rfl
  | op :: ops, h => by
      rw [PlainOps] at h
      rw [opsPieces, Runar.emitOps_cons, separatorInstrs_append, separatorCount_append,
        separators_emitStackOp slots op h.1, separators_emitOps slots ops h.2]

end

theorem separatorCount_selector {i : Nat} (h : i < 2 ^ 31) :
    separatorCount [pushPiece (.bigint i)] = 0 :=
  separatorCount_inert _ (.of_inert (inert_encodePushValue (length_selector h)))

/-- A test of the dispatch has no separator. -/
theorem separatorCount_test (code : Opcode) (h : separatorInstrs [.op code] = 0) :
    separatorCount [opcodePiece code] = 0 :=
  (separatorCount_opcode code).symm.trans h

theorem separators_dispatchCases (slots : Slots) (methods : List StackMethod)
    (h : ∀ method ∈ methods, PlainOps method.ops) (i : Nat) (hi : i + methods.length ≤ 2 ^ 31) :
    separatorInstrs (dispatchCases slots i methods) = separatorCount (casePieces i methods) := by
  induction methods generalizing i with
  | nil => rfl
  | cons method rest ih =>
    obtain ⟨hmethod, hrest⟩ := List.forall_mem_cons.mp h
    rw [List.length_cons] at hi
    have hselector := separatorCount_selector (i := i) (by omega)
    have hops := separators_emitOps slots method.ops hmethod
    cases rest with
    | nil =>
      have htest : separatorInstrs (selectorVerify i) = 0 := rfl
      rw [dispatchCases, separatorInstrs_append, htest, hops, casePieces, separatorCount_cons,
        separatorCount_cons (opcodePiece .OP_NUMEQUALVERIFY), hselector, separatorCount_test _ rfl,
        Nat.zero_add, Nat.zero_add]
    | cons next rest =>
      have hpieces : casePieces i (method :: next :: rest) = opcodePiece .OP_DUP ::
          pushPiece (.bigint i) :: opcodePiece .OP_NUMEQUAL :: opcodePiece .OP_IF ::
            opcodePiece .OP_DROP :: (opsPieces method.ops ++ (opcodePiece .OP_ELSE ::
              casePieces (i + 1) (next :: rest))) := by
        rw [casePieces]
        · simp
        · rintro ⟨⟩
      have hinstrs : dispatchCases slots i (method :: next :: rest) = selectorTest i ++
          (Runar.emitOps slots method.ops ++ (.op .OP_ELSE ::
            dispatchCases slots (i + 1) (next :: rest))) := by
        rw [dispatchCases]
        rintro ⟨⟩
      have hhead : separatorInstrs (selectorTest i) = 0 := rfl
      have helse : separatorInstrs [.op .OP_ELSE] = 0 := rfl
      rw [hpieces, hinstrs, separatorInstrs_append, separatorInstrs_append,
        separatorInstrs_cons (.op .OP_ELSE), hhead, hops, ih hrest (i + 1) (by omega), helse,
        separatorCount_cons (opcodePiece .OP_DUP),
        separatorCount_cons (pushPiece (.bigint i)), separatorCount_cons (opcodePiece .OP_NUMEQUAL),
        separatorCount_cons (opcodePiece .OP_IF), separatorCount_cons (opcodePiece .OP_DROP),
        separatorCount_append, separatorCount_cons (opcodePiece .OP_ELSE), hselector,
        separatorCount_test .OP_DUP rfl, separatorCount_test .OP_NUMEQUAL rfl,
        separatorCount_test .OP_IF rfl, separatorCount_test .OP_DROP rfl,
        separatorCount_test .OP_ELSE rfl]
      omega

/-- The instructions of a program. -/
def programInstrs (slots : Slots) (methods : List StackMethod) : List Instr :=
  match methods.filter (·.name ≠ "constructor") with
  | [] => []
  | [method] => Runar.emitOps slots method.ops
  | methods => dispatchScript slots methods

theorem separators_ends (n : Nat) : separatorInstrs (List.replicate n (.op .OP_ENDIF)) = 0 ∧
    separatorCount (List.replicate n (opcodePiece .OP_ENDIF)) = 0 := by
  induction n with
  | zero => exact ⟨rfl, rfl⟩
  | succ n ih =>
    rw [List.replicate_succ, List.replicate_succ, separatorInstrs_cons, separatorCount_cons, ih.1,
      ih.2]
    exact ⟨rfl, separatorCount_test .OP_ENDIF rfl⟩

theorem separators_program (slots : Slots) {methods : List StackMethod}
    (h : PlainProgram methods) :
    separatorInstrs (programInstrs slots methods) = separatorCount (programPieces methods) := by
  have hops : ∀ method ∈ methods.filter (·.name ≠ "constructor"), PlainOps method.ops :=
    fun method hmem => h.ops method (List.mem_of_mem_filter hmem)
  have hfew : (methods.filter (·.name ≠ "constructor")).length ≤ 2 ^ 31 :=
    (List.length_filter_le ..).trans (Nat.le_of_lt h.few)
  unfold programInstrs programPieces
  cases hpublic : methods.filter (·.name ≠ "constructor") with
  | nil => rfl
  | cons method rest =>
    rw [hpublic] at hops hfew
    cases rest with
    | nil => exact separators_emitOps slots _ (hops method List.mem_cons_self)
    | cons next rest =>
      have hcases := separators_dispatchCases slots _ hops 0 (by omega)
      dsimp only
      rw [dispatchScript, dispatchFrom, separatorInstrs_append, separatorCount_append, hcases,
        (separators_ends _).1, (separators_ends _).2]

/-! ## The separators a run executes -/

/-- Which of its separators a span executes, by their numbers. -/
structure SpanTrace where
  executed : Bytes → Machine → List Nat
  lt : ∀ span m, ∀ n ∈ executed span m, n < (findCodesepOffsets (toHex span)).length

/-- The numbers, counted from `k` on, of the separators that an instruction executes. -/
def instrExecuted (trace : SpanTrace) (k : Nat) (i : Instr) (m : Machine) : List Nat :=
  if m.returned then []
  else
    match i with
    | .op .OP_CODESEPARATOR => if m.running then [k] else []
    | .raw span => (trace.executed span m).map (k + ·)
    | .op _ | .push _ => []

/-- The numbers of the separators that a run executes. -/
def separatorsExecuted (cfg : Config) (trace : SpanTrace) : Nat → List Instr → Machine → List Nat
  | _, [], _ => []
  | k, i :: is, m =>
      instrExecuted trace k i m ++
        match step cfg i m with
        | .error _ => []
        | .ok m' => separatorsExecuted cfg trace (k + instrSeparators i) is m'

theorem lt_of_mem_instrExecuted {trace : SpanTrace} {k n : Nat} {i : Instr} {m : Machine}
    (h : n ∈ instrExecuted trace k i m) : n < k + instrSeparators i := by
  unfold instrExecuted at h
  split at h
  · exact absurd h List.not_mem_nil
  split at h
  · split at h
    · rw [List.mem_singleton.mp h]
      exact Nat.lt_succ_self k
    · exact absurd h List.not_mem_nil
  · obtain ⟨o, ho, rfl⟩ := List.mem_map.mp h
    exact Nat.add_lt_add_left (trace.lt _ m o ho) k
  · exact absurd h List.not_mem_nil
  · exact absurd h List.not_mem_nil

/-- They are separators of the instructions. -/
theorem lt_of_mem_separatorsExecuted {cfg : Config} {trace : SpanTrace} {k n : Nat}
    {is : List Instr} {m : Machine} (h : n ∈ separatorsExecuted cfg trace k is m) :
    n < k + separatorInstrs is := by
  induction is generalizing k m with
  | nil => exact absurd h List.not_mem_nil
  | cons i is ih =>
    have hcount : separatorInstrs (i :: is) = instrSeparators i + separatorInstrs is := rfl
    rw [separatorsExecuted] at h
    rw [hcount]
    rcases List.mem_append.mp h with h | h
    · have hlt := lt_of_mem_instrExecuted h
      omega
    · cases hstep : step cfg i m with
      | error e =>
        rw [hstep] at h
        exact absurd h List.not_mem_nil
      | ok m' =>
        rw [hstep] at h
        have hlt := ih h
        omega

end Runar.Sdk
