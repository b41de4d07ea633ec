/-
  Artifact/EmitCorrect.lean --- the deployed script has every value where it belongs.

  WHAT THIS FILE IS FOR.  Each step of the emitter appends pieces and records where the
  placeholders among them stand.  So the template is the pieces with their placeholders,
  the recorded slots are the places of the placeholders, and what the SDK builds is the
  pieces with every value written out.
-/
import Runar.Artifact.Emit

set_option autoImplicit false

namespace Runar.Artifact

open Script Logic
open Sdk (ConstructorSlot CodeSepIndexSlot RunarArtifact JsValue buildCodeScript substitutions
  replacePlaceholder resolvedCodeSepSlotValues constructorShift codeSepShift encodeArg argAt)

/-! ## Pieces -/

/-- The text of a piece in the template. -/
def Piece.template : Piece → HexText
  | .text hex => hex
  | .arg _ | .codeSep => placeholder

/-- The pieces with placeholders. -/
def template (pieces : List Piece) : HexText := pieces.flatMap Piece.template

/-- How many bytes the pieces take in the template. -/
def size (pieces : List Piece) : Nat := (template pieces).length / 2

/-- The slots of the arguments among the pieces. -/
def argSlots (offset : Nat) : List Piece → List ConstructorSlot
  | [] => []
  | .arg paramIndex :: rest => ⟨paramIndex, offset⟩ :: argSlots (offset + 1) rest
  | piece :: rest => argSlots (offset + piece.template.length / 2) rest

/-- The offsets of the code separator positions among the pieces. -/
def sepOffsets (offset : Nat) : List Piece → List Nat
  | [] => []
  | .codeSep :: rest => offset :: sepOffsets (offset + 1) rest
  | piece :: rest => sepOffsets (offset + piece.template.length / 2) rest

/-- Every text is made of whole bytes. -/
def Whole (pieces : List Piece) : Prop := ∀ piece ∈ pieces, piece.template.length % 2 = 0

theorem template_cons (piece : Piece) (pieces : List Piece) :
    template (piece :: pieces) = piece.template ++ template pieces := List.flatMap_cons

theorem template_append (xs ys : List Piece) : template (xs ++ ys) = template xs ++ template ys :=
  List.flatMap_append

theorem Whole.append {xs ys : List Piece} (hx : Whole xs) (hy : Whole ys) : Whole (xs ++ ys) := by
  intro piece hmem
  rcases List.mem_append.mp hmem with h | h
  · exact hx piece h
  · exact hy piece h

theorem Whole.length_template {pieces : List Piece} (h : Whole pieces) :
    (template pieces).length = 2 * size pieces := by
  have heven : (template pieces).length % 2 = 0 := by
    induction pieces with
    | nil => rfl
    | cons piece pieces ih =>
        have hhead := h piece (List.mem_cons_self)
        have htail := ih fun p hp => h p (List.mem_cons_of_mem _ hp)
        rw [template_cons, List.length_append]
        omega
  unfold size
  omega

theorem Whole.size_cons {piece : Piece} {pieces : List Piece} (h : Whole (piece :: pieces)) :
    size (piece :: pieces) = piece.template.length / 2 + size pieces := by
  have hhead := h piece List.mem_cons_self
  unfold size
  rw [template_cons, List.length_append]
  omega

theorem argSlots_append {xs : List Piece} (h : Whole xs) (offset : Nat) (ys : List Piece) :
    argSlots offset (xs ++ ys) = argSlots offset xs ++ argSlots (offset + size xs) ys := by
  induction xs generalizing offset with
  | nil => rfl
  | cons piece xs ih =>
      have htail : Whole xs := fun p hp => h p (List.mem_cons_of_mem _ hp)
      have hsize := h.size_cons
      cases piece <;>
        simp [argSlots, ih htail, hsize, Piece.template, placeholder, Nat.add_assoc]

theorem sepOffsets_append {xs : List Piece} (h : Whole xs) (offset : Nat) (ys : List Piece) :
    sepOffsets offset (xs ++ ys) = sepOffsets offset xs ++ sepOffsets (offset + size xs) ys := by
  induction xs generalizing offset with
  | nil => rfl
  | cons piece xs ih =>
      have htail : Whole xs := fun p hp => h p (List.mem_cons_of_mem _ hp)
      have hsize := h.size_cons
      cases piece <;>
        simp [sepOffsets, ih htail, hsize, Piece.template, placeholder, Nat.add_assoc]

/-! ## What a step of the emitter writes -/

/-- The step appends the pieces and records their placeholders. -/
structure Wrote (pieces : List Piece) (f : EmitContext → EmitContext) : Prop where
  whole : Whole pieces
  hex : ∀ ctx, (f ctx).hex = ctx.hex ++ template pieces
  constructorSlots : ∀ ctx, ctx.hex.length % 2 = 0 →
    (f ctx).constructorSlots = ctx.constructorSlots ++ argSlots ctx.byteLength pieces
  codeSepIndexSlots : ∀ ctx, ctx.hex.length % 2 = 0 →
    (f ctx).codeSepIndexSlots.map (·.byteOffset) =
      ctx.codeSepIndexSlots.map (·.byteOffset) ++ sepOffsets ctx.byteLength pieces

namespace Wrote

variable {xs ys : List Piece} {f g : EmitContext → EmitContext}

theorem nil : Wrote [] fun ctx => ctx where
  whole _ h := absurd h List.not_mem_nil
  hex ctx := (List.append_nil ctx.hex).symm
  constructorSlots _ _ := (List.append_nil _).symm
  codeSepIndexSlots _ _ := (List.append_nil _).symm

theorem even (hf : Wrote xs f) {ctx : EmitContext} (h : ctx.hex.length % 2 = 0) :
    (f ctx).hex.length % 2 = 0 := by
  have hlen := hf.whole.length_template
  rw [hf.hex, List.length_append]
  omega

theorem byteLength (hf : Wrote xs f) {ctx : EmitContext} (h : ctx.hex.length % 2 = 0) :
    (f ctx).byteLength = ctx.byteLength + size xs := by
  have hlen := hf.whole.length_template
  unfold EmitContext.byteLength
  rw [hf.hex, List.length_append]
  omega

/-- One step after another. -/
theorem comp (hf : Wrote xs f) (hg : Wrote ys g) : Wrote (xs ++ ys) fun ctx => g (f ctx) where
  whole := hf.whole.append hg.whole
  hex ctx := by rw [hg.hex, hf.hex, template_append, List.append_assoc]
  constructorSlots ctx h := by
    rw [hg.constructorSlots _ (hf.even h), hf.constructorSlots _ h, hf.byteLength h,
      argSlots_append hf.whole, List.append_assoc]
  codeSepIndexSlots ctx h := by
    rw [hg.codeSepIndexSlots _ (hf.even h), hf.codeSepIndexSlots _ h, hf.byteLength h,
      sepOffsets_append hf.whole, List.append_assoc]

end Wrote

/-- A step that only appends a text of whole bytes. -/
theorem wrote_text {hex : HexText} (heven : hex.length % 2 = 0) {f : EmitContext → EmitContext}
    (hhex : ∀ ctx, (f ctx).hex = ctx.hex ++ hex)
    (hargs : ∀ ctx, (f ctx).constructorSlots = ctx.constructorSlots)
    (hseps : ∀ ctx, (f ctx).codeSepIndexSlots = ctx.codeSepIndexSlots) : Wrote [.text hex] f where
  whole := by
    intro piece hmem
    rw [List.mem_singleton.mp hmem]
    exact heven
  hex ctx := by
    rw [hhex, template_cons]
    exact congrArg _ (List.append_nil hex).symm
  constructorSlots ctx _ := by
    rw [hargs]
    exact (List.append_nil _).symm
  codeSepIndexSlots ctx _ := by
    rw [hseps]
    exact (List.append_nil _).symm

theorem opcodeByte_lt (code : Opcode) : opcodeByte code < 256 := by
  cases code <;> decide

theorem wrote_emitOpcode (code : Opcode) : Wrote [opcodePiece code] (·.emitOpcode code) := by
  have heven : (hexNumber (opcodeByte code)).length % 2 = 0 := by
    rw [length_hexNumber_of_lt (opcodeByte_lt code)]
  refine wrote_text heven (fun ctx => ?_) (fun ctx => ?_) fun ctx => ?_ <;>
    · unfold EmitContext.emitOpcode
      dsimp only
      split <;> rfl

theorem even_toHex (bytes : Bytes) : (toHex bytes).length % 2 = 0 := by
  rw [length_toHex]
  exact Nat.mul_mod_right 2 _

theorem even_encodePushValue (value : PushValue) : (encodePushValue value).length % 2 = 0 := by
  cases value with
  | boolean b => cases b <;> rfl
  | bigint n =>
      show (encodePushBigIntHex n).length % 2 = 0
      unfold encodePushBigIntHex
      split
      · rfl
      · split
        · rfl
        · split
          · rename_i h
            rw [length_hexNumber_of_lt (by omega)]
          · exact even_toHex _
  | bytes value =>
      cases value with
      | nil => rfl
      | cons b rest =>
          cases rest with
          | nil =>
              rw [encodePushValue]
              split
              · rename_i h
                have hb : b.toNat ≤ 16 := UInt8.le_iff_toNat_le.mp h.2
                rw [length_hexNumber_of_lt (by omega)]
              · split
                · rfl
                · exact even_toHex _
          | cons _ _ => exact even_toHex _

theorem wrote_emitPush (value : PushValue) : Wrote [pushPiece value] (·.emitPush value) :=
  wrote_text (even_encodePushValue value) (fun _ => rfl) (fun _ => rfl) fun _ => rfl

theorem wrote_emitPlaceholder (paramIndex : Nat) :
    Wrote [.arg paramIndex] (·.emitPlaceholder paramIndex) where
  whole := by
    intro piece hmem
    rw [List.mem_singleton.mp hmem, Piece.template]
    rfl
  hex _ := rfl
  constructorSlots _ _ := rfl
  codeSepIndexSlots _ _ := (List.append_nil _).symm

theorem wrote_emitCodeSepIndexPlaceholder : Wrote [.codeSep] (·.emitCodeSepIndexPlaceholder) where
  whole := by
    intro piece hmem
    rw [List.mem_singleton.mp hmem, Piece.template]
    rfl
  hex _ := rfl
  constructorSlots _ _ := (List.append_nil _).symm
  codeSepIndexSlots _ _ := by
    simp [EmitContext.emitCodeSepIndexPlaceholder, EmitContext.appendHex, sepOffsets]

theorem wrote_rawBytes (bytes : Bytes) : Wrote [.text (toHex bytes)] (·.appendHex (toHex bytes)) :=
  wrote_text (even_toHex bytes) (fun _ => rfl) (fun _ => rfl) fun _ => rfl

mutual

theorem wrote_emitStackOp : ∀ op, Wrote (opPieces op) (emitStackOp op)
  | .push value => by
      rw [opPieces, emitStackOp]
      exact wrote_emitPush value
  | .dup => by rw [opPieces, emitStackOp]; exact wrote_emitOpcode _
  | .swap => by rw [opPieces, emitStackOp]; exact wrote_emitOpcode _
  | .roll _ => by rw [opPieces, emitStackOp]; exact wrote_emitOpcode _
  | .pick _ => by rw [opPieces, emitStackOp]; exact wrote_emitOpcode _
  | .drop => by rw [opPieces, emitStackOp]; exact wrote_emitOpcode _
  | .nip => by rw [opPieces, emitStackOp]; exact wrote_emitOpcode _
  | .over => by rw [opPieces, emitStackOp]; exact wrote_emitOpcode _
  | .rot => by rw [opPieces, emitStackOp]; exact wrote_emitOpcode _
  | .tuck => by rw [opPieces, emitStackOp]; exact wrote_emitOpcode _
  | .opcode code => by rw [opPieces, emitStackOp]; exact wrote_emitOpcode code
  | .ifOp thenOps elseOps => by
      rw [opPieces, emitStackOp]
      have hthen := (wrote_emitOpcode .OP_IF).comp (wrote_emitOps thenOps)
      by_cases hempty : elseOps.isEmpty = true
      · simp only [if_pos hempty]
        exact hthen.comp (wrote_emitOpcode .OP_ENDIF)
      · simp only [if_neg hempty]
        have helse := (wrote_emitOpcode .OP_ELSE).comp (wrote_emitOps elseOps)
        exact hthen.comp (helse.comp (wrote_emitOpcode .OP_ENDIF))
  | .placeholder paramIndex _ => by
      rw [opPieces, emitStackOp]
      exact wrote_emitPlaceholder paramIndex
  | .pushCodesepIndex => by
      rw [opPieces, emitStackOp]
      exact wrote_emitCodeSepIndexPlaceholder
  | .rawBytes bytes _ _ => by
      rw [opPieces, emitStackOp]
      exact wrote_rawBytes bytes

theorem wrote_emitOps : ∀ ops, Wrote (opsPieces ops) (emitOps ops)
  | [] => by
      rw [opsPieces]
      exact .nil
  | op :: ops => by
      rw [opsPieces]
      exact (wrote_emitStackOp op).comp (wrote_emitOps ops)

end

theorem wrote_emitCases (methods : List StackMethod) (i : Nat) :
    Wrote (casePieces i methods) (emitCases i methods) := by
  induction methods generalizing i with
  | nil => exact .nil
  | cons method rest ih =>
      cases rest with
      | nil =>
          exact (wrote_emitPush (.bigint i)).comp
            ((wrote_emitOpcode .OP_NUMEQUALVERIFY).comp (wrote_emitOps method.ops))
      | cons next rest =>
          have htest := (wrote_emitOpcode .OP_DUP).comp ((wrote_emitPush (.bigint i)).comp
            ((wrote_emitOpcode .OP_NUMEQUAL).comp ((wrote_emitOpcode .OP_IF).comp
              (wrote_emitOpcode .OP_DROP))))
          exact (htest.comp (wrote_emitOps method.ops)).comp
            ((wrote_emitOpcode .OP_ELSE).comp (ih (i + 1)))

theorem wrote_emitEnds (n : Nat) :
    Wrote (List.replicate n (opcodePiece .OP_ENDIF)) (emitEnds n) := by
  induction n with
  | zero => exact .nil
  | succ n ih => exact (wrote_emitOpcode .OP_ENDIF).comp ih

/-- A program's template and slots are those of its pieces. -/
theorem emit_wrote (methods : List StackMethod) :
    ∃ f, Wrote (programPieces methods) f ∧ emit methods = f .new := by
  unfold emit programPieces
  dsimp only
  split
  · exact ⟨_, .nil, rfl⟩
  · exact ⟨_, wrote_emitOps _, rfl⟩
  · exact ⟨_, (wrote_emitCases _ 0).comp (wrote_emitEnds _), rfl⟩

/-! ## What the SDK builds -/

theorem blanked_segments (argText sepText : Nat → HexText) (offset : Nat) (pieces : List Piece) :
    blanked placeholder (segments argText sepText offset pieces) = template pieces := by
  induction pieces generalizing offset with
  | nil => rfl
  | cons piece pieces ih =>
      rw [template_cons]
      cases piece <;> simp [segments, blanked, ih, Piece.template]

/-- The holes are the recorded placeholders. -/
theorem holesFrom_segments (argText sepText : Nat → HexText) {pieces : List Piece}
    (h : Whole pieces) (offset : Nat) :
    (holesFrom placeholder (2 * offset) (segments argText sepText offset pieces)).Perm
      ((argSlots offset pieces).map (fun slot => (2 * slot.byteOffset, argText slot.paramIndex)) ++
        (sepOffsets offset pieces).map fun sep => (2 * sep, sepText sep)) := by
  induction pieces generalizing offset with
  | nil => exact List.Perm.refl _
  | cons piece pieces ih =>
      have htail : Whole pieces := fun p hp => h p (List.mem_cons_of_mem _ hp)
      cases piece with
      | text hex =>
          have heven : hex.length % 2 = 0 := h _ List.mem_cons_self
          have hoffset : 2 * offset + hex.length = 2 * (offset + hex.length / 2) := by omega
          rw [segments, holesFrom, hoffset]
          exact ih htail _
      | arg paramIndex =>
          have hseps : sepOffsets offset (.arg paramIndex :: pieces) =
              sepOffsets (offset + 1) pieces := by
            rw [sepOffsets, Piece.template]
            · rfl
            · intro h
              cases h
          rw [hseps]
          exact List.Perm.cons (2 * offset, argText paramIndex) (ih htail (offset + 1))
      | codeSep =>
          exact ((ih htail (offset + 1)).cons _).trans List.perm_middle.symm

theorem le_of_mem_sepOffsets {offset sep : Nat} {pieces : List Piece}
    (h : sep ∈ sepOffsets offset pieces) : offset ≤ sep := by
  induction pieces generalizing offset with
  | nil => cases h
  | cons piece pieces ih =>
      cases piece with
      | text hex => exact Nat.le_of_add_right_le (ih h)
      | arg paramIndex => exact Nat.le_of_add_right_le (ih h)
      | codeSep =>
          rcases List.mem_cons.mp h with rfl | h
          · exact Nat.le_refl _
          · exact Nat.le_of_add_right_le (ih h)

theorem pairwise_sepOffsets (offset : Nat) (pieces : List Piece) :
    (sepOffsets offset pieces).Pairwise (· < ·) := by
  induction pieces generalizing offset with
  | nil => exact List.Pairwise.nil
  | cons piece pieces ih =>
      cases piece with
      | text hex => exact ih _
      | arg paramIndex => exact ih _
      | codeSep =>
          refine List.Pairwise.cons (fun sep hmem => ?_) (ih _)
          exact Nat.lt_of_succ_le (le_of_mem_sepOffsets hmem)

/-- Resolving a list of slots keeps their offsets. -/
theorem map_fst_foldl_resolved (slots : List CodeSepIndexSlot)
    (value : List (Nat × Int) → CodeSepIndexSlot → Int) (result : List (Nat × Int)) :
    (slots.foldl (fun result slot => result ++ [(slot.byteOffset, value result slot)])
      result).map Prod.fst = result.map Prod.fst ++ slots.map (·.byteOffset) := by
  induction slots generalizing result with
  | nil => exact (List.append_nil _).symm
  | cons slot slots ih =>
      rw [List.foldl_cons, ih, List.map_append, List.append_assoc]
      rfl

/-- The offsets of the resolved slots are those of the slots, in order. -/
theorem map_fst_resolved {artifact : RunarArtifact} (args : List JsValue) {offsets : List Nat}
    (hoffsets : artifact.codeSepIndexSlots.map (·.byteOffset) = offsets)
    (hsorted : offsets.Pairwise (· < ·)) :
    (resolvedCodeSepSlotValues artifact args).map Prod.fst = offsets := by
  have hpair : artifact.codeSepIndexSlots.Pairwise
      fun a b => decide (a.byteOffset ≤ b.byteOffset) = true := by
    rw [← hoffsets, List.pairwise_map] at hsorted
    exact hsorted.imp fun h => decide_eq_true (Nat.le_of_lt h)
  unfold resolvedCodeSepSlotValues
  rw [List.mergeSort_of_pairwise hpair]
  have h := map_fst_foldl_resolved artifact.codeSepIndexSlots
    (fun result slot => slot.codeSepIndex +
      constructorShift artifact.constructorSlots args slot.codeSepIndex +
      codeSepShift result slot.codeSepIndex) []
  exact h.trans hoffsets

/-- A list of pairs with distinct keys is the lookups of its keys. -/
theorem map_lookup_fst {β : Type} (d : β) {pairs : List (Nat × β)}
    (h : (pairs.map Prod.fst).Nodup) :
    (pairs.map Prod.fst).map (fun key => (key, (pairs.lookup key).getD d)) = pairs := by
  induction pairs with
  | nil => rfl
  | cons pair pairs ih =>
      obtain ⟨key, b⟩ := pair
      rw [List.map_cons, List.nodup_cons] at h
      have hrest : (pairs.map Prod.fst).map
          (fun k => (k, (((key, b) :: pairs).lookup k).getD d)) =
          (pairs.map Prod.fst).map (fun k => (k, (pairs.lookup k).getD d)) := by
        refine List.map_congr_left fun k hk => ?_
        have hne : (k == key) = false := by
          rw [beq_eq_false_iff_ne]
          rintro rfl
          exact h.1 hk
        rw [List.lookup_cons, hne]
      rw [List.map_cons, List.map_cons, hrest, ih h.2, List.lookup_cons_self]
      rfl

/-- What stands for the position of a code separator in the deployed script. -/
def sepText (artifact : RunarArtifact) (args : List JsValue) (offset : Nat) : HexText :=
  Sdk.encodeScriptNumber (((resolvedCodeSepSlotValues artifact args).lookup offset).getD 0)

/-- The pieces with every value written. -/
def deployedText (artifact : RunarArtifact) (args : List JsValue) (pieces : List Piece) : HexText :=
  filled (segments (fun i => encodeArg (argAt args i)) (sepText artifact args) 0 pieces)

/-- The artifact carries what the emitter emitted for a program. -/
def CarriesProgram (artifact : RunarArtifact) (methods : List StackMethod) : Prop :=
  artifact.script = (emit methods).hex ∧
  artifact.constructorSlots = (emit methods).constructorSlots ∧
  artifact.codeSepIndexSlots = (emit methods).codeSepIndexSlots

theorem replacePlaceholder_eq (script : HexText) (sub : Nat × HexText) :
    replacePlaceholder script sub = replaceBlank placeholder.length script (2 * sub.1, sub.2) := rfl

/-- What the SDK builds is the pieces with every value written.  Where nothing is to be
filled in, an old artifact's arguments follow. -/
theorem buildCodeScript_trailing {artifact : RunarArtifact} {methods : List StackMethod}
    (h : CarriesProgram artifact methods) (args : List JsValue) :
    ∃ trailing, buildCodeScript artifact args =
      deployedText artifact args (programPieces methods) ++ trailing ∧
        (trailing = [] ∨ trailing = args.flatMap encodeArg) := by
  obtain ⟨f, hwrote, hemit⟩ := emit_wrote methods
  obtain ⟨hscript, hslots, hseps⟩ := h
  have hhex : artifact.script = template (programPieces methods) := by
    rw [hscript, hemit, hwrote.hex]
    rfl
  have hargSlots : artifact.constructorSlots = argSlots 0 (programPieces methods) := by
    rw [hslots, hemit, hwrote.constructorSlots _ rfl]
    rfl
  have hsepOffsets : artifact.codeSepIndexSlots.map (·.byteOffset) =
      sepOffsets 0 (programPieces methods) := by
    rw [hseps, hemit, hwrote.codeSepIndexSlots _ rfl]
    rfl
  have hresolved := map_fst_resolved args hsepOffsets (pairwise_sepOffsets 0 _)
  have hnodup : ((resolvedCodeSepSlotValues artifact args).map Prod.fst).Nodup := by
    rw [hresolved]
    exact (pairwise_sepOffsets 0 _).imp fun hlt => Nat.ne_of_lt hlt
  -- the substitutions are the holes, in the order they were collected
  have hsubs : ((substitutions artifact args).map fun sub => (2 * sub.1, sub.2)).Perm
      (holesFrom placeholder 0 (segments (fun i => encodeArg (argAt args i))
        (sepText artifact args) 0 (programPieces methods))) := by
    refine List.Perm.trans (List.Perm.of_eq ?_)
      (holesFrom_segments _ _ hwrote.whole 0).symm
    rw [substitutions, hargSlots, List.map_append, List.map_map, List.map_map, ← hresolved,
      List.map_map]
    congr 1
    rw [← map_lookup_fst (0 : Int) hnodup, List.map_map, List.map_map, map_lookup_fst 0 hnodup]
    refine List.map_congr_left fun pair hmem => ?_
    rfl
  have hfold : ((substitutions artifact args).mergeSort (·.1 ≥ ·.1)).foldl replacePlaceholder
      artifact.script = deployedText artifact args (programPieces methods) := by
    have hsort : ((substitutions artifact args).mergeSort (·.1 ≥ ·.1)).map
        (fun sub => (2 * sub.1, sub.2)) =
        (((substitutions artifact args).map fun sub => (2 * sub.1, sub.2)).mergeSort
          (·.1 ≥ ·.1)) := by
      refine List.map_mergeSort fun a _ b _ => ?_
      exact decide_eq_decide.mpr (by omega)
    have hblank : placeholder ≠ [] := List.cons_ne_nil _ _
    have hfill := foldl_replaceBlank_sorted hblank _ hsubs
    rw [blanked_segments, ← hsort, List.foldl_map, ← hhex] at hfill
    exact hfill
  unfold buildCodeScript
  by_cases hany : artifact.constructorSlots ≠ [] ∨ artifact.codeSepIndexSlots ≠ []
  · rw [if_pos hany, hfold]
    exact ⟨[], (List.append_nil _).symm, .inl rfl⟩
  · rw [if_neg hany]
    have hnone : substitutions artifact args = [] := by
      rw [not_or, not_not, not_not] at hany
      rw [substitutions, resolvedCodeSepSlotValues, hany.1, hany.2, List.mergeSort_nil]
      rfl
    rw [hnone, List.mergeSort_nil] at hfold
    have hplain : artifact.script = deployedText artifact args (programPieces methods) := hfold
    rw [← hplain]
    split
    · exact ⟨_, rfl, .inr rfl⟩
    · exact ⟨[], (List.append_nil _).symm, .inl rfl⟩

/-- What the SDK builds begins with the pieces with every value written. -/
theorem buildCodeScript_eq {artifact : RunarArtifact} {methods : List StackMethod}
    (h : CarriesProgram artifact methods) (args : List JsValue) :
    ∃ trailing, buildCodeScript artifact args =
      deployedText artifact args (programPieces methods) ++ trailing := by
  obtain ⟨trailing, htrailing, -⟩ := buildCodeScript_trailing h args
  exact ⟨trailing, htrailing⟩

end Runar.Artifact
