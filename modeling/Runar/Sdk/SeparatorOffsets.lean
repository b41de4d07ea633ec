/-
  Sdk/SeparatorOffsets.lean --- where the separators stand in a deployed script.

  WHAT THIS FILE IS FOR.  A separator stands at an offset of the template and, with every
  slot filled, at an offset of the deployed script.  The SDK computes the second from the
  first by what fills the slots before it, or finds it by a walk over the script.  This
  file shows that both are right, whatever the slots are filled with.
-/
import Runar.Sdk.Marks

set_option autoImplicit false

namespace Runar.Sdk

open Script Artifact Codec Logic

/-! ## Positions -/

/-- What is written for a piece at an offset of the template. -/
def written (argText sepText : Nat → HexText) (offset : Nat) : Piece → HexText
  | .text hex => hex
  | .arg paramIndex => argText paramIndex
  | .codeSep => sepText offset

/-- The separators among pieces: their offsets in the template and in the script, from a
pair of offsets on. -/
def positions (argText sepText : Nat → HexText) (t d : Nat) : List Piece → List (Nat × Nat)
  | [] => []
  | piece :: rest =>
      (findCodesepOffsets piece.template).map (fun o => (t + o, d + o)) ++
        positions argText sepText (t + piece.template.length / 2)
          (d + (written argText sepText t piece).length / 2) rest

section Positions

variable {argText sepText : Nat → HexText}

theorem half_placeholder : placeholder.length / 2 = 1 := by decide

theorem find_placeholder : findCodesepOffsets placeholder = [] :=
  inertText_placeholder.walked.find_eq

theorem filled_segments_cons (t : Nat) (piece : Piece) (rest : List Piece) :
    filled (segments argText sepText t (piece :: rest)) =
      written argText sepText t piece ++
        filled (segments argText sepText (t + piece.template.length / 2) rest) := by
  cases piece with
  | text hex => rfl
  | arg paramIndex | codeSep =>
    rw [Piece.template, half_placeholder]
    rfl

theorem map_fst_positions (t d : Nat) (pieces : List Piece) :
    (positions argText sepText t d pieces).map Prod.fst = marks t pieces := by
  induction pieces generalizing t d with
  | nil => rfl
  | cons piece pieces ih =>
    rw [positions, marks, List.map_append, ih, List.map_map]
    rfl

theorem positions_add (t d : Nat) (pieces : List Piece) :
    positions argText sepText t d pieces =
      (positions argText sepText t 0 pieces).map fun p => (p.1, d + p.2) := by
  induction pieces generalizing t d with
  | nil => rfl
  | cons piece pieces ih =>
    rw [positions, positions, ih _ (d + _), ih _ (0 + _), List.map_append, List.map_map,
      List.map_map]
    congr 1
    · exact List.map_congr_left fun o _ => by rw [Function.comp_apply, Nat.zero_add]
    · exact List.map_congr_left fun p _ => by
        rw [Function.comp_apply, Nat.zero_add, Nat.add_assoc]

theorem le_of_mem_positions {t d : Nat} {pieces : List Piece} {p : Nat × Nat}
    (h : p ∈ positions argText sepText t d pieces) : t ≤ p.1 := by
  induction pieces generalizing t d with
  | nil => exact absurd h List.not_mem_nil
  | cons piece pieces ih =>
    rw [positions] at h
    rcases List.mem_append.mp h with h | h
    · obtain ⟨o, -, rfl⟩ := List.mem_map.mp h
      exact Nat.le_add_right t o
    · exact Nat.le_of_add_right_le (ih h)

/-- The walk of the SDK finds the separators where they stand. -/
theorem walked_positions {pieces : List Piece} (hwhole : ∀ piece ∈ pieces, WholeText piece.template)
    (harg : ∀ i, .arg i ∈ pieces → InertText (argText i)) (hsep : ∀ o, InertText (sepText o))
    (t : Nat) : Walked (filled (segments argText sepText t pieces))
      ((positions argText sepText t 0 pieces).map Prod.snd) := by
  induction pieces generalizing t with
  | nil => exact walked_nil
  | cons piece pieces ih =>
    obtain ⟨hpiece, hpieces⟩ := List.forall_mem_cons.mp hwhole
    have hwritten : Walked (written argText sepText t piece)
        (findCodesepOffsets piece.template) := by
      cases piece with
      | text hex => exact hpiece.walked
      | arg paramIndex =>
        rw [Piece.template, find_placeholder]
        exact (harg paramIndex List.mem_cons_self).walked
      | codeSep =>
        rw [Piece.template, find_placeholder]
        exact (hsep t).walked
    have hwalked := hwritten.append
      (ih hpieces (fun i hi => harg i (List.mem_cons_of_mem _ hi)) (t + piece.template.length / 2))
    have hhead : ((findCodesepOffsets piece.template).map fun o => (t + o, 0 + o)).map Prod.snd =
        findCodesepOffsets piece.template := by
      rw [List.map_map]
      exact (List.map_congr_left fun o _ => Nat.zero_add o).trans (List.map_id _)
    rw [filled_segments_cons, positions, positions_add, List.map_append, hhead, List.map_map,
      Nat.zero_add]
    rw [List.map_map] at hwalked
    exact hwalked

theorem le_of_mem_argSlots {offset : Nat} {pieces : List Piece} {slot : ConstructorSlot}
    (h : slot ∈ argSlots offset pieces) : offset ≤ slot.byteOffset := by
  induction pieces generalizing offset with
  | nil => exact absurd h List.not_mem_nil
  | cons piece pieces ih =>
    cases piece with
    | text hex => exact Nat.le_of_add_right_le (ih h)
    | codeSep => exact Nat.le_of_add_right_le (ih h)
    | arg paramIndex =>
      rcases List.mem_cons.mp h with rfl | h
      · exact Nat.le_refl _
      · exact Nat.le_of_add_right_le (ih h)

/-- How far the slots before an offset move it. -/
def argShift (argText : Nat → HexText) (slots : List ConstructorSlot) (offset : Nat) : Int :=
  ((slots.filter (·.byteOffset < offset)).map fun slot => growth (argText slot.paramIndex)).sum

/-- How far the positions of separators before an offset move it. -/
def sepShift (sepText : Nat → HexText) (offsets : List Nat) (offset : Nat) : Int :=
  ((offsets.filter (· < offset)).map fun o => growth (sepText o)).sum

theorem argShift_of_le {slots : List ConstructorSlot} {offset : Nat}
    (h : ∀ slot ∈ slots, offset ≤ slot.byteOffset) : argShift argText slots offset = 0 := by
  have hnone : slots.filter (·.byteOffset < offset) = [] :=
    List.filter_eq_nil_iff.mpr fun slot hslot => by
      have hle := h slot hslot
      rw [decide_eq_true_iff]
      omega
  rw [argShift, hnone]
  rfl

theorem sepShift_of_le {offsets : List Nat} {offset : Nat} (h : ∀ o ∈ offsets, offset ≤ o) :
    sepShift sepText offsets offset = 0 := by
  have hnone : offsets.filter (· < offset) = [] :=
    List.filter_eq_nil_iff.mpr fun o ho => by
      have hle := h o ho
      rw [decide_eq_true_iff]
      omega
  rw [sepShift, hnone]
  rfl

/-- A separator is as far from the start as in the template, moved by what fills the slots
before it. -/
theorem positions_shift {t d : Nat} {pieces : List Piece} {p : Nat × Nat}
    (hwhole : ∀ piece ∈ pieces, WholeText piece.template)
    (h : p ∈ positions argText sepText t d pieces) :
    (p.2 : Int) = d + (p.1 - t) + argShift argText (argSlots t pieces) p.1 +
      sepShift sepText (sepOffsets t pieces) p.1 := by
  induction pieces generalizing t d with
  | nil => exact absurd h List.not_mem_nil
  | cons piece pieces ih =>
    obtain ⟨hpiece, hpieces⟩ := List.forall_mem_cons.mp hwhole
    rw [positions] at h
    rcases List.mem_append.mp h with h | h
    · obtain ⟨o, ho, rfl⟩ := List.mem_map.mp h
      cases piece with
      | arg paramIndex | codeSep =>
        rw [Piece.template, find_placeholder] at ho
        cases ho
      | text hex =>
        -- no slot stands before a separator of the first piece
        have hlt : o < hex.length / 2 := hpiece.walked.inside o ho
        have hargs : argSlots t (.text hex :: pieces) =
          argSlots (t + hex.length / 2) pieces := rfl
        have hseps : sepOffsets t (.text hex :: pieces) =
          sepOffsets (t + hex.length / 2) pieces := rfl
        rw [hargs, hseps, argShift_of_le fun slot hslot => ?_, sepShift_of_le fun s hs => ?_]
        · push_cast
          omega
        · have hle := le_of_mem_sepOffsets hs
          exact (Nat.add_le_add_left (Nat.le_of_lt hlt) t).trans hle
        · have hle := le_of_mem_argSlots hslot
          exact (Nat.add_le_add_left (Nat.le_of_lt hlt) t).trans hle
    · have hstep := ih hpieces h
      have hle := le_of_mem_positions h
      have hgrowth (text : HexText) : growth text = (text.length / 2 : Nat) - 1 := rfl
      cases piece with
      | text hex =>
        have hargs : argSlots t (.text hex :: pieces) =
          argSlots (t + hex.length / 2) pieces := rfl
        have hseps : sepOffsets t (.text hex :: pieces) =
          sepOffsets (t + hex.length / 2) pieces := rfl
        rw [hargs, hseps]
        simp only [Piece.template, written] at hstep
        omega
      | arg paramIndex =>
        rw [Piece.template, half_placeholder] at hle hstep
        have hlt : t < p.1 := hle
        have hargs : argSlots t (.arg paramIndex :: pieces) =
          ⟨paramIndex, t⟩ :: argSlots (t + 1) pieces := rfl
        have hseps : sepOffsets t (.arg paramIndex :: pieces) = sepOffsets (t + 1) pieces := by
          rw [sepOffsets, Piece.template, half_placeholder]
          rintro ⟨⟩
        have hshift : argShift argText (⟨paramIndex, t⟩ :: argSlots (t + 1) pieces) p.1 =
            growth (argText paramIndex) + argShift argText (argSlots (t + 1) pieces) p.1 := by
          rw [argShift, List.filter_cons, if_pos (decide_eq_true hlt)]
          rfl
        rw [hargs, hseps, hshift, hgrowth]
        simp only [written] at hstep
        omega
      | codeSep =>
        rw [Piece.template, half_placeholder] at hle hstep
        have hlt : t < p.1 := hle
        have hargs : argSlots t (.codeSep :: pieces) = argSlots (t + 1) pieces := rfl
        have hseps : sepOffsets t (.codeSep :: pieces) = t :: sepOffsets (t + 1) pieces := rfl
        have hshift : sepShift sepText (t :: sepOffsets (t + 1) pieces) p.1 =
            growth (sepText t) + sepShift sepText (sepOffsets (t + 1) pieces) p.1 := by
          rw [sepShift, List.filter_cons, if_pos (decide_eq_true hlt)]
          rfl
        rw [hargs, hseps, hshift, hgrowth]
        simp only [written] at hstep
        omega

end Positions

/-! ## An artifact of the emitter -/

/-- The artifact carries a program and the separators recorded for it. -/
structure CarriesSeparators (artifact : RunarArtifact) (methods : List StackMethod) : Prop where
  program : CarriesProgram artifact methods
  index : artifact.codeSeparatorIndex = (emit methods).codeSeparatorIndex
  indices : artifact.codeSeparatorIndices =
    if (emit methods).codeSeparatorIndices = [] then none
    else some (emit methods).codeSeparatorIndices

/-- The separators of a deployed program. -/
def deployedSeparators (artifact : RunarArtifact) (args : List JsValue)
    (methods : List StackMethod) : List (Nat × Nat) :=
  positions (fun i => encodeArg (argAt args i)) (Artifact.sepText artifact args) 0 0
    (programPieces methods)

section Deployed

variable {artifact : RunarArtifact} {methods : List StackMethod} {args : List JsValue}

/-- The emitter records some of the separators, in order, and the last of these. -/
theorem emitted_indices (hplain : PlainProgram methods) :
    (emit methods).codeSeparatorIndices.Sublist (marks 0 (programPieces methods)) ∧
      (emit methods).codeSeparatorIndex = (emit methods).codeSeparatorIndices.getLast? := by
  obtain ⟨f, hmarked, hemit⟩ := emit_marked hplain
  obtain ⟨recorded, hrecorded, hsub⟩ := hmarked.indices .new rfl
  rw [hemit]
  refine ⟨?_, hmarked.last _ rfl⟩
  rw [hrecorded]
  exact hsub

/-- The shift the SDK computes takes a separator of the template to its deployed place. -/
theorem adjustCodeSepOffset_eq (hplain : PlainProgram methods)
    (h : CarriesProgram artifact methods) {self : RunarContract}
    (hself : self.artifact = artifact) (hargs : self.constructorArgs = args) {p : Nat × Nat}
    (hp : p ∈ deployedSeparators artifact args methods) :
    adjustCodeSepOffset self p.1 = p.2 := by
  obtain ⟨f, hmarked, hemit⟩ := emit_marked hplain
  have hwrote := hmarked.toWrote
  obtain ⟨-, hslots, hseps⟩ := h
  have hargSlots : artifact.constructorSlots = argSlots 0 (programPieces methods) := by
    rw [hslots, hemit, hwrote.constructorSlots _ rfl]
    rfl
  have hsepOffsets : artifact.codeSepIndexSlots.map (·.byteOffset) =
      sepOffsets 0 (programPieces methods) := by
    rw [hseps, hemit, hwrote.codeSepIndexSlots _ rfl]
    rfl
  have hresolved := map_fst_resolved args hsepOffsets (pairwise_sepOffsets 0 _)
  have hnodup : ((resolvedCodeSepSlotValues artifact args).map Prod.fst).Nodup := by
    rw [hresolved]
    exact (pairwise_sepOffsets 0 _).imp fun hlt => Nat.ne_of_lt hlt
  have hshift : codeSepShift (resolvedCodeSepSlotValues artifact args) p.1 =
      sepShift (Artifact.sepText artifact args) (sepOffsets 0 (programPieces methods)) p.1 := by
    rw [codeSepShift, sepShift, ← hresolved]
    conv_lhs => rw [← map_lookup_fst (0 : Int) hnodup]
    rw [List.filter_map, List.map_map]
    rfl
  have hposition := positions_shift hmarked.opcodes hp
  have hconstructor : constructorShift artifact.constructorSlots args p.1 =
      argShift (fun i => encodeArg (argAt args i)) (argSlots 0 (programPieces methods)) p.1 := by
    rw [hargSlots]
    rfl
  rw [adjustCodeSepOffset, hself, hargs, hshift, hconstructor, hposition]
  omega

end Deployed

end Runar.Sdk
