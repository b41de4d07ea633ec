/-
  Sdk/TemplateHash.lean --- when the slot layout describes the script.

  WHAT THIS FILE IS FOR.  A verifier takes the places of a contract's arguments from the
  slot layout, and hashes the code with the arguments cut out.  The substitutions of an
  artifact are holes of its template, so what the layout says of them can be read off the
  template cut at the holes.  This holds of all arguments but one kind: a byte string of
  one byte that has an opcode of its own is pushed by that opcode, and the layout takes
  the opcode for the header of a long push.
-/
import Runar.Sdk.SlotLayout

set_option autoImplicit false

namespace Runar.Sdk

open Script Logic

/-! ## Slots that stand apart -/

/-- No two slots of an artifact stand at one offset. -/
def SlotsApart (artifact : RunarArtifact) : Prop :=
  (artifact.constructorSlots.map (·.byteOffset) ++
    artifact.codeSepIndexSlots.map (·.byteOffset)).Nodup

instance (artifact : RunarArtifact) : Decidable (SlotsApart artifact) :=
  inferInstanceAs (Decidable (List.Nodup _))

/-- What the compiler promises of an artifact: whole bytes, and slots that stand apart. -/
structure WellFormed (artifact : RunarArtifact) : Prop where
  whole : artifact.script.length % 2 = 0
  apart : SlotsApart artifact

/-- The compiler keeps its promise. -/
theorem wellFormed_of_carriesProgram {artifact : RunarArtifact}
    {methods : List Artifact.StackMethod} (h : Artifact.CarriesProgram artifact methods) :
    WellFormed artifact := by
  obtain ⟨f, hwrote, hemit⟩ := Artifact.emit_wrote methods
  obtain ⟨hscript, hslots, hseps⟩ := h
  have hwhole : artifact.script.length % 2 = 0 := by
    rw [hscript, hemit]
    exact hwrote.even rfl
  refine ⟨hwhole, ?_⟩
  have hargSlots : artifact.constructorSlots =
      Artifact.argSlots 0 (Artifact.programPieces methods) := by
    rw [hslots, hemit, hwrote.constructorSlots _ rfl]
    rfl
  have hsepOffsets : artifact.codeSepIndexSlots.map (·.byteOffset) =
      Artifact.sepOffsets 0 (Artifact.programPieces methods) := by
    rw [hseps, hemit, hwrote.codeSepIndexSlots _ rfl]
    rfl
  -- the slots are the holes of the program's pieces, whatever fills them
  have hperm := Artifact.holesFrom_segments (fun _ => []) (fun _ => []) hwrote.whole 0
  have hholes := pairwise_holesFrom (List.cons_ne_nil '0' ['0']) (2 * 0)
    (Artifact.segments (fun _ => []) (fun _ => []) 0 (Artifact.programPieces methods))
  have hnodup : ((holesFrom Artifact.placeholder (2 * 0) (Artifact.segments (fun _ => [])
      (fun _ => []) 0 (Artifact.programPieces methods))).map Prod.fst).Nodup := by
    rw [List.Nodup, List.pairwise_map]
    exact hholes.imp fun hlt => Nat.ne_of_lt hlt
  have hdouble := (hperm.map Prod.fst).nodup_iff.mp hnodup
  rw [List.map_append, List.map_map, List.map_map] at hdouble
  rw [SlotsApart, hargSlots, hsepOffsets]
  refine List.Nodup.of_map (2 * ·) ?_
  rw [List.map_append, List.map_map]
  exact hdouble

section Substitutions

variable {artifact : LayoutArtifact} {args args' : List JsValue}

theorem map_fst_resolvedCodeSepSlotValues (artifact : RunarArtifact) (args : List JsValue) :
    ((resolvedCodeSepSlotValues artifact args).map Prod.fst).Perm
      (artifact.codeSepIndexSlots.map (·.byteOffset)) := by
  have h := Artifact.map_fst_foldl_resolved
    (artifact.codeSepIndexSlots.mergeSort (·.byteOffset ≤ ·.byteOffset))
    (fun result slot => slot.codeSepIndex +
      constructorShift artifact.constructorSlots args slot.codeSepIndex +
      codeSepShift result slot.codeSepIndex) []
  unfold resolvedCodeSepSlotValues
  rw [h]
  exact (List.mergeSort_perm _ _).map _

theorem map_eq_of_forall₂ {α β γ : Type} {R : α → β → Prop} {f : α → γ} {g : β → γ}
    (hR : ∀ x y, R x y → g y = f x) {xs : List α} {ys : List β} (h : List.Forall₂ R xs ys) :
    ys.map g = xs.map f := by
  induction h with
  | nil => rfl
  | cons hxy _ ih => rw [List.map_cons, List.map_cons, ih, hR _ _ hxy]

/-- The substitutions stand where the slots do. -/
theorem Collected.offsets {slots seps : List Substitution}
    (h : Collected artifact args slots seps) :
    ((slots ++ seps).map (·.templateByteOffset)).Perm
      (artifact.constructorSlots.map (·.byteOffset) ++
        artifact.codeSepIndexSlots.map (·.byteOffset)) := by
  have hslots : slots.map (·.templateByteOffset) =
      artifact.constructorSlots.map (·.byteOffset) := by
    rw [map_eq_of_forall₂ (f := fun slot => slot.1.byteOffset)
      (fun slot sub hsub => by rw [hsub.1]) h.fromSlots]
    show List.map (ConstructorSlot.byteOffset ∘ Prod.fst) _ = _
    rw [← List.map_map, List.zipIdx_map_fst]
  have hseps : seps.map (·.templateByteOffset) =
      (resolvedCodeSepSlotValues artifact.toRunarArtifact args).map Prod.fst :=
    map_eq_of_forall₂ (fun rs sub hsub => by rw [hsub.1]) h.fromSeps
  rw [List.map_append, hslots, hseps]
  exact (map_fst_resolvedCodeSepSlotValues _ args).append_left _

/-- Sorting by offset, of lists whose offsets are distinct. -/
theorem pairwise_lt_mergeSort {subs : List Substitution}
    (hnodup : (subs.map (·.templateByteOffset)).Nodup) :
    (subs.mergeSort (·.templateByteOffset ≤ ·.templateByteOffset)).Pairwise
      fun a b => a.templateByteOffset < b.templateByteOffset := by
  have hle : (subs.mergeSort (·.templateByteOffset ≤ ·.templateByteOffset)).Pairwise
      fun a b => decide (a.templateByteOffset ≤ b.templateByteOffset) = true := by
    refine List.pairwise_mergeSort (fun a b c hab hbc => ?_) (fun a b => ?_) subs
    · rw [decide_eq_true_eq] at hab hbc ⊢
      omega
    · rw [Bool.or_eq_true, decide_eq_true_eq, decide_eq_true_eq]
      omega
  have hne : (subs.mergeSort (·.templateByteOffset ≤ ·.templateByteOffset)).Pairwise
      fun a b => a.templateByteOffset ≠ b.templateByteOffset := by
    rw [← List.pairwise_map (f := Substitution.templateByteOffset)]
    exact ((List.mergeSort_perm subs _).map _).nodup_iff.mpr hnodup
  refine (hle.and hne).imp fun hab => ?_
  exact lt_of_le_of_ne (of_decide_eq_true hab.1) hab.2

/-- The substitutions stand at the placeholders of the template, in order. -/
theorem Collected.aligned {slots seps : List Substitution}
    (hapart : SlotsApart artifact.toRunarArtifact) (h : Collected artifact args slots seps) :
    Aligned 0 artifact.script
      ((slots ++ seps).mergeSort (·.templateByteOffset ≤ ·.templateByteOffset)) := by
  refine ⟨pairwise_lt_mergeSort (h.offsets.nodup_iff.mpr hapart), fun _ _ => Nat.zero_le _,
    fun sub hmem => ?_⟩
  rw [List.mem_mergeSort, List.mem_append] at hmem
  rw [Nat.sub_zero]
  rcases hmem with hmem | hmem
  · obtain ⟨slot, -, rfl, hblank⟩ := exists_of_mem_right h.fromSlots hmem
    exact hblank
  · obtain ⟨rs, -, rfl, hblank⟩ := exists_of_mem_right h.fromSeps hmem
    exact hblank

/-- Each constructor slot's argument is encoded as it is classified. -/
def SlotsEncoded (artifact : LayoutArtifact) (args : List JsValue) : Prop :=
  ∀ slot ∈ artifact.constructorSlots, Encoded (argAt args slot.paramIndex)

theorem even_encodeScriptNumber (n : Int) : (encodeScriptNumber n).length % 2 = 0 := by
  obtain ⟨hsplit, -, hhead, hvalue⟩ := (encoded_number (n := n) (Or.inl rfl)).split
  have h := congrArg List.length hsplit
  rw [List.length_append] at h
  change (encodeScriptNumber n).length = _ at h
  omega

theorem Collected.fit {slots seps : List Substitution} (h : Collected artifact args slots seps)
    (hencoded : SlotsEncoded artifact args) :
    ∀ sub ∈ (slots ++ seps).mergeSort (·.templateByteOffset ≤ ·.templateByteOffset),
      Fit args sub := by
  intro sub hmem
  rw [List.mem_mergeSort, List.mem_append] at hmem
  rcases hmem with hmem | hmem
  · obtain ⟨slot, hslot, rfl, -⟩ := exists_of_mem_right h.fromSlots hmem
    have hmemSlot : slot.1 ∈ artifact.constructorSlots := by
      have := List.mem_map_of_mem (f := Prod.fst) hslot
      rwa [List.zipIdx_map_fst] at this
    have henc := hencoded slot.1 hmemSlot
    obtain ⟨hsplit, -, hhead, hvalue⟩ := henc.split
    refine ⟨?_, ?_⟩
    · show (encodeArg (argAt args slot.1.paramIndex)).length % 2 = 0
      rw [hsplit, List.length_append]
      omega
    · rintro slot' name heq
      cases heq
      exact ⟨rfl, henc⟩
  · obtain ⟨rs, -, rfl, -⟩ := exists_of_mem_right h.fromSeps hmem
    refine ⟨even_encodeScriptNumber rs.2, ?_⟩
    rintro slot name heq
    cases heq

end Substitutions

/-! ## The resolved code -/

section Resolved

variable {artifact : LayoutArtifact} {args args' : List JsValue} {subs : List Substitution}

/-- Splicing the substitutions in fills the template. -/
theorem splice_eq (halign : Aligned 0 artifact.script subs) (hfit : ∀ sub ∈ subs, Fit args sub) :
    (subs.mergeSort (·.templateByteOffset ≥ ·.templateByteOffset)).foldl
        (fun script sub => replacePlaceholder script (sub.templateByteOffset, sub.encodedHex))
        artifact.script =
      cutFilled (cutsFrom args 0 artifact.script subs).1
        (cutsFrom args 0 artifact.script subs).2 := by
  obtain ⟨hblanked, hholes⟩ := cuts_template halign hfit
  have hsort : (subs.mergeSort (·.templateByteOffset ≥ ·.templateByteOffset)).map
      (fun sub => (2 * sub.templateByteOffset, sub.encodedHex)) =
      (subs.map fun sub => (2 * sub.templateByteOffset, sub.encodedHex)).mergeSort
        (·.1 ≥ ·.1) := by
    refine List.map_mergeSort fun a _ b _ => ?_
    exact decide_eq_decide.mpr (by omega)
  have hfill := foldl_replaceBlank_sorted (List.cons_ne_nil '0' ['0'])
    (cutSegments (cutsFrom args 0 artifact.script subs).1
      (cutsFrom args 0 artifact.script subs).2) (List.Perm.of_eq hholes.symm)
  rw [filled_cutSegments, ← hsort, List.foldl_map] at hfill
  change List.foldl _ (blanked Artifact.placeholder _) _ = _ at hfill
  rw [hblanked] at hfill
  exact hfill

theorem valueText_ne_nil (value : JsValue) : valueText value ≠ [] := by
  have hnumber : ∀ n : Int, (if HasOpcode n then encodeScriptNumber n else toHex (encodeNum n)) ≠
      ([] : HexText) := by
    intro n hnil
    split at hnil
    · rename_i hop
      rcases hop with rfl | hsmall | rfl
      · cases hnil
      · rw [encodeScriptNumber_small hsmall] at hnil
        have := two_le_length_hexNumber (0x50 + n.toNat)
        rw [hnil, List.length_nil] at this
        omega
      · cases hnil
    · rename_i hop
      have hlen := (encodeScriptNumber_push hop).1
      have := congrArg List.length hnil
      rw [length_toHex, List.length_nil] at this
      omega
  have hdata : ∀ text : Option HexText, dataValue text ≠ [] := by
    intro text
    unfold dataValue
    split
    · exact List.cons_ne_nil _ _
    · exact List.cons_ne_nil _ _
  cases value with
  | emptySig => exact List.cons_ne_nil _ _
  | boolean b => cases b <;> exact List.cons_ne_nil _ _
  | bigint n => exact hnumber n
  | number n => exact hnumber n
  | _ => exact hdata _

theorem SlotRight.pos {code : HexText} {slot : ResolvedSlot} (h : SlotRight code args slot) :
    0 < slot.valueByteLength := by
  by_contra hle
  have hvalue := h.value
  rw [byteRange, Int.toNat_of_nonpos (by omega), List.take_zero] at hvalue
  exact valueText_ne_nil _ hvalue.symm

/-- Cutting the values out of the code one by one. -/
theorem foldl_exciseValue {code template : HexText} {slots : List ResolvedSlot}
    (h : ∀ slot ∈ slots, SlotRight code args slot) :
    slots.foldl exciseValue template = (slots.map valueRange).foldl excise template := by
  induction slots generalizing template with
  | nil => rfl
  | cons slot slots ih =>
    have hslot := h slot List.mem_cons_self
    have hinside := hslot.inside
    have hoffset := hslot.offset
    have hlength := hslot.nonneg
    have hexcise : exciseValue template slot = excise template (valueRange slot) := by
      unfold exciseValue excise valueRange
      dsimp only
      have hend : ((slot.valueByteOffset + slot.valueByteLength) * 2).toNat =
          (2 * slot.valueByteOffset).toNat + (2 * slot.valueByteLength).toNat := by omega
      rw [hend, Int.mul_comm slot.valueByteOffset 2]
    rw [List.foldl_cons, List.map_cons, List.foldl_cons, hexcise]
    exact ih fun other hmem => h other (List.mem_cons_of_mem _ hmem)

/-- The values of a layout stand in increasing order. -/
theorem mergeSort_slots {code : HexText} {slots : List ResolvedSlot}
    (h : ∀ slot ∈ slots, SlotRight code args slot) (hapart : slots.Pairwise Before) :
    slots.mergeSort (·.valueByteOffset ≥ ·.valueByteOffset) = slots.reverse := by
  have hlt : slots.Pairwise fun a b => a.valueByteOffset < b.valueByteOffset := by
    refine hapart.imp_of_mem fun {a b} ha hb hab => ?_
    have hpos := (h a ha).pos
    have ha' := (h a ha).inside
    have hb' := (h b hb).inside
    unfold Before at hab
    omega
  have hrev : slots.reverse.Pairwise fun a b =>
      decide (a.valueByteOffset ≥ b.valueByteOffset) = true ∧
        a.valueByteOffset ≠ b.valueByteOffset := by
    rw [List.pairwise_reverse]
    exact hlt.imp fun hab => ⟨decide_eq_true (Int.le_of_lt hab), Int.ne_of_gt hab⟩
  have hperm := List.mergeSort_perm slots (·.valueByteOffset ≥ ·.valueByteOffset)
  have hdesc : (slots.mergeSort (·.valueByteOffset ≥ ·.valueByteOffset)).Pairwise
      fun a b => decide (a.valueByteOffset ≥ b.valueByteOffset) = true := by
    refine List.pairwise_mergeSort (fun a b c hab hbc => ?_) (fun a b => ?_) slots
    · rw [decide_eq_true_eq] at hab hbc ⊢
      omega
    · rw [Bool.or_eq_true, decide_eq_true_eq, decide_eq_true_eq]
      omega
  have hdistinct : (slots.mergeSort (·.valueByteOffset ≥ ·.valueByteOffset)).Pairwise
      fun a b => a.valueByteOffset ≠ b.valueByteOffset :=
    (hperm.pairwise_iff fun hab => hab.symm).mpr (hlt.imp fun hab => Int.ne_of_lt hab)
  refine List.Perm.eq_of_pairwise (fun a b _ _ hab hba => ?_) (hdesc.and hdistinct) hrev
    (hperm.trans (List.reverse_perm slots).symm)
  exact absurd (Int.le_antisymm (of_decide_eq_true hba.1) (of_decide_eq_true hab.1)) hab.2

/-- What the code and the layout of an accepted argument vector are. -/
structure Resolved (artifact : LayoutArtifact) (args : List JsValue)
    (subs : List Substitution) : Prop where
  aligned : Aligned 0 artifact.script subs
  fit : ∀ sub ∈ subs, Fit args sub

/-- The layout of a resolved template. -/
theorem Resolved.layout (h : Resolved artifact args subs) :
    LayoutOf args (cutFilled (cutsFrom args 0 artifact.script subs).1
        (cutsFrom args 0 artifact.script subs).2) 0 (cutsFrom args 0 artifact.script subs).1
        (resolveSlots artifact args 0 subs).1 ∧
      ((cutFilled (cutsFrom args 0 artifact.script subs).1
        (cutsFrom args 0 artifact.script subs).2).length : Int) =
        artifact.script.length + 2 * (resolveSlots artifact args 0 subs).2 := by
  obtain ⟨hlayout, hend⟩ := layout_of_cuts h.aligned h.fit []
    (show ((([] : HexText).length : Int)) = ((0 : Nat) : Int) + 2 * 0 from rfl)
  refine ⟨hlayout, ?_⟩
  rw [List.length_nil] at hend
  omega

/-- The text whose hash the template hash is. -/
theorem Resolved.excised (h : Resolved artifact args subs) :
    ((resolveSlots artifact args 0 subs).1.mergeSort
        (·.valueByteOffset ≥ ·.valueByteOffset)).foldl exciseValue
        (cutFilled (cutsFrom args 0 artifact.script subs).1
          (cutsFrom args 0 artifact.script subs).2) =
      cutHeads (cutsFrom args 0 artifact.script subs).1
        (cutsFrom args 0 artifact.script subs).2 := by
  obtain ⟨hlayout, -⟩ := h.layout
  have hright := fun slot hmem => (hlayout.right slot hmem).1
  rw [mergeSort_slots hright hlayout.apart, foldl_exciseValue
    (fun slot hmem => hright slot (List.mem_reverse.mp hmem)), List.map_reverse, hlayout.ranges]
  exact foldl_excise [] _ _

end Resolved

/-! ## Arguments encoded in the same lengths -/

section SameLengths

variable {artifact : LayoutArtifact} {args args' : List JsValue}

/-- Two argument vectors whose slots are encoded in the same lengths. -/
def SameLengths (artifact : LayoutArtifact) (args args' : List JsValue) : Prop :=
  ∀ slot ∈ artifact.constructorSlots, (encodeArg (argAt args slot.paramIndex)).length =
    (encodeArg (argAt args' slot.paramIndex)).length

/-- What is cut alike for two argument vectors. -/
def SameCut (args args' : List JsValue) (sub sub' : Substitution) : Prop :=
  sub.templateByteOffset = sub'.templateByteOffset ∧ headOf args sub = headOf args' sub'

theorem resolvedCodeSepSlotValues_congr (h : SameLengths artifact args args') :
    resolvedCodeSepSlotValues artifact.toRunarArtifact args =
      resolvedCodeSepSlotValues artifact.toRunarArtifact args' := by
  have hshift : ∀ offset, constructorShift artifact.constructorSlots args offset =
      constructorShift artifact.constructorSlots args' offset := by
    intro offset
    unfold constructorShift
    refine congrArg List.sum (List.map_congr_left fun slot hmem => ?_)
    rw [growth, growth, h slot (List.mem_filter.mp hmem).1]
  unfold resolvedCodeSepSlotValues
  simp only [hshift]

/-- The heads of the code do not depend on the arguments beyond their lengths. -/
theorem cutHeads_congr {subs subs' : List Substitution}
    (h : List.Forall₂ (SameCut args args') subs subs') (pos : Nat) (rest : HexText) :
    cutHeads (cutsFrom args pos rest subs).1 (cutsFrom args pos rest subs).2 =
      cutHeads (cutsFrom args' pos rest subs').1 (cutsFrom args' pos rest subs').2 := by
  induction h generalizing pos rest with
  | nil => rfl
  | @cons sub sub' subs subs' hcut _ ih =>
    obtain ⟨hoffset, hhead⟩ := hcut
    rw [cutsFrom, cutsFrom]
    dsimp only
    rw [cutHeads, cutHeads, hhead, hoffset, ih]

/-- Sorting keeps what is cut alike side by side. -/
theorem forall₂_mergeSort {subs subs' : List Substitution}
    (h : List.Forall₂ (SameCut args args') subs subs') :
    List.Forall₂ (SameCut args args')
      (subs.mergeSort (·.templateByteOffset ≤ ·.templateByteOffset))
      (subs'.mergeSort (·.templateByteOffset ≤ ·.templateByteOffset)) := by
  obtain ⟨pairs, rfl, rfl, hall⟩ := zip_of_forall₂ h
  have hfst : (pairs.mergeSort (·.1.templateByteOffset ≤ ·.1.templateByteOffset)).map Prod.fst =
      (pairs.map Prod.fst).mergeSort (·.templateByteOffset ≤ ·.templateByteOffset) :=
    List.map_mergeSort fun a _ b _ => rfl
  have hsnd : (pairs.mergeSort (·.1.templateByteOffset ≤ ·.1.templateByteOffset)).map Prod.snd =
      (pairs.map Prod.snd).mergeSort (·.templateByteOffset ≤ ·.templateByteOffset) := by
    refine List.map_mergeSort fun a ha b hb => ?_
    rw [(hall a ha).1, (hall b hb).1]
  rw [← hfst, ← hsnd, List.forall₂_map_left_iff, List.forall₂_map_right_iff,
    List.forall₂_same]
  exact fun pair hmem => hall pair (List.mem_mergeSort.mp hmem)

/-- The substitutions of two such vectors are cut alike. -/
theorem Collected.sameCut {slots seps slots' seps' : List Substitution}
    (h : Collected artifact args slots seps) (h' : Collected artifact args' slots' seps')
    (hencoded : SlotsEncoded artifact args) (hencoded' : SlotsEncoded artifact args')
    (hsame : SameLengths artifact args args') :
    List.Forall₂ (SameCut args args') (slots ++ seps) (slots' ++ seps') := by
  have hjoin : ∀ {α : Type} {R R' : α → Substitution → Prop} {xs : List α}
      {ys ys' : List Substitution}, List.Forall₂ R xs ys → List.Forall₂ R' xs ys' →
      (∀ x ∈ xs, ∀ y y', R x y → R' x y' → SameCut args args' y y') →
      List.Forall₂ (SameCut args args') ys ys' := by
    intro α R R' xs ys ys' hR hR' hcut
    induction hR generalizing ys' with
    | nil =>
      cases hR'
      exact .nil
    | cons hxy _ ih =>
      cases hR' with
      | cons hxy' hrest' =>
        refine .cons (hcut _ List.mem_cons_self _ _ hxy hxy') (ih hrest' fun x hmem => ?_)
        exact hcut x (List.mem_cons_of_mem _ hmem)
  refine List.rel_append ?_ ?_
  · refine hjoin h.fromSlots h'.fromSlots ?_
    rintro slot hmem - - ⟨rfl, -⟩ ⟨rfl, -⟩
    have hmemSlot : slot.1 ∈ artifact.constructorSlots := by
      have := List.mem_map_of_mem (f := Prod.fst) hmem
      rwa [List.zipIdx_map_fst] at this
    exact ⟨rfl, (hencoded slot.1 hmemSlot).headText_eq (hencoded' slot.1 hmemSlot)
      (hsame slot.1 hmemSlot)⟩
  · have hseps := h.fromSeps
    rw [resolvedCodeSepSlotValues_congr hsame] at hseps
    refine hjoin hseps h'.fromSeps ?_
    rintro rs - - - ⟨rfl, -⟩ ⟨rfl, -⟩
    exact ⟨rfl, rfl⟩

end SameLengths

/-! ## What the layout describes -/

section Describes

variable {artifact : LayoutArtifact} {args args' : List JsValue}
  {layout layout' : ResolvedSlotLayout}

/-- The slot a descriptor is about: its place in the template and its parameter. -/
def slotKey (slot : ResolvedSlot) : Nat × Nat := (slot.templateByteOffset, slot.paramIndex)

/-- A layout describes the resolved code: one descriptor for each constructor slot, its
ranges those of the argument and its value, and one range after another. -/
structure DescribesLayout (artifact : LayoutArtifact) (args : List JsValue)
    (layout : ResolvedSlotLayout) : Prop where
  complete : (layout.slots.map slotKey).Perm
    (artifact.constructorSlots.map fun slot => (slot.byteOffset, slot.paramIndex))
  code : ∃ code, buildResolvedCodeHex artifact args = .ok code ∧
    (code.length : Int) = 2 * layout.codeByteLength ∧
    ∀ slot ∈ layout.slots, SlotRight code args slot
  apart : layout.slots.Pairwise Before

/-- The template hash does not tell the arguments apart. -/
def SameHash (artifact : LayoutArtifact) (args args' : List JsValue) : Prop :=
  ∀ hash256hex, computeTemplateHash hash256hex artifact args =
    computeTemplateHash hash256hex artifact args'

/-- No constructor slot is filled with a byte that has an opcode of its own. -/
def NoOpcodeByte (artifact : LayoutArtifact) (args : List JsValue) : Prop :=
  ∀ slot ∈ artifact.constructorSlots, ¬ IsOpcodeByte (argAt args slot.paramIndex)

/-- The byte strings that fill the constructor slots are whole. -/
def WholeSlots (artifact : LayoutArtifact) (args : List JsValue) : Prop :=
  ∀ slot ∈ artifact.constructorSlots, WholeBytes (argAt args slot.paramIndex)

theorem resolveSlotLayout_ok (h : resolveSlotLayout artifact args = .ok layout) :
    ∃ slots seps : List Substitution, Collected artifact args slots seps ∧
      collectSubstitutions artifact args = .ok
        ((slots ++ seps).mergeSort (·.templateByteOffset ≤ ·.templateByteOffset)) ∧
      layout = ⟨(resolveSlots artifact args 0
        ((slots ++ seps).mergeSort (·.templateByteOffset ≤ ·.templateByteOffset))).1,
        artifact.script.length / 2 + (resolveSlots artifact args 0
        ((slots ++ seps).mergeSort (·.templateByteOffset ≤ ·.templateByteOffset))).2⟩ := by
  unfold resolveSlotLayout at h
  cases hsubs : collectSubstitutions artifact args with
  | error e =>
    rw [hsubs] at h
    cases h
  | ok subs =>
    rw [hsubs] at h
    cases h
    obtain ⟨slots, seps, hcollected, rfl⟩ := collectSubstitutions_ok hsubs
    exact ⟨slots, seps, hcollected, rfl, rfl⟩

theorem resolved_of_collected {slots seps : List Substitution}
    (hapart : SlotsApart artifact.toRunarArtifact) (hcollected : Collected artifact args slots seps)
    (hencoded : SlotsEncoded artifact args) :
    Resolved artifact args
      ((slots ++ seps).mergeSort (·.templateByteOffset ≤ ·.templateByteOffset)) :=
  ⟨hcollected.aligned hapart, hcollected.fit hencoded⟩

theorem map_slotKey (artifact : LayoutArtifact) (args : List JsValue) (shift : Int)
    (subs : List Substitution) :
    (resolveSlots artifact args shift subs).1.map slotKey =
      subs.filterMap fun sub => sub.slot.map fun slot =>
        (sub.templateByteOffset, slot.1.paramIndex) := by
  induction subs generalizing shift with
  | nil => rfl
  | cons sub subs ih =>
    rw [resolveSlots]
    cases hslot : sub.slot with
    | none =>
      rw [List.filterMap_cons_none (by rw [hslot]; rfl)]
      exact ih _
    | some slot =>
      rw [List.filterMap_cons_some (b := (sub.templateByteOffset, slot.1.paramIndex))
        (by rw [hslot]; rfl)]
      exact congrArg _ (ih _)

/-- Each constructor slot has one descriptor. -/
theorem Collected.complete {slots seps : List Substitution}
    (h : Collected artifact args slots seps) (shift : Int) :
    ((resolveSlots artifact args shift
      ((slots ++ seps).mergeSort (·.templateByteOffset ≤ ·.templateByteOffset))).1.map slotKey).Perm
      (artifact.constructorSlots.map fun slot => (slot.byteOffset, slot.paramIndex)) := by
  rw [map_slotKey]
  refine ((List.mergeSort_perm _ _).filterMap _).trans (List.Perm.of_eq ?_)
  have hslots : slots.filterMap (fun sub => sub.slot.map fun slot =>
      (sub.templateByteOffset, slot.1.paramIndex)) =
      artifact.constructorSlots.map fun slot => (slot.byteOffset, slot.paramIndex) := by
    have hsome := map_eq_of_forall₂ (g := fun sub : Substitution => sub.slot.map fun slot =>
        (sub.templateByteOffset, slot.1.paramIndex))
      (f := fun slot : ConstructorSlot × Nat => some (slot.1.byteOffset, slot.1.paramIndex))
      (fun slot sub hsub => by rw [hsub.1]; rfl) h.fromSlots
    have hzip : artifact.constructorSlots.zipIdx.map (fun slot : ConstructorSlot × Nat =>
        some (slot.1.byteOffset, slot.1.paramIndex)) =
        artifact.constructorSlots.map fun slot => some (slot.byteOffset, slot.paramIndex) := by
      show List.map ((fun slot : ConstructorSlot => some (slot.byteOffset, slot.paramIndex)) ∘
        Prod.fst) _ = _
      rw [← List.map_map, List.zipIdx_map_fst]
    have hid : slots.filterMap (fun sub => sub.slot.map fun slot =>
        (sub.templateByteOffset, slot.1.paramIndex)) =
        (slots.map fun sub => sub.slot.map fun slot =>
          (sub.templateByteOffset, slot.1.paramIndex)).filterMap id := by
      rw [List.filterMap_map]
      rfl
    rw [hid, hsome, hzip, List.filterMap_map]
    exact congrFun List.filterMap_eq_map artifact.constructorSlots
  have hseps : seps.filterMap (fun sub => sub.slot.map fun slot =>
      (sub.templateByteOffset, slot.1.paramIndex)) = [] := by
    rw [List.filterMap_eq_nil_iff]
    intro sub hmem
    obtain ⟨rs, -, rfl, -⟩ := exists_of_mem_right h.fromSeps hmem
    rfl
  rw [List.filterMap_append, hslots, hseps, List.append_nil]

/-- The layout of arguments that are encoded as they are classified. -/
theorem describesLayout_of_encoded (hformed : WellFormed artifact.toRunarArtifact)
    (hencoded : SlotsEncoded artifact args)
    (h : resolveSlotLayout artifact args = .ok layout) : DescribesLayout artifact args layout := by
  obtain ⟨slots, seps, hcollected, hsubs, rfl⟩ := resolveSlotLayout_ok h
  have hwhole := hformed.whole
  have hresolved := resolved_of_collected hformed.apart hcollected hencoded
  obtain ⟨hlayout, hend⟩ := hresolved.layout
  refine ⟨hcollected.complete 0, ⟨_, ?_, ?_, fun slot hmem => (hlayout.right slot hmem).1⟩,
    hlayout.apart⟩
  · unfold buildResolvedCodeHex
    rw [hsubs, ok_bind, splice_eq hresolved.aligned hresolved.fit]
  · rw [hend]
    show (artifact.script.length : Int) + 2 * _ = 2 * ((artifact.script.length : Int) / 2 + _)
    omega

/-- What is hashed of arguments that are encoded as they are classified. -/
theorem computeTemplateHash_eq {slots seps : List Substitution} (hash256hex : HexText → HexText)
    (hapart : SlotsApart artifact.toRunarArtifact) (hcollected : Collected artifact args slots seps)
    (hsubs : collectSubstitutions artifact args = .ok
      ((slots ++ seps).mergeSort (·.templateByteOffset ≤ ·.templateByteOffset)))
    (hencoded : SlotsEncoded artifact args) :
    computeTemplateHash hash256hex artifact args = .ok (hash256hex (cutHeads
      (cutsFrom args 0 artifact.script
        ((slots ++ seps).mergeSort (·.templateByteOffset ≤ ·.templateByteOffset))).1
      (cutsFrom args 0 artifact.script
        ((slots ++ seps).mergeSort (·.templateByteOffset ≤ ·.templateByteOffset))).2)) := by
  have hresolved := resolved_of_collected hapart hcollected hencoded
  unfold computeTemplateHash buildResolvedCodeHex resolveSlotLayout
  rw [hsubs, ok_bind, splice_eq hresolved.aligned hresolved.fit]
  rw [← hresolved.excised]
  rfl

/-- The template hash of arguments encoded in the same lengths. -/
theorem sameHash_of_encoded (hapart : SlotsApart artifact.toRunarArtifact)
    (hencoded : SlotsEncoded artifact args) (hencoded' : SlotsEncoded artifact args')
    (h : resolveSlotLayout artifact args = .ok layout)
    (h' : resolveSlotLayout artifact args' = .ok layout')
    (hsame : SameLengths artifact args args') : SameHash artifact args args' := by
  obtain ⟨slots, seps, hcollected, hsubs, -⟩ := resolveSlotLayout_ok h
  obtain ⟨slots', seps', hcollected', hsubs', -⟩ := resolveSlotLayout_ok h'
  intro hash256hex
  rw [computeTemplateHash_eq hash256hex hapart hcollected hsubs hencoded,
    computeTemplateHash_eq hash256hex hapart hcollected' hsubs' hencoded',
    cutHeads_congr (forall₂_mergeSort
      (hcollected.sameCut hcollected' hencoded hencoded' hsame))]

theorem mem_resolveSlots {sub : Substitution} {subs : List Substitution} {slot : ConstructorSlot}
    {name : Option String} (hmem : sub ∈ subs) (hslot : sub.slot = some (slot, name))
    (shift : Int) : ∃ moved, resolvedSlot artifact args moved sub slot name ∈
      (resolveSlots artifact args shift subs).1 := by
  induction subs generalizing shift with
  | nil => exact absurd hmem List.not_mem_nil
  | cons other subs ih =>
    rw [resolveSlots]
    rcases List.mem_cons.mp hmem with rfl | hmem
    · rw [hslot]
      exact ⟨shift, List.mem_cons_self⟩
    · obtain ⟨moved, hfound⟩ := ih hmem (shift + ((other.encodedHex.length / 2 : Int) - 1))
      refine ⟨moved, ?_⟩
      cases other.slot with
      | none => exact hfound
      | some slot => exact List.mem_cons_of_mem _ hfound

/-- A byte with an opcode of its own is given a value of negative length. -/
theorem negative_of_isOpcodeByte {slot : ConstructorSlot}
    (hmem : slot ∈ artifact.constructorSlots)
    (hbyte : IsOpcodeByte (argAt args slot.paramIndex))
    (h : resolveSlotLayout artifact args = .ok layout) :
    ∃ resolved ∈ layout.slots, resolved.valueByteLength = -4 := by
  obtain ⟨slots, seps, hcollected, -, rfl⟩ := resolveSlotLayout_ok h
  have hzip : slot ∈ artifact.constructorSlots.zipIdx.map Prod.fst := by
    rw [List.zipIdx_map_fst]
    exact hmem
  obtain ⟨pair, hpair, rfl⟩ := List.mem_map.mp hzip
  obtain ⟨sub, hsub, rfl, -⟩ : ∃ sub ∈ slots, FromSlot artifact args pair sub := by
    obtain ⟨pairs, hfst, hsnd, hall⟩ := zip_of_forall₂ hcollected.fromSlots
    rw [← hfst] at hpair
    obtain ⟨both, hboth, rfl⟩ := List.mem_map.mp hpair
    exact ⟨both.2, hsnd ▸ List.mem_map_of_mem hboth, hall both hboth⟩
  obtain ⟨moved, hfound⟩ := mem_resolveSlots
    (List.mem_mergeSort.mpr (List.mem_append_left seps hsub)) rfl 0
  refine ⟨_, hfound, ?_⟩
  obtain ⟨hlen, hheader⟩ := classifyEncoded_opcodeByte hbyte
  show ((encodeArg (argAt args pair.1.paramIndex)).length / 2 : Int) -
    ((classifyEncoded (encodeArg (argAt args pair.1.paramIndex))
      (argAt args pair.1.paramIndex)).2 : Int) = -4
  rw [hlen, hheader]
  rfl

/-- A layout that describes its script fills no slot with such a byte. -/
theorem noOpcodeByte_of_describes (h : resolveSlotLayout artifact args = .ok layout)
    (hdescribes : DescribesLayout artifact args layout) : NoOpcodeByte artifact args := by
  intro slot hmem hbyte
  obtain ⟨resolved, hfound, hnegative⟩ := negative_of_isOpcodeByte hmem hbyte h
  obtain ⟨code, -, -, hright⟩ := hdescribes.code
  have := (hright resolved hfound).nonneg
  omega

theorem slotsEncoded_of_noOpcodeByte (hwhole : WholeSlots artifact args)
    (h : NoOpcodeByte artifact args) : SlotsEncoded artifact args :=
  fun slot hmem => encoded_of_not_isOpcodeByte (hwhole slot hmem) (h slot hmem)

end Describes

/-- The layout of two argument vectors describes their scripts, and their template hashes
agree where their lengths do, exactly when no slot is filled with a byte that has an opcode
of its own. -/
theorem resolveSlotLayout_exact {artifact : LayoutArtifact}
    (hformed : WellFormed artifact.toRunarArtifact) {args args' : List JsValue}
    (hwhole : WholeSlots artifact args) (hwhole' : WholeSlots artifact args')
    {layout layout' : ResolvedSlotLayout} (h : resolveSlotLayout artifact args = .ok layout)
    (h' : resolveSlotLayout artifact args' = .ok layout') :
    (DescribesLayout artifact args layout ∧ DescribesLayout artifact args' layout' ∧
        (SameLengths artifact args args' → SameHash artifact args args')) ↔
      NoOpcodeByte artifact args ∧ NoOpcodeByte artifact args' := by
  constructor
  · rintro ⟨hdescribes, hdescribes', -⟩
    exact ⟨noOpcodeByte_of_describes h hdescribes, noOpcodeByte_of_describes h' hdescribes'⟩
  · rintro ⟨hnone, hnone'⟩
    have hencoded := slotsEncoded_of_noOpcodeByte hwhole hnone
    have hencoded' := slotsEncoded_of_noOpcodeByte hwhole' hnone'
    exact ⟨describesLayout_of_encoded hformed hencoded h,
      describesLayout_of_encoded hformed hencoded' h',
      sameHash_of_encoded hformed.apart hencoded hencoded' h h'⟩

/-- A template of two slots: an argument, and the offset of the opcode after it. -/
def slotTemplate : LayoutArtifact where
  contractName := "Slots"
  parentClass := none
  constructorParams := []
  methods := []
  script := ['0', '0', '0', '0', 'a', 'b']
  stateFields := []
  constructorSlots := [⟨0, 0⟩]
  codeSepIndexSlots := [⟨1, 2⟩]
  codeSeparatorIndex := some 2
  codeSeparatorIndices := none
  anf := none
  slotNames := []

theorem wellFormed_slotTemplate : WellFormed slotTemplate.toRunarArtifact :=
  ⟨rfl, by decide⟩

/-- The layout of the template for a tag: the argument comes first, then the offset of the
opcode, moved by as much as the argument's push is longer than its placeholder. -/
theorem resolveSlotLayout_slotTemplate (text : HexText) :
    resolveSlotLayout slotTemplate [.string text] =
      .ok ⟨[resolvedSlot slotTemplate [.string text] 0
          ⟨0, encodePushData text, some (⟨0, 0⟩, none)⟩ ⟨0, 0⟩ none],
        3 + ((((encodePushData text).length / 2 : Int) - 1) +
          (((encodeScriptNumber (2 + growth (encodePushData text))).length / 2 : Int) - 1))⟩ := by
  have hsep : resolvedCodeSepSlotValues slotTemplate.toRunarArtifact [.string text] =
      [(1, 2 + growth (encodePushData text))] := by
    unfold resolvedCodeSepSlotValues
    rw [show slotTemplate.codeSepIndexSlots = [⟨1, 2⟩] from rfl, List.mergeSort_singleton]
    simp [constructorShift, codeSepShift, slotTemplate, argAt, encodeArg]
  have hcollect : collectSubstitutions slotTemplate [.string text] =
      .ok [⟨0, encodePushData text, some (⟨0, 0⟩, none)⟩,
        ⟨1, encodeScriptNumber (2 + growth (encodePushData text)), none⟩] := by
    unfold collectSubstitutions
    rw [hsep]
    exact congrArg Except.ok (List.mergeSort_of_pairwise (by simp))
  unfold resolveSlotLayout
  rw [hcollect, ok_bind]
  simp [resolveSlots, slotTemplate]

/-- Two tags of two bytes. -/
theorem resolveSlotLayout_exact_tags :
    ∃ layout layout',
      resolveSlotLayout slotTemplate [.string ['a', 'b', 'c', 'd']] = .ok layout ∧
      resolveSlotLayout slotTemplate [.string ['0', '1', '0', '2']] = .ok layout' ∧
      ((DescribesLayout slotTemplate [.string ['a', 'b', 'c', 'd']] layout ∧
        DescribesLayout slotTemplate [.string ['0', '1', '0', '2']] layout' ∧
        (SameLengths slotTemplate [.string ['a', 'b', 'c', 'd']] [.string ['0', '1', '0', '2']] →
          SameHash slotTemplate [.string ['a', 'b', 'c', 'd']] [.string ['0', '1', '0', '2']])) ↔
        NoOpcodeByte slotTemplate [.string ['a', 'b', 'c', 'd']] ∧
          NoOpcodeByte slotTemplate [.string ['0', '1', '0', '2']]) := by
  have hwhole : ∀ text : HexText, text.length % 2 = 0 →
      WholeSlots slotTemplate [.string text] := by
    intro text heven slot hmem data hdata
    cases List.mem_singleton.mp hmem
    cases hdata
    exact heven
  exact ⟨_, _, resolveSlotLayout_slotTemplate _, resolveSlotLayout_slotTemplate _,
    resolveSlotLayout_exact wellFormed_slotTemplate (hwhole _ rfl) (hwhole _ rfl)
      (resolveSlotLayout_slotTemplate _) (resolveSlotLayout_slotTemplate _)⟩

/-- The tag `05` is pushed by one opcode, and its value is given a length below zero. -/
theorem not_describes_opcodeByte :
    ∃ layout, resolveSlotLayout slotTemplate [.string ['0', '5']] = .ok layout ∧
      (∃ slot ∈ layout.slots, slot.valueByteLength < 0) ∧
      ¬ DescribesLayout slotTemplate [.string ['0', '5']] layout := by
  refine ⟨_, resolveSlotLayout_slotTemplate _, ⟨_, List.mem_singleton_self _, by decide⟩,
    fun hdescribes => ?_⟩
  obtain ⟨code, -, -, hright⟩ := hdescribes.code
  exact absurd (hright _ (List.mem_singleton_self _)).nonneg (by decide)

end Runar.Sdk
