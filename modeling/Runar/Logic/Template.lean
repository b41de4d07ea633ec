/-
  Logic/Template.lean --- texts with holes.

  WHAT THIS FILE IS FOR.  A template is written once, with a blank of a fixed width for
  each thing not known yet, and a list of where the blanks stand.  Later the blanks are
  replaced one at a time.  Replacing them from the last to the first keeps the places
  of the others right, and gives the text that would have been written with everything
  known.  What was filled in can be cut out again, all of it or what follows its head.
  The file names no program.
-/
import Mathlib.Data.List.Sort

set_option autoImplicit false

namespace Runar.Logic

variable {α : Type}

/-- A piece of a template: a text, or a hole with what is to fill it. -/
inductive Segment (α : Type) where
  | text (t : List α)
  | hole (fill : List α)

/-- The template, its holes blank. -/
def blanked (blank : List α) : List (Segment α) → List α
  | [] => []
  | .text t :: rest => t ++ blanked blank rest
  | .hole _ :: rest => blank ++ blanked blank rest

/-- The text with its holes filled. -/
def filled : List (Segment α) → List α
  | [] => []
  | .text t :: rest => t ++ filled rest
  | .hole fill :: rest => fill ++ filled rest

/-- Where the holes stand in the template, in order, and what fills them. -/
def holesFrom (blank : List α) (offset : Nat) : List (Segment α) → List (Nat × List α)
  | [] => []
  | .text t :: rest => holesFrom blank (offset + t.length) rest
  | .hole fill :: rest => (offset, fill) :: holesFrom blank (offset + blank.length) rest

/-- Replace the blank at an offset. -/
def replaceBlank (width : Nat) (text : List α) (hole : Nat × List α) : List α :=
  text.take hole.1 ++ hole.2 ++ text.drop (hole.1 + width)

theorem blanked_append (blank : List α) (xs ys : List (Segment α)) :
    blanked blank (xs ++ ys) = blanked blank xs ++ blanked blank ys := by
  induction xs with
  | nil => rfl
  | cons x xs ih => cases x <;> simp [blanked, ih]

theorem filled_append (xs ys : List (Segment α)) : filled (xs ++ ys) = filled xs ++ filled ys := by
  induction xs with
  | nil => rfl
  | cons x xs ih => cases x <;> simp [filled, ih]

theorem holesFrom_append (blank : List α) (offset : Nat) (xs ys : List (Segment α)) :
    holesFrom blank offset (xs ++ ys) =
      holesFrom blank offset xs ++ holesFrom blank (offset + (blanked blank xs).length) ys := by
  induction xs generalizing offset with
  | nil => rfl
  | cons x xs ih => cases x <;> simp [holesFrom, blanked, ih, Nat.add_assoc]

/-- A hole of a later segment stands at or after where the segments start. -/
theorem le_of_mem_holesFrom {blank : List α} {offset : Nat} {segments : List (Segment α)}
    {hole : Nat × List α} (h : hole ∈ holesFrom blank offset segments) : offset ≤ hole.1 := by
  induction segments generalizing offset with
  | nil => cases h
  | cons x rest ih =>
      cases x with
      | text t => exact Nat.le_of_add_right_le (ih h)
      | hole fill =>
          rcases List.mem_cons.mp h with rfl | h
          · exact Nat.le_refl _
          · exact Nat.le_of_add_right_le (ih h)

/-- The holes stand in increasing order. -/
theorem pairwise_holesFrom {blank : List α} (hblank : blank ≠ []) (offset : Nat)
    (segments : List (Segment α)) :
    (holesFrom blank offset segments).Pairwise fun a b => a.1 < b.1 := by
  induction segments generalizing offset with
  | nil => exact List.Pairwise.nil
  | cons x rest ih =>
      cases x with
      | text t => exact ih _
      | hole fill =>
          refine List.Pairwise.cons (fun hole hmem => ?_) (ih _)
          have hle := le_of_mem_holesFrom hmem
          have hpos := List.length_pos_of_ne_nil hblank
          show offset < hole.1
          omega

/-- Replacing from the last to the first fills the template. -/
theorem foldl_replaceBlank (blank before : List α) (segments : List (Segment α)) :
    (holesFrom blank before.length segments).reverse.foldl (replaceBlank blank.length)
        (before ++ blanked blank segments) = before ++ filled segments := by
  induction segments generalizing before with
  | nil => rfl
  | cons x rest ih =>
      cases x with
      | text t =>
          have h := ih (before ++ t)
          rw [List.length_append, List.append_assoc, List.append_assoc] at h
          exact h
      | hole fill =>
          have h := ih (before ++ blank)
          rw [List.length_append, List.append_assoc, List.append_assoc] at h
          rw [holesFrom, List.reverse_cons, List.foldl_append, blanked, h]
          simp [replaceBlank, filled]

/-- The same with the holes listed in any order and then sorted. -/
theorem foldl_replaceBlank_sorted {blank : List α} (hblank : blank ≠ [])
    (segments : List (Segment α)) {holes : List (Nat × List α)}
    (hperm : holes.Perm (holesFrom blank 0 segments)) :
    (holes.mergeSort fun a b => a.1 ≥ b.1).foldl (replaceBlank blank.length)
        (blanked blank segments) = filled segments := by
  have hordered := pairwise_holesFrom hblank 0 segments
  have hmerge := List.mergeSort_perm holes fun a b => decide (a.1 ≥ b.1)
  have hdesc : (holes.mergeSort fun a b => decide (a.1 ≥ b.1)).Pairwise
      fun a b => a.1 ≥ b.1 := by
    have h : (holes.mergeSort fun a b => decide (a.1 ≥ b.1)).Pairwise
        fun a b => decide (a.1 ≥ b.1) = true := by
      refine List.pairwise_mergeSort (fun a b c hab hbc => ?_) (fun a b => ?_) holes
      · rw [decide_eq_true_eq] at hab hbc ⊢
        omega
      · rw [Bool.or_eq_true, decide_eq_true_eq, decide_eq_true_eq]
        omega
    exact h.imp fun hab => of_decide_eq_true hab
  -- no two holes stand at one offset, so the order is strict and has one list only
  have hdistinct : (holes.mergeSort fun a b => decide (a.1 ≥ b.1)).Pairwise
      fun a b => a.1 ≠ b.1 := by
    refine ((hmerge.trans hperm).pairwise_iff fun hab => hab.symm).mpr ?_
    exact hordered.imp fun hab => Nat.ne_of_lt hab
  have hstrict := hdesc.and hdistinct
  have hrev : (holesFrom blank 0 segments).reverse.Pairwise fun a b => a.1 ≥ b.1 ∧ a.1 ≠ b.1 := by
    rw [List.pairwise_reverse]
    exact hordered.imp fun hab => ⟨Nat.le_of_lt hab, Nat.ne_of_gt hab⟩
  have hsorted : holes.mergeSort (fun a b => decide (a.1 ≥ b.1)) =
      (holesFrom blank 0 segments).reverse := by
    refine List.Perm.eq_of_pairwise (fun a b _ _ hab hba => ?_) hstrict hrev
      (hmerge.trans (hperm.trans (List.reverse_perm _).symm))
    exact absurd (Nat.le_antisymm hba.1 hab.1) hab.2
  rw [hsorted]
  exact foldl_replaceBlank blank [] segments

/-! ## Cutting values out -/

/-- A hole with the text that leads to it, filled with a head and, where it is one, a value
that can be cut out. -/
structure Cut (α : Type) where
  lead : List α
  head : List α
  value : Option (List α)

namespace Cut

/-- What fills the hole. -/
def fill (cut : Cut α) : List α := cut.head ++ cut.value.getD []

end Cut

/-- The cuts as segments. -/
def cutSegments : List (Cut α) → List α → List (Segment α)
  | [], last => [.text last]
  | cut :: cuts, last => .text cut.lead :: .hole cut.fill :: cutSegments cuts last

/-- The text with its holes filled. -/
def cutFilled : List (Cut α) → List α → List α
  | [], last => last
  | cut :: cuts, last => cut.lead ++ (cut.fill ++ cutFilled cuts last)

/-- The same with the values cut out. -/
def cutHeads : List (Cut α) → List α → List α
  | [], last => last
  | cut :: cuts, last =>
      cut.lead ++ (cut.head ++ cutHeads cuts last)

/-- Where the values stand in the filled text, and how long they are. -/
def valuesFrom (offset : Nat) : List (Cut α) → List (Nat × Nat)
  | [] => []
  | cut :: cuts =>
      (cut.value.map fun v => (offset + cut.lead.length + cut.head.length, v.length)).toList ++
        valuesFrom (offset + cut.lead.length + cut.fill.length) cuts

/-- Cut out a range. -/
def excise (text : List α) (range : Nat × Nat) : List α :=
  text.take range.1 ++ text.drop (range.1 + range.2)

theorem filled_cutSegments (cuts : List (Cut α)) (last : List α) :
    filled (cutSegments cuts last) = cutFilled cuts last := by
  induction cuts with
  | nil => exact List.append_nil last
  | cons cut cuts ih => rw [cutSegments, filled, filled, ih, cutFilled]

theorem excise_append (front v rest : List α) :
    excise (front ++ (v ++ rest)) (front.length, v.length) = front ++ rest := by
  rw [excise, List.take_left, List.drop_length_add_append, List.drop_left]

/-- Cutting the values out from the last to the first leaves the heads. -/
theorem foldl_excise (before : List α) (cuts : List (Cut α)) (last : List α) :
    (valuesFrom before.length cuts).reverse.foldl excise (before ++ cutFilled cuts last) =
      before ++ cutHeads cuts last := by
  induction cuts generalizing before with
  | nil => rfl
  | cons cut cuts ih =>
    obtain ⟨lead, head, value⟩ := cut
    have h := ih (before ++ lead ++ (head ++ value.getD []))
    simp only [List.length_append, ← Nat.add_assoc] at h
    cases value with
    | none =>
      simp only [valuesFrom, Cut.fill, cutFilled, cutHeads, Option.map_none, Option.toList_none,
        List.nil_append, Option.getD_none, List.append_nil, List.length_nil, Nat.add_zero,
        List.append_assoc] at h ⊢
      exact h
    | some v =>
      simp only [valuesFrom, Cut.fill, cutFilled, cutHeads, Option.map_some, Option.toList_some,
        Option.getD_some, List.singleton_append, List.reverse_cons, List.foldl_append,
        List.length_append, List.append_assoc, ← Nat.add_assoc] at h ⊢
      rw [h]
      have hcut := excise_append (before ++ (lead ++ head)) v (cutHeads cuts last)
      simp only [List.length_append, List.append_assoc, ← Nat.add_assoc] at hcut
      exact hcut

/-- A part of a text that stands after a known part. -/
theorem take_drop_append (before text after : List α) :
    ((before ++ (text ++ after)).drop before.length).take text.length = text := by
  rw [List.drop_left, List.take_left]

end Runar.Logic
