/-
  Logic/Tiling.lean --- ranges that follow one another.

  WHAT THIS FILE IS FOR.  A reader that takes every piece of a text for one value leaves a
  list of ranges in which each begins where the one before ends.  Such ranges do not
  overlap, are in order, and lie between the two ends.
-/
import Mathlib.Order.Defs.LinearOrder
import Mathlib.Data.Int.Order.Basic

set_option autoImplicit false

namespace Runar.Logic

/-- The places from `start` to before `stop`. -/
structure Span where
  start : Int
  stop : Int
  deriving DecidableEq, Repr

/-- The ranges follow one another from `lo` to `hi`. -/
def Tiles : List Span → Int → Int → Prop
  | [], lo, hi => lo = hi
  | span :: rest, lo, hi => span.start = lo ∧ span.start ≤ span.stop ∧ Tiles rest span.stop hi

namespace Tiles

variable {spans : List Span} {lo hi : Int}

theorem le (h : Tiles spans lo hi) : lo ≤ hi := by
  induction spans generalizing lo with
  | nil => exact le_of_eq h
  | cons span rest ih =>
    obtain ⟨rfl, hspan, hrest⟩ := h
    exact le_trans hspan (ih hrest)

/-- Every range lies between the ends. -/
theorem inside (h : Tiles spans lo hi) : ∀ span ∈ spans, lo ≤ span.start ∧ span.stop ≤ hi := by
  induction spans generalizing lo with
  | nil => exact fun _ hmem => nomatch hmem
  | cons span rest ih =>
    obtain ⟨rfl, hspan, hrest⟩ := h
    intro other hother
    rcases List.mem_cons.mp hother with rfl | hother
    · exact ⟨le_rfl, hrest.le⟩
    · exact ⟨le_trans hspan (ih hrest other hother).1, (ih hrest other hother).2⟩

/-- The ranges are in order and do not overlap. -/
theorem pairwise (h : Tiles spans lo hi) : spans.Pairwise fun a b => a.stop ≤ b.start := by
  induction spans generalizing lo with
  | nil => exact .nil
  | cons span rest ih =>
    obtain ⟨-, -, hrest⟩ := h
    exact .cons (fun other hother => (hrest.inside other hother).1) (ih hrest)

end Tiles

end Runar.Logic
