/-
  Logic/Rounds.lean --- the values a loop's body runs with.

  WHAT THIS FILE IS FOR.  A loop tests, runs its body, steps and tests again.  Written out as
  one copy of the body for each of a list of values, it does the same where the body starts
  with these values, one after the other, and no more.  That is a statement about whole runs;
  this file has the equivalent one about a single turn.
-/
import Mathlib.Logic.Function.Iterate

set_option autoImplicit false

namespace Runar.Logic

/-- How a round ends: at the next test, with a failure of the body, or otherwise. -/
inductive RoundEnd (σ : Type) where
  | next (s : σ)
  | aborted
  | left

/-- A loop: the state its body starts in, where the test lets it, and what a round does. -/
structure Loop (σ : Type) where
  enter : σ → Option σ
  round : σ → RoundEnd σ

namespace Loop

variable {σ α : Type} (L : Loop σ)

/-- The state at the test after a round. -/
def after (s : σ) : Option σ :=
  match L.round s with
  | .next s => some s
  | .aborted | .left => none

/-- The state in which the body starts for the `k`-th time. -/
def start (s : σ) : Nat → Option σ
  | 0 => L.enter s
  | k + 1 => ((start s k).bind L.after).bind L.enter

/-- The body fails the `k`-th time. -/
def Aborts (s : σ) (k : Nat) : Prop := ∃ b, L.start s k = some b ∧ L.round b = .aborted

/-- The body starts with these values, in order, and no others, unless it has failed. -/
def Visits (value : σ → α) (s : σ) (values : List α) : Prop :=
  ∀ k, (L.start s k).map value = values[k]? ∨ ∃ j < k, L.Aborts s j

/-- The body first starts with the first value, where it is within the bound; and from one
start, unless the body fails, comes the next exactly where the next value is within it. -/
structure Counts (value : σ → α) (s : σ) (first : α) (succ : α → α) (within : α → Bool) :
    Prop where
  first : (L.start s 0).map value = if within first then some first else none
  again : ∀ k b, L.start s k = some b → L.round b ≠ .aborted →
    (L.start s (k + 1)).map value =
      if within (succ (value b)) then some (succ (value b)) else none

/-- The values from the first one on, as long as they are within the bound. -/
structure Progression (first : α) (succ : α → α) (within : α → Bool) (values : List α) :
    Prop where
  get : ∀ k < values.length, values[k]? = some (succ^[k] first)
  within : ∀ k ≤ values.length, within (succ^[k] first) = decide (k < values.length)

variable {L} {value : σ → α} {s : σ}

theorem start_succ_of_none {k : Nat} (h : L.start s k = none) : L.start s (k + 1) = none := by
  rw [start, h]
  rfl

theorem start_succ_of_some {k : Nat} {b : σ} (h : L.start s k = some b) :
    L.start s (k + 1) = (L.after b).bind L.enter := by
  rw [start, h]
  rfl

/-- After a failure there is no further start. -/
theorem Aborts.start_eq_none {j k : Nat} (h : L.Aborts s j) (hlt : j < k) :
    L.start s k = none := by
  obtain ⟨b, hstart, hround⟩ := h
  induction k with
  | zero => exact absurd hlt (Nat.not_lt_zero j)
  | succ k ih =>
    rcases Nat.lt_succ_iff_lt_or_eq.mp hlt with hlt | rfl
    · exact start_succ_of_none (ih hlt)
    · rw [start_succ_of_some hstart, after, hround]
      rfl

variable {first : α} {succ : α → α} {within : α → Bool} {values : List α}

theorem Progression.next (h : Progression first succ within values) (k : Nat)
    (hk : k ≤ values.length) :
    values[k]? = if within (succ^[k] first) then some (succ^[k] first) else none := by
  rw [h.within k hk]
  by_cases hlt : k < values.length
  · rw [h.get k hlt, if_pos (decide_eq_true hlt)]
  · rw [List.getElem?_eq_none (Nat.le_of_not_lt hlt), if_neg (by rwa [decide_eq_true_eq])]

/-- The body runs with the values of a progression exactly where every turn goes one step on. -/
theorem visits_iff_counts (h : Progression first succ within values) :
    L.Visits value s values ↔ L.Counts value s first succ within := by
  constructor
  · intro hvisits
    -- what a start that is reached starts with
    have hreached : ∀ k b, L.start s k = some b → values[k]? = some (value b) := by
      intro k b hstart
      rcases hvisits k with heq | ⟨j, hlt, habort⟩
      · rw [← heq, hstart]
        rfl
      · exact nomatch hstart.symm.trans (habort.start_eq_none hlt)
    refine ⟨?_, fun k b hstart hround => ?_⟩
    · rcases hvisits 0 with heq | ⟨j, hlt, -⟩
      · exact heq.trans (h.next 0 (Nat.zero_le _))
      · exact absurd hlt (Nat.not_lt_zero j)
    · have hat := hreached k b hstart
      obtain ⟨hlt, -⟩ := List.getElem?_eq_some_iff.mp hat
      have hvalue : value b = succ^[k] first :=
        Option.some.inj (hat.symm.trans (h.get k hlt))
      rw [hvalue, ← Function.iterate_succ_apply' succ]
      rcases hvisits (k + 1) with heq | ⟨j, hj, habort⟩
      · exact heq.trans (h.next (k + 1) hlt)
      · rcases Nat.lt_succ_iff_lt_or_eq.mp hj with hj | rfl
        · exact nomatch hstart.symm.trans (habort.start_eq_none hj)
        · obtain ⟨b', hstart', hround'⟩ := habort
          obtain rfl := Option.some.inj (hstart.symm.trans hstart')
          exact absurd hround' hround
  · intro hcounts k
    induction k with
    | zero => exact .inl (hcounts.first.trans (h.next 0 (Nat.zero_le _)).symm)
    | succ k ih =>
      rcases ih with heq | ⟨j, hj, habort⟩
      · cases hstart : L.start s k with
        | none =>
          rw [hstart, Option.map_none] at heq
          have hle := List.getElem?_eq_none_iff.mp heq.symm
          refine .inl ?_
          rw [start_succ_of_none hstart, List.getElem?_eq_none (Nat.le_succ_of_le hle)]
          rfl
        | some b =>
          by_cases hround : L.round b = .aborted
          · exact .inr ⟨k, Nat.lt_succ_self k, b, hstart, hround⟩
          rw [hstart, Option.map_some] at heq
          obtain ⟨hlt, -⟩ := List.getElem?_eq_some_iff.mp heq.symm
          have hvalue : value b = succ^[k] first :=
            Option.some.inj (heq.trans (h.get k hlt))
          have hagain := hcounts.again k b hstart hround
          rw [hvalue, ← Function.iterate_succ_apply' succ] at hagain
          exact .inl (hagain.trans (h.next (k + 1) hlt).symm)
      · exact .inr ⟨j, Nat.lt_succ_of_lt hj, habort⟩

end Loop

end Runar.Logic
