/-
  Logic/Peak.lean --- the greatest number of letters of a kind in a word.

  WHAT THIS FILE IS FOR.  The execution paths of a program form a language: sequence is
  concatenation, a choice is a union, a loop that runs a fixed number of times is a
  power.  The greatest number of letters of a kind on a path is then computed along the
  same operations, and some path has that many.
-/
import Mathlib.Computability.Language

set_option autoImplicit false

namespace Runar.Logic

variable {α : Type} {P : α → Bool} {l m : Language α} {k n : Nat}

/-- No word has more than `n` letters of the kind, and some word has `n`. -/
structure Peak (P : α → Bool) (l : Language α) (n : Nat) : Prop where
  bound : ∀ w ∈ l, w.countP P ≤ n
  attained : ∃ w ∈ l, w.countP P = n

namespace Peak

theorem one : Peak P 1 0 where
  bound w hw := by rw [Language.mem_one w |>.mp hw]; exact le_rfl
  attained := ⟨[], Language.nil_mem_one, rfl⟩

theorem singleton (w : List α) : Peak P {w} (w.countP P) where
  bound v hv := by rw [Set.mem_singleton_iff.mp hv]
  attained := ⟨w, rfl, rfl⟩

theorem mul (hl : Peak P l n) (hm : Peak P m k) : Peak P (l * m) (n + k) where
  bound w hw := by
    obtain ⟨u, hu, v, hv, rfl⟩ := Language.mem_mul.mp hw
    rw [List.countP_append]
    exact Nat.add_le_add (hl.bound u hu) (hm.bound v hv)
  attained := by
    obtain ⟨u, hu, hun⟩ := hl.attained
    obtain ⟨v, hv, hvk⟩ := hm.attained
    exact ⟨u ++ v, Language.append_mem_mul hu hv, by rw [List.countP_append, hun, hvk]⟩

theorem add (hl : Peak P l n) (hm : Peak P m k) : Peak P (l + m) (max n k) where
  bound w hw := by
    rcases hw with hw | hw
    · exact (hl.bound w hw).trans (le_max_left n k)
    · exact (hm.bound w hw).trans (le_max_right n k)
  attained := by
    rcases le_total n k with h | h
    · obtain ⟨v, hv, hvk⟩ := hm.attained
      exact ⟨v, .inr hv, by rw [hvk, max_eq_right h]⟩
    · obtain ⟨u, hu, hun⟩ := hl.attained
      exact ⟨u, .inl hu, by rw [hun, max_eq_left h]⟩

theorem pow (hl : Peak P l n) (k : Nat) : Peak P (l ^ k) (k * n) := by
  induction k with
  | zero =>
    rw [pow_zero, Nat.zero_mul]
    exact one
  | succ k ih =>
    rw [pow_succ, Nat.succ_mul]
    exact ih.mul hl

/-- A bound on every word is a bound on the peak. -/
theorem forall_le_iff (h : Peak P l n) : (∀ w ∈ l, w.countP P ≤ k) ↔ n ≤ k := by
  constructor
  · intro hall
    obtain ⟨w, hw, hn⟩ := h.attained
    rw [← hn]
    exact hall w hw
  · exact fun hle w hw => (h.bound w hw).trans hle

end Peak

end Runar.Logic
