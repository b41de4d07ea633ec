/-
  Logic/Orbit.lean --- a walk that may not come to an end.

  WHAT THIS FILE IS FOR.  A loop that goes from one position to the next, or stops, is a
  partial step.  Over finitely many positions it goes on for ever exactly if it comes to
  a position twice; and where the step mostly advances, one of the positions it comes to
  twice is one from which it does not.
-/
import Mathlib.Data.Set.Finite.Basic
import Mathlib.Data.Fintype.Pigeonhole
import Mathlib.Order.Interval.Set.Basic

set_option autoImplicit false

namespace Runar.Logic

variable {σ : Type}

/-- The position after some steps, if the walk has not stopped. -/
def orbit (step : σ → Option σ) (start : σ) : Nat → Option σ
  | 0 => some start
  | n + 1 => (orbit step start n).bind step

/-- The walk comes to an end. -/
def Halts (step : σ → Option σ) (start : σ) : Prop := ∃ n, orbit step start n = none

/-- The walk comes to a position, and comes to it again. -/
def ComesTwice (step : σ → Option σ) (start s : σ) : Prop :=
  ∃ i j, i < j ∧ orbit step start i = some s ∧ orbit step start j = some s

variable {step : σ → Option σ} {start s t : σ} {i j n : Nat}

theorem orbit_add (i n : Nat) :
    orbit step start (i + n) = (orbit step start i).bind fun s => orbit step s n := by
  induction n with
  | zero => cases h : orbit step start i <;> simp [h, orbit]
  | succ n ih =>
    rw [← Nat.add_assoc, orbit, ih, Option.bind_assoc]
    rfl

theorem orbit_of_eq (h : orbit step start i = some s) (n : Nat) :
    orbit step start (i + n) = orbit step s n := by
  rw [orbit_add, h]
  rfl

theorem orbit_succ (h : step start = some s) (n : Nat) :
    orbit step start (n + 1) = orbit step s n := by
  rw [Nat.add_comm]
  exact orbit_of_eq (i := 1) h n

theorem halts_of_step (h : step start = some s) : Halts step start ↔ Halts step s := by
  constructor
  · rintro ⟨n, hn⟩
    cases n with
    | zero => exact nomatch hn
    | succ n => exact ⟨n, by rw [← hn, orbit_succ h]⟩
  · rintro ⟨n, hn⟩
    exact ⟨n + 1, by rw [orbit_succ h, hn]⟩

/-- Between two visits to a position, every position is one the walk comes to twice. -/
theorem ComesTwice.between (hij : i < j) (hi : orbit step start i = some s)
    (hj : orbit step start j = some s) (hn : i ≤ n) (ht : orbit step start n = some t) :
    ComesTwice step start t := by
  obtain ⟨k, rfl⟩ := Nat.exists_eq_add_of_le hn
  refine ⟨i + k, j + k, by omega, ht, ?_⟩
  rw [orbit_of_eq hj, ← orbit_of_eq hi, ht]

/-- A walk that comes to a position twice goes on for ever. -/
theorem ComesTwice.not_halts (h : ComesTwice step start s) : ¬ Halts step start := by
  obtain ⟨i, j, hij, hi, hj⟩ := h
  -- every position from the first visit on has one a round later
  have hround : ∀ k, ∃ t, orbit step s k = some t := by
    intro k
    induction k using Nat.strong_induction_on with
    | _ k ih =>
      obtain ⟨round, hround⟩ := Nat.exists_eq_add_of_lt hij
      have hback : orbit step s (round + 1) = some s := by
        rw [← orbit_of_eq hi, ← hj, hround, Nat.add_assoc]
      by_cases hk : k ≤ round
      · cases hs : orbit step s k with
        | some t => exact ⟨t, rfl⟩
        | none =>
          obtain ⟨rest, hrest⟩ := Nat.exists_eq_add_of_le (Nat.le_succ_of_le hk)
          rw [Nat.succ_eq_add_one] at hrest
          rw [hrest, orbit_add, hs] at hback
          exact nomatch hback
      · obtain ⟨rest, hrest⟩ := Nat.exists_eq_add_of_lt (Nat.lt_of_not_le hk)
        obtain ⟨t, ht⟩ := ih rest (by omega)
        refine ⟨t, ?_⟩
        rw [hrest, show round + rest + 1 = (round + 1) + rest by omega, orbit_of_eq hback, ht]
  rintro ⟨n, hn⟩
  obtain ⟨t, ht⟩ := hround n
  rw [← orbit_of_eq hi, Nat.add_comm, orbit_add, hn] at ht
  exact nomatch ht

/-- A walk that never leaves finitely many positions and goes on for ever comes to one of
them twice. -/
theorem comesTwice_of_not_halts {positions : Set σ} (hfinite : positions.Finite)
    (hin : ∀ n s, orbit step start n = some s → s ∈ positions) (h : ¬ Halts step start) :
    ∃ s, ComesTwice step start s := by
  have hsome : ∀ n, ∃ s, orbit step start n = some s := fun n =>
    Option.ne_none_iff_exists'.mp fun hn => h ⟨n, hn⟩
  choose place hplace using hsome
  have : Finite positions := hfinite
  obtain ⟨i, j, hne, heq⟩ := Finite.exists_ne_map_eq_of_infinite
    fun n => (⟨place n, hin n _ (hplace n)⟩ : positions)
  have hsame : place i = place j := congrArg Subtype.val heq
  rcases Nat.lt_or_gt_of_ne hne with hij | hij
  · exact ⟨place i, i, j, hij, hplace i, by rw [hsame]; exact hplace j⟩
  · exact ⟨place i, j, i, hij, by rw [hsame]; exact hplace j, hplace i⟩

/-- Somewhere between two visits to a position the walk does not advance. -/
theorem ComesTwice.exists_not_advance {f : σ → Int} (h : ComesTwice step start s) :
    ∃ s t, ComesTwice step start s ∧ step s = some t ∧ f t ≤ f s := by
  obtain ⟨i, j, hij, hi, hj⟩ := h
  by_contra hno
  have hadvance : ∀ s t, ComesTwice step start s → step s = some t → f s < f t :=
    fun s t hs hstep => Int.lt_of_not_ge fun hle => hno ⟨s, t, hs, hstep, hle⟩
  have hclimb : ∀ k t, orbit step start (i + (k + 1)) = some t → f s < f t := by
    intro k
    induction k with
    | zero =>
      intro t ht
      rw [orbit_of_eq hi] at ht
      exact hadvance s t ⟨i, j, hij, hi, hj⟩ ht
    | succ k ih =>
      intro t ht
      have hstep : (orbit step start (i + (k + 1))).bind step = some t := ht
      obtain ⟨u, hu, hut⟩ := Option.bind_eq_some_iff.mp hstep
      exact (ih u hu).trans
        (hadvance u t (ComesTwice.between hij hi hj (Nat.le_add_right i (k + 1)) hu) hut)
  obtain ⟨k, rfl⟩ := Nat.exists_eq_add_of_lt hij
  exact lt_irrefl _ (hclimb k s hj)

end Runar.Logic
