/-
  Logic/Stops.lean --- runs that stop at the first event of a kind.

  WHAT THIS FILE IS FOR.  An interpreter that enforces something stops when it comes to a
  violation.  For a run that keeps a log, `StopsAt` says that it stops for that reason
  exactly if it logged a violation, and `Logs` that everything it logged is of some kind.
  Both hold of a run that is put together from runs of which they hold.
-/
import Runar.Logic.Blame

set_option autoImplicit false

namespace Runar.Logic

open LogM

variable {σ ε ω α β : Type}

/-! ## What is logged -/

/-- Every event that is logged satisfies `P`. -/
def Logs (P : ω → Prop) (m : LogM σ ε ω α) : Prop := ∀ s, ∀ e ∈ (m s).2.2, P e

namespace Logs

variable {P P' : ω → Prop}

theorem silent {m : LogM σ ε ω α} (h : ∀ s, (m s).2.2 = []) : Logs P m := by
  intro s e he
  rw [h s] at he
  exact nomatch he

theorem record {event : ω} (h : P event) : Logs P (record event : LogM σ ε ω Unit) :=
  fun _ _ he => List.mem_singleton.mp he ▸ h

theorem mono {m : LogM σ ε ω α} (hm : Logs P m) (h : ∀ e, P e → P' e) : Logs P' m :=
  fun s e he => h e (hm s e he)

theorem bind {m : LogM σ ε ω α} {f : α → LogM σ ε ω β} (hm : Logs P m)
    (hf : ∀ a, Logs P (f a)) : Logs P (m >>= f) := by
  intro s e he
  rw [bind_apply] at he
  have hm := hm s
  cases hrun : m s with
  | mk r rest =>
    obtain ⟨s', log⟩ := rest
    rw [hrun] at he hm
    cases r with
    | error err => exact hm e he
    | ok a =>
      rcases List.mem_append.mp he with he | he
      · exact hm e he
      · exact hf a s' e he

end Logs

/-! ## Where a run stops -/

/-- The run logs a violation exactly if it fails for having come to one. -/
def StopsAt (violation : ω → Prop) (stopped : ε → Prop) (m : LogM σ ε ω α) : Prop :=
  ∀ s, (∃ e ∈ (m s).2.2, violation e) ↔ ∃ err, (m s).1 = .error err ∧ stopped err

namespace StopsAt

variable {violation : ω → Prop} {stopped : ε → Prop}

/-- A run that logs no violation and does not fail for one. -/
theorem of_not {m : LogM σ ε ω α} (hlog : Logs (fun e => ¬ violation e) m)
    (hfail : ∀ s err, (m s).1 = .error err → ¬ stopped err) : StopsAt violation stopped m := by
  intro s
  constructor
  · rintro ⟨e, he, hviolation⟩
    exact absurd hviolation (hlog s e he)
  · rintro ⟨err, herr, hstopped⟩
    exact absurd hstopped (hfail s err herr)

theorem pure {a : α} : StopsAt violation stopped (pure a : LogM σ ε ω α) :=
  of_not (.silent fun _ => rfl) fun _ _ h => nomatch h

theorem read : StopsAt violation stopped (read : LogM σ ε ω σ) :=
  of_not (.silent fun _ => rfl) fun _ _ h => nomatch h

theorem update {f : σ → σ} : StopsAt violation stopped (update f : LogM σ ε ω Unit) :=
  of_not (.silent fun _ => rfl) fun _ _ h => nomatch h

theorem record {event : ω} (h : ¬ violation event) :
    StopsAt violation stopped (record event : LogM σ ε ω Unit) :=
  of_not (.record h) fun _ _ h => nomatch h

theorem fail {err : ε} (h : ¬ stopped err) :
    StopsAt violation stopped (fail err : LogM σ ε ω α) := by
  refine of_not (.silent fun _ => rfl) fun _ err' h' => ?_
  cases h'
  exact h

/-- Log a violation and stop. -/
theorem violate {event : ω} {err : ε} (hevent : violation event) (herr : stopped err) :
    StopsAt violation stopped (do LogM.record event; LogM.fail err : LogM σ ε ω α) :=
  fun _ => ⟨fun _ => ⟨err, rfl, herr⟩, fun _ => ⟨event, List.mem_singleton_self event, hevent⟩⟩

theorem bind {m : LogM σ ε ω α} {f : α → LogM σ ε ω β} (hm : StopsAt violation stopped m)
    (hf : ∀ a, StopsAt violation stopped (f a)) : StopsAt violation stopped (m >>= f) := by
  intro s
  have hm := hm s
  rw [bind_apply]
  cases hrun : m s with
  | mk r rest =>
    obtain ⟨s', log⟩ := rest
    rw [hrun] at hm
    cases r with
    | error err =>
      constructor
      · intro h
        obtain ⟨err', herr, hstopped⟩ := hm.mp h
        cases herr
        exact ⟨err, rfl, hstopped⟩
      · rintro ⟨err', herr, hstopped⟩
        cases herr
        exact hm.mpr ⟨err, rfl, hstopped⟩
    | ok a =>
      -- a run that goes on has logged no violation
      have hnone : ¬ ∃ e ∈ log, violation e := fun h => by
        obtain ⟨_, herr, -⟩ := hm.mp h
        exact nomatch herr
      constructor
      · rintro ⟨e, he, hviolation⟩
        rcases List.mem_append.mp he with he | he
        · exact absurd ⟨e, he, hviolation⟩ hnone
        · exact (hf a s').mp ⟨e, he, hviolation⟩
      · intro h
        obtain ⟨e, he, hviolation⟩ := (hf a s').mpr h
        exact ⟨e, List.mem_append_right _ he, hviolation⟩

end StopsAt

end Runar.Logic
