/-
  Logic/Atomic.lean --- computations that may fail, and what a failure leaves behind.

  WHAT THIS FILE IS FOR.  An attempt changes a state and may throw; the state at the
  throw stays.  A view is the part of the state a reader cares about.  An attempt
  keeps a view when it never changes it, and fails clean when it has not changed it
  whenever it throws.  The rules say how to build the second from the first: work
  that keeps the view, then one write that cannot fail.  The file names no program.
-/
import Mathlib.Logic.Basic

set_option autoImplicit false

namespace Runar.Logic

variable {σ ε κ α β : Type}

/-- A computation that changes a state and may throw. -/
abbrev Attempt (σ ε α : Type) : Type := ExceptT ε (StateM σ) α

namespace Attempt

/-- Run an attempt on a state. -/
def exec (m : Attempt σ ε α) (s : σ) : Except ε α × σ := m s

@[simp] theorem exec_pure (a : α) (s : σ) : exec (pure a : Attempt σ ε α) s = (.ok a, s) := rfl

@[simp] theorem exec_throw (e : ε) (s : σ) :
    exec (throw e : Attempt σ ε α) s = (.error e, s) := rfl

@[simp] theorem exec_get (s : σ) : exec (get : Attempt σ ε σ) s = (.ok s, s) := rfl

@[simp] theorem exec_modify (f : σ → σ) (s : σ) :
    exec (modify f : Attempt σ ε PUnit) s = (.ok ⟨⟩, f s) := rfl

/-- What a sequence does, by what its first part does. -/
theorem exec_bind_ok {m : Attempt σ ε α} {f : α → Attempt σ ε β} {s s' : σ} {a : α}
    (h : exec m s = (.ok a, s')) : exec (m >>= f) s = exec (f a) s' := by
  have h' : m s = (.ok a, s') := h
  simp only [exec, bind, ExceptT.bind, ExceptT.bindCont, ExceptT.mk, StateT.bind, h']

theorem exec_bind_error {m : Attempt σ ε α} {f : α → Attempt σ ε β} {s s' : σ} {e : ε}
    (h : exec m s = (.error e, s')) : exec (m >>= f) s = (.error e, s') := by
  have h' : m s = (.error e, s') := h
  simp only [exec, bind, ExceptT.bind, ExceptT.bindCont, ExceptT.mk, StateT.bind, h']
  rfl

/-- A sequence that succeeds has parts that do. -/
theorem exec_bind_eq_ok {m : Attempt σ ε α} {f : α → Attempt σ ε β} {s s'' : σ} {b : β}
    (h : exec (m >>= f) s = (.ok b, s'')) :
    ∃ a s', exec m s = (.ok a, s') ∧ exec (f a) s' = (.ok b, s'') := by
  cases hm : exec m s with
  | mk r s' =>
    cases r with
    | error e =>
      rw [exec_bind_error hm] at h
      exact nomatch h
    | ok a =>
      rw [exec_bind_ok hm] at h
      exact ⟨a, s', rfl, h⟩

/-- An attempt on a part of the state. -/
def zoom {τ : Type} (get : σ → τ) (put : τ → σ → σ) (m : Attempt τ ε α) : Attempt σ ε α :=
  fun s => ((m (get s)).1, put (m (get s)).2 s)

/-- An attempt, then a step that is made whether or not it threw. -/
def withFinally (m : Attempt σ ε α) (restore : σ → σ) : Attempt σ ε α :=
  fun s => ((m s).1, restore (m s).2)

end Attempt

open Attempt

/-! ## Keeping a view -/

/-- From this state, the view is the same after the attempt, whether or not it threw. -/
def Keeps (view : σ → κ) (m : Attempt σ ε α) (s : σ) : Prop := view (exec m s).2 = view s

/-- From this state, the view is the same if the attempt threw. -/
def FailsClean (view : σ → κ) (m : Attempt σ ε α) (s : σ) : Prop :=
  ∀ e, (exec m s).1 = .error e → view (exec m s).2 = view s

/-- The attempt never throws. -/
def Total (m : Attempt σ ε α) : Prop := ∀ s e, (exec m s).1 ≠ .error e

variable {view : σ → κ} {m : Attempt σ ε α} {f : α → Attempt σ ε β} {s : σ}

theorem keeps_pure (a : α) (s : σ) : Keeps view (pure a : Attempt σ ε α) s := rfl

theorem keeps_throw (e : ε) (s : σ) : Keeps view (throw e : Attempt σ ε α) s := rfl

theorem keeps_get (s : σ) : Keeps view (get : Attempt σ ε σ) s := rfl

/-- A change of what the view does not show. -/
theorem keeps_modify {g : σ → σ} (h : view (g s) = view s) :
    Keeps view (modify g : Attempt σ ε PUnit) s := h

theorem keeps_zoom {τ : Type} {get : σ → τ} {put : τ → σ → σ} {m : Attempt τ ε α}
    (h : ∀ t, view (put t s) = view s) : Keeps view (zoom get put m) s := h _

theorem Keeps.bind (hm : Keeps view m s)
    (hf : ∀ a s', exec m s = (.ok a, s') → Keeps view (f a) s') : Keeps view (m >>= f) s := by
  unfold Keeps at hm ⊢
  rcases h : exec m s with ⟨r, s'⟩
  rw [h] at hm
  cases r with
  | error e => rw [exec_bind_error h]; exact hm
  | ok a => rw [exec_bind_ok h]; exact (hf a s' h).trans hm

theorem Keeps.failsClean (h : Keeps view m s) : FailsClean view m s := fun _ _ => h

/-! ## Failing clean -/

/-- Work that keeps the view may come before what fails clean. -/
theorem FailsClean.after (hm : Keeps view m s)
    (hf : ∀ a s', exec m s = (.ok a, s') → FailsClean view (f a) s') :
    FailsClean view (m >>= f) s := by
  intro e he
  unfold Keeps at hm
  rcases h : exec m s with ⟨r, s'⟩
  rw [h] at hm
  cases r with
  | error e' => rw [exec_bind_error h]; exact hm
  | ok a =>
      rw [exec_bind_ok h] at he ⊢
      exact (hf a s' h e he).trans hm

/-- What never throws fails clean, whatever it writes. -/
theorem Total.failsClean (h : Total m) (s : σ) : FailsClean view m s :=
  fun e he => absurd he (h s e)

theorem total_pure (a : α) : Total (pure a : Attempt σ ε α) := fun _ _ => nofun

theorem total_modify (g : σ → σ) : Total (modify g : Attempt σ ε PUnit) := fun _ _ => nofun

theorem Total.bind (hm : Total m) (hf : ∀ a, Total (f a)) : Total (m >>= f) := by
  intro s e
  rcases h : exec m s with ⟨r, s'⟩
  cases r with
  | error e' => exact absurd (congrArg Prod.fst h) (hm s e')
  | ok a => rw [exec_bind_ok h]; exact hf a s' e

theorem FailsClean.withFinally {restore : σ → σ} (h : FailsClean view m s)
    (hr : ∀ s, view (restore s) = view s) : FailsClean view (withFinally m restore) s :=
  fun e he => (hr _).trans (h e he)

/-! ## Failing after a write -/

theorem not_failsClean_iff :
    ¬ FailsClean view m s ↔ ∃ e, (exec m s).1 = .error e ∧ view (exec m s).2 ≠ view s := by
  unfold FailsClean
  rw [not_forall]
  exact exists_congr fun e => Classical.not_imp

/-- A throw in the first part is a throw of the whole. -/
theorem FailsClean.of_bind (h : FailsClean view (m >>= f) s) : FailsClean view m s := by
  intro e he
  rcases hm : exec m s with ⟨r, s'⟩
  rw [hm] at he
  have hr : r = .error e := he
  subst hr
  have hclean := h e (by rw [exec_bind_error hm])
  rwa [exec_bind_error hm] at hclean

/-- The rest after a first part that returned. -/
theorem FailsClean.rest {s' : σ} {a : α} (h : FailsClean view (m >>= f) s)
    (hm : exec m s = (.ok a, s')) (e : ε) (he : (exec (f a) s').1 = .error e) :
    view (exec (f a) s').2 = view s := by
  have hclean := h e (by rw [exec_bind_ok hm]; exact he)
  rwa [exec_bind_ok hm] at hclean

end Runar.Logic
