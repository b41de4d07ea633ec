/-
  Logic/Blame.lean --- assertions about runs that keep a log.

  WHAT THIS FILE IS FOR.  A run threads a state, may fail, and writes a log of what it
  noticed on the way; failing loses neither the state nor the log.  Some of the events
  are excuses.  `Sound` is a triple of a precondition, a run and a postcondition in
  which a run owes nothing once it has logged an excuse: the way to say that whatever
  else goes wrong is preceded by something that excuses it.
-/
import Mathlib.Init

set_option autoImplicit false

namespace Runar.Logic

/-- A run over states `σ` with failures `ε` and events `ω`. -/
def LogM (σ ε ω α : Type) : Type := σ → Except ε α × σ × List ω

namespace LogM

variable {σ ε ω α β : Type}

instance : Monad (LogM σ ε ω) where
  pure a := fun s => (.ok a, s, [])
  bind m f := fun s =>
    match m s with
    | (.ok a, s', log) =>
        match f a s' with
        | (r, s'', log') => (r, s'', log ++ log')
    | (.error e, s', log) => (.error e, s', log)

/-- The state. -/
def read : LogM σ ε ω σ := fun s => (.ok s, s, [])

/-- Change the state. -/
def update (f : σ → σ) : LogM σ ε ω Unit := fun s => (.ok (), f s, [])

/-- Stop. -/
def fail (e : ε) : LogM σ ε ω α := fun s => (.error e, s, [])

/-- Log an event. -/
def record (event : ω) : LogM σ ε ω Unit := fun s => (.ok (), s, [event])

/-- The value of an option, or stop. -/
def ofOption (e : ε) : Option α → LogM σ ε ω α
  | some a => pure a
  | none => fail e

theorem bind_apply (m : LogM σ ε ω α) (f : α → LogM σ ε ω β) (s : σ) :
    (m >>= f) s =
      match m s with
      | (.ok a, s', log) =>
          match f a s' with
          | (r, s'', log') => (r, s'', log ++ log')
      | (.error e, s', log) => (.error e, s', log) := rfl

/-- A run ends with a value, in a state. -/
def Gives (m : LogM σ ε ω α) (s : σ) (a : α) (s' : σ) : Prop := ∃ log, m s = (.ok a, s', log)

namespace Gives

theorem pure (a : α) (s : σ) : Gives (pure a : LogM σ ε ω α) s a s := ⟨[], rfl⟩

theorem read (s : σ) : Gives (read : LogM σ ε ω σ) s s s := ⟨[], rfl⟩

theorem update (f : σ → σ) (s : σ) : Gives (update f : LogM σ ε ω Unit) s () (f s) := ⟨[], rfl⟩

theorem record (event : ω) (s : σ) : Gives (record event : LogM σ ε ω Unit) s () s :=
  ⟨[event], rfl⟩

theorem bind {m : LogM σ ε ω α} {f : α → LogM σ ε ω β} {a : α} {b : β} {s s' s'' : σ}
    (hm : Gives m s a s') (hf : Gives (f a) s' b s'') : Gives (m >>= f) s b s'' := by
  obtain ⟨log, hm⟩ := hm
  obtain ⟨log', hf⟩ := hf
  refine ⟨log ++ log', ?_⟩
  rw [bind_apply, hm]
  dsimp only
  rw [hf]

/-- A run ends in one way. -/
theorem det {m : LogM σ ε ω α} {a b : α} {s s' s'' : σ} (h : Gives m s a s')
    (h' : Gives m s b s'') : a = b ∧ s' = s'' := by
  obtain ⟨log, h⟩ := h
  obtain ⟨log', h'⟩ := h'
  cases h.symm.trans h'
  exact ⟨rfl, rfl⟩

end Gives

end LogM

open LogM

variable {σ ε ω α β : Type} {excuse : ω → Prop}

/-- The first event of a log is an excuse. -/
def Excused (excuse : ω → Prop) (log : List ω) : Prop := ∃ e rest, log = e :: rest ∧ excuse e

theorem Excused.append {log : List ω} (h : Excused excuse log) (more : List ω) :
    Excused excuse (log ++ more) := by
  obtain ⟨e, rest, rfl, he⟩ := h
  exact ⟨e, rest ++ more, rfl, he⟩

/-- A run from a state in which `P` holds logs an excuse before anything else, or logs
nothing and gives, if it gives a result, one of which `Q` holds. -/
def Sound (excuse : ω → Prop) (P : σ → Prop) (m : LogM σ ε ω α) (Q : α → σ → Prop) : Prop :=
  ∀ s, P s → Excused excuse (m s).2.2 ∨
    (m s).2.2 = [] ∧ ∀ a, (m s).1 = .ok a → Q a (m s).2.1

namespace Sound

variable {P P' : σ → Prop} {Q Q' : α → σ → Prop} {R : β → σ → Prop}

theorem pure {a : α} (h : ∀ s, P s → Q a s) :
    Sound excuse P (pure a : LogM σ ε ω α) Q := by
  intro s hp
  refine Or.inr ⟨rfl, ?_⟩
  intro b hb
  cases hb
  exact h s hp

theorem fail {e : ε} : Sound excuse P (fail e : LogM σ ε ω α) Q := by
  intro s _
  refine Or.inr ⟨rfl, ?_⟩
  intro a ha
  cases ha

theorem read {Q : σ → σ → Prop} (h : ∀ s, P s → Q s s) :
    Sound excuse P (read : LogM σ ε ω σ) Q := by
  intro s hp
  refine Or.inr ⟨rfl, ?_⟩
  intro a ha
  cases ha
  exact h s hp

theorem update {f : σ → σ} {Q : Unit → σ → Prop} (h : ∀ s, P s → Q () (f s)) :
    Sound excuse P (update f : LogM σ ε ω Unit) Q := by
  intro s hp
  exact Or.inr ⟨rfl, fun _ _ => h s hp⟩

/-- An excuse discharges whatever is owed. -/
theorem record_excuse {event : ω} (h : excuse event) {Q : Unit → σ → Prop} :
    Sound excuse P (record event : LogM σ ε ω Unit) Q :=
  fun _ _ => Or.inl ⟨event, [], rfl, h⟩

theorem ofOption {o : Option α} {e : ε} (h : ∀ a s, o = some a → P s → Q a s) :
    Sound excuse P (ofOption e o : LogM σ ε ω α) Q := by
  cases o with
  | none => exact fail
  | some a => exact pure fun s hp => h a s rfl hp

/-- What holds after the first part is what the second part may assume. -/
theorem bind {m : LogM σ ε ω α} {f : α → LogM σ ε ω β} (hm : Sound excuse P m Q)
    (hf : ∀ a, Sound excuse (Q a) (f a) R) : Sound excuse P (m >>= f) R := by
  intro s hp
  rw [bind_apply]
  have h := hm s hp
  cases hrun : m s with
  | mk r rest =>
    obtain ⟨s', log⟩ := rest
    rw [hrun] at h
    cases r with
    | error e =>
      rcases h with h | ⟨hlog, -⟩
      · exact Or.inl h
      · refine Or.inr ⟨hlog, ?_⟩
        intro b hb
        cases hb
    | ok a =>
      rcases h with h | ⟨hlog, hq⟩
      · exact Or.inl (h.append _)
      · have hrest := hf a s' (hq a rfl)
        have hempty : log = [] := hlog
        rw [hempty]
        exact hrest

theorem mono {m : LogM σ ε ω α} (h : Sound excuse P m Q) (hpre : ∀ s, P' s → P s)
    (hpost : ∀ a s, Q a s → Q' a s) : Sound excuse P' m Q' := by
  intro s hp
  rcases h s (hpre s hp) with h | ⟨hlog, hq⟩
  · exact Or.inl h
  · exact Or.inr ⟨hlog, fun a ha => hpost a _ (hq a ha)⟩

theorem strengthen {m : LogM σ ε ω α} (h : Sound excuse P m Q) (hpre : ∀ s, P' s → P s) :
    Sound excuse P' m Q :=
  h.mono hpre fun _ _ hq => hq

theorem weaken {m : LogM σ ε ω α} (h : Sound excuse P m Q) (hpost : ∀ a s, Q a s → Q' a s) :
    Sound excuse P m Q' :=
  h.mono (fun _ hp => hp) hpost

/-- A part of the precondition that does not speak of the state may be assumed outright. -/
theorem assuming {φ : Prop} {m : LogM σ ε ω α} (h : φ → Sound excuse P m Q) :
    Sound excuse (fun s => φ ∧ P s) m Q :=
  fun s hp => h hp.1 s hp.2

/-- `bind` where what the first part says of its result does not speak of the state. -/
theorem andThen {m : LogM σ ε ω α} {f : α → LogM σ ε ω β} {φ : α → Prop}
    (hm : Sound excuse P m fun a s => φ a ∧ P' s)
    (hf : ∀ a, φ a → Sound excuse P' (f a) R) : Sound excuse P (m >>= f) R :=
  hm.bind fun a => assuming (hf a)

/-- The state that is read is the state. -/
theorem reading {f : σ → LogM σ ε ω α} {Q : α → σ → Prop}
    (h : ∀ s, P s → Sound excuse (fun s' => s' = s) (f s) Q) :
    Sound excuse P (LogM.read >>= f) Q := by
  intro s hp
  rw [bind_apply]
  exact h s hp s rfl

theorem ite {c : Prop} [Decidable c] {m m' : LogM σ ε ω α} (h : c → Sound excuse P m Q)
    (h' : ¬ c → Sound excuse P m' Q) : Sound excuse P (if c then m else m') Q := by
  split
  · exact h ‹_›
  · exact h' ‹_›

/-- A log without excuses is empty. -/
theorem log_eq_nil {m : LogM σ ε ω α} (h : Sound excuse P m Q) {s : σ} (hp : P s)
    (hlog : ∀ e ∈ (m s).2.2, ¬ excuse e) : (m s).2.2 = [] := by
  rcases h s hp with ⟨e, rest, heq, he⟩ | ⟨hnil, -⟩
  · exact absurd he (hlog e (heq ▸ List.mem_cons_self))
  · exact hnil

end Sound

end Runar.Logic
