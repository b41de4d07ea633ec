/-
  Logic/Ledger.lean --- runs that spend from a ledger.

  WHAT THIS FILE IS FOR.  Some events of a run spend a key, some are excuses.  A bound on
  what a run may spend is a pair of ledgers, the keys spent before and the keys spent
  after: `Spends` says that a run spends keys that are in the second and not in the first,
  none of them twice, unless it logs an excuse.  Bounds of consecutive runs compose, in
  whichever order the runs come.
-/
import Runar.Logic.Blame

set_option autoImplicit false

namespace Runar.Logic

open LogM

variable {σ ε ω κ α β : Type}

/-- Log some events. -/
def LogM.recordAll (events : List ω) : LogM σ ε ω Unit := fun s => (.ok (), s, events)

/-- What the events of a log are for a ledger. -/
structure Ledger (ω κ : Type) where
  excuse : ω → Prop
  spent : ω → Option κ

variable {L : Ledger ω κ} {lo mid hi : List κ}

/-- The keys a log spends. -/
def Ledger.keys (L : Ledger ω κ) (log : List ω) : List κ := log.filterMap L.spent

/-- A log spends keys between two ledgers, none twice, or has an excuse. -/
def Fresh (L : Ledger ω κ) (lo hi : List κ) (log : List ω) : Prop :=
  (∃ e ∈ log, L.excuse e) ∨ (L.keys log).Nodup ∧ ∀ k ∈ L.keys log, k ∉ lo ∧ k ∈ hi

namespace Fresh

theorem nil : Fresh L lo hi [] := by
  refine Or.inr ⟨List.nodup_nil, ?_⟩
  intro k hk
  exact nomatch hk

theorem mono {lo' hi' : List κ} {log : List ω} (h : Fresh L lo hi log) (hlo : lo' ⊆ lo)
    (hhi : hi ⊆ hi') : Fresh L lo' hi' log := by
  rcases h with h | ⟨hnodup, hkeys⟩
  · exact Or.inl h
  · refine Or.inr ⟨hnodup, ?_⟩
    intro k hk
    obtain ⟨hnot, hmem⟩ := hkeys k hk
    exact ⟨fun hk => hnot (hlo hk), hhi hmem⟩

/-- Keys of two ranges that follow each other are different, whichever were spent first. -/
theorem append {first second : List ω} (hlo : lo ⊆ mid) (hhi : mid ⊆ hi)
    (hfirst : Fresh L lo mid first) (hsecond : Fresh L mid hi second) :
    Fresh L lo hi (first ++ second) ∧ Fresh L lo hi (second ++ first) := by
  rcases hfirst with ⟨e, he, hexcuse⟩ | ⟨hnodup, hkeys⟩
  · exact ⟨Or.inl ⟨e, List.mem_append_left _ he, hexcuse⟩,
      Or.inl ⟨e, List.mem_append_right _ he, hexcuse⟩⟩
  rcases hsecond with ⟨e, he, hexcuse⟩ | ⟨hnodup', hkeys'⟩
  · exact ⟨Or.inl ⟨e, List.mem_append_right _ he, hexcuse⟩,
      Or.inl ⟨e, List.mem_append_left _ he, hexcuse⟩⟩
  have hdisjoint : ∀ k ∈ L.keys first, ∀ k' ∈ L.keys second, k ≠ k' := by
    rintro k hk _ hk' rfl
    exact (hkeys' k hk').1 (hkeys k hk).2
  have hrange : ∀ k, k ∈ L.keys first ∨ k ∈ L.keys second → k ∉ lo ∧ k ∈ hi := by
    rintro k (hk | hk)
    · exact ⟨(hkeys k hk).1, hhi (hkeys k hk).2⟩
    · exact ⟨fun hlo' => (hkeys' k hk).1 (hlo hlo'), (hkeys' k hk).2⟩
  constructor
  · refine Or.inr ?_
    unfold Ledger.keys at *
    rw [List.filterMap_append]
    exact ⟨List.nodup_append.mpr ⟨hnodup, hnodup', hdisjoint⟩,
      fun k hk => hrange k (List.mem_append.mp hk)⟩
  · refine Or.inr ?_
    unfold Ledger.keys at *
    rw [List.filterMap_append]
    exact ⟨List.nodup_append.mpr ⟨hnodup', hnodup, fun k hk k' hk' => (hdisjoint k' hk' k hk).symm⟩,
      fun k hk => hrange k (List.mem_append.mp hk).symm⟩

end Fresh

/-- What a run spends, from any state. -/
def Spends (L : Ledger ω κ) (lo hi : List κ) (m : LogM σ ε ω α) : Prop :=
  ∀ s, Fresh L lo hi (m s).2.2

namespace Spends

theorem pure (a : α) : Spends L lo hi (pure a : LogM σ ε ω α) := fun _ => .nil

theorem fail (e : ε) : Spends L lo hi (fail e : LogM σ ε ω α) := fun _ => .nil

theorem read : Spends L lo hi (read : LogM σ ε ω σ) := fun _ => .nil

theorem update (f : σ → σ) : Spends L lo hi (update f : LogM σ ε ω Unit) := fun _ => .nil

theorem recordAll {events : List ω} (h : Fresh L lo hi events) :
    Spends L lo hi (LogM.recordAll events : LogM σ ε ω Unit) := fun _ => h

theorem mono {lo' hi' : List κ} {m : LogM σ ε ω α} (h : Spends L lo hi m) (hlo : lo' ⊆ lo)
    (hhi : hi ⊆ hi') : Spends L lo' hi' m := fun s => (h s).mono hlo hhi

theorem bind {m : LogM σ ε ω α} {f : α → LogM σ ε ω β} (hlo : lo ⊆ mid) (hhi : mid ⊆ hi)
    (hm : Spends L lo mid m) (hf : ∀ a, Spends L mid hi (f a)) : Spends L lo hi (m >>= f) := by
  intro s
  rw [bind_apply]
  have h := hm s
  cases hrun : m s with
  | mk r rest =>
    obtain ⟨s', log⟩ := rest
    rw [hrun] at h
    cases r with
    | error e => exact h.mono (List.Subset.refl _) hhi
    | ok a => exact (h.append hlo hhi (hf a s')).1

/-- The first part spends from the later range. -/
theorem bind_late {m : LogM σ ε ω α} {f : α → LogM σ ε ω β} (hlo : lo ⊆ mid) (hhi : mid ⊆ hi)
    (hm : Spends L mid hi m) (hf : ∀ a, Spends L lo mid (f a)) : Spends L lo hi (m >>= f) := by
  intro s
  rw [bind_apply]
  have h := hm s
  cases hrun : m s with
  | mk r rest =>
    obtain ⟨s', log⟩ := rest
    rw [hrun] at h
    cases r with
    | error e => exact h.mono hlo (List.Subset.refl _)
    | ok a => exact ((hf a s').append hlo hhi h).2

/-- A part that spends nothing. -/
theorem quietly {m : LogM σ ε ω α} {f : α → LogM σ ε ω β} (hle : lo ⊆ hi)
    (hm : Spends L lo lo m) (hf : ∀ a, Spends L lo hi (f a)) : Spends L lo hi (m >>= f) :=
  bind (List.Subset.refl _) hle hm hf

theorem ite {c : Prop} [Decidable c] {m m' : LogM σ ε ω α} (h : c → Spends L lo hi m)
    (h' : ¬ c → Spends L lo hi m') : Spends L lo hi (if c then m else m') := by
  split
  · exact h ‹_›
  · exact h' ‹_›

end Spends

end Runar.Logic
