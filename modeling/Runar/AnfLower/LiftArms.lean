/-
  AnfLower/LiftArms.lean --- a chain of conditional updates, and its flat form.

  WHAT THIS FILE IS FOR.  A chain takes its first arm whose condition holds and gives one
  property a value; it fails where no arm is taken.  Its flat form gives every arm's property
  a value in turn, the old one to the arms that are not taken.  The two agree where every
  property has a value.
-/
import Mathlib.Data.Option.Basic

set_option autoImplicit false

namespace Runar.AnfLower

variable {V : Type}

/-- Give one property a value. -/
def setProp (props : String → Option V) (name : String) (value : V) : String → Option V :=
  fun other => if other = name then some value else props other

theorem setProp_self {props : String → Option V} {name : String} {value : V}
    (h : props name = some value) : setProp props name value = props := by
  funext other
  rw [setProp]
  split
  · subst other
    exact h.symm
  · rfl

theorem isSome_setProp {props : String → Option V} {name other : String} {value : V}
    (h : (props other).isSome) : (setProp props name value other).isSome := by
  rw [setProp]
  split
  · rfl
  · exact h

/-- An arm of a chain, in a state. -/
structure Arm (V : Type) where
  prop : String
  /-- absent in a final else -/
  cond : Option Bool
  /-- absent where computing it aborts -/
  value : Option V

namespace Arm

/-- Whether the arm is taken once it is reached. -/
def taken (arm : Arm V) : Bool := arm.cond.getD true

end Arm

/-- The chain: the first arm that is taken. -/
def select : List (Arm V) → (String → Option V) → Option (String → Option V)
  | [], _ => none
  | arm :: rest, props =>
      if arm.taken then arm.value.map (setProp props arm.prop) else select rest props

/-- The flat form: every arm in turn, `free` as long as none was taken. -/
def assignAll : Bool → List (Arm V) → (String → Option V) → Option (String → Option V)
  | _, [], props => some props
  | free, arm :: rest, props =>
      (props arm.prop).bind fun old =>
        (if free && arm.taken then arm.value else some old).bind fun value =>
          assignAll (free && !arm.cond.getD false) rest (setProp props arm.prop value)

/-- The flat form, with the assertion that some arm is taken. -/
def flat (arms : List (Arm V)) (props : String → Option V) : Option (String → Option V) :=
  if arms.any Arm.taken then assignAll true arms props else none

/-- Only the last of a list may be absent. -/
def LastOnly {α : Type} : List (Option α) → Prop
  | [] => True
  | [_] => True
  | c :: d :: rest => c.isSome ∧ LastOnly (d :: rest)

theorem LastOnly.tail {α : Type} {c : Option α} {rest : List (Option α)}
    (h : LastOnly (c :: rest)) : LastOnly rest := by
  cases rest with
  | nil => exact trivial
  | cons d rest => exact h.2

theorem lastOnly_of_isSome {α β : Type} {l : List (Option α)} {l' : List (Option β)}
    (heq : l.map Option.isSome = l'.map Option.isSome) (h : LastOnly l') : LastOnly l := by
  induction l generalizing l' with
  | nil => exact trivial
  | cons c l ih =>
    cases l with
    | nil => exact trivial
    | cons d l =>
      cases l' with
      | nil => cases heq
      | cons c' l' =>
        cases l' with
        | nil => cases (List.cons.inj heq).2
        | cons d' l' =>
          rw [List.map_cons, List.map_cons] at heq
          obtain ⟨hc, hrest⟩ := List.cons.inj heq
          exact ⟨hc.trans h.1, ih hrest h.2⟩

theorem assignAll_false {arms : List (Arm V)} {props : String → Option V}
    (h : ∀ arm ∈ arms, (props arm.prop).isSome) : assignAll false arms props = some props := by
  induction arms with
  | nil => rfl
  | cons arm rest ih =>
    obtain ⟨old, hold⟩ := Option.isSome_iff_exists.1 (h arm List.mem_cons_self)
    rw [assignAll, hold, Option.bind_some, Bool.false_and, if_neg Bool.false_ne_true,
      Option.bind_some, Bool.false_and, setProp_self hold]
    exact ih fun arm' hmem => h arm' (List.mem_cons_of_mem _ hmem)

theorem select_eq_none {arms : List (Arm V)} {props : String → Option V}
    (h : ¬ arms.any Arm.taken = true) : select arms props = none := by
  induction arms with
  | nil => rfl
  | cons arm rest ih =>
    rw [List.any_cons, Bool.or_eq_true, not_or] at h
    rw [select, if_neg h.1, ih h.2]

theorem assignAll_true {arms : List (Arm V)} {props : String → Option V}
    (hlast : LastOnly (arms.map Arm.cond)) (h : ∀ arm ∈ arms, (props arm.prop).isSome)
    (hany : arms.any Arm.taken = true) : assignAll true arms props = select arms props := by
  induction arms with
  | nil => cases hany
  | cons arm rest ih =>
    obtain ⟨old, hold⟩ := Option.isSome_iff_exists.1 (h arm List.mem_cons_self)
    have hrest : ∀ arm' ∈ rest, (props arm'.prop).isSome := fun arm' hmem =>
      h arm' (List.mem_cons_of_mem _ hmem)
    rw [assignAll, select, hold, Option.bind_some, Bool.true_and, Bool.true_and]
    by_cases htaken : arm.taken = true
    · rw [if_pos htaken, if_pos htaken]
      cases hvalue : arm.value with
      | none => rfl
      | some value =>
        rw [Option.bind_some, Option.map_some]
        have hset : ∀ arm' ∈ rest, (setProp props arm.prop value arm'.prop).isSome :=
          fun arm' hmem => isSome_setProp (hrest arm' hmem)
        cases hcond : arm.cond with
        | some b =>
          rw [Arm.taken, hcond, Option.getD_some] at htaken
          rw [Option.getD_some, htaken, Bool.not_true, assignAll_false hset]
        | none =>
          cases rest with
          | nil => rfl
          | cons arm' rest =>
            rw [List.map_cons, List.map_cons, hcond] at hlast
            cases hlast.1
    · rw [if_neg htaken, if_neg htaken, Option.bind_some, setProp_self hold]
      cases hcond : arm.cond with
      | none =>
        rw [Arm.taken, hcond] at htaken
        exact absurd rfl htaken
      | some b =>
        rw [Arm.taken, hcond, Option.getD_some, Bool.not_eq_true] at htaken
        rw [Option.getD_some, htaken, Bool.not_false]
        refine ih hlast.tail hrest ?_
        rw [List.any_cons, Arm.taken, hcond, Option.getD_some, htaken, Bool.false_or] at hany
        exact hany

/-- The flat form does what the chain does. -/
theorem flat_eq_select {arms : List (Arm V)} {props : String → Option V}
    (hlast : LastOnly (arms.map Arm.cond)) (h : ∀ arm ∈ arms, (props arm.prop).isSome) :
    flat arms props = select arms props := by
  rw [flat]
  split
  · exact assignAll_true hlast h ‹_›
  · exact (select_eq_none ‹_›).symm

/-- The flat form reads every property of the chain. -/
theorem isSome_of_assignAll {free : Bool} {arms : List (Arm V)}
    {props props' : String → Option V} (h : assignAll free arms props = some props') :
    ∀ arm ∈ arms, (props arm.prop).isSome := by
  induction arms generalizing free props with
  | nil => exact fun arm hmem => absurd hmem List.not_mem_nil
  | cons arm rest ih =>
    rw [assignAll] at h
    obtain ⟨old, hold, h⟩ := Option.bind_eq_some_iff.1 h
    obtain ⟨value, -, h⟩ := Option.bind_eq_some_iff.1 h
    intro arm' hmem
    rcases List.mem_cons.1 hmem with rfl | hmem
    · rw [hold]
      rfl
    · have hset := ih h arm' hmem
      rw [setProp] at hset
      split at hset
      · rw [‹arm'.prop = arm.prop›, hold]
        rfl
      · exact hset

theorem isSome_of_flat {arms : List (Arm V)} {props props' : String → Option V}
    (h : flat arms props = some props') : ∀ arm ∈ arms, (props arm.prop).isSome := by
  rw [flat] at h
  split at h
  · exact isSome_of_assignAll h
  · cases h

end Runar.AnfLower
