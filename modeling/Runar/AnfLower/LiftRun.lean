/-
  AnfLower/LiftRun.lean --- what the bindings do that a rewritten chain consists of.

  WHAT THIS FILE IS FOR.  The rewriting of a chain writes bindings one by one and draws the
  names of new temporaries.  An action that writes bindings is run as the bindings it writes,
  so that a run of the rewritten chain follows the actions that wrote it.
-/
import Runar.AnfLower.Lift
import Runar.Anf.Live
import Runar.Logic.DoubleText

set_option autoImplicit false

namespace Runar.AnfLower

open Anf

theorem tempName_injective {i j : Nat} (h : tempName i = tempName j) : i = j := by
  have hlist := congrArg String.toList h
  rw [tempName, tempName, String.toList_append, String.toList_append] at hlist
  have hdigits : ∀ n : Nat, (toString n).toList = Nat.toDigits 10 n := fun n => by
    show (Nat.repr n).toList = _
    rw [Nat.repr, String.toList_ofList]
  rw [hdigits, hdigits] at hlist
  exact Logic.toDigits_injective (List.append_cancel_left hlist)

namespace LiftM

section Appends

variable {α β : Type}

/-- An action adds bindings after those that are there, and does not look at them. -/
def Appends (m : LiftM α) : Prop :=
  ∀ result k, m.run ⟨result, k⟩ =
    ((m.run ⟨[], k⟩).1, ⟨result ++ (m.run ⟨[], k⟩).2.result, (m.run ⟨[], k⟩).2.nextIdx⟩)

theorem appends_pure (a : α) : Appends (pure a) := by
  intro result k
  show (a, LiftState.mk result k) = (a, LiftState.mk (result ++ []) k)
  rw [List.append_nil]

theorem appends_fresh : Appends fresh := by
  intro result k
  show (tempName k, LiftState.mk result (k + 1)) = (tempName k, LiftState.mk (result ++ []) (k + 1))
  rw [List.append_nil]

theorem appends_push (name : String) (value : ANFValue) : Appends (push name value) := by
  intro result k
  rfl

theorem Appends.bind {m : LiftM α} {f : α → LiftM β} (hm : Appends m)
    (hf : ∀ a, Appends (f a)) : Appends (m >>= f) := by
  intro result k
  have hrun : ∀ σ, (m >>= f).run σ = (f (m.run σ).1).run (m.run σ).2 := fun σ => rfl
  rw [hrun, hrun, hm result k, hf, hf _ (m.run ⟨[], k⟩).2.result]
  rw [List.append_assoc]

theorem appends_pushFresh (value : ANFValue) : Appends (pushFresh value) :=
  appends_fresh.bind fun name => (appends_push name value).bind fun _ => appends_pure name

end Appends

/-! ## Running what an action writes -/

section Eval

variable {α β V : Type} {meaning : Meaning V}

/-- Run the bindings that an action writes from a state. -/
def eval (meaning : Meaning V) (m : LiftM α) (k : Nat) (t : Store V) :
    Option (α × Nat × Store V) :=
  (runBody meaning (m.run ⟨[], k⟩).2.result t).map fun t' =>
    ((m.run ⟨[], k⟩).1, (m.run ⟨[], k⟩).2.nextIdx, t')

@[simp] theorem eval_pure (a : α) (k : Nat) (t : Store V) :
    eval meaning (pure a) k t = some (a, k, t) := by
  show (runBody meaning [] t).map _ = _
  rw [runBody_nil]
  rfl

@[simp] theorem eval_fresh (k : Nat) (t : Store V) :
    eval meaning fresh k t = some (tempName k, k + 1, t) := by
  show (runBody meaning [] t).map _ = _
  rw [runBody_nil]
  rfl

theorem eval_push (name : String) (value : ANFValue) (k : Nat) (t : Store V) :
    eval meaning (push name value) k t =
      (runBinding meaning (.mk name value) t).map fun t' => ((), k, t') := by
  show (runBody meaning [.mk name value] t).map _ = _
  rw [runBody_cons]
  cases runBinding meaning (.mk name value) t with
  | none => rfl
  | some t' =>
    rw [Option.bind_some, runBody_nil]
    rfl

theorem eval_bind (m : LiftM α) {f : α → LiftM β} (hf : ∀ a, Appends (f a)) (k : Nat)
    (t : Store V) :
    eval meaning (m >>= f) k t =
      (eval meaning m k t).bind fun r => eval meaning (f r.1) r.2.1 r.2.2 := by
  have hrun : ∀ σ, (m >>= f).run σ = (f (m.run σ).1).run (m.run σ).2 := fun σ => rfl
  rw [eval, hrun, hf, runBody_append, eval]
  cases runBody meaning (m.run ⟨[], k⟩).2.result t with
  | none => rfl
  | some t' => rfl

theorem eval_pushFresh (value : ANFValue) (k : Nat) (t : Store V) :
    eval meaning (pushFresh value) k t =
      (runBinding meaning (.mk (tempName k) value) t).map fun t' => (tempName k, k + 1, t') := by
  rw [pushFresh, eval_bind _ fun name => (appends_push name value).bind fun _ => appends_pure name,
    eval_fresh, Option.bind_some, eval_bind _ fun _ => appends_pure _, eval_push]
  cases runBinding meaning (.mk (tempName k) value) t with
  | none => rfl
  | some t' => exact eval_pure _ _ _

end Eval

end LiftM

/-! ## The actions of the rewriting -/

open LiftM

theorem appends_hoistBindings (bindings : List ANFBinding) (map : List (String × String)) :
    Appends (hoistBindings bindings map) := by
  induction bindings generalizing map with
  | nil => exact appends_pure map
  | cons b rest ih =>
    obtain ⟨name, value⟩ := b
    exact appends_fresh.bind fun _ => (appends_push _ _).bind fun _ => ih _

theorem appends_hoistConditions (branches : List UpdateBranch) (map : List (String × String)) :
    Appends (hoistConditions branches map) := by
  induction branches generalizing map with
  | nil => exact appends_pure ([], map)
  | cons branch rest ih =>
    exact (appends_hoistBindings branch.condSetupBindings map).bind fun map =>
      (ih map).bind fun _ => appends_pure _

theorem appends_andAll (refs : List String) (acc : String) : Appends (andAll acc refs) := by
  induction refs generalizing acc with
  | nil => exact appends_pure acc
  | cons ref rest ih => exact (appends_pushFresh _).bind fun next => ih next

theorem appends_orAll (refs : List String) (acc : String) : Appends (orAll acc refs) := by
  induction refs generalizing acc with
  | nil => exact appends_pure acc
  | cons ref rest ih => exact (appends_pushFresh _).bind fun next => ih next

/-- The effective condition of an arm, from that none of the arms before was taken. -/
def ownCond (andRef : String) : Option String → LiftM String
  | none => pure andRef
  | some own => pushFresh (.binOp .and andRef own false)

theorem appends_ownCond (andRef : String) (own : Option String) :
    Appends (ownCond andRef own) := by
  cases own with
  | none => exact appends_pure andRef
  | some own => exact appends_pushFresh _

theorem effectiveConds_some (negated : List String) (prior : String) (own : Option String)
    (rest : List (Option String)) :
    effectiveConds negated (some prior :: own :: rest) = (do
      let neg ← pushFresh (.unaryOp .not prior false)
      let andRef ← andAll ((negated ++ [neg]).headD "") (negated ++ [neg]).tail
      let cond ← ownCond andRef own
      let conds ← effectiveConds (negated ++ [neg]) (own :: rest)
      pure (cond :: conds)) := by
  cases own with
  | none => rfl
  | some own => rfl

theorem effectiveConds_none (negated : List String) (own : Option String)
    (rest : List (Option String)) :
    effectiveConds negated (none :: own :: rest) = (do
      let andRef ← andAll (negated.headD "") negated.tail
      let cond ← ownCond andRef own
      let conds ← effectiveConds negated (own :: rest)
      pure (cond :: conds)) := by
  cases own with
  | none => rfl
  | some own => rfl

theorem appends_effectiveConds (refs : List (Option String)) (negated : List String) :
    Appends (effectiveConds negated refs) := by
  induction refs generalizing negated with
  | nil => exact appends_pure []
  | cons prior refs ih =>
    cases refs with
    | nil => exact appends_pure []
    | cons own rest =>
      cases prior with
      | none =>
        rw [effectiveConds_none]
        exact (appends_andAll _ _).bind fun _ => (appends_ownCond _ own).bind fun _ =>
          (ih _).bind fun _ => appends_pure _
      | some prior =>
        rw [effectiveConds_some]
        exact (appends_pushFresh _).bind fun _ => (appends_andAll _ _).bind fun _ =>
          (appends_ownCond _ own).bind fun _ => (ih _).bind fun _ => appends_pure _

theorem appends_copyBindings (bindings : List ANFBinding) (map : List (String × String)) :
    Appends (copyBindings map bindings) := by
  induction bindings generalizing map with
  | nil => exact appends_pure []
  | cons b rest ih =>
    obtain ⟨name, value⟩ := b
    exact appends_fresh.bind fun _ => (ih _).bind fun _ => appends_pure _

theorem appends_pushUpdate (map : List (String × String)) (branch : UpdateBranch)
    (cond : String) : Appends (pushUpdate map branch cond) :=
  (appends_pushFresh _).bind fun _ => (appends_copyBindings _ _).bind fun _ =>
    appends_fresh.bind fun _ => (appends_pushFresh _).bind fun _ =>
      (appends_pushFresh _).bind fun _ => appends_pure _

theorem appends_pushUpdates (map : List (String × String))
    (pairs : List (UpdateBranch × String)) : Appends (pushUpdates map pairs) := by
  induction pairs with
  | nil => exact appends_pure ()
  | cons pair rest ih =>
    obtain ⟨branch, cond⟩ := pair
    exact (appends_pushUpdate map branch cond).bind fun _ => ih

theorem appends_liftChain (branches : List UpdateBranch) : Appends (liftChain branches) := by
  rw [liftChain]
  refine (appends_hoistConditions branches []).bind fun r => ?_
  obtain ⟨condRefs, nameMap⟩ := r
  refine (appends_effectiveConds condRefs []).bind fun conds => ?_
  dsimp only
  split
  · exact ((appends_orAll _ _).bind fun _ => (appends_pushFresh _).bind fun _ =>
      appends_pure _).bind fun _ => appends_pushUpdates nameMap _
  · exact (appends_pure _).bind fun _ => appends_pushUpdates nameMap _

end Runar.AnfLower
