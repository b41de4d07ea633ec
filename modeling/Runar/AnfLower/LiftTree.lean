/-
  AnfLower/LiftTree.lean --- what a chain of `if`s does.

  WHAT THIS FILE IS FOR.  The recogniser turns a chain of nested `if`s into a list of arms.  This
  file says which lists it gives, and that the chain, its declared-results blocks left out, takes
  the first of these arms whose condition holds.
-/
import Runar.AnfLower.LiftUpdates

set_option autoImplicit false

namespace Runar.AnfLower

open Anf

/-! ## What the recogniser accepts -/

theorem eq_dropLast_append {bindings : List ANFBinding} {last : ANFBinding}
    (h : bindings.getLast? = some last) : bindings = bindings.dropLast ++ [last] := by
  have hne : bindings ≠ [] := by
    rintro rfl
    cases h
  rw [List.getLast?_eq_some_getLast hne] at h
  cases h
  exact (List.dropLast_append_getLast hne).symm

theorem extract_eq_some {condRef : Option String} {bindings : List ANFBinding}
    {branch : UpdateBranch} (h : extractBranchUpdate condRef bindings = some branch) :
    ∃ name, bindings =
        branch.valueBindings ++ [.mk name (.updateProp branch.propName branch.valueRef)] ∧
      allBindingsSideEffectFree branch.valueBindings = true ∧ branch.condSetupBindings = [] ∧
      branch.condRef = condRef := by
  rw [extractBranchUpdate] at h
  split at h
  · rename_i name prop value hlast
    split at h
    · cases h
      exact ⟨name, eq_dropLast_append hlast, ‹_›, rfl, rfl⟩
    · cases h
  · cases h

/-- The ways in which the recogniser accepts a chain. -/
inductive Collected (depth : Nat) (cond : String) (thenBindings elseBindings : List ANFBinding) :
    List UpdateBranch → Prop
  | nested {thenUpdate inner : UpdateBranch} {rest : List UpdateBranch} {name innerCond : String}
      {innerThen innerElse : List ANFBinding} {results : List String}
      (hthen : extractBranchUpdate (some cond) thenBindings = some thenUpdate)
      (hlast : elseBindings.getLast? =
        some (.mk name (.ifValue innerCond innerThen innerElse results)))
      (hpure : allBindingsSideEffectFree elseBindings.dropLast = true)
      (hinner : collectUpdateBranches depth innerCond (stripDeclaredResults innerThen results)
        (stripDeclaredResults innerElse results) = some (inner :: rest)) :
      Collected depth cond thenBindings elseBindings
        (thenUpdate :: { inner with
          condSetupBindings := elseBindings.dropLast ++ inner.condSetupBindings } :: rest)
  | final {thenUpdate elseUpdate : UpdateBranch}
      (hthen : extractBranchUpdate (some cond) thenBindings = some thenUpdate)
      (helse : extractBranchUpdate none elseBindings = some elseUpdate) :
      Collected depth cond thenBindings elseBindings [thenUpdate, elseUpdate]
  | fails {thenUpdate : UpdateBranch}
      (hthen : extractBranchUpdate (some cond) thenBindings = some thenUpdate)
      (helse : isAssertFalseElse elseBindings = true) :
      Collected depth cond thenBindings elseBindings [thenUpdate]

theorem collected {depth : Nat} {cond : String} {thenBindings elseBindings : List ANFBinding}
    {branches : List UpdateBranch}
    (h : collectUpdateBranches (depth + 1) cond thenBindings elseBindings = some branches) :
    Collected depth cond thenBindings elseBindings branches := by
  rw [collectUpdateBranches] at h
  split at h
  · cases h
  · rename_i hthen
    split at h
    · cases h
    · rename_i hlast
      split at h
      · rename_i hpure
        split at h
        · rename_i hinner
          cases h
          exact .nested hthen hlast hpure hinner
        · cases h
      · cases h
    · split at h
      · rename_i helse
        cases h
        exact .final hthen helse
      · split at h
        · rename_i helse
          cases h
          exact .fails hthen helse
        · cases h

/-- A list that the recogniser gives starts with the arm of the chain's own condition, and only
the last arm may be without one. -/
theorem collect_shape {depth : Nat} {cond : String} {thenBindings elseBindings : List ANFBinding}
    {branches : List UpdateBranch}
    (h : collectUpdateBranches depth cond thenBindings elseBindings = some branches) :
    (∃ first rest, branches = first :: rest ∧ first.condSetupBindings = [] ∧
      first.condRef = some cond) ∧ LastOnly (branches.map UpdateBranch.condRef) := by
  induction depth generalizing cond thenBindings elseBindings branches with
  | zero =>
    rw [collectUpdateBranches] at h
    cases h
  | succ depth ih =>
    cases collected h with
    | nested hthen hlast hpure hinner =>
      obtain ⟨-, -, -, hsetup, hcond⟩ := extract_eq_some hthen
      refine ⟨⟨_, _, rfl, hsetup, hcond⟩, ?_⟩
      rw [List.map_cons, List.map_cons, hcond]
      exact ⟨rfl, (ih hinner).2⟩
    | final hthen helse =>
      obtain ⟨-, -, -, hsetup, hcond⟩ := extract_eq_some hthen
      refine ⟨⟨_, _, rfl, hsetup, hcond⟩, ?_⟩
      rw [List.map_cons, List.map_cons, hcond]
      exact ⟨rfl, trivial⟩
    | fails hthen helse =>
      obtain ⟨-, -, -, hsetup, hcond⟩ := extract_eq_some hthen
      exact ⟨⟨_, _, rfl, hsetup, hcond⟩, trivial⟩

theorem live_strip_subset {bindings : List ANFBinding} {results : List String}
    {D : String → Prop} (h : ∀ n ∈ live bindings, D n) :
    ∀ n ∈ live (stripDeclaredResults bindings results), D n := by
  rw [← List.take_append_drop (bindings.length - 2 * results.length) bindings] at h
  exact (live_append_subset h).1

theorem within_arm {condRef : Option String} {bindings : List ANFBinding} {branch : UpdateBranch}
    {D : String → Prop} (h : extractBranchUpdate condRef bindings = some branch)
    (hcond : ∀ c, condRef = some c → D c) (hlive : ∀ n ∈ live bindings, D n)
    {rest : List UpdateBranch} (hrest : Within D rest) : Within D (branch :: rest) := by
  obtain ⟨name, hbindings, hpure, hsetup, href⟩ := extract_eq_some h
  rw [hbindings] at hlive
  have hD : (fun n => D n ∨ n ∈ branch.condSetupBindings.map ANFBinding.name) = D := by
    funext n
    rw [hsetup, List.map_nil, eq_iff_iff]
    exact or_iff_left List.not_mem_nil
  refine ⟨?_, hpure, ?_, fun c hc => .inl (hcond c (href ▸ hc)),
    fun n hn => .inl ((live_append_subset hlive).1 n hn), ?_⟩
  · rw [hsetup]
    rfl
  · rw [hsetup, live]
    exact fun n hn => absurd hn List.not_mem_nil
  · rw [hD]
    exact hrest

/-- The arms read only what is live in the chain, or bound by conditions up to theirs. -/
theorem within_of_collect {depth : Nat} {cond : String}
    {thenBindings elseBindings : List ANFBinding} {branches : List UpdateBranch}
    {D : String → Prop}
    (h : collectUpdateBranches depth cond thenBindings elseBindings = some branches)
    (hcond : D cond) (hthenLive : ∀ n ∈ live thenBindings, D n)
    (helseLive : ∀ n ∈ live elseBindings, D n) : Within D branches := by
  induction depth generalizing cond thenBindings elseBindings branches D with
  | zero =>
    rw [collectUpdateBranches] at h
    cases h
  | succ depth ih =>
    have hown : ∀ c, some cond = some c → D c := by
      rintro c ⟨⟩
      exact hcond
    cases collected h with
    | @nested thenUpdate inner rest name innerCond innerThen innerElse results
        hthen hlast hpure hinner =>
      rw [eq_dropLast_append hlast] at helseLive
      obtain ⟨hsetupLive, hifLive⟩ := live_append_subset helseLive
      have hif := (live_cons_subset hifLive).1
      rw [liveOf] at hif
      have hin := ih hinner (hif innerCond List.mem_cons_self)
        (live_strip_subset fun n hn =>
          hif n (List.mem_cons_of_mem _ (List.mem_append_left _ hn)))
        (live_strip_subset fun n hn =>
          hif n (List.mem_cons_of_mem _ (List.mem_append_right _ hn)))
      obtain ⟨⟨first, rest', heq, hsetup, -⟩, -⟩ := collect_shape hinner
      cases heq
      obtain ⟨-, hvalue, -, hcondIn, hliveValue, hmore⟩ := hin
      rw [hsetup] at hcondIn hliveValue hmore
      refine within_arm hthen hown hthenLive ⟨?_, hvalue, ?_, ?_, ?_, ?_⟩
      · dsimp only
        rwa [hsetup, List.append_nil]
      · dsimp only
        rwa [hsetup, List.append_nil]
      · dsimp only
        rw [hsetup, List.append_nil]
        exact fun c hc => (hcondIn c hc).resolve_right List.not_mem_nil
      · dsimp only
        rw [hsetup, List.append_nil]
        exact fun n hn => (hliveValue n hn).resolve_right List.not_mem_nil
      · dsimp only
        rw [hsetup, List.append_nil]
        have hD : ∀ P : String → Prop,
            (fun n => P n ∨ n ∈ ([] : List ANFBinding).map ANFBinding.name) = P := by
          intro P
          funext n
          rw [List.map_nil, eq_iff_iff]
          exact or_iff_left List.not_mem_nil
        rwa [hD] at hmore
    | final hthen helse =>
      refine within_arm hthen hown hthenLive (within_arm helse ?_ helseLive trivial)
      rintro c ⟨⟩
    | fails hthen helse => exact within_arm hthen hown hthenLive trivial

/-! ## The chain takes one arm -/

/-- A chain without the declared-results blocks of its nested `if`s. -/
def chainWithoutResults : Nat → String → List ANFBinding → List ANFBinding → ANFValue
  | 0, cond, thenBindings, elseBindings => .ifValue cond thenBindings elseBindings []
  | depth + 1, cond, thenBindings, elseBindings =>
      match elseBindings.getLast? with
      | some (.mk name (.ifValue innerCond innerThen innerElse results)) =>
          .ifValue cond thenBindings (elseBindings.dropLast ++
            [.mk name (chainWithoutResults depth innerCond (stripDeclaredResults innerThen results)
              (stripDeclaredResults innerElse results))]) []
      | _ => .ifValue cond thenBindings elseBindings []

/-- The last else-block of a chain. -/
def lastElse : Nat → List ANFBinding → List ANFBinding
  | 0, elseBindings => elseBindings
  | depth + 1, elseBindings =>
      match elseBindings.getLast? with
      | some (.mk _ (.ifValue _ _ innerElse results)) =>
          lastElse depth (stripDeclaredResults innerElse results)
      | _ => elseBindings

section Eval

variable {V : Type} {meaning : Meaning V}

theorem runBody_world {bindings : List ANFBinding} {s s' : Store V}
    (hpure : allBindingsSideEffectFree bindings = true)
    (h : runBody meaning bindings s = some s') : s'.world = s.world := by
  induction bindings generalizing s with
  | nil =>
    rw [runBody_nil] at h
    cases h
    rfl
  | cons b rest ih =>
    obtain ⟨name, value⟩ := b
    rw [allBindingsSideEffectFree, List.all_cons, Bool.and_eq_true] at hpure
    have hvalue : isSideEffectFree value = true := hpure.1
    obtain ⟨x, hx, -⟩ := @evalValue_remap V meaning value [] s s hvalue rfl (fun _ _ => rfl)
      fun _ _ => rfl
    rw [runBody_cons, runBinding, ANFBinding.value_mk, ANFBinding.name_mk, hx] at h
    cases x with
    | none => cases h
    | some v =>
      have hrest : runBody meaning rest (s.bind name v) = some s' := h
      have hworld := ih hpure.2 hrest
      exact hworld

theorem runBody_map_effect {bindings : List ANFBinding} {last : V} {s : Store V} :
    (evalBindings meaning bindings last s).map (fun r => r.2.world.effect) =
      (runBody meaning bindings s).map fun s' => s'.world.effect := by
  rw [runBody, ← map_snd_evalBindings bindings last meaning.nothing s, Option.map_map]
  rfl

/-- An arm gives its property its value. -/
theorem runBody_arm {condRef : Option String} {bindings : List ANFBinding}
    {branch : UpdateBranch} (h : extractBranchUpdate condRef bindings = some branch)
    (s : Store V) :
    (runBody meaning bindings s).map (fun s' => s'.world.effect) =
      (armValue meaning branch s).map fun v =>
        (setProp s.world.props branch.propName v, s.world.outputs) := by
  obtain ⟨name, hbindings, hpure, -, -⟩ := extract_eq_some h
  rw [hbindings, runBody_append, armValue]
  cases hrun : runBody meaning branch.valueBindings s with
  | none => rfl
  | some s' =>
    rw [Option.bind_some, Option.bind_some, runBody_cons, runBinding, ANFBinding.value_mk,
      ANFBinding.name_mk, evalValue]
    cases s'.names branch.valueRef with
    | none => rfl
    | some v =>
      show (runBody meaning [] _).map _ = some _
      rw [runBody_nil]
      show some (s'.world.update branch.propName v).effect = some _
      rw [effect_update_eq, runBody_world hpure hrun]

theorem evalValue_if {cond : String} {s : Store V} {b : Bool}
    (h : truthOf meaning s cond = some b) (thenBody elseBody : List ANFBinding)
    (results : List String) :
    (evalValue meaning (.ifValue cond thenBody elseBody results) s).map
        (fun r => r.2.world.effect) =
      (runBody meaning (if b then thenBody else elseBody) s).map fun s' => s'.world.effect := by
  obtain ⟨c, hc, htruthy⟩ := Option.bind_eq_some_iff.1 h
  rw [evalValue, hc]
  show ((meaning.truthy c).bind fun b => _).map _ = _
  rw [htruthy, Option.bind_some]
  cases b with
  | false =>
    rw [if_neg Bool.false_ne_true, if_neg Bool.false_ne_true]
    exact runBody_map_effect
  | true =>
    rw [if_pos rfl, if_pos rfl]
    exact runBody_map_effect

theorem armsOf_cons {branch : UpdateBranch} (hsetup : branch.condSetupBindings = [])
    (rest : List UpdateBranch) (s : Store V) :
    armsOf meaning (branch :: rest) s =
      (condOf meaning s branch.condRef).bind fun c =>
        (armsOf meaning rest s).map (⟨branch.propName, c, armValue meaning branch s⟩ :: ·) := by
  rw [armsOf, armsOf, reached, hsetup, runBody_nil, Option.bind_some]
  cases reached meaning rest s with
  | none =>
    cases condOf meaning s branch.condRef with
    | none => rfl
    | some c => rfl
  | some ps => rfl

theorem armsOf_setup (front : List ANFBinding) (branch : UpdateBranch)
    (rest : List UpdateBranch) (s : Store V) :
    armsOf meaning ({ branch with condSetupBindings := front ++ branch.condSetupBindings } :: rest)
        s = (runBody meaning front s).bind (armsOf meaning (branch :: rest)) := by
  rw [armsOf, reached]
  dsimp only
  rw [runBody_append]
  cases runBody meaning front s with
  | none => rfl
  | some s' =>
    rw [Option.bind_some, Option.bind_some, armsOf, reached]
    cases runBody meaning branch.condSetupBindings s' with
    | none => rfl
    | some s'' =>
      rw [Option.bind_some, Option.bind_some]
      cases reached meaning rest s'' with
      | none => rfl
      | some ps => rfl

/-- A chain does what the first arm does that is taken. -/
theorem eval_chain {depth : Nat} {cond : String} {thenBindings elseBindings : List ANFBinding}
    {branches : List UpdateBranch} {s : Store V} {arms : List (Arm V)}
    (h : collectUpdateBranches depth cond thenBindings elseBindings = some branches)
    (hfails : isAssertFalseElse (lastElse depth elseBindings) = true →
      ∀ s : Store V, runBody meaning (lastElse depth elseBindings) s = none)
    (harms : armsOf meaning branches s = some arms) :
    (evalValue meaning (chainWithoutResults depth cond thenBindings elseBindings) s).map
        (fun r => r.2.world.effect) =
      (select arms s.world.props).map fun props => (props, s.world.outputs) := by
  induction depth generalizing cond thenBindings elseBindings branches s arms with
  | zero =>
    rw [collectUpdateBranches] at h
    cases h
  | succ depth ih =>
    -- the first arm, and what the chain does if it is taken or not
    have hfirst : ∀ {thenUpdate : UpdateBranch} {rest : List UpdateBranch},
        extractBranchUpdate (some cond) thenBindings = some thenUpdate →
        armsOf meaning (thenUpdate :: rest) s = some arms →
        ∀ elseBody : List ANFBinding,
        (∀ more, armsOf meaning rest s = some more →
          (runBody meaning elseBody s).map (fun s' => s'.world.effect) =
            (select more s.world.props).map fun props => (props, s.world.outputs)) →
        (evalValue meaning (.ifValue cond thenBindings elseBody []) s).map
            (fun r => r.2.world.effect) =
          (select arms s.world.props).map fun props => (props, s.world.outputs) := by
      intro thenUpdate rest hthen harms elseBody helse
      obtain ⟨-, -, -, hsetup, hcond⟩ := extract_eq_some hthen
      rw [armsOf_cons hsetup, hcond, condOf] at harms
      obtain ⟨c, hc, harms⟩ := Option.bind_eq_some_iff.1 harms
      obtain ⟨b, hb, rfl⟩ := Option.map_eq_some_iff.1 hc
      obtain ⟨more, hmore, rfl⟩ := Option.map_eq_some_iff.1 harms
      rw [evalValue_if hb, select, Arm.taken, Option.getD_some]
      cases b with
      | false =>
        rw [if_neg Bool.false_ne_true, if_neg Bool.false_ne_true]
        exact helse more hmore
      | true =>
        rw [if_pos rfl, if_pos rfl, runBody_arm hthen, Option.map_map]
        rfl
    cases collected h with
    | @nested thenUpdate inner rest name innerCond innerThen innerElse results
        hthen hlast hpure hinner =>
      rw [lastElse, hlast] at hfails
      rw [chainWithoutResults, hlast]
      refine hfirst hthen harms _ fun more hmore => ?_
      rw [armsOf_setup] at hmore
      obtain ⟨s1, hrun, hmore⟩ := Option.bind_eq_some_iff.1 hmore
      have hworld := runBody_world hpure hrun
      have hin := ih hinner hfails hmore
      rw [runBody_append, hrun, Option.bind_some, runBody_cons, runBinding, ANFBinding.value_mk,
        ANFBinding.name_mk, ← hworld, ← hin]
      cases evalValue meaning (chainWithoutResults depth innerCond
        (stripDeclaredResults innerThen results) (stripDeclaredResults innerElse results)) s1 with
      | none => rfl
      | some r =>
        rw [Option.map_some, Option.bind_some, runBody_nil]
        rfl
    | @final thenUpdate elseUpdate hthen helse =>
      obtain ⟨name, heq, -, hsetup, hcond⟩ := extract_eq_some helse
      have hlast : elseBindings.getLast? =
          some (.mk name (.updateProp elseUpdate.propName elseUpdate.valueRef)) := by
        rw [heq, List.getLast?_concat]
      rw [chainWithoutResults, hlast]
      refine hfirst hthen harms _ fun more hmore => ?_
      rw [armsOf_cons hsetup, hcond] at hmore
      cases hmore
      rw [runBody_arm helse, select, Arm.taken, Option.getD_none, if_pos rfl, Option.map_map]
      rfl
    | @fails thenUpdate hthen helse =>
      have hlastElse : lastElse (depth + 1) elseBindings = elseBindings ∧
          chainWithoutResults (depth + 1) cond thenBindings elseBindings =
            .ifValue cond thenBindings elseBindings [] := by
        rw [isAssertFalseElse] at helse
        split at helse
        · rename_i hlast
          rw [lastElse, chainWithoutResults, hlast]
          exact ⟨rfl, rfl⟩
        · cases helse
      rw [hlastElse.1] at hfails
      rw [hlastElse.2]
      refine hfirst hthen harms _ fun more hmore => ?_
      cases hmore
      rw [hfails helse s]
      rfl

end Eval

end Runar.AnfLower
