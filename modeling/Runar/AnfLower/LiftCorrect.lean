/-
  AnfLower/LiftCorrect.lean --- when rewriting the chains of a method goes unnoticed.

  WHAT THIS FILE IS FOR.  The rewriting evaluates the conditions of all arms of a chain, also
  those that the run does not reach, and leaves out the names that the arms bind.  Where no
  later binding reads such a name, the rewritten method does what the method did exactly if
  the method fails or the conditions of every chain it reaches can all be evaluated there.
-/
import Runar.AnfLower.LiftFlat
import Runar.Optimizer.Dce

set_option autoImplicit false

namespace Runar.AnfLower

open Anf LiftM

/-! ## Chains of a method -/

/-- The arms of an operation that is rewritten. -/
def chainOf : ANFValue → Option (List UpdateBranch)
  | .ifValue cond thenBody elseBody results =>
      match updateBranches cond (stripDeclaredResults thenBody results)
          (stripDeclaredResults elseBody results) with
      | some (first :: second :: more) => some (first :: second :: more)
      | _ => none
  | _ => none

/-- A chain without the blocks that declare results. -/
def withoutResults : ANFValue → ANFValue
  | .ifValue cond thenBody elseBody results =>
      chainWithoutResults (ifDepth (stripDeclaredResults elseBody results) + 1) cond
        (stripDeclaredResults thenBody results) (stripDeclaredResults elseBody results)
  | value => value

/-- The last else-block of a chain. -/
def finalElse : ANFValue → List ANFBinding
  | .ifValue _ _ elseBody results =>
      lastElse (ifDepth (stripDeclaredResults elseBody results) + 1)
        (stripDeclaredResults elseBody results)
  | _ => []

theorem chainOf_eq_some {value : ANFValue} {branches : List UpdateBranch}
    (h : chainOf value = some branches) :
    ∃ cond thenBody elseBody results, value = .ifValue cond thenBody elseBody results ∧
      updateBranches cond (stripDeclaredResults thenBody results)
        (stripDeclaredResults elseBody results) = some branches ∧ 2 ≤ branches.length := by
  rw [chainOf.eq_def] at h
  split at h
  · rename_i cond thenBody elseBody results
    split at h
    · rename_i first second more hbranches
      cases h
      exact ⟨cond, thenBody, elseBody, results, rfl, hbranches, by
        rw [List.length_cons, List.length_cons]
        omega⟩
    · cases h
  · cases h

theorem liftBindings_cons (name : String) (value : ANFValue) (rest : List ANFBinding) :
    liftBindings (.mk name value :: rest) =
      (chainOf value).elim (push name value) liftChain >>= fun _ => liftBindings rest := by
  cases value with
  | ifValue cond thenBody elseBody results =>
    rw [liftBindings, chainOf]
    cases updateBranches cond (stripDeclaredResults thenBody results)
        (stripDeclaredResults elseBody results) with
    | none => rfl
    | some branches =>
      cases branches with
      | nil => rfl
      | cons first rest =>
        cases rest with
        | nil => rfl
        | cons second more => rfl
  | _ => rfl

theorem appends_liftBindings (bindings : List ANFBinding) : Appends (liftBindings bindings) := by
  induction bindings with
  | nil => exact appends_pure ()
  | cons b rest ih =>
    obtain ⟨name, value⟩ := b
    rw [liftBindings_cons]
    refine .bind ?_ fun _ => ih
    cases chainOf value with
    | none => exact appends_push name value
    | some branches => exact appends_liftChain branches

section Keep

variable {V : Type}

/-- The names of a chain are used so that the rewriting may drop and copy them. -/
structure ChainKept (meaning : Meaning V) (firstTemp : Nat) (name : String) (value : ANFValue)
    (rest : List ANFBinding) (s : Store V) (branches : List UpdateBranch) : Prop where
  copies : CopySafe (fun _ => False) branches
  /-- no name that is read has the form of a new temporary -/
  fresh : ∀ n, n ∈ liveOf value ∨ n ∈ live rest → Old firstTemp n
  /-- an else-block taken for `assert(false)` does fail -/
  fails : isAssertFalseElse (finalElse value) = true →
    ∀ s : Store V, runBody meaning (finalElse value) s = none
  /-- the blocks that declare results have no effect -/
  results : (evalValue meaning value s).map (fun r => r.2.world.effect) =
    (evalValue meaning (withoutResults value) s).map fun r => r.2.world.effect
  /-- the value of the chain is not read -/
  unread : name ∉ live rest
  /-- no name that is read later was rebound by the chain -/
  names : ∀ s', runBinding meaning (.mk name value) s = some s' →
    ∀ n ∈ live rest, s'.names n = s.names n

/-- This holds of every chain that a run reaches. -/
def NamesKept (meaning : Meaning V) (firstTemp : Nat) : List ANFBinding → Store V → Prop
  | [], _ => True
  | .mk name value :: rest, s =>
      (∀ branches, chainOf value = some branches →
        ChainKept meaning firstTemp name value rest s branches) ∧
      ∀ s', runBinding meaning (.mk name value) s = some s' → NamesKept meaning firstTemp rest s'

/-- The conditions of all arms can be evaluated in the state that reaches the chain, and the
properties of the arms have values. -/
def ConditionsRun (meaning : Meaning V) (branches : List UpdateBranch) (s : Store V) : Prop :=
  ∃ arms, armsOf meaning branches s = some arms ∧ ∀ arm ∈ arms, (s.world.props arm.prop).isSome

/-- This holds of every chain that a run reaches. -/
def Hoistable (meaning : Meaning V) : List ANFBinding → Store V → Prop
  | [], _ => True
  | .mk name value :: rest, s =>
      (∀ branches, chainOf value = some branches → ConditionsRun meaning branches s) ∧
      ∀ s', runBinding meaning (.mk name value) s = some s' → Hoistable meaning rest s'

end Keep

/-! ## Rewriting goes unnoticed -/

section Correct

variable {V : Type} {meaning : Meaning V}

/-- A chain whose conditions can all be evaluated does what the flat form of its arms does. -/
theorem eval_chainOf {name : String} {value : ANFValue} {rest : List ANFBinding} {firstTemp : Nat}
    {branches : List UpdateBranch} {s : Store V} {arms : List (Arm V)}
    (hchain : chainOf value = some branches)
    (hkept : ChainKept meaning firstTemp name value rest s branches)
    (harms : armsOf meaning branches s = some arms)
    (hprops : ∀ arm ∈ arms, (s.world.props arm.prop).isSome)
    (hlast : LastOnly (arms.map Arm.cond)) :
    (evalValue meaning value s).map (fun r => r.2.world.effect) =
      (flat arms s.world.props).map fun props => (props, s.world.outputs) := by
  obtain ⟨cond, thenBody, elseBody, results, rfl, hbranches, -⟩ := chainOf_eq_some hchain
  rw [hkept.results, flat_eq_select hlast hprops]
  exact eval_chain hbranches hkept.fails harms

theorem lastOnly_arms {branches : List UpdateBranch} {s : Store V} {arms : List (Arm V)}
    (hlast : LastOnly (branches.map UpdateBranch.condRef))
    (harms : armsOf meaning branches s = some arms) : LastOnly (arms.map Arm.cond) := by
  refine lastOnly_of_isSome ?_ hlast
  induction branches generalizing s arms with
  | nil =>
    cases harms
    rfl
  | cons branch rest ih =>
    rw [armsOf, reached] at harms
    obtain ⟨all, hall, harms⟩ := Option.bind_eq_some_iff.1 harms
    obtain ⟨s', -, hmap⟩ := Option.bind_eq_some_iff.1 hall
    obtain ⟨ps, hps, rfl⟩ := Option.map_eq_some_iff.1 hmap
    obtain ⟨c, hc, htail⟩ := Option.bind_eq_some_iff.1 harms
    obtain ⟨more, hmore, rfl⟩ := Option.map_eq_some_iff.1 htail
    have hrest : armsOf meaning rest s' = some more := by
      rw [armsOf, hps]
      exact hmore
    rw [List.map_cons, List.map_cons, List.map_cons, List.map_cons, ih hlast.tail hrest]
    cases hcond : branch.condRef with
    | none =>
      rw [hcond] at hc
      cases hc
      rfl
    | some r =>
      rw [hcond] at hc
      obtain ⟨b, -, rfl⟩ := Option.map_eq_some_iff.1 hc
      rfl

/-- Binding by binding, the rewritten method follows the method as long as the conditions of
the chains can be evaluated, and gets no further. -/
theorem eval_liftBindings (hm : IgnoresUpdates meaning) (hl : Logical meaning)
    {body : List ANFBinding} {firstTemp k : Nat} {s t : Store V} (hk : firstTemp ≤ k)
    (halike : Alike (fun n => n ∈ live body) s t) (hkept : NamesKept meaning firstTemp body s) :
    (Hoistable meaning body s →
      (eval meaning (liftBindings body) k t).map (fun r => r.2.2.world.effect) =
        (runBody meaning body s).map fun s' => s'.world.effect) ∧
    (eval meaning (liftBindings body) k t ≠ none → Hoistable meaning body s) := by
  induction body generalizing k s t with
  | nil =>
    refine ⟨fun _ => ?_, fun _ => trivial⟩
    rw [liftBindings, eval_pure, runBody_nil, Option.map_some, Option.map_some, halike.effect]
  | cons b rest ih =>
    obtain ⟨name, value⟩ := b
    rw [liftBindings_cons, runBody_cons]
    cases hchain : chainOf value with
    | none =>
      rw [Option.elim_none, eval_bind _ fun _ => appends_liftBindings rest, eval_push]
      have hrel : Option.Rel (Alike fun n => n ∈ live rest)
          (runBinding meaning (.mk name value) s) (runBinding meaning (.mk name value) t) :=
        runBinding_alike hm halike
      have hrest : ∀ s', runBinding meaning (.mk name value) s = some s' →
          NamesKept meaning firstTemp rest s' := hkept.2
      have hhoist : Hoistable meaning (.mk name value :: rest) s ↔
          ∀ s', runBinding meaning (.mk name value) s = some s' → Hoistable meaning rest s' := by
        refine ⟨fun h => h.2, fun h => ⟨fun branches hbranches => ?_, h⟩⟩
        rw [hchain] at hbranches
        cases hbranches
      rw [hhoist]
      generalize runBinding meaning (.mk name value) s = x at hrel hrest
      generalize runBinding meaning (.mk name value) t = y at hrel
      cases hrel with
      | none => exact ⟨fun _ => rfl, fun h => absurd rfl h⟩
      | @some s' t' halike' =>
        obtain ⟨hsame, hback⟩ := ih hk halike' (hrest s' rfl)
        refine ⟨fun h => hsame (h s' rfl), fun h s'' heq => ?_⟩
        cases heq
        exact hback h
    | some branches =>
      rw [Option.elim_some, eval_bind _ fun _ => appends_liftBindings rest]
      have hchainKept := hkept.1 branches hchain
      obtain ⟨cond, thenBody, elseBody, results, hvalue, hbranches, htwo⟩ :=
        chainOf_eq_some hchain
      have hlast := (collect_shape hbranches).2
      have hlive : ∀ n ∈ liveOf value, n ∈ live (.mk name value :: rest) := fun n hn => by
        rw [live]
        exact List.mem_append_left _ hn
      have hwithin : Within (fun n => n ∈ liveOf value) branches := by
        rw [hvalue, liveOf]
        exact within_of_collect hbranches List.mem_cons_self
          (live_strip_subset fun n hn => List.mem_cons_of_mem _ (List.mem_append_left _ hn))
          (live_strip_subset fun n hn => List.mem_cons_of_mem _ (List.mem_append_right _ hn))
      have hrenames : Renames k (fun n => n ∈ liveOf value) (fun _ => False) [] s t :=
        ⟨halike.effect, fun n hn => halike.names n (hlive n hn),
          fun n hn => (hchainKept.fresh n (.inl hn)).mono hk, fun _ _ _ => rfl⟩
      rcases eval_liftChain hl htwo hlast hwithin hchainKept.copies hrenames with
        ⟨hnone, heval⟩ | ⟨props', k1, t1, hsome, heval, hg, heffect⟩
      · rw [heval, Option.bind_none]
        refine ⟨fun h => ?_, fun h => absurd rfl h⟩
        obtain ⟨arms, harms, hprops⟩ := h.1 branches hchain
        rw [harms, Option.bind_some] at hnone
        have hvalueNone := eval_chainOf hchain hchainKept harms hprops (lastOnly_arms hlast harms)
        rw [hnone, Option.map_none, Option.map_eq_none_iff] at hvalueNone
        rw [runBinding, ANFBinding.value_mk, hvalueNone]
        rfl
      · rw [heval, Option.bind_some]
        obtain ⟨arms, harms, hflat⟩ := Option.bind_eq_some_iff.1 hsome
        have hprops := isSome_of_flat hflat
        have heq := eval_chainOf hchain hchainKept harms hprops (lastOnly_arms hlast harms)
        rw [hflat, Option.map_some] at heq
        obtain ⟨r, hr, hreffect⟩ := Option.map_eq_some_iff.1 heq
        have hrun : runBinding meaning (.mk name value) s = some (r.2.bind name r.1) := by
          rw [runBinding, ANFBinding.value_mk, ANFBinding.name_mk, hr]
          rfl
        have halike' : Alike (fun n => n ∈ live rest) (r.2.bind name r.1) t1 := by
          refine ⟨hreffect.trans heffect.symm, fun n hn => ?_⟩
          have hne : n ≠ name := by
            rintro rfl
            exact hchainKept.unread hn
          have hbefore : n ∈ live (.mk name value :: rest) := by
            rw [live]
            exact List.mem_append_right _ (List.mem_filter.2 ⟨hn, decide_eq_true hne⟩)
          rw [hchainKept.names _ hrun n hn, halike.names n hbefore,
            hg.keeps n ((hchainKept.fresh n (.inr hn)).mono hk)]
        obtain ⟨hsame, hback⟩ := ih (Nat.le_trans hk hg.le) halike' (hkept.2 _ hrun)
        rw [hrun, Option.bind_some]
        refine ⟨fun h => hsame (h.2 _ hrun), fun h => ⟨fun branches' hbranches' => ?_,
          fun s'' hs'' => ?_⟩⟩
        · rw [hchain] at hbranches'
          cases hbranches'
          exact ⟨arms, harms, hprops⟩
        · rw [hrun] at hs''
          cases hs''
          exact hback h

/-- Where the names of the chains are kept, rewriting them changes nothing about acceptance,
properties and outputs exactly if the method fails or the conditions of every chain that it
reaches can all be evaluated. -/
theorem liftBranchUpdateProps_keeps_iff (hm : IgnoresUpdates meaning) (hl : Logical meaning)
    (body : List ANFBinding) (s : Store V)
    (hkept : NamesKept meaning (nextTemp body) body s) :
    (runBody meaning (liftBranchUpdateProps body) s).map (fun s' => s'.world.effect) =
        (runBody meaning body s).map (fun s' => s'.world.effect) ↔
      runBody meaning body s = none ∨ Hoistable meaning body s := by
  have heval : (eval meaning (liftBindings body) (nextTemp body) s).map
      (fun r => r.2.2.world.effect) =
      (runBody meaning (liftBranchUpdateProps body) s).map fun s' => s'.world.effect := by
    rw [eval, Option.map_map, liftBranchUpdateProps]
    rfl
  obtain ⟨hsame, hback⟩ := eval_liftBindings (t := s) hm hl (Nat.le_refl _)
    ⟨rfl, fun _ _ => rfl⟩ hkept
  rw [heval] at hsame
  have hback' : runBody meaning (liftBranchUpdateProps body) s ≠ none →
      Hoistable meaning body s := fun h => hback fun hnone => h (by
    rw [hnone, Option.map_none] at heval
    exact Option.map_eq_none_iff.1 heval.symm)
  constructor
  · intro h
    cases hrun : runBody meaning body s with
    | none => exact .inl rfl
    | some s' =>
      refine .inr (hback' fun hnone => ?_)
      rw [hnone, hrun] at h
      cases h
  · rintro (hnone | hhoist)
    · cases hlifted : runBody meaning (liftBranchUpdateProps body) s with
      | none => rw [hnone]
      | some t' =>
        have h := hsame (hback' (by rw [hlifted]; exact Option.some_ne_none _))
        rw [hlifted, hnone] at h
        cases h
    · exact hsame hhoist

end Correct

/-! ## A condition that divides -/

section Quotient

open Optimizer.Dce

theorem ignoresUpdates_operatorMeaning : IgnoresUpdates operatorMeaning where
  stateScript := fun _ => rfl
  call := fun _ _ _ _ _ => rfl
  methodCall := fun _ _ _ _ _ _ => rfl
  checkPreimage := fun _ _ _ _ _ => rfl
  deserializeState := fun _ _ _ _ => rfl
  rawScript := fun _ _ _ _ _ _ => rfl

theorem logical_operatorMeaning : Logical operatorMeaning where
  truthy := fun _ => rfl
  not := fun _ => rfl
  and := fun x y => by
    show ((Interpreter.toBool x).bind fun l => (Interpreter.toBool y).bind fun r =>
      some (Interpreter.Value.boolean (l && r))) = (Interpreter.toBool x).bind fun l =>
        (Interpreter.toBool y).map fun r => Interpreter.Value.boolean (l && r)
    cases Interpreter.toBool y with
    | none => rfl
    | some r => rfl
  or := fun x y => by
    show ((Interpreter.toBool x).bind fun l => (Interpreter.toBool y).bind fun r =>
      some (Interpreter.Value.boolean (l || r))) = (Interpreter.toBool x).bind fun l =>
        (Interpreter.toBool y).map fun r => Interpreter.Value.boolean (l || r)
    cases Interpreter.toBool y with
    | none => rfl
    | some r => rfl

/-- `this.p = n;` -/
def assignP (n : Int) (valueRef updateRef : String) : List ANFBinding :=
  [.mk valueRef (.loadConst (.const (.bigint n))), .mk updateRef (.updateProp "p" valueRef)]

/-- The block that declares `p` as a result of an arm. -/
def declareP (updateRef : String) : List ANFBinding :=
  [.mk "__merge$0" (.loadProp "p"), .mk updateRef (.updateProp "p" "__merge$0")]

/-- `if (1 / d === 1) this.p = 2; else this.p = 3;` -/
def quotientElse : List ANFBinding :=
  [.mk "t3" (.loadConst (.const (.bigint 1))), .mk "t4" (.loadParam "d"),
    .mk "t5" (.binOp .div "t3" "t4" false), .mk "t6" (.loadConst (.const (.bigint 1))),
    .mk "t7" (.binOp .eq "t5" "t6" false),
    .mk "t14" (.ifValue "t7" (assignP 2 "t8" "t9" ++ declareP "t12")
      (assignP 3 "t10" "t11" ++ declareP "t13") ["p"])]

/-- `if (flag) this.p = 1; else if (1 / d === 1) this.p = 2; else this.p = 3;` -/
def quotientChain : List ANFBinding :=
  [.mk "t0" (.loadParam "flag"),
    .mk "t15" (.ifValue "t0" (assignP 1 "t1" "t2") quotientElse [])]

/-- The valuation of a spend with `flag` set. -/
def flagged (d : Int) : Store Interpreter.Value where
  names name := if name = "flag" then some (.boolean true)
    else if name = "d" then some (.num d) else none
  world := ⟨fun name => if name = "p" then some (.num 0) else none, [], []⟩

theorem old_of_head {k : Nat} {n : String} (h : n.toList.head? ≠ some 't') : Old k n := by
  rintro i - rfl
  refine h ?_
  rw [tempName, String.toList_append]
  rfl

theorem chainWithoutResults_eq_if (depth : Nat) (cond : String)
    (thenBindings elseBindings : List ANFBinding) :
    ∃ elseBindings', chainWithoutResults depth cond thenBindings elseBindings =
      .ifValue cond thenBindings elseBindings' [] := by
  cases depth with
  | zero => exact ⟨elseBindings, rfl⟩
  | succ depth =>
    rw [chainWithoutResults.eq_def]
    dsimp only
    split
    · exact ⟨_, rfl⟩
    · exact ⟨elseBindings, rfl⟩

theorem namesKept_quotientChain (d : Int) :
    NamesKept operatorMeaning (nextTemp quotientChain) quotientChain (flagged d) := by
  refine ⟨fun branches h => (by cases h), fun s' hs' => ?_⟩
  cases hs'
  refine ⟨fun branches h => ?_, fun s' hs' => trivial⟩
  have hbranches : chainOf (.ifValue "t0" (assignP 1 "t1" "t2") quotientElse []) =
      some [⟨[], some "t0", "p", [.mk "t1" (.loadConst (.const (.bigint 1)))], "t1"⟩,
        ⟨[.mk "t3" (.loadConst (.const (.bigint 1))), .mk "t4" (.loadParam "d"),
            .mk "t5" (.binOp .div "t3" "t4" false), .mk "t6" (.loadConst (.const (.bigint 1))),
            .mk "t7" (.binOp .eq "t5" "t6" false)], some "t7", "p",
          [.mk "t8" (.loadConst (.const (.bigint 2)))], "t8"⟩,
        ⟨[], none, "p", [.mk "t10" (.loadConst (.const (.bigint 3)))], "t10"⟩] := rfl
  rw [hbranches] at h
  cases h
  have htaken : truthOf operatorMeaning ((flagged d).bind "t0" (.boolean true)) "t0" = some true :=
    rfl
  refine ⟨?_, ?_, fun h => (by cases h), ?_, List.not_mem_nil,
    fun s' hs' n hn => (by cases hn)⟩
  · simp [CopySafe, Copyable, liveOf, live, laterNames]
  · intro n hn
    have hlive : n ∈ ["t0", "d"] := hn.resolve_right List.not_mem_nil
    rcases List.mem_cons.1 hlive with rfl | hd
    · exact old_tempName (i := 0) (by decide)
    · rw [List.mem_singleton.1 hd]
      exact old_of_head (by decide)
  · rw [withoutResults]
    obtain ⟨elseBindings, helse⟩ := chainWithoutResults_eq_if
      (ifDepth (stripDeclaredResults quotientElse []) + 1) "t0"
      (stripDeclaredResults (assignP 1 "t1" "t2") []) (stripDeclaredResults quotientElse [])
    rw [helse]
    exact (evalValue_if htaken _ quotientElse []).trans
      (evalValue_if htaken (stripDeclaredResults (assignP 1 "t1" "t2") []) elseBindings []).symm

theorem liftBranchUpdateProps_keeps_quotientChain :
    (runBody operatorMeaning (liftBranchUpdateProps quotientChain) (flagged 1)).map
        (fun s' => s'.world.effect) =
      (runBody operatorMeaning quotientChain (flagged 1)).map fun s' => s'.world.effect := by
  refine (liftBranchUpdateProps_keeps_iff ignoresUpdates_operatorMeaning logical_operatorMeaning
    quotientChain (flagged 1) (namesKept_quotientChain 1)).2 (.inr ?_)
  refine ⟨fun branches h => (by cases h), fun s' hs' => ?_⟩
  cases hs'
  refine ⟨fun branches h => ?_, fun s' hs' => trivial⟩
  cases h
  refine ⟨_, rfl, fun arm harm => ?_⟩
  have hprop : arm.prop = "p" := by
    rcases List.mem_cons.1 harm with rfl | harm
    · rfl
    · rcases List.mem_cons.1 harm with rfl | harm
      · rfl
      · rw [List.mem_singleton.1 harm]
  rw [hprop]
  rfl

/-- With `flag` set and `d` zero the method accepts, and the rewritten method divides by
zero. -/
theorem liftBranchUpdateProps_divides :
    (runBody operatorMeaning quotientChain (flagged 0)).isSome = true ∧
      runBody operatorMeaning (liftBranchUpdateProps quotientChain) (flagged 0) = none := by
  refine ⟨rfl, ?_⟩
  have hback := (eval_liftBindings (t := flagged 0) ignoresUpdates_operatorMeaning
    logical_operatorMeaning (Nat.le_refl _) ⟨rfl, fun _ _ => rfl⟩ (namesKept_quotientChain 0)).2
  by_contra hrun
  have hhoist := hback fun hnone => hrun (Option.map_eq_none_iff.1 hnone)
  obtain ⟨arms, harms, -⟩ := (hhoist.2 _ rfl).1 _ rfl
  cases harms

end Quotient

end Runar.AnfLower
