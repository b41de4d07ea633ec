/-
  AnfLower/LiftUpdates.lean --- the arms of a chain, and the rewritten chain as a whole.

  WHAT THIS FILE IS FOR.  In a state that reaches a chain, every arm has a condition and a value,
  if the bindings of all conditions can be run there.  The rewritten chain aborts where they
  cannot, and otherwise gives the properties the values of the flat form of the arms.
-/
import Runar.AnfLower.LiftChain

set_option autoImplicit false

namespace Runar.AnfLower

open Anf LiftM

variable {V : Type} {meaning : Meaning V}

/-! ## The arms in a state -/

/-- The arms with the states in which their own conditions have been run. -/
def reached (meaning : Meaning V) :
    List UpdateBranch → Store V → Option (List (UpdateBranch × Store V))
  | [], _ => some []
  | branch :: rest, s =>
      (runBody meaning branch.condSetupBindings s).bind fun s' =>
        (reached meaning rest s').map ((branch, s') :: ·)

/-- The value an arm updates its property with. -/
def armValue (meaning : Meaning V) (branch : UpdateBranch) (s : Store V) : Option V :=
  (runBody meaning branch.valueBindings s).bind fun s' => s'.names branch.valueRef

def armsAt (meaning : Meaning V) : List (UpdateBranch × Store V) → Option (List (Arm V))
  | [] => some []
  | p :: rest =>
      (condOf meaning p.2 p.1.condRef).bind fun c =>
        (armsAt meaning rest).map (⟨p.1.propName, c, armValue meaning p.1 p.2⟩ :: ·)

/-- The arms of a chain in a state, if the conditions of all arms can be evaluated. -/
def armsOf (meaning : Meaning V) (branches : List UpdateBranch) (s : Store V) :
    Option (List (Arm V)) := (reached meaning branches s).bind (armsAt meaning)

/-! ## Hoisting the conditions -/

/-- The names that the conditions of later arms bind. -/
def laterNames (branches : List UpdateBranch) : List String :=
  branches.flatMap fun branch => branch.condSetupBindings.map ANFBinding.name

/-- The arms read names that are known before the chain or from the conditions up to theirs. -/
def Within (D : String → Prop) : List UpdateBranch → Prop
  | [] => True
  | branch :: rest =>
      allBindingsSideEffectFree branch.condSetupBindings = true ∧
      allBindingsSideEffectFree branch.valueBindings = true ∧
      (∀ n ∈ live branch.condSetupBindings, D n) ∧
      (∀ c, branch.condRef = some c → D c ∨ c ∈ branch.condSetupBindings.map ANFBinding.name) ∧
      (∀ n ∈ live branch.valueBindings,
        D n ∨ n ∈ branch.condSetupBindings.map ANFBinding.name) ∧
      Within (fun n => D n ∨ n ∈ branch.condSetupBindings.map ANFBinding.name) rest

/-- The copies of an arm and of its condition read what the originals read: nothing reads
itself or a parameter that was bound before, the arm reads nothing that a later condition
binds, and it ends with the binding of its value. -/
def CopySafe (bound : String → Prop) : List UpdateBranch → Prop
  | [] => True
  | branch :: rest =>
      Copyable bound branch.condSetupBindings ∧
      Copyable (fun n => bound n ∨ n ∈ branch.condSetupBindings.map ANFBinding.name)
        branch.valueBindings ∧
      (∀ n ∈ live branch.valueBindings, n ∉ laterNames rest) ∧
      (∃ last, branch.valueBindings.getLast? = some last ∧ last.name = branch.valueRef) ∧
      CopySafe (fun n => bound n ∨ n ∈ branch.condSetupBindings.map ANFBinding.name) rest

/-- The copy of an arm, when it runs in `t`, computes what the arm computes. -/
structure Ready (k : Nat) (map : List (String × String)) (t : Store V)
    (p : UpdateBranch × Store V) : Prop where
  pure : allBindingsSideEffectFree p.1.valueBindings = true
  last : ∃ last, p.1.valueBindings.getLast? = some last ∧ last.name = p.1.valueRef
  copies : ∃ bound, Renames k (fun n => n ∈ live p.1.valueBindings) bound map p.2 t ∧
    Copyable bound p.1.valueBindings

theorem Ready.later {k k' : Nat} {map : List (String × String)} {t t' : Store V}
    {p : UpdateBranch × Store V} (h : Ready k map t p) (hg : Grows k t k' t')
    (heffect : t'.world.effect = t.world.effect) : Ready k' map t' p := by
  obtain ⟨bound, hren, hcopy⟩ := h.copies
  exact ⟨h.pure, h.last, bound, hren.later hg.le hg.keeps heffect, hcopy⟩

/-- What hoisting the conditions leaves: the conditions have the same truth values, and the
arms are ready. -/
theorem eval_hoistConditions {branches : List UpdateBranch} {k : Nat}
    {D bound : String → Prop} {map : List (String × String)} {s t : Store V}
    (hwithin : Within D branches) (hcopy : CopySafe bound branches)
    (h : Renames k D bound map s t) :
    (reached meaning branches s = none ∧
      eval meaning (hoistConditions branches map) k t = none) ∨
    ∃ ps refs map' k' t', reached meaning branches s = some ps ∧
      eval meaning (hoistConditions branches map) k t = some ((refs, map'), k', t') ∧
      Grows k t k' t' ∧ t'.world = t.world ∧ (∀ p ∈ ps, Ready k' map' t' p) ∧
      condsOf meaning t' refs = (armsAt meaning ps).map (·.map Arm.cond) ∧
      (∀ r, some r ∈ refs → Old k' r) ∧
      refs.map Option.isSome = branches.map (fun branch => branch.condRef.isSome) ∧
      ps.map Prod.fst = branches ∧
      ∀ n, n ∉ laterNames branches → rename map' n = rename map n := by
  induction branches generalizing k D bound map s t with
  | nil =>
    exact .inr ⟨[], [], map, k, t, rfl, eval_pure _ _ _, .refl k t, rfl,
      fun p hp => absurd hp List.not_mem_nil, rfl, fun r hr => absurd hr List.not_mem_nil, rfl, rfl,
      fun _ _ => rfl⟩
  | cons branch rest ih =>
    obtain ⟨hsetup, hvalue, hliveSetup, hcond, hliveValue, hwithinRest⟩ := hwithin
    obtain ⟨hcopySetup, hcopyValue, hlater, hlast, hcopyRest⟩ := hcopy
    have happ : ∀ map, Appends (hoistConditions rest map >>= fun r =>
        pure (branch.condRef.map (rename map) :: r.1, r.2)) := fun map =>
      (appends_hoistConditions rest map).bind fun _ => appends_pure _
    rcases @eval_hoistBindings V meaning _ k D bound map s t hsetup h hcopySetup hliveSetup with
      ⟨hnone, heval⟩ | ⟨s1, map1, k1, t1, hrun, heval, hren, hk1, hkeep1, hworld1, -, hmap1⟩
    · refine .inl ⟨?_, ?_⟩
      · rw [reached, hnone, Option.bind_none]
      · rw [hoistConditions]
        exact eval_bind_none happ heval
    · have hg1 : Grows k t k1 t1 := ⟨hk1, hkeep1⟩
      rcases ih hwithinRest hcopyRest hren with ⟨hnone, heval'⟩ |
        ⟨ps, refs, map2, k2, t2, hps, heval', hg2, hworld2, hready, hconds, hold, hsome, hfst,
          hmap2⟩
      · refine .inl ⟨?_, ?_⟩
        · rw [reached, hrun, Option.bind_some, hnone, Option.map_none]
        · rw [hoistConditions]
          refine (eval_bind_some happ heval).trans ?_
          exact eval_bind_none (fun _ => appends_pure _) heval'
      · have hcondOld : ∀ c, branch.condRef = some c → Old k1 (rename map1 c) := fun c hc =>
          hren.old c (hcond c hc)
        refine .inr ⟨(branch, s1) :: ps, branch.condRef.map (rename map1) :: refs, map2, k2, t2,
          ?_, ?_, hg1.trans hg2, hworld2.trans hworld1, ?_, ?_, ?_, ?_, ?_, ?_⟩
        · rw [reached, hrun, Option.bind_some, hps, Option.map_some]
        · rw [hoistConditions]
          refine (eval_bind_some happ heval).trans ?_
          refine (eval_bind_some (fun _ => appends_pure _) heval').trans ?_
          exact eval_pure _ _ _
        · intro p hp
          rcases List.mem_cons.1 hp with rfl | hp
          · refine ⟨hvalue, hlast, _, ?_, hcopyValue⟩
            have hnarrow := (hren.mono hliveValue).later hg2.le hg2.keeps
              (congrArg World.effect hworld2)
            have hsame : ∀ n ∈ live branch.valueBindings, rename map2 n = rename map1 n :=
              fun n hn => hmap2 n (hlater n hn)
            refine ⟨hnarrow.effect, fun n hn => ?_, fun n hn => ?_, fun n hn => ?_⟩
            · rw [hsame n hn]
              exact hnarrow.names n hn
            · rw [hsame n hn]
              exact hnarrow.old n hn
            · rw [hsame n hn]
              exact hnarrow.unbound n hn
          · exact hready p hp
        · have hcondEq : condOf meaning t2 (branch.condRef.map (rename map1)) =
              condOf meaning s1 branch.condRef := by
            cases hc : branch.condRef with
            | none => rfl
            | some c =>
              rw [Option.map_some, condOf, condOf, truthOf, truthOf,
                hg2.keeps _ (hcondOld c hc), hren.names c (hcond c hc)]
          rw [condsOf, armsAt, hcondEq, hconds]
          cases condOf meaning s1 branch.condRef with
          | none => rfl
          | some c =>
            cases armsAt meaning ps with
            | none => rfl
            | some arms => rfl
        · intro r hr
          rcases List.mem_cons.1 hr with hr | hr
          · obtain ⟨c, hc, rfl⟩ := Option.map_eq_some_iff.1 hr.symm
            exact (hcondOld c hc).mono hg2.le
          · exact hold r hr
        · rw [List.map_cons, List.map_cons, hsome, Option.isSome_map]
        · rw [List.map_cons, hfst]
        · intro n hn
          rw [laterNames, List.flatMap_cons, List.mem_append, not_or] at hn
          rw [hmap2 n hn.2, hmap1 n hn.1]

/-! ## The updates -/

/-- A run of bindings ends with the value of the last. -/
theorem names_of_getLast {bindings : List ANFBinding} {last : ANFBinding}
    (hlast : bindings.getLast? = some last) {v v' : V} {s s' : Store V}
    (h : evalBindings meaning bindings v s = some (v', s')) :
    s'.names last.name = some v' := by
  induction bindings generalizing v s with
  | nil => cases hlast
  | cons b rest ih =>
    obtain ⟨name, value⟩ := b
    rw [evalBindings] at h
    obtain ⟨⟨v1, s1⟩, -, h⟩ := Option.bind_eq_some_iff.1 h
    change evalBindings meaning rest v1 (s1.bind name v1) = some (v', s') at h
    cases rest with
    | nil =>
      cases hlast
      rw [evalBindings] at h
      cases h
      exact names_bind_self _ _ _
    | cons b' rest =>
      rw [List.getLast?_cons_cons] at hlast
      exact ih hlast h

theorem armValue_eq {p : UpdateBranch × Store V}
    (hlast : ∃ last, p.1.valueBindings.getLast? = some last ∧ last.name = p.1.valueRef) :
    armValue meaning p.1 p.2 =
      (evalBindings meaning p.1.valueBindings meaning.nothing p.2).map Prod.fst := by
  obtain ⟨last, hget, hname⟩ := hlast
  rw [armValue, runBody, ← hname]
  cases heval : evalBindings meaning p.1.valueBindings meaning.nothing p.2 with
  | none => rfl
  | some r =>
    obtain ⟨v, s'⟩ := r
    exact names_of_getLast hget heval

theorem effect_update_eq (w : World V) (name : String) (value : V) :
    (w.update name value).effect = (setProp w.props name value, w.outputs) := rfl

/-- The update of one arm: the arm's value if it is taken, and the old one if not. -/
theorem eval_pushUpdate (map : List (String × String)) (p : UpdateBranch × Store V) {k : Nat}
    {t : Store V} {cond : String} {eff : Bool} (hcond : Holds meaning k t cond eff)
    (hready : eff = true → Ready k map t p) :
    (((t.world.props p.1.propName).bind fun old =>
        if eff then armValue meaning p.1 p.2 else some old) = none ∧
      eval meaning (pushUpdate map p.1 cond) k t = none) ∨
    ∃ v k' t', ((t.world.props p.1.propName).bind fun old =>
        if eff then armValue meaning p.1 p.2 else some old) = some v ∧
      eval meaning (pushUpdate map p.1 cond) k t = some ((), k', t') ∧ Grows k t k' t' ∧
      t'.world.effect = (setProp t.world.props p.1.propName v, t.world.outputs) := by
  obtain ⟨copies, k1, hk1, hcopies, hrel⟩ :=
    @eval_copyBindings V meaning p.1.valueBindings map (k + 1)
  have hload : eval meaning (pushFresh (.loadProp p.1.propName)) k t =
      (t.world.props p.1.propName).map fun old =>
        (tempName k, k + 1, t.bind (tempName k) old) := by
    rw [eval_pushFresh, runBinding, ANFBinding.value_mk, ANFBinding.name_mk, evalValue]
    cases t.world.props p.1.propName with
    | none => rfl
    | some old => rfl
  have happ5 : ∀ condIfRef, Appends (do
      let _ ← pushFresh (.updateProp p.1.propName condIfRef)) := fun condIfRef =>
    (appends_pushFresh _).bind fun _ => appends_pure _
  have happ4 : ∀ (oldRef : String) (thenBindings : List ANFBinding) (keep : String), Appends (do
      let condIfRef ← pushFresh
        (.ifValue cond thenBindings [.mk keep (.loadConst (.ref oldRef))] [])
      let _ ← pushFresh (.updateProp p.1.propName condIfRef)) := fun _ _ _ =>
    (appends_pushFresh _).bind happ5
  have happ3 : ∀ (oldRef : String) (thenBindings : List ANFBinding), Appends (do
      let keep ← fresh
      let condIfRef ← pushFresh
        (.ifValue cond thenBindings [.mk keep (.loadConst (.ref oldRef))] [])
      let _ ← pushFresh (.updateProp p.1.propName condIfRef)) := fun oldRef thenBindings =>
    appends_fresh.bind (happ4 oldRef thenBindings)
  have happ2 : ∀ oldRef : String, Appends (do
      let thenBindings ← copyBindings map p.1.valueBindings
      let keep ← fresh
      let condIfRef ← pushFresh
        (.ifValue cond thenBindings [.mk keep (.loadConst (.ref oldRef))] [])
      let _ ← pushFresh (.updateProp p.1.propName condIfRef)) := fun oldRef =>
    (appends_copyBindings _ _).bind (happ3 oldRef)
  cases hold : t.world.props p.1.propName with
  | none =>
    rw [hold] at hload
    exact .inl ⟨rfl, eval_bind_none happ2 hload⟩
  | some old =>
    rw [hold] at hload
    rw [Option.bind_some]
    have hg0 := Grows.temp k t old
    -- the arm or the old value, under the name of the new `if`
    have hvalue : ∃ x : Option (V × Store V),
        evalValue meaning (.ifValue cond copies
          [.mk (tempName k1) (.loadConst (.ref (tempName k)))] []) (t.bind (tempName k) old) = x ∧
        x.map Prod.fst = (if eff then armValue meaning p.1 p.2 else some old) ∧
        ∀ r, x = some r → r.2.world = t.world ∧ KeepsOld k t r.2 := by
      obtain ⟨c, hc, htruthy⟩ := Option.bind_eq_some_iff.1 (hcond.later hg0).truth
      refine ⟨_, rfl, ?_, ?_⟩
      · rw [evalValue, hc]
        show Option.map Prod.fst ((meaning.truthy c).bind fun b => _) = _
        rw [htruthy, Option.bind_some]
        cases eff with
        | false =>
          rw [if_neg Bool.false_ne_true, if_neg Bool.false_ne_true, evalBindings, evalValue,
            names_bind_self]
          rfl
        | true =>
          have hr := (hready rfl).later hg0 rfl
          obtain ⟨bound, hren, hcopy⟩ := hr.copies
          have hcopied := hrel meaning.nothing hr.pure hren hcopy fun n hn => hn
          rw [if_pos rfl, if_pos rfl, armValue_eq hr.last]
          generalize evalBindings meaning p.1.valueBindings meaning.nothing p.2 = y at hcopied
          generalize evalBindings meaning copies meaning.nothing _ = z at hcopied
          cases hcopied with
          | none => rfl
          | some h' => exact congrArg some h'.1.symm
      · intro r hr
        rw [evalValue, hc] at hr
        change ((meaning.truthy c).bind fun b => _) = some r at hr
        rw [htruthy, Option.bind_some] at hr
        cases eff with
        | false =>
          rw [if_neg Bool.false_ne_true, evalBindings, evalValue, names_bind_self] at hr
          change evalBindings meaning [] old _ = some r at hr
          rw [evalBindings] at hr
          cases hr
          exact ⟨rfl, hg0.keeps.trans
            (.bind_temp _ (Nat.le_trans (Nat.le_succ k) hk1) old)⟩
        | true =>
          have hr' := (hready rfl).later hg0 rfl
          obtain ⟨bound, hren, hcopy⟩ := hr'.copies
          have hcopied := hrel meaning.nothing hr'.pure hren hcopy fun n hn => hn
          rw [if_pos rfl] at hr
          rw [hr] at hcopied
          generalize evalBindings meaning p.1.valueBindings meaning.nothing p.2 = y at hcopied
          cases hcopied with
          | some h' => exact ⟨h'.2.1, hg0.keeps.trans (h'.2.2.mono (Nat.le_succ k))⟩
    obtain ⟨x, hx, hfst, hkept⟩ := hvalue
    have hif : eval meaning (pushFresh (.ifValue cond copies
        [.mk (tempName k1) (.loadConst (.ref (tempName k)))] [])) (k1 + 1)
        (t.bind (tempName k) old) =
        x.map fun r => (tempName (k1 + 1), k1 + 2, r.2.bind (tempName (k1 + 1)) r.1) := by
      rw [eval_pushFresh, runBinding, ANFBinding.value_mk, ANFBinding.name_mk, hx, Option.map_map]
      rfl
    have hrun : eval meaning (pushUpdate map p.1 cond) k t =
        eval meaning (do
          let condIfRef ← pushFresh
            (.ifValue cond copies [.mk (tempName k1) (.loadConst (.ref (tempName k)))] [])
          let _ ← pushFresh (.updateProp p.1.propName condIfRef)) (k1 + 1)
          (t.bind (tempName k) old) := by
      refine (eval_bind_some happ2 hload).trans ?_
      refine (eval_bind_some (happ3 _) (hcopies _)).trans ?_
      exact eval_bind_some (happ4 _ _) (eval_fresh _ _)
    rw [← hfst]
    cases x with
    | none =>
      refine .inl ⟨rfl, ?_⟩
      rw [hrun]
      exact eval_bind_none happ5 hif
    | some r =>
      obtain ⟨v, t2⟩ := r
      obtain ⟨hworld, hkeep⟩ := hkept (v, t2) rfl
      have hk : k ≤ k1 + 1 := Nat.le_trans (Nat.le_succ k) (Nat.le_trans hk1 (Nat.le_succ k1))
      have hupdate : eval meaning (pushFresh (.updateProp p.1.propName (tempName (k1 + 1))))
          (k1 + 2) (t2.bind (tempName (k1 + 1)) v) =
          some (tempName (k1 + 2), k1 + 3, ((t2.bind (tempName (k1 + 1)) v).withWorld
            (t2.world.update p.1.propName v)).bind (tempName (k1 + 2)) meaning.nothing) := by
        rw [eval_pushFresh, runBinding, ANFBinding.value_mk, ANFBinding.name_mk, evalValue,
          names_bind_self]
        rfl
      refine .inr ⟨v, k1 + 3, ((t2.bind (tempName (k1 + 1)) v).withWorld
        (t2.world.update p.1.propName v)).bind (tempName (k1 + 2)) meaning.nothing, rfl, ?_,
        ⟨by omega, ?_⟩, ?_⟩
      · refine hrun.trans ((eval_bind_some happ5 hif).trans ?_)
        exact (eval_bind_some (fun _ => appends_pure _) hupdate).trans (eval_pure _ _ _)
      · have h1 := hkeep.trans (.bind_temp t2 hk v)
        exact h1.trans (.bind_temp ((t2.bind (tempName (k1 + 1)) v).withWorld
          (t2.world.update p.1.propName v)) (Nat.le_succ_of_le hk) meaning.nothing)
      · show (t2.world.update p.1.propName v).effect = _
        rw [effect_update_eq, hworld]

/-- Whether the arms are taken, in order. -/
def effsAll : Bool → List (Arm V) → List Bool
  | _, [] => []
  | free, arm :: rest => (free && arm.taken) :: effsAll (free && !arm.cond.getD false) rest

/-- The updates of all arms are those of the flat form. -/
theorem eval_pushUpdates (map : List (String × String)) {ps : List (UpdateBranch × Store V)}
    {arms : List (Arm V)} {free : Bool} {k : Nat} {t : Store V} {conds : List String}
    (harms : armsAt meaning ps = some arms) (hlast : LastOnly (arms.map Arm.cond))
    (hready : free = true → ∀ p ∈ ps, Ready k map t p)
    (hconds : List.Forall₂ (Holds meaning k t) conds (effsAll free arms)) :
    (assignAll free arms t.world.props = none ∧
      eval meaning (pushUpdates map ((ps.map Prod.fst).zip conds)) k t = none) ∨
    ∃ props' k' t', assignAll free arms t.world.props = some props' ∧
      eval meaning (pushUpdates map ((ps.map Prod.fst).zip conds)) k t = some ((), k', t') ∧
      Grows k t k' t' ∧ t'.world.effect = (props', t.world.outputs) := by
  induction ps generalizing arms free k t conds with
  | nil =>
    cases harms
    exact .inr ⟨t.world.props, k, t, rfl, eval_pure _ _ _, .refl k t, rfl⟩
  | cons p ps ih =>
    obtain ⟨c, hc, harms⟩ := Option.bind_eq_some_iff.1 harms
    obtain ⟨rest, hrest, rfl⟩ := Option.map_eq_some_iff.1 harms
    rw [effsAll] at hconds
    obtain ⟨cond, more, hcond, hmore, rfl⟩ := List.forall₂_cons_right_iff.1 hconds
    have happ : ∀ _ : Unit, Appends (pushUpdates map ((ps.map Prod.fst).zip more)) :=
      fun _ => appends_pushUpdates map _
    have hone := eval_pushUpdate map p hcond fun heff => by
      rw [Bool.and_eq_true] at heff
      exact hready heff.1 p List.mem_cons_self
    rw [assignAll]
    dsimp only
    rcases hone with ⟨hnone, heval⟩ | ⟨v, k1, t1, hv, heval, hg1, heffect⟩
    · refine .inl ⟨?_, eval_bind_none happ heval⟩
      rw [← Option.bind_assoc, hnone, Option.bind_none]
    · have hprops : t1.world.props = setProp t.world.props p.1.propName v :=
        (Prod.ext_iff.1 heffect).1
      have houtputs : t1.world.outputs = t.world.outputs := (Prod.ext_iff.1 heffect).2
      have hnext : (free && !c.getD false) = true → ∀ q ∈ ps, Ready k1 map t1 q := by
        intro hfree q hq
        rw [Bool.and_eq_true, Bool.not_eq_true'] at hfree
        -- the arms to come still see the state before the chain
        cases c with
        | none =>
          cases rest with
          | cons arm rest => cases hlast.1
          | nil =>
            cases ps with
            | nil => exact absurd hq List.not_mem_nil
            | cons q' ps =>
              obtain ⟨c', -, hrest⟩ := Option.bind_eq_some_iff.1 hrest
              obtain ⟨rest', -, heq⟩ := Option.map_eq_some_iff.1 hrest
              cases heq
        | some b =>
          rw [Option.getD_some] at hfree
          refine (hready hfree.1 q (List.mem_cons_of_mem _ hq)).later hg1 ?_
          obtain ⟨old, hold, hv⟩ := Option.bind_eq_some_iff.1 hv
          rw [Arm.taken, Option.getD_some, hfree.2, Bool.and_false,
            if_neg Bool.false_ne_true] at hv
          cases hv
          rw [heffect, setProp_self hold]
          rfl
      rw [← Option.bind_assoc, hv, Option.bind_some]
      rcases ih hrest hlast.tail hnext (holds_all_later hmore hg1) with ⟨hnone, heval'⟩ |
        ⟨props', k2, t2, hsome, heval', hg2, heffect'⟩
      · refine .inl ⟨by rw [← hprops, hnone], ?_⟩
        exact (eval_bind_some happ heval).trans heval'
      · refine .inr ⟨props', k2, t2, by rw [← hprops, hsome], ?_, hg1.trans hg2, ?_⟩
        · exact (eval_bind_some happ heval).trans heval'
        · rw [heffect', houtputs]

end Runar.AnfLower
