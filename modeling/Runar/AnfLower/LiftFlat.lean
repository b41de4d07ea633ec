/-
  AnfLower/LiftFlat.lean --- the rewritten chain as a whole.

  WHAT THIS FILE IS FOR.  A rewritten chain evaluates the conditions of all arms, asserts that
  some arm is taken, and updates the properties of all arms in turn.  It aborts where a condition
  cannot be evaluated, and otherwise does what the flat form of the arms does.
-/
import Runar.AnfLower.LiftTree

set_option autoImplicit false

namespace Runar.AnfLower

open Anf LiftM

variable {V : Type} {meaning : Meaning V}

/-! ## The rewritten chain -/

/-- The assertion that some arm is taken, of a chain without a final else. -/
def assertTaken (branches : List UpdateBranch) (condRefs : List (Option String)) : LiftM Unit :=
  if (branches.getLast?.bind (·.condRef)).isSome then do
    let orRef ← orAll ((condRefs.headD none).getD "") (condRefs.tail.filterMap id)
    let _ ← pushFresh (.assert orRef)
  else pure ()

theorem appends_assertTaken (branches : List UpdateBranch) (condRefs : List (Option String)) :
    Appends (assertTaken branches condRefs) := by
  rw [assertTaken]
  split
  · exact (appends_orAll _ _).bind fun _ => (appends_pushFresh _).bind fun _ => appends_pure _
  · exact appends_pure _

theorem liftChain_eq (branches : List UpdateBranch) :
    liftChain branches = hoistConditions branches [] >>= fun r =>
      effectiveConds [] r.1 >>= fun conds => assertTaken branches r.1 >>= fun _ =>
        pushUpdates r.2 (branches.zip ((r.1.headD none).getD "" :: conds)) := by
  rw [liftChain]
  refine congrArg (fun f => hoistConditions branches [] >>= f) (funext fun r => ?_)
  obtain ⟨condRefs, nameMap⟩ := r
  refine congrArg (fun f => effectiveConds [] condRefs >>= f) (funext fun conds => ?_)
  rw [assertTaken]
  by_cases h : (branches.getLast?.bind (·.condRef)).isSome = true
  · rw [if_pos h, if_pos h]
    rfl
  · rw [if_neg h, if_neg h]
    rfl

theorem isSome_of_condsOf {refs : List (Option String)} {bs : List (Option Bool)} {t : Store V}
    (h : condsOf meaning t refs = some bs) :
    bs.map Option.isSome = refs.map Option.isSome := by
  induction refs generalizing bs with
  | nil =>
    cases h
    rfl
  | cons ref refs ih =>
    obtain ⟨c, hc, h⟩ := Option.bind_eq_some_iff.1 h
    obtain ⟨bs, hbs, rfl⟩ := Option.map_eq_some_iff.1 h
    rw [List.map_cons, List.map_cons, ih hbs]
    cases ref with
    | none =>
      cases hc
      rfl
    | some r =>
      obtain ⟨b, -, rfl⟩ := Option.map_eq_some_iff.1 hc
      rfl

/-- The conditions that are there, with their truth values. -/
theorem holds_of_condsOf {refs : List (Option String)} {bs : List (Option Bool)} {k : Nat}
    {t : Store V} (h : condsOf meaning t refs = some bs) (hold : ∀ r, some r ∈ refs → Old k r)
    (hsome : ∀ b ∈ refs.map Option.isSome, b = true) :
    List.Forall₂ (Holds meaning k t) (refs.filterMap id) (bs.map (·.getD true)) := by
  induction refs generalizing bs with
  | nil =>
    cases h
    exact .nil
  | cons ref refs ih =>
    obtain ⟨c, hc, h⟩ := Option.bind_eq_some_iff.1 h
    obtain ⟨bs, hbs, rfl⟩ := Option.map_eq_some_iff.1 h
    rw [List.map_cons] at hsome
    obtain ⟨r, rfl⟩ := Option.isSome_iff_exists.1 (hsome _ List.mem_cons_self)
    obtain ⟨b, hb, rfl⟩ := Option.map_eq_some_iff.1 hc
    rw [List.filterMap_cons_some (f := id) rfl, List.map_cons, Option.getD_some]
    exact .cons ⟨hold r List.mem_cons_self, hb⟩ (ih hbs
      (fun r hr => hold r (List.mem_cons_of_mem _ hr))
      fun b hb => hsome b (List.mem_cons_of_mem _ hb))

theorem LastOnly.all {α : Type} {l : List (Option α)} (h : LastOnly l)
    (hlast : (l.getLast?.bind id).isSome) : ∀ c ∈ l, c.isSome = true := by
  induction l with
  | nil => exact fun c hc => absurd hc List.not_mem_nil
  | cons c l ih =>
    cases l with
    | nil =>
      intro d hd
      cases List.mem_singleton.1 hd
      exact hlast
    | cons d l =>
      rw [List.getLast?_cons_cons] at hlast
      intro e he
      rcases List.mem_cons.1 he with rfl | he
      · exact h.1
      · exact ih h.2 hlast e he

/-- The assertion fails exactly where no arm is taken. -/
theorem eval_assertTaken (hl : Logical meaning) {branches : List UpdateBranch}
    {refs : List (Option String)} {bs : List (Option Bool)} {k : Nat} {t : Store V}
    (hne : branches ≠ []) (hlast : LastOnly (branches.map UpdateBranch.condRef))
    (hsome : refs.map Option.isSome = branches.map fun branch => branch.condRef.isSome)
    (hold : ∀ r, some r ∈ refs → Old k r) (hbs : condsOf meaning t refs = some bs) :
    ((bs.any (·.getD true)) = false ∧ eval meaning (assertTaken branches refs) k t = none) ∨
    ((bs.any (·.getD true)) = true ∧ ∃ k' t',
      eval meaning (assertTaken branches refs) k t = some ((), k', t') ∧ Grows k t k' t' ∧
      t'.world = t.world) := by
  have hisSome := isSome_of_condsOf hbs
  have hlast' : (branches.map UpdateBranch.condRef).getLast?.bind id =
      branches.getLast?.bind (·.condRef) := by
    rw [List.getLast?_map]
    cases branches.getLast? with
    | none => rfl
    | some branch => rfl
  rw [assertTaken]
  by_cases hguard : (branches.getLast?.bind (·.condRef)).isSome = true
  · rw [if_pos hguard]
    have hall : ∀ b ∈ refs.map Option.isSome, b = true := by
      rw [hsome]
      intro b hb
      obtain ⟨branch, hmem, rfl⟩ := List.mem_map.1 hb
      exact hlast.all (hlast'.symm ▸ hguard) _ (List.mem_map_of_mem hmem)
    have hholds := holds_of_condsOf hbs hold hall
    cases refs with
    | nil =>
      rw [List.map_nil] at hsome
      exact absurd (List.map_eq_nil_iff.1 hsome.symm) hne
    | cons ref refs =>
      rw [List.map_cons] at hall
      obtain ⟨r, rfl⟩ := Option.isSome_iff_exists.1 (hall _ List.mem_cons_self)
      rw [List.filterMap_cons_some (f := id) rfl] at hholds
      have happ : ∀ orRef, Appends (do let _ ← pushFresh (.assert orRef)) := fun _ =>
        (appends_pushFresh _).bind fun _ => appends_pure _
      obtain ⟨b, more, hr, hmore, heq⟩ := List.forall₂_cons_left_iff.1 hholds
      obtain ⟨orRef, k1, t1, heval, hg1, hworld1, hor⟩ := eval_orAll hl hr hmore
      have hany : (b || more.any id) = bs.any (·.getD true) := by
        have hcons : (b || more.any id) = (b :: more).any id := rfl
        rw [hcons, ← heq, List.any_map]
        rfl
      rw [hany] at hor
      have hassert : eval meaning (pushFresh (.assert orRef)) k1 t1 =
          if bs.any (·.getD true) then
            some (tempName k1, k1 + 1, t1.bind (tempName k1) meaning.nothing) else none := by
        obtain ⟨x, hx, htruthy⟩ := Option.bind_eq_some_iff.1 hor.truth
        rw [eval_pushFresh, runBinding, ANFBinding.value_mk, ANFBinding.name_mk, evalValue, hx]
        show (((meaning.truthy x).bind fun b => _).map _).map _ = _
        rw [htruthy, Option.bind_some]
        cases bs.any (·.getD true) with
        | false => rfl
        | true => rfl
      have hrun : eval meaning (orAll ((((some r) :: refs).headD none).getD "")
          (((some r) :: refs).tail.filterMap id)) k t = some (orRef, k1, t1) := heval
      cases hcase : bs.any (·.getD true) with
      | false =>
        rw [hcase, if_neg Bool.false_ne_true] at hassert
        refine .inl ⟨rfl, (eval_bind_some happ hrun).trans ?_⟩
        exact eval_bind_none (fun _ => appends_pure _) hassert
      | true =>
        rw [hcase, if_pos rfl] at hassert
        refine .inr ⟨rfl, k1 + 1, t1.bind (tempName k1) meaning.nothing, ?_,
          hg1.trans (.temp k1 t1 _), hworld1⟩
        refine (eval_bind_some happ hrun).trans ?_
        exact (eval_bind_some (fun _ => appends_pure _) hassert).trans (eval_pure _ _ _)
  · rw [if_neg hguard]
    refine .inr ⟨?_, k, t, eval_pure _ _ _, .refl k t, rfl⟩
    -- the last arm is a final else
    obtain ⟨last, hget⟩ : ∃ last, branches.getLast? = some last :=
      Option.isSome_iff_exists.1 (by rw [List.getLast?_isSome]; exact hne)
    rw [hget, Option.bind_some, Bool.not_eq_true, Option.isSome_eq_false_iff] at hguard
    have hmem : false ∈ bs.map Option.isSome := by
      rw [hisSome, hsome]
      refine List.mem_map.2 ⟨last, List.mem_of_getLast? hget, ?_⟩
      rw [Option.isSome_eq_false_iff]
      exact hguard
    obtain ⟨c, hc, hnone⟩ := List.mem_map.1 hmem
    refine List.any_eq_true.2 ⟨c, hc, ?_⟩
    cases c with
    | none => rfl
    | some b => cases hnone

theorem effsAll_eq (free : Bool) (arm : Arm V) (rest : List (Arm V)) :
    effsAll free (arm :: rest) =
      (free && arm.taken) :: effs free ((arm :: rest).map Arm.cond) := by
  induction rest generalizing free arm with
  | nil => rfl
  | cons next rest ih =>
    rw [effsAll, ih]
    rfl

/-- The rewritten chain aborts where a condition cannot be evaluated, and otherwise does what
the flat form of the arms does. -/
theorem eval_liftChain (hl : Logical meaning) {branches : List UpdateBranch}
    {D : String → Prop} {k : Nat} {s t : Store V} (htwo : 2 ≤ branches.length)
    (hlast : LastOnly (branches.map UpdateBranch.condRef)) (hwithin : Within D branches)
    (hcopy : CopySafe (fun _ => False) branches)
    (h : Renames k D (fun _ => False) [] s t) :
    (((armsOf meaning branches s).bind fun arms => flat arms s.world.props) = none ∧
      eval meaning (liftChain branches) k t = none) ∨
    ∃ props' k' t', ((armsOf meaning branches s).bind fun arms => flat arms s.world.props) =
        some props' ∧
      eval meaning (liftChain branches) k t = some ((), k', t') ∧ Grows k t k' t' ∧
      t'.world.effect = (props', s.world.outputs) := by
  have hprops : s.world.props = t.world.props := (Prod.ext_iff.1 h.effect).1
  have houtputs : s.world.outputs = t.world.outputs := (Prod.ext_iff.1 h.effect).2
  have happ3 : ∀ (r : List (Option String) × List (String × String)) (conds : List String)
      (_ : Unit), Appends (pushUpdates r.2
        (branches.zip ((r.1.headD none).getD "" :: conds))) :=
    fun r conds _ => appends_pushUpdates _ _
  have happ2 : ∀ (r : List (Option String) × List (String × String)) (conds : List String),
      Appends (assertTaken branches r.1 >>= fun _ => pushUpdates r.2
        (branches.zip ((r.1.headD none).getD "" :: conds))) :=
    fun r conds => (appends_assertTaken _ _).bind (happ3 r conds)
  have happ1 : ∀ r : List (Option String) × List (String × String),
      Appends (effectiveConds [] r.1 >>= fun conds => assertTaken branches r.1 >>= fun _ =>
        pushUpdates r.2 (branches.zip ((r.1.headD none).getD "" :: conds))) :=
    fun r => (appends_effectiveConds _ _).bind (happ2 r)
  rw [liftChain_eq, armsOf]
  rcases @eval_hoistConditions V meaning branches k D _ [] s t hwithin hcopy h with ⟨hnone, heval⟩ |
    ⟨ps, refs, map, k1, t1, hps, heval, hg1, hworld1, hready, hconds, hold, hsome, hfst, -⟩
  · refine .inl ⟨?_, eval_bind_none happ1 heval⟩
    rw [hnone, Option.bind_none, Option.bind_none]
  · rw [hps, Option.bind_some, eval_bind_some happ1 heval]
    have hlastRefs : LastOnly refs := lastOnly_of_isSome (by
      rw [hsome, List.map_map]
      rfl) hlast
    -- there are two arms at least, so the first has a condition
    obtain ⟨r0, r1, more, rfl⟩ : ∃ r0 r1 more, refs = some r0 :: r1 :: more := by
      have hlength : refs.length = branches.length := by
        have := congrArg List.length hsome
        rwa [List.length_map, List.length_map] at this
      cases refs with
      | nil =>
        rw [← hlength] at htwo
        cases htwo
      | cons ref refs =>
        cases refs with
        | nil =>
          rw [← hlength, List.length_singleton] at htwo
          exact absurd htwo (by decide)
        | cons r1 more =>
          obtain ⟨r0, rfl⟩ := Option.isSome_iff_exists.1 hlastRefs.1
          exact ⟨r0, r1, more, rfl⟩
    have hnoConds : condsOf meaning t1 (some r0 :: r1 :: more) = none →
        eval meaning (effectiveConds [] (some r0 :: r1 :: more)) k1 t1 = none →
        ((armsAt meaning ps).bind fun arms => flat arms s.world.props) = none ∧
        eval meaning (effectiveConds [] (some r0 :: r1 :: more) >>= fun conds =>
          assertTaken branches (some r0 :: r1 :: more) >>= fun _ =>
          pushUpdates map (branches.zip ((((some r0 :: r1 :: more).headD none).getD "") ::
            conds))) k1 t1 = none := by
      intro hnone heval2
      rw [hconds, Option.map_eq_none_iff] at hnone
      exact ⟨by rw [hnone, Option.bind_none],
        eval_bind_none (happ2 (some r0 :: r1 :: more, map)) heval2⟩
    cases hhead : truthOf meaning t1 r0 with
    | none =>
      refine .inl (hnoConds ?_ ?_)
      · rw [condsOf, condOf, hhead]
        rfl
      · rw [effectiveConds_some]
        refine eval_bind_none (fun neg => (appends_andAll _ _).bind fun _ =>
          (appends_ownCond _ r1).bind fun _ =>
            (appends_effectiveConds (r1 :: more) _).bind fun _ => appends_pure _) ?_
        rw [eval_not hl, hhead]
        rfl
    | some b0 =>
      rcases eval_effectiveConds hl (k := k1) (t := t1) hlastRefs hold .nil (fun c hc => by
          cases hc
          exact ⟨some b0, by rw [condOf, hhead]; rfl⟩) with ⟨hnone, heval2⟩ |
        ⟨bs, conds, k2, t2, hbs, heval2, hg2, hworld2, hholds⟩
      · exact .inl (hnoConds hnone heval2)
      · rw [eval_bind_some (happ2 (some r0 :: r1 :: more, map)) heval2]
        rw [hconds] at hbs
        obtain ⟨arms, harms, rfl⟩ := Option.map_eq_some_iff.1 hbs
        rw [harms, Option.bind_some, flat]
        have hne : branches ≠ [] := by
          rintro rfl
          cases htwo
        have hbs2 : condsOf meaning t2 (some r0 :: r1 :: more) = some (arms.map Arm.cond) := by
          rw [condsOf_later hold hg2, hconds, harms]
          rfl
        have hany : (arms.map Arm.cond).any (·.getD true) = arms.any Arm.taken := by
          rw [List.any_map]
          rfl
        rcases eval_assertTaken hl hne hlast hsome (fun r hr => (hold r hr).mono hg2.le) hbs2 with
          ⟨hfalse, heval3⟩ | ⟨htrue, k3, t3, heval3, hg3, hworld3⟩
        · refine .inl ⟨?_, eval_bind_none (happ3 (some r0 :: r1 :: more, map) conds) heval3⟩
          rw [← hany, hfalse, if_neg Bool.false_ne_true]
        · rw [← hany, htrue, if_pos rfl,
            eval_bind_some (happ3 (some r0 :: r1 :: more, map) conds) heval3]
          have hg23 := hg2.trans hg3
          have hworld : t3.world = t.world := by rw [hworld3, hworld2, hworld1]
          have hlastArms : LastOnly (arms.map Arm.cond) :=
            lastOnly_of_isSome (isSome_of_condsOf hbs2) hlastRefs
          -- the first arm's own condition is its effective condition
          have hall : List.Forall₂ (Holds meaning k3 t3) (r0 :: conds) (effsAll true arms) := by
            cases arms with
            | nil =>
              cases isSome_of_condsOf hbs2
            | cons arm rest =>
              rw [effsAll_eq]
              refine .cons ⟨(hold r0 List.mem_cons_self).mono hg23.le, ?_⟩
                (holds_all_later hholds hg3)
              rw [truthOf_later (hold r0 List.mem_cons_self) hg23, hhead]
              have hc : condsOf meaning t1 (some r0 :: r1 :: more) =
                  some ((arm :: rest).map Arm.cond) := by
                rw [hconds, harms]
                rfl
              rw [condsOf, condOf, hhead] at hc
              obtain ⟨cs, -, hcs⟩ := Option.map_eq_some_iff.1 hc
              rw [List.map_cons] at hcs
              injection hcs with hcond
              rw [Arm.taken, ← hcond, Option.getD_some, Bool.true_and]
          rcases eval_pushUpdates map harms hlastArms
            (fun _ p hp => (hready p hp).later hg23 (by rw [hworld, hworld1])) hall with
            ⟨hnone, heval4⟩ | ⟨props', k4, t4, hsome4, heval4, hg4, heffect⟩
          · rw [hworld, ← hprops] at hnone
            rw [hfst] at heval4
            exact .inl ⟨hnone, heval4⟩
          · rw [hworld, ← hprops] at hsome4
            rw [hfst] at heval4
            refine .inr ⟨props', k4, t4, hsome4, heval4, (hg1.trans hg23).trans hg4, ?_⟩
            rw [heffect, hworld, houtputs]

end Runar.AnfLower
