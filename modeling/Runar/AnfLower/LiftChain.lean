/-
  AnfLower/LiftChain.lean --- what a rewritten chain does.

  WHAT THIS FILE IS FOR.  The rewritten chain evaluates the conditions of all arms, then gives
  every arm's property a value in turn.  This file follows the actions that write it, and shows
  that they do what the flat form does with the conditions and values of the arms.
-/
import Runar.AnfLower.LiftHoist
import Runar.AnfLower.LiftArms
import Mathlib.Data.List.Forall2

set_option autoImplicit false

namespace Runar.AnfLower

open Anf LiftM

variable {V : Type} {meaning : Meaning V}

/-- `!`, `&&` and `||` act on truth values, which the boolean constants are. -/
structure Logical (meaning : Meaning V) : Prop where
  truthy : ∀ b : Bool, meaning.truthy (meaning.const (.const (.boolean b))) = some b
  not : ∀ x : V, meaning.unaryOp .not false x =
    (meaning.truthy x).map fun b => meaning.const (.const (.boolean !b))
  and : ∀ x y : V, meaning.binOp .and false x y =
    (meaning.truthy x).bind fun a => (meaning.truthy y).map fun b =>
      meaning.const (.const (.boolean (a && b)))
  or : ∀ x y : V, meaning.binOp .or false x y =
    (meaning.truthy x).bind fun a => (meaning.truthy y).map fun b =>
      meaning.const (.const (.boolean (a || b)))

/-! ## Steps of the actions -/

section Steps

variable {α β : Type}

theorem eval_bind_some {m : LiftM α} {f : α → LiftM β} (hf : ∀ a, Appends (f a)) {k k' : Nat}
    {t t' : Store V} {a : α} (h : eval meaning m k t = some (a, k', t')) :
    eval meaning (m >>= f) k t = eval meaning (f a) k' t' := by
  rw [eval_bind m hf, h, Option.bind_some]

theorem eval_bind_none {m : LiftM α} {f : α → LiftM β} (hf : ∀ a, Appends (f a)) {k : Nat}
    {t : Store V} (h : eval meaning m k t = none) : eval meaning (m >>= f) k t = none := by
  rw [eval_bind m hf, h, Option.bind_none]

/-- Only new temporaries were bound. -/
structure Grows (k : Nat) (t : Store V) (k' : Nat) (t' : Store V) : Prop where
  le : k ≤ k'
  keeps : KeepsOld k t t'

namespace Grows

variable {k k' k'' : Nat} {t t' t'' : Store V}

theorem refl (k : Nat) (t : Store V) : Grows k t k t := ⟨Nat.le_refl k, .refl k t⟩

theorem trans (h : Grows k t k' t') (h' : Grows k' t' k'' t'') : Grows k t k'' t'' :=
  ⟨Nat.le_trans h.le h'.le, h.keeps.trans (h'.keeps.mono h.le)⟩

theorem temp (k : Nat) (t : Store V) (value : V) :
    Grows k t (k + 1) (t.bind (tempName k) value) :=
  ⟨Nat.le_succ k, .bind_temp t (Nat.le_refl k) value⟩

end Grows

end Steps

/-! ## Truth values -/

section Truth

/-- The truth value of a name. -/
def truthOf (meaning : Meaning V) (t : Store V) (r : String) : Option Bool :=
  (t.names r).bind meaning.truthy

/-- The truth value of the condition of an arm, if it has one. -/
def condOf (meaning : Meaning V) (t : Store V) : Option String → Option (Option Bool)
  | none => some none
  | some r => (truthOf meaning t r).map some

def condsOf (meaning : Meaning V) (t : Store V) :
    List (Option String) → Option (List (Option Bool))
  | [] => some []
  | ref :: refs => (condOf meaning t ref).bind fun c => (condsOf meaning t refs).map (c :: ·)

/-- A name has a truth value, and keeps it. -/
structure Holds (meaning : Meaning V) (k : Nat) (t : Store V) (r : String) (b : Bool) : Prop where
  old : Old k r
  truth : truthOf meaning t r = some b

variable {k k' : Nat} {t t' : Store V}

theorem truthOf_later {r : String} (hr : Old k r) (h : Grows k t k' t') :
    truthOf meaning t' r = truthOf meaning t r := by
  rw [truthOf, truthOf, h.keeps r hr]

theorem Holds.later {r : String} {b : Bool} (h : Holds meaning k t r b)
    (hg : Grows k t k' t') : Holds meaning k' t' r b :=
  ⟨h.old.mono hg.le, (truthOf_later h.old hg).trans h.truth⟩

theorem holds_all_later {refs : List String} {bs : List Bool}
    (h : List.Forall₂ (Holds meaning k t) refs bs) (hg : Grows k t k' t') :
    List.Forall₂ (Holds meaning k' t') refs bs := h.imp fun _ _ hr => hr.later hg

theorem condOf_later {ref : Option String} (hold : ∀ r, ref = some r → Old k r)
    (hg : Grows k t k' t') : condOf meaning t' ref = condOf meaning t ref := by
  cases ref with
  | none => rfl
  | some r => rw [condOf, condOf, truthOf_later (hold r rfl) hg]

theorem condsOf_later {refs : List (Option String)} (hold : ∀ r, some r ∈ refs → Old k r)
    (hg : Grows k t k' t') : condsOf meaning t' refs = condsOf meaning t refs := by
  induction refs with
  | nil => rfl
  | cons ref refs ih =>
    rw [condsOf, condsOf, ih fun r hr => hold r (List.mem_cons_of_mem _ hr),
      condOf_later (fun r hr => hold r (hr ▸ List.mem_cons_self)) hg]

theorem holds_temp (hl : Logical meaning) (k : Nat) (t : Store V) (b : Bool) :
    Holds meaning (k + 1) (t.bind (tempName k) (meaning.const (.const (.boolean b))))
      (tempName k) b := by
  refine ⟨old_tempName (Nat.lt_succ_self k), ?_⟩
  rw [truthOf, names_bind_self, Option.bind_some, hl.truthy]

theorem eval_not (hl : Logical meaning) (k : Nat) (t : Store V) (r : String) :
    eval meaning (pushFresh (.unaryOp .not r false)) k t =
      (truthOf meaning t r).map fun b =>
        (tempName k, k + 1, t.bind (tempName k) (meaning.const (.const (.boolean !b)))) := by
  rw [eval_pushFresh, runBinding, ANFBinding.value_mk, ANFBinding.name_mk, evalValue, truthOf]
  cases t.names r with
  | none => rfl
  | some x =>
    show (((meaning.unaryOp .not false x).map fun v => (v, t)).map _).map _ = _
    rw [hl.not, Option.bind_some]
    cases meaning.truthy x with
    | none => rfl
    | some b => rfl

theorem eval_and (hl : Logical meaning) {a : Bool} {l : String} (h : truthOf meaning t l = some a)
    (r : String) :
    eval meaning (pushFresh (.binOp .and l r false)) k t =
      (truthOf meaning t r).map fun b =>
        (tempName k, k + 1, t.bind (tempName k) (meaning.const (.const (.boolean (a && b))))) := by
  obtain ⟨x, hx, ha⟩ := Option.bind_eq_some_iff.1 h
  rw [eval_pushFresh, runBinding, ANFBinding.value_mk, ANFBinding.name_mk, evalValue, truthOf, hx]
  cases t.names r with
  | none => rfl
  | some y =>
    show (((meaning.binOp .and false x y).map fun v => (v, t)).map _).map _ = _
    rw [hl.and, ha, Option.bind_some, Option.bind_some]
    cases meaning.truthy y with
    | none => rfl
    | some b => rfl

theorem eval_or (hl : Logical meaning) {a : Bool} {l : String} (h : truthOf meaning t l = some a)
    (r : String) :
    eval meaning (pushFresh (.binOp .or l r false)) k t =
      (truthOf meaning t r).map fun b =>
        (tempName k, k + 1, t.bind (tempName k) (meaning.const (.const (.boolean (a || b))))) := by
  obtain ⟨x, hx, ha⟩ := Option.bind_eq_some_iff.1 h
  rw [eval_pushFresh, runBinding, ANFBinding.value_mk, ANFBinding.name_mk, evalValue, truthOf, hx]
  cases t.names r with
  | none => rfl
  | some y =>
    show (((meaning.binOp .or false x y).map fun v => (v, t)).map _).map _ = _
    rw [hl.or, ha, Option.bind_some, Option.bind_some]
    cases meaning.truthy y with
    | none => rfl
    | some b => rfl

theorem eval_andAll (hl : Logical meaning) {acc : String} {a : Bool} {refs : List String}
    {bs : List Bool} (hacc : Holds meaning k t acc a)
    (hrefs : List.Forall₂ (Holds meaning k t) refs bs) :
    ∃ ref k' t', eval meaning (andAll acc refs) k t = some (ref, k', t') ∧ Grows k t k' t' ∧
      t'.world = t.world ∧ Holds meaning k' t' ref (a && bs.all id) := by
  induction refs generalizing bs acc a k t with
  | nil =>
    cases hrefs
    refine ⟨acc, k, t, eval_pure _ _ _, .refl k t, rfl, ?_⟩
    rwa [List.all_nil, Bool.and_true]
  | cons r refs ih =>
    obtain ⟨b, bs, hr, hrest, rfl⟩ := List.forall₂_cons_left_iff.1 hrefs
    have hstep := (eval_and hl hacc.truth r (k := k)).trans (congrArg _ hr.truth)
    have hg := Grows.temp k t (meaning.const (.const (.boolean (a && b))))
    obtain ⟨ref, k', t', heval, hg', hworld, hholds⟩ :=
      ih (holds_temp hl k t (a && b)) (holds_all_later hrest hg)
    refine ⟨ref, k', t', ?_, hg.trans hg', hworld, ?_⟩
    · rw [andAll, eval_bind_some (fun next => appends_andAll refs next) hstep, heval]
    · rwa [List.all_cons, ← Bool.and_assoc]

theorem eval_orAll (hl : Logical meaning) {acc : String} {a : Bool} {refs : List String}
    {bs : List Bool} (hacc : Holds meaning k t acc a)
    (hrefs : List.Forall₂ (Holds meaning k t) refs bs) :
    ∃ ref k' t', eval meaning (orAll acc refs) k t = some (ref, k', t') ∧ Grows k t k' t' ∧
      t'.world = t.world ∧ Holds meaning k' t' ref (a || bs.any id) := by
  induction refs generalizing bs acc a k t with
  | nil =>
    cases hrefs
    refine ⟨acc, k, t, eval_pure _ _ _, .refl k t, rfl, ?_⟩
    rwa [List.any_nil, Bool.or_false]
  | cons r refs ih =>
    obtain ⟨b, bs, hr, hrest, rfl⟩ := List.forall₂_cons_left_iff.1 hrefs
    have hstep := (eval_or hl hacc.truth r (k := k)).trans (congrArg _ hr.truth)
    have hg := Grows.temp k t (meaning.const (.const (.boolean (a || b))))
    obtain ⟨ref, k', t', heval, hg', hworld, hholds⟩ :=
      ih (holds_temp hl k t (a || b)) (holds_all_later hrest hg)
    refine ⟨ref, k', t', ?_, hg.trans hg', hworld, ?_⟩
    · rw [orAll, eval_bind_some (fun next => appends_orAll refs next) hstep, heval]
    · rwa [List.any_cons, ← Bool.or_assoc]

/-- The effective conditions of the arms after the first. -/
def effs : Bool → List (Option Bool) → List Bool
  | _, [] => []
  | _, [_] => []
  | acc, prior :: own :: rest =>
      (acc && !prior.getD false && own.getD true) :: effs (acc && !prior.getD false) (own :: rest)

theorem eval_ownCond (hl : Logical meaning) (own : Option String) {andRef : String} {a : Bool}
    (hand : Holds meaning k t andRef a) :
    (condOf meaning t own = none ∧ eval meaning (ownCond andRef own) k t = none) ∨
    ∃ c cond k' t', condOf meaning t own = some c ∧
      eval meaning (ownCond andRef own) k t = some (cond, k', t') ∧ Grows k t k' t' ∧
      t'.world = t.world ∧ Holds meaning k' t' cond (a && c.getD true) := by
  cases own with
  | none =>
    refine .inr ⟨none, andRef, k, t, rfl, eval_pure _ _ _, .refl k t, rfl, ?_⟩
    rwa [Option.getD_none, Bool.and_true]
  | some o =>
    have hstep := eval_and hl hand.truth o (k := k)
    rw [condOf]
    cases htruth : truthOf meaning t o with
    | none =>
      rw [htruth] at hstep
      exact .inl ⟨rfl, hstep⟩
    | some b =>
      rw [htruth] at hstep
      exact .inr ⟨some b, _, _, _, rfl, hstep, .temp k t _, rfl, holds_temp hl k t (a && b)⟩

/-- The conditions of the arms after the first: an arm is taken if its own condition holds and
none of those before. -/
theorem eval_effectiveConds (hl : Logical meaning) {refs : List (Option String)}
    {negated : List String} {nbs : List Bool} (hlast : LastOnly refs)
    (hold : ∀ r, some r ∈ refs → Old k r) (hneg : List.Forall₂ (Holds meaning k t) negated nbs)
    (hhead : ∀ c, refs.head? = some c → ∃ b, condOf meaning t c = some b) :
    (condsOf meaning t refs = none ∧ eval meaning (effectiveConds negated refs) k t = none) ∨
    ∃ bs conds k' t', condsOf meaning t refs = some bs ∧
      eval meaning (effectiveConds negated refs) k t = some (conds, k', t') ∧ Grows k t k' t' ∧
      t'.world = t.world ∧
      List.Forall₂ (Holds meaning k' t') conds (effs (nbs.all id) bs) := by
  induction refs generalizing negated nbs k t with
  | nil => exact .inr ⟨[], [], k, t, rfl, eval_pure _ _ _, .refl k t, rfl, .nil⟩
  | cons prior refs ih =>
    obtain ⟨pb, hpb⟩ := hhead prior rfl
    cases refs with
    | nil =>
      refine .inr ⟨[pb], [], k, t, ?_, eval_pure _ _ _, .refl k t, rfl, .nil⟩
      rw [condsOf, hpb]
      rfl
    | cons own rest =>
      obtain ⟨p, rfl⟩ := Option.isSome_iff_exists.1 hlast.1
      obtain ⟨b, hb, rfl⟩ := Option.map_eq_some_iff.1 hpb
      have holdRest : ∀ r, some r ∈ own :: rest → Old k r := fun r hr =>
        hold r (List.mem_cons_of_mem _ hr)
      -- the condition before is negated, and with those before it no arm was taken
      have hnot := (eval_not hl k t p).trans (congrArg _ hb)
      have hg1 := Grows.temp k t (meaning.const (.const (.boolean !b)))
      have hneg1 : List.Forall₂ (Holds meaning (k + 1)
          (t.bind (tempName k) (meaning.const (.const (.boolean !b)))))
          (negated ++ [tempName k]) (nbs ++ [!b]) :=
        List.rel_append (holds_all_later hneg hg1) (.cons (holds_temp hl k t !b) .nil)
      have hall : (nbs ++ [!b]).all id = (nbs.all id && !b) := by
        rw [List.all_append, List.all_cons, List.all_nil, Bool.and_true]
        rfl
      have hand : ∃ ref k' t', eval meaning
          (andAll ((negated ++ [tempName k]).headD "") (negated ++ [tempName k]).tail) (k + 1)
          (t.bind (tempName k) (meaning.const (.const (.boolean !b)))) = some (ref, k', t') ∧
          Grows (k + 1) (t.bind (tempName k) (meaning.const (.const (.boolean !b)))) k' t' ∧
          t'.world = t.world ∧ Holds meaning k' t' ref (nbs.all id && !b) := by
        rw [← hall]
        have hne : negated ++ [tempName k] ≠ [] := List.append_ne_nil_of_right_ne_nil _
          (List.cons_ne_nil _ _)
        generalize negated ++ [tempName k] = ns at hneg1 hne
        generalize nbs ++ [!b] = bs at hneg1
        cases hneg1 with
        | nil => exact absurd rfl hne
        | cons hfirst hmore => exact eval_andAll hl hfirst hmore
      obtain ⟨andRef, k2, t2, heval2, hg2, hworld2, hholds2⟩ := hand
      have hg12 := hg1.trans hg2
      have happ3 : ∀ cond, Appends (do
          let conds ← effectiveConds (negated ++ [tempName k]) (own :: rest)
          pure (cond :: conds)) := fun cond =>
        (appends_effectiveConds (own :: rest) _).bind fun _ => appends_pure _
      have hrun : eval meaning (effectiveConds negated (some p :: own :: rest)) k t =
          eval meaning (ownCond andRef own >>= fun cond => do
            let conds ← effectiveConds (negated ++ [tempName k]) (own :: rest)
            pure (cond :: conds)) k2 t2 := by
        rw [effectiveConds_some, eval_bind_some (fun neg => (appends_andAll _ _).bind fun _ =>
          (appends_ownCond _ own).bind fun _ =>
            (appends_effectiveConds (own :: rest) _).bind fun _ => appends_pure _) hnot,
          eval_bind_some (fun _ => (appends_ownCond _ own).bind happ3) heval2]
      have hcondOwn : condOf meaning t2 own = condOf meaning t own :=
        condOf_later (fun r hr => holdRest r (hr ▸ List.mem_cons_self)) hg12
      rcases eval_ownCond hl own hholds2 with ⟨hnone, heval3⟩ |
        ⟨c, cond, k3, t3, hc, heval3, hg3, hworld3, hholds3⟩
      · refine .inl ⟨?_, by rw [hrun, eval_bind_none happ3 heval3]⟩
        rw [condsOf, hpb, condsOf, ← hcondOwn, hnone]
        rfl
      · have hg13 := hg12.trans hg3
        have hconds : condsOf meaning t3 (own :: rest) = condsOf meaning t (own :: rest) :=
          condsOf_later holdRest hg13
        rcases ih (k := k3) (t := t3) hlast.2 (fun r hr => (holdRest r hr).mono hg13.le)
          (holds_all_later hneg1 (hg2.trans hg3)) (fun d hd => by
            cases hd
            exact ⟨c, by
              rw [condOf_later (fun r hr => holdRest r (hr ▸ List.mem_cons_self)) hg13,
                ← hcondOwn, hc]⟩) with ⟨hnone, heval4⟩ |
          ⟨bs, conds, k4, t4, hbs, heval4, hg4, hworld4, hholds4⟩
        · refine .inl ⟨?_, ?_⟩
          · rw [condsOf, hpb, ← hconds, hnone]
            rfl
          · rw [hrun, eval_bind_some happ3 heval3, eval_bind_none (fun _ => appends_pure _) heval4]
        · refine .inr ⟨some b :: bs, cond :: conds, k4, t4, ?_, ?_, hg13.trans hg4, ?_, ?_⟩
          · rw [condsOf, hpb, ← hconds, hbs]
            rfl
          · rw [hrun, eval_bind_some happ3 heval3, eval_bind_some (fun _ => appends_pure _) heval4,
              eval_pure]
          · rw [hworld4, hworld3, hworld2]
          · rw [hconds, condsOf, ← hcondOwn, hc] at hbs
            obtain ⟨cs, -, rfl⟩ := Option.map_eq_some_iff.1 hbs
            rw [effs, Option.getD_some]
            rw [hall] at hholds4
            exact .cons (hholds3.later hg4) hholds4

end Truth

end Runar.AnfLower
