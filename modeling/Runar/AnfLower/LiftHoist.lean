/-
  AnfLower/LiftHoist.lean --- copies of bindings under fresh names.

  WHAT THIS FILE IS FOR.  A rewritten chain runs copies of the bindings of its conditions and
  arms.  A copy reads the fresh name where the original reads a name that was copied before.
  This file says when a copy computes what the original computes, and that nothing but new
  temporaries changes.
-/
import Runar.AnfLower.LiftRun

set_option autoImplicit false

namespace Runar.AnfLower

open Anf LiftM

section Names

variable {V : Type}

/-- The name that a copy reads. -/
def rename (map : List (String × String)) (n : String) : String := (map.lookup n).getD n

theorem rename_cons_self (name new : String) (map : List (String × String)) :
    rename ((name, new) :: map) name = new := by
  rw [rename, List.lookup_cons, beq_self_eq_true]
  rfl

theorem rename_cons_of_ne {n name : String} (h : n ≠ name) (new : String)
    (map : List (String × String)) : rename ((name, new) :: map) n = rename map n := by
  rw [rename, List.lookup_cons, beq_eq_false_iff_ne.2 h]
  rfl

/-- Not one of the temporaries from `k` on. -/
def Old (k : Nat) (n : String) : Prop := ∀ i, k ≤ i → n ≠ tempName i

theorem Old.mono {k k' : Nat} {n : String} (h : Old k n) (hk : k ≤ k') : Old k' n :=
  fun i hi => h i (Nat.le_trans hk hi)

theorem old_tempName {i k : Nat} (h : i < k) : Old k (tempName i) := by
  intro j hj heq
  have := tempName_injective heq
  omega

/-- Nothing but temporaries from `k` on has changed. -/
def KeepsOld (k : Nat) (t t' : Store V) : Prop := ∀ n, Old k n → t'.names n = t.names n

namespace KeepsOld

variable {k k' : Nat} {t t' t'' : Store V}

theorem refl (k : Nat) (t : Store V) : KeepsOld k t t := fun _ _ => rfl

theorem trans (h : KeepsOld k t t') (h' : KeepsOld k t' t'') : KeepsOld k t t'' :=
  fun n hn => (h' n hn).trans (h n hn)

theorem mono (h : KeepsOld k' t t') (hk : k ≤ k') : KeepsOld k t t' :=
  fun n hn => h n (hn.mono hk)

theorem bind_temp (t : Store V) {i : Nat} (h : k ≤ i) (value : V) :
    KeepsOld k t (t.bind (tempName i) value) := by
  intro n hn
  show (if n = tempName i then some value else t.names n) = t.names n
  rw [if_neg (hn i h)]

end KeepsOld

theorem names_bind_self (t : Store V) (name : String) (value : V) :
    (t.bind name value).names name = some value := by
  show (if name = name then some value else t.names name) = some value
  rw [if_pos rfl]

theorem names_bind_of_ne (t : Store V) {n name : String} (h : n ≠ name) (value : V) :
    (t.bind name value).names n = t.names n := by
  show (if n = name then some value else t.names n) = t.names n
  rw [if_neg h]

/-- Copies that run in `t` read what the originals read in `s`: the names in `D`, of which
those in `bound` were bound by an original. -/
structure Renames (k : Nat) (D bound : String → Prop) (map : List (String × String))
    (s t : Store V) : Prop where
  effect : s.world.effect = t.world.effect
  names : ∀ n, D n → s.names n = t.names (rename map n)
  old : ∀ n, D n → Old k (rename map n)
  unbound : ∀ n, D n → ¬ bound n → rename map n = n

namespace Renames

variable {k k' : Nat} {D D' bound : String → Prop} {map : List (String × String)}
  {s t t' : Store V}

theorem bind (h : Renames k D bound map s t) (name : String) (value : V) :
    Renames (k + 1) (fun n => D n ∨ n = name) (fun n => bound n ∨ n = name)
      ((name, tempName k) :: map) (s.bind name value) (t.bind (tempName k) value) := by
  refine ⟨h.effect, fun n hn => ?_, fun n hn => ?_, fun n hn hbound => ?_⟩
  · by_cases heq : n = name
    · subst heq
      rw [rename_cons_self, names_bind_self, names_bind_self]
    · have hD := hn.resolve_right heq
      rw [rename_cons_of_ne heq, names_bind_of_ne s heq,
        names_bind_of_ne t (h.old n hD k (Nat.le_refl k)), h.names n hD]
  · by_cases heq : n = name
    · subst heq
      rw [rename_cons_self]
      exact old_tempName (Nat.lt_succ_self k)
    · rw [rename_cons_of_ne heq]
      exact (h.old n (hn.resolve_right heq)).mono (Nat.le_succ k)
  · rw [not_or] at hbound
    rw [rename_cons_of_ne hbound.2]
    exact h.unbound n (hn.resolve_right hbound.2) hbound.1

theorem mono (h : Renames k D bound map s t) (hD : ∀ n, D' n → D n) :
    Renames k D' bound map s t :=
  ⟨h.effect, fun n hn => h.names n (hD n hn), fun n hn => h.old n (hD n hn),
    fun n hn => h.unbound n (hD n hn)⟩

/-- New temporaries and updates without effect do not matter. -/
theorem later (h : Renames k D bound map s t) (hk : k ≤ k') (hnames : KeepsOld k t t')
    (heffect : t'.world.effect = t.world.effect) : Renames k' D bound map s t' :=
  ⟨h.effect.trans heffect.symm,
    fun n hn => (h.names n hn).trans (hnames _ (h.old n hn)).symm,
    fun n hn => (h.old n hn).mono hk, h.unbound⟩

end Renames

/-- No binding reads itself, and no parameter that is loaded was bound before. -/
def Copyable (bound : String → Prop) : List ANFBinding → Prop
  | [] => True
  | .mk name value :: rest =>
      name ∉ liveOf value ∧ (∀ n, value = .loadParam n → ¬ bound n) ∧
        Copyable (fun n => bound n ∨ n = name) rest

theorem Copyable.congr {bound bound' : String → Prop} {bindings : List ANFBinding}
    (h : Copyable bound bindings) (heq : ∀ n, bound' n ↔ bound n) : Copyable bound' bindings := by
  rwa [funext fun n => propext (heq n)]

end Names

section Copies

variable {V : Type} {meaning : Meaning V}

/-- A copy computes what the original computes, and leaves the state as it is. -/
theorem evalValue_remap {value : ANFValue} {map : List (String × String)} {s t : Store V}
    (hpure : isSideEffectFree value = true) (heffect : s.world.effect = t.world.effect)
    (hread : ∀ n ∈ liveOf value, s.names n = t.names (rename map n))
    (hparam : ∀ n, value = .loadParam n → rename map n = n) :
    ∃ x : Option V, evalValue meaning value s = x.map (fun v => (v, s)) ∧
      evalValue meaning (remapValueRefs map value) t = x.map fun v => (v, t) := by
  have hprops : s.world.props = t.world.props := (Prod.ext_iff.1 heffect).1
  cases value with
  | loadParam name =>
    refine ⟨s.names name, by rw [evalValue], ?_⟩
    have hname := hread name (by rw [liveOf]; exact List.mem_cons_self)
    rw [hparam name rfl] at hname
    show evalValue meaning (.loadParam name) t = _
    rw [evalValue, hname]
  | loadProp name =>
    refine ⟨s.world.props name, by rw [evalValue], ?_⟩
    show evalValue meaning (.loadProp name) t = _
    rw [evalValue, hprops]
  | loadConst operand =>
    cases operand with
    | ref name =>
      refine ⟨s.names name, by rw [evalValue], ?_⟩
      have hname := hread name (by rw [liveOf]; exact List.mem_cons_self)
      show evalValue meaning (.loadConst (.ref (rename map name))) t = _
      rw [evalValue, hname]
    | const c => exact ⟨some (meaning.const (.const c)), rfl, rfl⟩
    | this => exact ⟨some (meaning.const .this), rfl, rfl⟩
    | void => exact ⟨some (meaning.const .void), rfl, rfl⟩
  | binOp op left right resultBytes =>
    rw [liveOf] at hread
    refine ⟨(s.names left).bind fun l => (s.names right).bind fun r =>
      meaning.binOp op resultBytes l r, ?_, ?_⟩
    · rw [evalValue, Option.map_bind]
      refine congrArg _ (funext fun l => ?_)
      exact (Option.map_bind).symm
    · show evalValue meaning (.binOp op (rename map left) (rename map right) resultBytes) t = _
      rw [evalValue, ← hread left List.mem_cons_self,
        ← hread right (List.mem_cons_of_mem _ List.mem_cons_self), Option.map_bind]
      refine congrArg _ (funext fun l => ?_)
      exact (Option.map_bind).symm
  | unaryOp op operand resultBytes =>
    rw [liveOf] at hread
    refine ⟨(s.names operand).bind fun x => meaning.unaryOp op resultBytes x, ?_, ?_⟩
    · rw [evalValue, Option.map_bind]
      rfl
    · show evalValue meaning (.unaryOp op (rename map operand) resultBytes) t = _
      rw [evalValue, ← hread operand List.mem_cons_self, Option.map_bind]
      rfl
  | _ => cases hpure

/-- One binding and its copy: both abort, or both bind the same value. -/
theorem runBinding_remap {name : String} {value : ANFValue} {k : Nat} {D bound : String → Prop}
    {map : List (String × String)} {s t : Store V} (hpure : isSideEffectFree value = true)
    (h : Renames k D bound map s t) (hself : name ∉ liveOf value)
    (hparam : ∀ n, value = .loadParam n → ¬ bound n) (hlive : ∀ n ∈ liveOf value, D n) :
    ∃ x : Option V, evalValue meaning value s = x.map (fun v => (v, s)) ∧
      evalValue meaning (remapValueRefs ((name, tempName k) :: map) value) t =
        x.map fun v => (v, t) := by
  have hne : ∀ n ∈ liveOf value, n ≠ name := by
    rintro n hn rfl
    exact hself hn
  refine evalValue_remap hpure h.effect (fun n hn => ?_) fun n hn => ?_
  · rw [rename_cons_of_ne (hne n hn)]
    exact h.names n (hlive n hn)
  · have hmem : n ∈ liveOf value := by
      rw [hn, liveOf]
      exact List.mem_cons_self
    rw [rename_cons_of_ne (hne n hmem)]
    exact h.unbound n (hlive n hmem) (hparam n hn)

theorem eval_hoistBindings_cons (name : String) (value : ANFValue) (rest : List ANFBinding)
    (map : List (String × String)) (k : Nat) (t : Store V) :
    eval meaning (hoistBindings (.mk name value :: rest) map) k t =
      (evalValue meaning (remapValueRefs ((name, tempName k) :: map) value) t).bind fun r =>
        eval meaning (hoistBindings rest ((name, tempName k) :: map)) (k + 1)
          (r.2.bind (tempName k) r.1) := by
  rw [hoistBindings, eval_bind _ fun _ => (appends_push _ _).bind fun _ =>
    appends_hoistBindings rest _, eval_fresh, Option.bind_some,
    eval_bind _ fun _ => appends_hoistBindings rest _, eval_push, runBinding]
  dsimp only [ANFBinding.value_mk, ANFBinding.name_mk]
  cases evalValue meaning (remapValueRefs ((name, tempName k) :: map) value) t with
  | none => rfl
  | some r => rfl

/-- The bindings of a condition and their copies: both abort, or the copies compute the same
under their fresh names. -/
theorem eval_hoistBindings {bindings : List ANFBinding} {k : Nat} {D bound : String → Prop}
    {map : List (String × String)} {s t : Store V}
    (hpure : allBindingsSideEffectFree bindings = true) (h : Renames k D bound map s t)
    (hcopy : Copyable bound bindings) (hlive : ∀ n ∈ live bindings, D n) :
    (runBody meaning bindings s = none ∧ eval meaning (hoistBindings bindings map) k t = none) ∨
    ∃ s' map' k' t', runBody meaning bindings s = some s' ∧
      eval meaning (hoistBindings bindings map) k t = some (map', k', t') ∧
      Renames k' (fun n => D n ∨ n ∈ bindings.map ANFBinding.name)
        (fun n => bound n ∨ n ∈ bindings.map ANFBinding.name) map' s' t' ∧
      k ≤ k' ∧ KeepsOld k t t' ∧ t'.world = t.world ∧ s'.world = s.world ∧
      ∀ n, n ∉ bindings.map ANFBinding.name → rename map' n = rename map n := by
  induction bindings generalizing k D bound map s t with
  | nil =>
    refine .inr ⟨s, map, k, t, runBody_nil s, eval_pure _ _ _, ?_, Nat.le_refl k, .refl k t, rfl,
      rfl, fun _ _ => rfl⟩
    refine ⟨h.effect, fun n hn => h.names n ?_, fun n hn => h.old n ?_, fun n hn hb => ?_⟩
    · exact hn.resolve_right List.not_mem_nil
    · exact hn.resolve_right List.not_mem_nil
    · rw [not_or] at hb
      exact h.unbound n (hn.resolve_right List.not_mem_nil) hb.1
  | cons b rest ih =>
    obtain ⟨name, value⟩ := b
    obtain ⟨hself, hparam, hrest⟩ := hcopy
    rw [allBindingsSideEffectFree, List.all_cons, Bool.and_eq_true] at hpure
    obtain ⟨hvalueLive, hrestLive⟩ := live_cons_subset hlive
    have hvalue : isSideEffectFree value = true := hpure.1
    obtain ⟨x, hs, ht⟩ := @runBinding_remap V meaning name value k D bound map s t hvalue h hself
      hparam hvalueLive
    rw [runBody_cons, runBinding, ANFBinding.value_mk, ANFBinding.name_mk, hs,
      eval_hoistBindings_cons, ht]
    cases x with
    | none => exact .inl ⟨rfl, rfl⟩
    | some v =>
      rcases ih hpure.2 (h.bind name v) hrest hrestLive with ⟨h1, h2⟩ |
        ⟨s', map', k', t', hrun, heval, hren, hk, hkeep, hworld, hworld', hmap⟩
      · exact .inl ⟨h1, h2⟩
      · refine .inr ⟨s', map', k', t', hrun, heval, ?_, Nat.le_of_succ_le hk,
          (KeepsOld.bind_temp t (Nat.le_refl k) v).trans (hkeep.mono (Nat.le_succ k)), hworld,
          hworld', fun n hn => ?_⟩
        · have hiff : ∀ P : String → Prop, (fun n => P n ∨
              n ∈ (ANFBinding.mk name value :: rest).map ANFBinding.name) =
              fun n => (P n ∨ n = name) ∨ n ∈ rest.map ANFBinding.name := by
            intro P
            funext n
            rw [List.map_cons, List.mem_cons, ANFBinding.name_mk, or_assoc]
          rw [hiff D, hiff bound]
          exact hren
        · rw [List.map_cons, List.mem_cons, not_or, ANFBinding.name_mk] at hn
          rw [hmap n hn.2, rename_cons_of_ne hn.1]

theorem eval_copyBindings_cons (map : List (String × String)) (name : String) (value : ANFValue)
    (rest : List ANFBinding) (k : Nat) (t : Store V) :
    eval meaning (copyBindings map (.mk name value :: rest)) k t =
      (eval meaning (copyBindings ((name, tempName k) :: map) rest) (k + 1) t).map fun r =>
        (.mk (tempName k) (remapValueRefs ((name, tempName k) :: map) value) :: r.1, r.2) := by
  rw [copyBindings, eval_bind _ fun _ => (appends_copyBindings rest _).bind fun _ =>
    appends_pure _, eval_fresh, Option.bind_some, eval_bind _ fun _ => appends_pure _]
  cases eval meaning (copyBindings ((name, tempName k) :: map) rest) (k + 1) t with
  | none => rfl
  | some r => exact eval_pure _ _ _

/-- An arm and its copy: both abort, or both end with the same value. -/
theorem eval_copyBindings (bindings : List ANFBinding) (map : List (String × String)) (k : Nat) :
    ∃ copies k', k ≤ k' ∧
      (∀ t : Store V, eval meaning (copyBindings map bindings) k t = some (copies, k', t)) ∧
      ∀ {D bound : String → Prop} {s t : Store V} (last : V),
        allBindingsSideEffectFree bindings = true → Renames k D bound map s t →
        Copyable bound bindings → (∀ n ∈ live bindings, D n) →
        Option.Rel (fun r r' => r.1 = r'.1 ∧ r'.2.world = t.world ∧ KeepsOld k t r'.2)
          (evalBindings meaning bindings last s) (evalBindings meaning copies last t) := by
  induction bindings generalizing map k with
  | nil =>
    refine ⟨[], k, Nat.le_refl k, fun t => eval_pure _ _ _, ?_⟩
    intro D bound s t last hpure h hcopy hlive
    rw [evalBindings, evalBindings]
    exact Option.Rel.some ⟨rfl, rfl, .refl k t⟩
  | cons b rest ih =>
    obtain ⟨name, value⟩ := b
    obtain ⟨copies, k', hk, heval, hrel⟩ := ih ((name, tempName k) :: map) (k + 1)
    refine ⟨.mk (tempName k) (remapValueRefs ((name, tempName k) :: map) value) :: copies, k',
      Nat.le_of_succ_le hk, fun t => ?_, ?_⟩
    · rw [eval_copyBindings_cons, heval t]
      rfl
    · intro D bound s t last hpure h hcopy hlive
      obtain ⟨hself, hparam, hrest⟩ := hcopy
      rw [allBindingsSideEffectFree, List.all_cons, Bool.and_eq_true] at hpure
      obtain ⟨hvalueLive, hrestLive⟩ := live_cons_subset hlive
      have hvalue : isSideEffectFree value = true := hpure.1
      obtain ⟨x, hs, ht⟩ :=
        @runBinding_remap V meaning name value k D bound map s t hvalue h hself hparam hvalueLive
      rw [evalBindings, evalBindings, hs, ht]
      cases x with
      | none => exact Option.Rel.none
      | some v =>
        have hnext := hrel v hpure.2 (h.bind name v) hrest hrestLive
        show Option.Rel _ (evalBindings meaning rest v (s.bind name v))
          (evalBindings meaning copies v (t.bind (tempName k) v))
        generalize evalBindings meaning rest v (s.bind name v) = y at hnext
        generalize evalBindings meaning copies v (t.bind (tempName k) v) = z at hnext
        cases hnext with
        | none => exact Option.Rel.none
        | some h' =>
          exact Option.Rel.some ⟨h'.1, h'.2.1,
            (KeepsOld.bind_temp t (Nat.le_refl k) v).trans (h'.2.2.mono (Nat.le_succ k))⟩

end Copies

end Runar.AnfLower
