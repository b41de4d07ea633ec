/-
  Optimizer/Dce.lean --- dead binding elimination.

  WHAT THIS FILE IS FOR.  The pass drops the bindings whose names no other binding
  mentions, until nothing is left to drop.  It keeps what has a side effect, but looks at
  the kind of a binding only: a conditional or a loop counts as pure whatever stands in
  it.  This file has the pass, says which bindings it drops, and shows exactly when
  dropping them goes unnoticed.
-/
import Runar.Anf.Eval
import Runar.Interpreter.Value

set_option autoImplicit false

namespace Runar.Optimizer.Dce

open Anf

/-! ## The pass -/

mutual

/-- The names an operation mentions. -/
def collectRefsFromValue : ANFValue → List String
  | .loadParam _ | .loadProp _ | .getStateScript => []
  | .loadConst (.ref name) => [name]
  | .loadConst _ => []
  | .binOp _ left right _ => [left, right]
  | .unaryOp _ operand _ => [operand]
  | .call _ args => args
  | .methodCall object _ args => object :: args
  | .ifValue cond thenBody elseBody _ =>
      cond :: (collectAllRefs thenBody ++ collectAllRefs elseBody)
  | .loop _ body _ _ _ => collectAllRefs body
  | .assert value => [value]
  | .updateProp _ value => [value]
  | .checkPreimage preimage _ => [preimage]
  | .deserializeState preimage => [preimage]
  | .addOutput satoshis stateValues preimage => satoshis :: (stateValues ++ [preimage])
  | .addRawOutput satoshis scriptBytes => [satoshis, scriptBytes]
  | .addDataOutput satoshis scriptBytes => [satoshis, scriptBytes]
  | .arrayLiteral elements => elements
  | .rawScript _ _ _ => []

def collectAllRefs : List ANFBinding → List String
  | [] => []
  | .mk _ value :: rest => collectRefsFromValue value ++ collectAllRefs rest

end

/-- Whether the kind of an operation is one with a side effect. -/
def hasSideEffect : ANFValue → Bool
  | .assert _ | .updateProp _ _ | .checkPreimage _ _ | .deserializeState _ | .addOutput _ _ _
  | .addRawOutput _ _ | .addDataOutput _ _ | .call _ _ | .methodCall _ _ _
  | .rawScript _ _ _ => true
  | .loadParam _ | .loadProp _ | .loadConst _ | .getStateScript | .binOp _ _ _ _
  | .unaryOp _ _ _ | .ifValue _ _ _ _ | .loop _ _ _ _ _ | .arrayLiteral _ => false

/-- Whether a binding stays, given the names that are mentioned. -/
def stays (refs : List String) (binding : ANFBinding) : Bool :=
  refs.contains binding.name || hasSideEffect binding.value

/-- Drop what is not mentioned. -/
def dropUnread (current : List ANFBinding) : List ANFBinding :=
  current.filter (stays (collectAllRefs current))

/-- Drop what is not mentioned, until nothing is dropped. -/
def filterLiveBindings (current : List ANFBinding) : List ANFBinding :=
  if _h : (dropUnread current).length = current.length then dropUnread current
  else filterLiveBindings (dropUnread current)
  termination_by current.length
  decreasing_by exact Nat.lt_of_le_of_ne (List.length_filter_le _ _) _h

/-- Eliminate the dead bindings of a method. -/
def eliminateDeadInMethod (method : ANFMethod) : ANFMethod :=
  { method with body := filterLiveBindings method.body }

def eliminateDeadBindings (program : ANFProgram) : ANFProgram :=
  { program with methods := program.methods.map eliminateDeadInMethod }

/-! ## What is dropped -/

/-- A binding is dead if its kind has no side effect and only dead bindings mention it. -/
inductive Dead (body : List ANFBinding) : ANFBinding → Prop
  | intro (binding : ANFBinding) (pure : hasSideEffect binding.value = false)
      (unread : ∀ other ∈ body, binding.name ∈ collectRefsFromValue other.value → Dead body other) :
      Dead body binding

section Dropped

variable {body : List ANFBinding} {binding : ANFBinding}

theorem mem_collectAllRefs {bindings : List ANFBinding} {name : String} :
    name ∈ collectAllRefs bindings ↔ ∃ b ∈ bindings, name ∈ collectRefsFromValue b.value := by
  induction bindings with
  | nil =>
    rw [collectAllRefs]
    exact ⟨fun h => absurd h List.not_mem_nil, fun ⟨b, hb, _⟩ => absurd hb List.not_mem_nil⟩
  | cons b rest ih =>
    obtain ⟨n, value⟩ := b
    rw [collectAllRefs, List.mem_append, ih]
    constructor
    · rintro (h | ⟨b, hb, h⟩)
      · exact ⟨_, List.mem_cons_self, h⟩
      · exact ⟨b, List.mem_cons_of_mem _ hb, h⟩
    · rintro ⟨b, hb, h⟩
      rcases List.mem_cons.mp hb with rfl | hb
      · exact .inl h
      · exact .inr ⟨b, hb, h⟩

theorem stays_iff {refs : List String} :
    stays refs binding = true ↔ binding.name ∈ refs ∨ hasSideEffect binding.value = true := by
  rw [stays, Bool.or_eq_true, List.contains_iff_mem]

theorem dropUnread_eq_self {current : List ANFBinding}
    (h : (dropUnread current).length = current.length) : dropUnread current = current :=
  List.filter_eq_self.mpr (List.length_filter_eq_length_iff.mp h)

theorem dropUnread_subset (current : List ANFBinding) : dropUnread current ⊆ current :=
  fun _ hb => List.mem_of_mem_filter hb

theorem filterLiveBindings_subset (current : List ANFBinding) :
    filterLiveBindings current ⊆ current := by
  induction current using filterLiveBindings.induct with
  | case1 current h =>
    rw [filterLiveBindings, dif_pos h]
    exact dropUnread_subset current
  | case2 current h ih =>
    rw [filterLiveBindings, dif_neg h]
    exact fun b hb => dropUnread_subset current (ih hb)

/-- The whole pass is one filter, by the names that are mentioned in the end. -/
theorem filterLiveBindings_eq_filter (current : List ANFBinding) :
    filterLiveBindings current =
      current.filter (stays (collectAllRefs (filterLiveBindings current))) := by
  induction current using filterLiveBindings.induct with
  | case1 current h =>
    rw [filterLiveBindings, dif_pos h, dropUnread_eq_self h]
    exact (dropUnread_eq_self h).symm
  | case2 current h ih =>
    rw [filterLiveBindings, dif_neg h]
    refine ih.trans ?_
    show List.filter (stays (collectAllRefs (filterLiveBindings (dropUnread current))))
      (current.filter (stays (collectAllRefs current))) = _
    rw [List.filter_filter]
    refine List.filter_congr fun b hb => ?_
    -- what is mentioned in the end was mentioned all along
    cases hstays : stays (collectAllRefs (filterLiveBindings (dropUnread current))) b with
    | false => exact Bool.false_and _
    | true =>
      rw [Bool.true_and, stays_iff]
      refine (stays_iff.mp hstays).imp_left fun hmem => ?_
      obtain ⟨c, hc, hname⟩ := mem_collectAllRefs.mp hmem
      exact mem_collectAllRefs.mpr
        ⟨c, dropUnread_subset current (filterLiveBindings_subset (dropUnread current) hc), hname⟩

/-- Only dead bindings are dropped. -/
theorem dead_of_dropped {current : List ANFBinding}
    (h : ∀ b ∈ body, b ∉ current → Dead body b) :
    ∀ b ∈ body, b ∉ filterLiveBindings current → Dead body b := by
  induction current using filterLiveBindings.induct with
  | case1 current hlen =>
    rw [filterLiveBindings, dif_pos hlen, dropUnread_eq_self hlen]
    exact h
  | case2 current hlen ih =>
    rw [filterLiveBindings, dif_neg hlen]
    refine ih fun b hb hdropped => ?_
    by_cases hmem : b ∈ current
    · have hnot : ¬ stays (collectAllRefs current) b = true :=
        fun hstays => hdropped (List.mem_filter.mpr ⟨hmem, hstays⟩)
      rw [stays_iff, not_or, Bool.not_eq_true] at hnot
      refine .intro b hnot.2 fun other hother hname => h other hother fun hcur => ?_
      exact hnot.1 (mem_collectAllRefs.mpr ⟨other, hcur, hname⟩)
    · exact h b hb hmem

/-- Dead bindings are dropped. -/
theorem not_mem_of_dead (h : Dead body binding) : binding ∉ filterLiveBindings body := by
  induction h with
  | intro binding pure unread ih =>
    intro hmem
    rw [filterLiveBindings_eq_filter] at hmem
    rcases stays_iff.mp (List.mem_filter.mp hmem).2 with hname | heffect
    · obtain ⟨other, hother, hread⟩ := mem_collectAllRefs.mp hname
      exact ih other (filterLiveBindings_subset body hother) hread hother
    · rw [pure] at heffect
      exact Bool.false_ne_true heffect

/-- Whether the pass keeps a binding. -/
def retained (body : List ANFBinding) (binding : ANFBinding) : Bool :=
  stays (collectAllRefs (filterLiveBindings body)) binding

theorem retained_iff (h : binding ∈ body) : retained body binding = true ↔ ¬ Dead body binding := by
  have hmem : binding ∈ filterLiveBindings body ↔ retained body binding = true := by
    rw [filterLiveBindings_eq_filter, List.mem_filter]
    exact and_iff_right h
  rw [← hmem]
  refine ⟨fun hkept hdead => not_mem_of_dead hdead hkept, fun halive => ?_⟩
  by_contra hdropped
  exact halive (dead_of_dropped (fun b hb hnot => absurd hb hnot) binding h hdropped)

end Dropped

/-! ## Effects at any depth -/

mutual

/-- Whether a side effect stands in an operation, however deep. -/
def effectWithin : ANFValue → Bool
  | .ifValue _ thenBody elseBody _ => effectsWithin thenBody || effectsWithin elseBody
  | .loop _ body _ _ _ => effectsWithin body
  | value => hasSideEffect value

def effectsWithin : List ANFBinding → Bool
  | [] => false
  | .mk _ value :: rest => effectWithin value || effectsWithin rest

end

section Effects

variable {V : Type} {meaning : Meaning V}

theorem loopRun_world {body : Store V → Option (V × Store V)}
    (hbody : ∀ s r, body s = some r → r.2.world = s.world) {iterVar : String} {step : Int}
    {count : Nat} {i : Int} {last : V} {s : Store V} {r : V × Store V}
    (h : loopRun meaning body iterVar step count i last s = some r) : r.2.world = s.world := by
  induction count generalizing i last s with
  | zero =>
    cases h
    rfl
  | succ count ih =>
    rw [loopRun] at h
    obtain ⟨r', hr', hrest⟩ := Option.bind_eq_some_iff.mp h
    exact (ih hrest).trans (hbody (s.bind iterVar (meaning.iter i)) r' hr')

theorem world_of_map {x : Option V} {s : Store V} {r : V × Store V}
    (h : (x.map fun v => (v, s)) = some r) : r.2.world = s.world := by
  obtain ⟨v, -, rfl⟩ := Option.map_eq_some_iff.mp h
  rfl

mutual

/-- An operation without an effect leaves the properties and the outputs alone. -/
theorem evalValue_world : ∀ (value : ANFValue), effectWithin value = false →
    ∀ {s : Store V} {r : V × Store V}, evalValue meaning value s = some r → r.2.world = s.world
  | .loadParam name, _, s, r, h => by
    rw [evalValue] at h
    exact world_of_map h
  | .loadProp name, _, s, r, h => by
    rw [evalValue] at h
    exact world_of_map h
  | .loadConst (.ref name), _, s, r, h => by
    rw [evalValue] at h
    exact world_of_map h
  | .loadConst (.const c), _, s, r, h => by
    rw [evalValue] at h
    · cases h
      rfl
    · rintro _ ⟨⟩
  | .loadConst .this, _, s, r, h => by
    rw [evalValue] at h
    · cases h
      rfl
    · rintro _ ⟨⟩
  | .loadConst .void, _, s, r, h => by
    rw [evalValue] at h
    · cases h
      rfl
    · rintro _ ⟨⟩
  | .binOp op left right resultBytes, _, s, r, h => by
    rw [evalValue] at h
    obtain ⟨x, -, h⟩ := Option.bind_eq_some_iff.mp h
    obtain ⟨y, -, h⟩ := Option.bind_eq_some_iff.mp h
    exact world_of_map h
  | .unaryOp op operand resultBytes, _, s, r, h => by
    rw [evalValue] at h
    obtain ⟨x, -, h⟩ := Option.bind_eq_some_iff.mp h
    exact world_of_map h
  | .ifValue cond thenBody elseBody results, hpure, s, r, h => by
    rw [effectWithin, Bool.or_eq_false_iff] at hpure
    have hthen := fun {last s r} => @evalBindings_world thenBody hpure.1 last s r
    have helse := fun {last s r} => @evalBindings_world elseBody hpure.2 last s r
    rw [evalValue] at h
    obtain ⟨c, -, h⟩ := Option.bind_eq_some_iff.mp h
    obtain ⟨b, -, h⟩ := Option.bind_eq_some_iff.mp h
    split at h
    · exact hthen h
    · exact helse h
  | .loop count body iterVar start step, hpure, s, r, h => by
    rw [effectWithin] at hpure
    rw [evalValue] at h
    exact loopRun_world (fun s r hr => evalBindings_world body hpure hr) h
  | .getStateScript, _, s, r, h => by
    rw [evalValue] at h
    exact world_of_map h
  | .arrayLiteral elements, _, s, r, h => by
    rw [evalValue] at h
    obtain ⟨xs, -, h⟩ := Option.bind_eq_some_iff.mp h
    cases h
    rfl

theorem evalBindings_world : ∀ (bindings : List ANFBinding), effectsWithin bindings = false →
    ∀ {last : V} {s : Store V} {r : V × Store V},
      evalBindings meaning bindings last s = some r → r.2.world = s.world
  | [], _, last, s, r, h => by
    rw [evalBindings] at h
    cases h
    rfl
  | .mk name value :: rest, hpure, last, s, r, h => by
    rw [effectsWithin, Bool.or_eq_false_iff] at hpure
    rw [evalBindings] at h
    obtain ⟨r', hr', hrest⟩ := Option.bind_eq_some_iff.mp h
    exact (evalBindings_world rest hpure.2 hrest).trans (evalValue_world value hpure.1 hr')

end

end Effects

/-! ## When dropping goes unnoticed -/

/-- A name that a kept binding has or reads. -/
def Kept (body : List ANFBinding) (name : String) : Prop :=
  ∃ b ∈ body, ¬ Dead body b ∧ (name = b.name ∨ name ∈ reads b.value)

/-- The pass drops no effect, and after every part of the body the runs with and without
the dropped bindings agree: both abort or neither does, and the properties, the updates, the
outputs and the kept names are the same. -/
structure Preserves {V : Type} (meaning : Meaning V) (body : List ANFBinding) : Prop where
  effects : ∀ b ∈ body, b ∉ filterLiveBindings body → effectWithin b.value = false
  runs : ∀ front back, body = front ++ back → ∀ store,
    Option.Rel (AgreeOn (Kept body)) (runBody meaning front store)
      (runBody meaning (front.filter (retained body)) store)

/-- Every dead binding is free of effects, and where a run reaches it, it neither aborts nor
changes a kept name. -/
structure Harmless {V : Type} (meaning : Meaning V) (body : List ANFBinding) : Prop where
  effects : ∀ b ∈ body, Dead body b → effectWithin b.value = false
  reached : ∀ front b back, body = front ++ b :: back → Dead body b →
    ∀ start store, runBody meaning front start = some store →
      ∃ after, runBinding meaning b store = some after ∧
        ∀ name, Kept body name → after.names name = store.names name

section Exact

variable {V : Type} {meaning : Meaning V} {body : List ANFBinding}

theorem runBody_singleton (b : ANFBinding) (store : Store V) :
    runBody meaning [b] store = runBinding meaning b store := by
  rw [runBody_cons]
  cases runBinding meaning b store with
  | none => rfl
  | some s => exact runBody_nil s

/-- A kept binding does the same in states that agree on the kept names. -/
theorem runBinding_congr {b : ANFBinding} (hmem : b ∈ body) (hlive : ¬ Dead body b)
    {s t : Store V} (h : AgreeOn (Kept body) s t) :
    Option.Rel (AgreeOn (Kept body)) (runBinding meaning b s) (runBinding meaning b t) := by
  have hvalue := @evalValue_congr V meaning (Kept body) b.value
    (fun n hn => ⟨b, hmem, hlive, .inr hn⟩) s t h
  unfold runBinding
  generalize evalValue meaning b.value s = x at hvalue ⊢
  generalize evalValue meaning b.value t = y at hvalue ⊢
  cases hvalue with
  | none => exact .none
  | @some r r' hr =>
    obtain ⟨v, s'⟩ := r
    obtain ⟨v', t'⟩ := r'
    obtain ⟨rfl, hagree⟩ := hr
    exact .some (hagree.bind b.name v)

theorem filter_concat (front : List ANFBinding) (b : ANFBinding) :
    (front ++ [b]).filter (retained body) =
      front.filter (retained body) ++ if retained body b then [b] else [] := by
  rw [List.filter_append]
  by_cases h : retained body b = true
  · rw [List.filter_cons_of_pos h, if_pos h]
    rfl
  · rw [List.filter_cons_of_neg h, if_neg h]
    rfl

theorem preserves_of_harmless (h : Harmless meaning body) : Preserves meaning body := by
  refine ⟨fun b hb hdropped => h.effects b hb
    (dead_of_dropped (fun c hc hnot => absurd hc hnot) b hb hdropped), ?_⟩
  intro front
  induction front using List.reverseRecOn with
  | nil =>
    intro back _ store
    rw [List.filter_nil, runBody_nil]
    exact .some (.refl _ store)
  | append_singleton front b ih =>
    intro back hbody store
    rw [List.append_assoc] at hbody
    have hfront := ih _ hbody store
    have hmem : b ∈ body := by
      rw [hbody]
      exact List.mem_append_right _ List.mem_cons_self
    rw [filter_concat, runBody_append]
    by_cases hdead : Dead body b
    · have hdrop : ¬ retained body b = true := fun hkept => (retained_iff hmem).mp hkept hdead
      rw [if_neg hdrop, List.append_nil]
      cases hrun : runBody meaning front store with
      | none =>
        rw [hrun] at hfront
        exact hfront
      | some s =>
        rw [hrun] at hfront
        obtain ⟨after, hafter, hnames⟩ := h.reached front b back hbody hdead store s hrun
        rw [Option.bind_some, runBody_singleton, hafter]
        cases hlast : runBody meaning (front.filter (retained body)) store with
        | none =>
          rw [hlast] at hfront
          cases hfront
        | some t =>
          rw [hlast] at hfront
          cases hfront with
          | some hagree =>
            refine .some (AgreeOn.trans ⟨?_, hnames⟩ hagree)
            unfold runBinding at hafter
            obtain ⟨r, hr, rfl⟩ := Option.map_eq_some_iff.mp hafter
            exact evalValue_world b.value (h.effects b hmem hdead) hr
    · rw [if_pos ((retained_iff hmem).mpr hdead), runBody_append]
      cases hrun : runBody meaning front store with
      | none =>
        rw [hrun] at hfront
        cases hlast : runBody meaning (front.filter (retained body)) store with
        | none => exact .none
        | some t =>
          rw [hlast] at hfront
          cases hfront
      | some s =>
        rw [hrun] at hfront
        cases hlast : runBody meaning (front.filter (retained body)) store with
        | none =>
          rw [hlast] at hfront
          cases hfront
        | some t =>
          rw [hlast] at hfront
          cases hfront with
          | some hagree =>
            rw [Option.bind_some, Option.bind_some, runBody_singleton, runBody_singleton]
            exact runBinding_congr hmem hdead hagree

theorem harmless_of_preserves (h : Preserves meaning body) : Harmless meaning body := by
  refine ⟨fun b hb hdead => h.effects b hb (not_mem_of_dead hdead), ?_⟩
  intro front b back hbody hdead start store hrun
  have hmem : b ∈ body := by
    rw [hbody]
    exact List.mem_append_right _ List.mem_cons_self
  have hdrop : ¬ retained body b = true := fun hkept => (retained_iff hmem).mp hkept hdead
  have hbefore := h.runs front (b :: back) hbody start
  have hafter := h.runs (front ++ [b]) back (by rw [hbody, List.append_assoc]; rfl) start
  rw [filter_concat, if_neg hdrop, List.append_nil, runBody_append, hrun, Option.bind_some,
    runBody_singleton] at hafter
  rw [hrun] at hbefore
  cases hlast : runBody meaning (front.filter (retained body)) start with
  | none =>
    rw [hlast] at hbefore
    cases hbefore
  | some t =>
    rw [hlast] at hbefore hafter
    cases hbefore with
    | some hagree =>
      cases hstep : runBinding meaning b store with
      | none =>
        rw [hstep] at hafter
        cases hafter
      | some after =>
        rw [hstep] at hafter
        cases hafter with
        | some hagree' =>
          exact ⟨after, rfl, fun name hkept =>
            (hagree'.names name hkept).trans (hagree.names name hkept).symm⟩

end Exact

/-- The operators as the interpreter has them, and no calls. -/
def operatorMeaning : Meaning Interpreter.Value where
  const
    | .const (.bytes value) => .bytes value
    | .const (.bigint value) => .num value
    | .const (.boolean value) => .boolean value
    | .this => .context
    | _ => .void
  iter := .num
  nothing := .void
  array := .array
  truthy := Interpreter.toBool
  binOp op _ left right :=
    match op with
    | .and => do
        let l ← Interpreter.toBool left
        let r ← Interpreter.toBool right
        some (.boolean (l && r))
    | .or => do
        let l ← Interpreter.toBool left
        let r ← Interpreter.toBool right
        some (.boolean (l || r))
    | op => Interpreter.applyBinary op left right
  unaryOp op _ operand := Interpreter.applyUnary op operand
  stateScript _ := none
  call _ _ _ := none
  methodCall _ _ _ _ := none
  checkPreimage _ _ _ := none
  deserializeState _ _ := none
  rawScript _ _ _ _ := none

/-- `if (flag) assert(ok);` -/
def guardedAssert : List ANFBinding :=
  [.mk "t0" (.loadParam "flag"), .mk "t1" (.loadParam "ok"),
    .mk "t2" (.ifValue "t0" [.mk "t3" (.assert "t1")] [] [])]

/-- The valuation of a spend that the assertion rejects. -/
def rejected : Store Interpreter.Value where
  names name := if name = "flag" then some (.boolean true)
    else if name = "ok" then some (.boolean false) else none
  world := ⟨fun _ => none, [], []⟩

end Runar.Optimizer.Dce
