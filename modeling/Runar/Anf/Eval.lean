/-
  Anf/Eval.lean --- what a method body in A-normal form does.

  WHAT THIS FILE IS FOR.  The passes over A-normal form promise to keep what a body does.
  A body runs its bindings in order.  Each reads names, binds its own, and may update
  properties, make outputs or abort.  An arm of a conditional and the body of a loop run
  on the names of the method.

  The meaning of the operators and of the calls is a parameter.  A pass that holds for every
  meaning holds for the one the scripts give them.

  LEFT OUT: what a raw span takes from the stack by position.
-/
import Runar.Anf.Syntax
import Mathlib.Data.Option.Basic

set_option autoImplicit false

namespace Runar.Anf

open Script

/-! ## States -/

/-- An output, with the values it was given. -/
inductive Output (V : Type) where
  | state (satoshis : V) (stateValues : List V)
  | raw (satoshis scriptBytes : V)
  | data (satoshis scriptBytes : V)

/-- What lasts beyond the names: the properties, and what was done to them and sent, in
order. -/
structure World (V : Type) where
  props : String → Option V
  updates : List (String × V)
  outputs : List (Output V)

namespace World

variable {V : Type}

def update (world : World V) (name : String) (value : V) : World V :=
  { world with
    props := fun other => if other = name then some value else world.props other
    updates := world.updates ++ [(name, value)] }

def send (world : World V) (output : Output V) : World V :=
  { world with outputs := world.outputs ++ [output] }

end World

/-- The names, of parameters and bindings alike, and the rest. -/
structure Store (V : Type) where
  names : String → Option V
  world : World V

namespace Store

variable {V : Type}

def bind (store : Store V) (name : String) (value : V) : Store V :=
  { store with names := fun other => if other = name then some value else store.names other }

def withWorld (store : Store V) (world : World V) : Store V := { store with world := world }

/-- The values of some names, if all have one. -/
def read (store : Store V) (names : List String) : Option (List V) := names.mapM store.names

end Store

/-- The meaning of the operators and of what is not said in A-normal form. -/
structure Meaning (V : Type) where
  const : ConstOperand → V
  iter : Int → V
  /-- the value of a binding that leaves none -/
  nothing : V
  array : List V → V
  truthy : V → Option Bool
  binOp : BinaryOp → Bool → V → V → Option V
  unaryOp : UnaryOp → Bool → V → Option V
  stateScript : World V → Option V
  call : String → List V → World V → Option (V × World V)
  methodCall : V → String → List V → World V → Option (V × World V)
  checkPreimage : V → Option Nat → World V → Option (V × World V)
  deserializeState : V → World V → Option (V × World V)
  rawScript : Bytes → Nat → Nat → World V → Option (V × World V)

/-! ## Runs -/

section Run

variable {V : Type} (meaning : Meaning V)

/-- Go on with the world that an operation left. -/
def leave (store : Store V) (result : Option (V × World V)) : Option (V × Store V) :=
  result.map fun r => (r.1, store.withWorld r.2)

/-- Run a loop: `count` iterations, the next one with the value `i` of the variable. -/
def loopRun (body : Store V → Option (V × Store V)) (iterVar : String) (step : Int) :
    Nat → Int → V → Store V → Option (V × Store V)
  | 0, _, last, store => some (last, store)
  | count + 1, i, _, store => do
      let (value, store) ← body (store.bind iterVar (meaning.iter i))
      loopRun body iterVar step count (i + step) value store

mutual

/-- Run one operation: its value and the state after it, or nothing if it aborts. -/
def evalValue (value : ANFValue) (store : Store V) : Option (V × Store V) :=
  match value with
  | .loadParam name => (store.names name).map fun v => (v, store)
  | .loadProp name => (store.world.props name).map fun v => (v, store)
  | .loadConst (.ref name) => (store.names name).map fun v => (v, store)
  | .loadConst operand => some (meaning.const operand, store)
  | .binOp op left right resultBytes => do
      let l ← store.names left
      let r ← store.names right
      (meaning.binOp op resultBytes l r).map fun v => (v, store)
  | .unaryOp op operand resultBytes => do
      let x ← store.names operand
      (meaning.unaryOp op resultBytes x).map fun v => (v, store)
  | .call func args => do
      let xs ← store.read args
      leave store (meaning.call func xs store.world)
  | .methodCall object method args => do
      let o ← store.names object
      let xs ← store.read args
      leave store (meaning.methodCall o method xs store.world)
  | .ifValue cond thenBody elseBody _ => do
      let c ← store.names cond
      let b ← meaning.truthy c
      if b then evalBindings thenBody meaning.nothing store
      else evalBindings elseBody meaning.nothing store
  | .loop count body iterVar start step =>
      loopRun meaning (evalBindings body meaning.nothing) iterVar step count start
        meaning.nothing store
  | .assert name => do
      let x ← store.names name
      let b ← meaning.truthy x
      if b then some (meaning.nothing, store) else none
  | .updateProp name operand => do
      let x ← store.names operand
      some (meaning.nothing, store.withWorld (store.world.update name x))
  | .getStateScript => (meaning.stateScript store.world).map fun v => (v, store)
  | .checkPreimage preimage sighashFlag => do
      let x ← store.names preimage
      leave store (meaning.checkPreimage x sighashFlag store.world)
  | .deserializeState preimage => do
      let x ← store.names preimage
      leave store (meaning.deserializeState x store.world)
  | .addOutput satoshis stateValues _ => do
      let s ← store.names satoshis
      let xs ← store.read stateValues
      some (meaning.nothing, store.withWorld (store.world.send (.state s xs)))
  | .addRawOutput satoshis scriptBytes => do
      let s ← store.names satoshis
      let b ← store.names scriptBytes
      some (meaning.nothing, store.withWorld (store.world.send (.raw s b)))
  | .addDataOutput satoshis scriptBytes => do
      let s ← store.names satoshis
      let b ← store.names scriptBytes
      some (meaning.nothing, store.withWorld (store.world.send (.data s b)))
  | .arrayLiteral elements => do
      let xs ← store.read elements
      some (meaning.array xs, store)
  | .rawScript bytes inArity outArity =>
      leave store (meaning.rawScript bytes inArity outArity store.world)

/-- Run bindings in order: the value of the last, `last` if there is none. -/
def evalBindings (bindings : List ANFBinding) (last : V) (store : Store V) :
    Option (V × Store V) :=
  match bindings with
  | [] => some (last, store)
  | .mk name value :: rest => do
      let (v, store) ← evalValue value store
      evalBindings rest v (store.bind name v)

end

/-- Run one binding. -/
def runBinding (binding : ANFBinding) (store : Store V) : Option (Store V) :=
  (evalValue meaning binding.value store).map fun r => r.2.bind binding.name r.1

/-- Run a method body. -/
def runBody (body : List ANFBinding) (store : Store V) : Option (Store V) :=
  (evalBindings meaning body meaning.nothing store).map Prod.snd

end Run

section Body

variable {V : Type} {meaning : Meaning V}

theorem map_snd_evalBindings (bindings : List ANFBinding) (last last' : V) (store : Store V) :
    (evalBindings meaning bindings last store).map Prod.snd =
      (evalBindings meaning bindings last' store).map Prod.snd := by
  cases bindings with
  | nil => rw [evalBindings, evalBindings, Option.map_some, Option.map_some]
  | cons b rest =>
    obtain ⟨name, value⟩ := b
    rw [evalBindings, evalBindings]

@[simp] theorem runBody_nil (store : Store V) : runBody meaning [] store = some store := by
  rw [runBody, evalBindings]
  rfl

theorem runBody_cons (binding : ANFBinding) (rest : List ANFBinding) (store : Store V) :
    runBody meaning (binding :: rest) store =
      (runBinding meaning binding store).bind (runBody meaning rest) := by
  obtain ⟨name, value⟩ := binding
  rw [runBody, evalBindings, runBinding]
  show (Option.bind (evalValue meaning value store) fun r =>
    evalBindings meaning rest r.1 (r.2.bind name r.1)).map Prod.snd = _
  rw [ANFBinding.value_mk, ANFBinding.name_mk]
  cases evalValue meaning value store with
  | none => rfl
  | some r => exact map_snd_evalBindings rest _ _ _

theorem runBody_append (front back : List ANFBinding) (store : Store V) :
    runBody meaning (front ++ back) store =
      (runBody meaning front store).bind (runBody meaning back) := by
  induction front generalizing store with
  | nil => rw [List.nil_append, runBody_nil, Option.bind_some]
  | cons b front ih =>
    rw [List.cons_append, runBody_cons, runBody_cons, Option.bind_assoc]
    exact congrArg _ (funext ih)

end Body

/-! ## A run depends on the names it reads -/

mutual

/-- The names an operation reads, those of parameters included. -/
def reads : ANFValue → List String
  | .loadParam name | .loadConst (.ref name) => [name]
  | .loadProp _ | .getStateScript | .loadConst _ | .rawScript _ _ _ => []
  | .binOp _ left right _ => [left, right]
  | .unaryOp _ operand _ => [operand]
  | .call _ args => args
  | .methodCall object _ args => object :: args
  | .ifValue cond thenBody elseBody _ => cond :: (readsAll thenBody ++ readsAll elseBody)
  | .loop _ body _ _ _ => readsAll body
  | .assert name => [name]
  | .updateProp _ operand => [operand]
  | .checkPreimage preimage _ => [preimage]
  | .deserializeState preimage => [preimage]
  | .addOutput satoshis stateValues _ => satoshis :: stateValues
  | .addRawOutput satoshis scriptBytes => [satoshis, scriptBytes]
  | .addDataOutput satoshis scriptBytes => [satoshis, scriptBytes]
  | .arrayLiteral elements => elements

def readsAll : List ANFBinding → List String
  | [] => []
  | .mk _ value :: rest => reads value ++ readsAll rest

end

section Congr

variable {V : Type} {meaning : Meaning V} {R : String → Prop}

/-- Two states agree on some names, and on all that lasts. -/
structure AgreeOn (R : String → Prop) (s t : Store V) : Prop where
  world : s.world = t.world
  names : ∀ n, R n → s.names n = t.names n

namespace AgreeOn

variable {s t u : Store V}

theorem refl (R : String → Prop) (s : Store V) : AgreeOn R s s := ⟨rfl, fun _ _ => rfl⟩

theorem symm (h : AgreeOn R s t) : AgreeOn R t s :=
  ⟨h.world.symm, fun n hn => (h.names n hn).symm⟩

theorem trans (h : AgreeOn R s t) (h' : AgreeOn R t u) : AgreeOn R s u :=
  ⟨h.world.trans h'.world, fun n hn => (h.names n hn).trans (h'.names n hn)⟩

theorem bind (h : AgreeOn R s t) (name : String) (value : V) :
    AgreeOn R (s.bind name value) (t.bind name value) := by
  refine ⟨h.world, fun n hn => ?_⟩
  show (if n = name then some value else s.names n) = if n = name then some value else t.names n
  rw [h.names n hn]

theorem withWorld (h : AgreeOn R s t) (world : World V) :
    AgreeOn R (s.withWorld world) (t.withWorld world) := ⟨rfl, h.names⟩

theorem read (h : AgreeOn R s t) {names : List String} (hnames : ∀ n ∈ names, R n) :
    s.read names = t.read names := by
  unfold Store.read
  induction names with
  | nil => rfl
  | cons n names ih =>
    rw [List.mapM_cons, List.mapM_cons, h.names n (hnames n List.mem_cons_self),
      ih fun m hm => hnames m (List.mem_cons_of_mem _ hm)]

end AgreeOn

/-- Two outcomes agree: both abort, or the values are the same and the states agree. -/
def SameOutcome (R : String → Prop) : Option (V × Store V) → Option (V × Store V) → Prop :=
  Option.Rel fun r r' => r.1 = r'.1 ∧ AgreeOn R r.2 r'.2

namespace SameOutcome

variable {s t : Store V}

theorem some (value : V) (h : AgreeOn R s t) :
    SameOutcome R (Option.some (value, s)) (Option.some (value, t)) :=
  Option.Rel.some ⟨rfl, h⟩

/-- The same value first, and what follows agrees. -/
theorem bind_same {α : Type} (x : Option α) {f g : α → Option (V × Store V)}
    (h : ∀ a, SameOutcome R (f a) (g a)) : SameOutcome R (x.bind f) (x.bind g) := by
  cases x with
  | none => exact Option.Rel.none
  | some a => exact h a

theorem bind {x y : Option (V × Store V)} (hxy : SameOutcome R x y)
    {f g : V × Store V → Option (V × Store V)}
    (h : ∀ v s t, AgreeOn R s t → SameOutcome R (f (v, s)) (g (v, t))) :
    SameOutcome R (x.bind f) (y.bind g) := by
  cases hxy with
  | none => exact Option.Rel.none
  | @some r r' hr =>
    obtain ⟨v, s⟩ := r
    obtain ⟨v', t⟩ := r'
    obtain ⟨rfl, hagree⟩ := hr
    exact h v s t hagree

theorem map (x : Option V) (h : AgreeOn R s t) :
    SameOutcome R (x.map fun v => (v, s)) (x.map fun v => (v, t)) := by
  cases x with
  | none => exact Option.Rel.none
  | some v => exact Option.Rel.some ⟨rfl, h⟩

theorem leave (x : Option (V × World V)) (h : AgreeOn R s t) :
    SameOutcome R (leave s x) (Anf.leave t x) := by
  cases x with
  | none => exact Option.Rel.none
  | some r => exact Option.Rel.some ⟨rfl, h.withWorld r.2⟩

end SameOutcome

theorem loopRun_congr {body : Store V → Option (V × Store V)}
    (hbody : ∀ s t, AgreeOn R s t → SameOutcome R (body s) (body t)) (iterVar : String) (step : Int)
    (count : Nat) (i : Int) (last : V) {s t : Store V} (h : AgreeOn R s t) :
    SameOutcome R (loopRun meaning body iterVar step count i last s)
      (loopRun meaning body iterVar step count i last t) := by
  induction count generalizing i last s t with
  | zero => exact .some last h
  | succ count ih =>
    rw [loopRun, loopRun]
    exact (hbody _ _ (h.bind iterVar (meaning.iter i))).bind fun v s t hagree =>
      ih (i + step) v hagree

mutual

/-- An operation does the same in states that agree on what it reads. -/
theorem evalValue_congr : ∀ (value : ANFValue), (∀ n ∈ reads value, R n) → ∀ {s t : Store V},
    AgreeOn R s t → SameOutcome R (evalValue meaning value s) (evalValue meaning value t)
  | .loadParam name, hR, s, t, h => by
    rw [evalValue, evalValue, h.names name (hR name (by rw [reads]; exact List.mem_cons_self))]
    exact .map _ h
  | .loadProp name, hR, s, t, h => by
    rw [evalValue, evalValue, h.world]
    exact .map _ h
  | .loadConst (.ref name), hR, s, t, h => by
    rw [evalValue, evalValue, h.names name (hR name (by rw [reads]; exact List.mem_cons_self))]
    exact .map _ h
  | .loadConst (.const c), hR, s, t, h => by
    rw [evalValue, evalValue]
    · exact .some _ h
    · rintro _ ⟨⟩
    · rintro _ ⟨⟩
  | .loadConst .this, hR, s, t, h => by
    rw [evalValue, evalValue]
    · exact .some _ h
    · rintro _ ⟨⟩
    · rintro _ ⟨⟩
  | .loadConst .void, hR, s, t, h => by
    rw [evalValue, evalValue]
    · exact .some _ h
    · rintro _ ⟨⟩
    · rintro _ ⟨⟩
  | .binOp op left right resultBytes, hR, s, t, h => by
    rw [reads] at hR
    rw [evalValue, evalValue, h.names left (hR left List.mem_cons_self),
      h.names right (hR right (List.mem_cons_of_mem _ List.mem_cons_self))]
    exact .bind_same _ fun l => .bind_same _ fun r => .map _ h
  | .unaryOp op operand resultBytes, hR, s, t, h => by
    rw [reads] at hR
    rw [evalValue, evalValue, h.names operand (hR operand List.mem_cons_self)]
    exact .bind_same _ fun x => .map _ h
  | .call func args, hR, s, t, h => by
    rw [reads] at hR
    rw [evalValue, evalValue, h.read hR, h.world]
    exact .bind_same _ fun xs => .leave _ h
  | .methodCall object method args, hR, s, t, h => by
    rw [reads] at hR
    rw [evalValue, evalValue, h.names object (hR object List.mem_cons_self),
      h.read fun n hn => hR n (List.mem_cons_of_mem _ hn), h.world]
    exact .bind_same _ fun o => .bind_same _ fun xs => .leave _ h
  | .ifValue cond thenBody elseBody results, hR, s, t, h => by
    rw [reads] at hR
    have hthen := fun {s t} => @evalBindings_congr thenBody
      (fun n hn => hR n (List.mem_cons_of_mem _ (List.mem_append_left _ hn))) meaning.nothing s t
    have helse := fun {s t} => @evalBindings_congr elseBody
      (fun n hn => hR n (List.mem_cons_of_mem _ (List.mem_append_right _ hn))) meaning.nothing s t
    rw [evalValue, evalValue, h.names cond (hR cond List.mem_cons_self)]
    refine .bind_same _ fun c => .bind_same _ fun b => ?_
    split
    · exact hthen h
    · exact helse h
  | .loop count body iterVar start step, hR, s, t, h => by
    rw [reads] at hR
    rw [evalValue, evalValue]
    exact loopRun_congr (fun s t => evalBindings_congr body hR meaning.nothing) iterVar step count
      start _ h
  | .assert name, hR, s, t, h => by
    rw [reads] at hR
    rw [evalValue, evalValue, h.names name (hR name List.mem_cons_self)]
    refine .bind_same _ fun x => .bind_same _ fun b => ?_
    split
    · exact .some _ h
    · exact Option.Rel.none
  | .updateProp name operand, hR, s, t, h => by
    rw [reads] at hR
    rw [evalValue, evalValue, h.names operand (hR operand List.mem_cons_self), h.world]
    exact .bind_same _ fun x => .some _ (h.withWorld _)
  | .getStateScript, hR, s, t, h => by
    rw [evalValue, evalValue, h.world]
    exact .map _ h
  | .checkPreimage preimage sighashFlag, hR, s, t, h => by
    rw [reads] at hR
    rw [evalValue, evalValue, h.names preimage (hR preimage List.mem_cons_self), h.world]
    exact .bind_same _ fun x => .leave _ h
  | .deserializeState preimage, hR, s, t, h => by
    rw [reads] at hR
    rw [evalValue, evalValue, h.names preimage (hR preimage List.mem_cons_self), h.world]
    exact .bind_same _ fun x => .leave _ h
  | .addOutput satoshis stateValues preimage, hR, s, t, h => by
    rw [reads] at hR
    rw [evalValue, evalValue, h.names satoshis (hR satoshis List.mem_cons_self),
      h.read fun n hn => hR n (List.mem_cons_of_mem _ hn), h.world]
    exact .bind_same _ fun x => .bind_same _ fun xs => .some _ (h.withWorld _)
  | .addRawOutput satoshis scriptBytes, hR, s, t, h => by
    rw [reads] at hR
    rw [evalValue, evalValue, h.names satoshis (hR satoshis List.mem_cons_self),
      h.names scriptBytes (hR scriptBytes (List.mem_cons_of_mem _ List.mem_cons_self)), h.world]
    exact .bind_same _ fun x => .bind_same _ fun b => .some _ (h.withWorld _)
  | .addDataOutput satoshis scriptBytes, hR, s, t, h => by
    rw [reads] at hR
    rw [evalValue, evalValue, h.names satoshis (hR satoshis List.mem_cons_self),
      h.names scriptBytes (hR scriptBytes (List.mem_cons_of_mem _ List.mem_cons_self)), h.world]
    exact .bind_same _ fun x => .bind_same _ fun b => .some _ (h.withWorld _)
  | .arrayLiteral elements, hR, s, t, h => by
    rw [reads] at hR
    rw [evalValue, evalValue, h.read hR]
    exact .bind_same _ fun xs => .some _ h
  | .rawScript bytes inArity outArity, hR, s, t, h => by
    rw [evalValue, evalValue, h.world]
    exact .leave _ h

theorem evalBindings_congr : ∀ (bindings : List ANFBinding), (∀ n ∈ readsAll bindings, R n) →
    ∀ (last : V) {s t : Store V}, AgreeOn R s t →
      SameOutcome R (evalBindings meaning bindings last s) (evalBindings meaning bindings last t)
  | [], hR, last, s, t, h => by
    rw [evalBindings, evalBindings]
    exact .some last h
  | .mk name value :: rest, hR, last, s, t, h => by
    rw [readsAll] at hR
    rw [evalBindings, evalBindings]
    refine (evalValue_congr value (fun n hn => hR n (List.mem_append_left _ hn)) h).bind
      fun v s t hagree => ?_
    exact evalBindings_congr rest (fun n hn => hR n (List.mem_append_right _ hn)) v
      (hagree.bind name v)

end

end Congr

end Runar.Anf
