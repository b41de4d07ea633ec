/-
  Anf/Live.lean --- the names that matter.

  WHAT THIS FILE IS FOR.  A run reads only some names before it binds them itself, the live
  ones, and no operation sees in which order the properties got their values.  A run does the
  same from two states that agree on the live names, the properties and the outputs.
-/
import Runar.Anf.Eval

set_option autoImplicit false

namespace Runar.Anf

mutual

/-- The names an operation reads before it binds them. -/
def liveOf : ANFValue → List String
  | .loadParam name | .loadConst (.ref name) => [name]
  | .loadProp _ | .getStateScript | .loadConst _ | .rawScript _ _ _ => []
  | .binOp _ left right _ => [left, right]
  | .unaryOp _ operand _ => [operand]
  | .call _ args => args
  | .methodCall object _ args => object :: args
  | .ifValue cond thenBody elseBody _ => cond :: (live thenBody ++ live elseBody)
  | .loop _ body iterVar _ _ => (live body).filter fun n => n ≠ iterVar
  | .assert name => [name]
  | .updateProp _ operand => [operand]
  | .checkPreimage preimage _ => [preimage]
  | .deserializeState preimage => [preimage]
  | .addOutput satoshis stateValues _ => satoshis :: stateValues
  | .addRawOutput satoshis scriptBytes => [satoshis, scriptBytes]
  | .addDataOutput satoshis scriptBytes => [satoshis, scriptBytes]
  | .arrayLiteral elements => elements

def live : List ANFBinding → List String
  | [] => []
  | .mk name value :: rest => liveOf value ++ (live rest).filter fun n => n ≠ name

end

theorem live_cons_subset {name : String} {value : ANFValue} {rest : List ANFBinding}
    {R : String → Prop} (h : ∀ n ∈ live (.mk name value :: rest), R n) :
    (∀ n ∈ liveOf value, R n) ∧ ∀ n ∈ live rest, R n ∨ n = name := by
  rw [live] at h
  refine ⟨fun n hn => h n (List.mem_append_left _ hn), fun n hn => ?_⟩
  by_cases hname : n = name
  · exact .inr hname
  · exact .inl (h n (List.mem_append_right _ (List.mem_filter.2 ⟨hn, decide_eq_true hname⟩)))

/-- What stands in front binds names for what follows. -/
theorem live_append_subset {front back : List ANFBinding} {R : String → Prop}
    (h : ∀ n ∈ live (front ++ back), R n) :
    (∀ n ∈ live front, R n) ∧ ∀ n ∈ live back, R n ∨ n ∈ front.map ANFBinding.name := by
  induction front generalizing R with
  | nil =>
    rw [live]
    exact ⟨fun n hn => absurd hn List.not_mem_nil, fun n hn => .inl (h n hn)⟩
  | cons b front ih =>
    obtain ⟨name, value⟩ := b
    obtain ⟨hvalue, hrest⟩ := live_cons_subset h
    obtain ⟨hfront, hback⟩ := ih hrest
    rw [live, List.map_cons, ANFBinding.name_mk]
    constructor
    · intro n hn
      rcases List.mem_append.1 hn with hn | hn
      · exact hvalue n hn
      · obtain ⟨hn, hne⟩ := List.mem_filter.1 hn
        exact (hfront n hn).resolve_right (of_decide_eq_true hne)
    · intro n hn
      rcases hback n hn with (hR | rfl) | hmem
      · exact .inl hR
      · exact .inr List.mem_cons_self
      · exact .inr (List.mem_cons_of_mem _ hmem)

/-! ## Without the order of the updates -/

section Congr

variable {V : Type}

/-- What a world shows. -/
def World.effect (world : World V) : (String → Option V) × List (Output V) :=
  (world.props, world.outputs)

/-- The value an operation leaves, and what its world shows. -/
def shown (r : V × World V) : V × (String → Option V) × List (Output V) := (r.1, r.2.effect)

/-- No operation sees in which order the properties got their values. -/
structure IgnoresUpdates (meaning : Meaning V) : Prop where
  stateScript : ∀ {w w' : World V}, w.effect = w'.effect →
    meaning.stateScript w = meaning.stateScript w'
  call : ∀ (func : String) (args : List V) {w w' : World V}, w.effect = w'.effect →
    (meaning.call func args w).map shown = (meaning.call func args w').map shown
  methodCall : ∀ (object : V) (method : String) (args : List V) {w w' : World V},
    w.effect = w'.effect →
    (meaning.methodCall object method args w).map shown =
      (meaning.methodCall object method args w').map shown
  checkPreimage : ∀ (preimage : V) (flag : Option Nat) {w w' : World V}, w.effect = w'.effect →
    (meaning.checkPreimage preimage flag w).map shown =
      (meaning.checkPreimage preimage flag w').map shown
  deserializeState : ∀ (preimage : V) {w w' : World V}, w.effect = w'.effect →
    (meaning.deserializeState preimage w).map shown =
      (meaning.deserializeState preimage w').map shown
  rawScript : ∀ (bytes : Script.Bytes) (inArity outArity : Nat) {w w' : World V},
    w.effect = w'.effect →
    (meaning.rawScript bytes inArity outArity w).map shown =
      (meaning.rawScript bytes inArity outArity w').map shown

theorem effect_update {w w' : World V} (h : w.effect = w'.effect) (name : String) (value : V) :
    (w.update name value).effect = (w'.update name value).effect := by
  obtain ⟨hprops, houtputs⟩ := Prod.ext_iff.1 h
  dsimp only [World.effect] at hprops houtputs
  simp only [World.effect, World.update, hprops, houtputs]

theorem effect_send {w w' : World V} (h : w.effect = w'.effect) (output : Output V) :
    (w.send output).effect = (w'.send output).effect := by
  obtain ⟨hprops, houtputs⟩ := Prod.ext_iff.1 h
  dsimp only [World.effect] at hprops houtputs
  simp only [World.effect, World.send, hprops, houtputs]

/-- Two states agree on some names, and show the same. -/
structure Alike (R : String → Prop) (s t : Store V) : Prop where
  effect : s.world.effect = t.world.effect
  names : ∀ n, R n → s.names n = t.names n

namespace Alike

variable {R R' : String → Prop} {s t : Store V}

theorem mono (h : Alike R s t) (hR : ∀ n, R' n → R n) : Alike R' s t :=
  ⟨h.effect, fun n hn => h.names n (hR n hn)⟩

theorem props (h : Alike R s t) : s.world.props = t.world.props := (Prod.ext_iff.1 h.effect).1

theorem bind (h : Alike R s t) (name : String) (value : V) :
    Alike (fun n => R n ∨ n = name) (s.bind name value) (t.bind name value) := by
  refine ⟨h.effect, fun n hn => ?_⟩
  show (if n = name then some value else s.names n) = if n = name then some value else t.names n
  split
  · rfl
  · exact h.names n (hn.resolve_right ‹_›)

theorem withWorld (h : Alike R s t) {w w' : World V} (hw : w.effect = w'.effect) :
    Alike R (s.withWorld w) (t.withWorld w') := ⟨hw, h.names⟩

theorem read (h : Alike R s t) {names : List String} (hnames : ∀ n ∈ names, R n) :
    s.read names = t.read names := by
  have h' : AgreeOn R s (t.withWorld s.world) := ⟨rfl, h.names⟩
  exact h'.read hnames

end Alike

/-- Two outcomes are alike: both abort, or the values are the same and the states alike. -/
def AlikeOutcome (R : String → Prop) : Option (V × Store V) → Option (V × Store V) → Prop :=
  Option.Rel fun r r' => r.1 = r'.1 ∧ Alike R r.2 r'.2

namespace AlikeOutcome

variable {R R' : String → Prop} {s t : Store V}

theorem some (value : V) (h : Alike R s t) :
    AlikeOutcome R (Option.some (value, s)) (Option.some (value, t)) :=
  Option.Rel.some ⟨rfl, h⟩

theorem mono {x y : Option (V × Store V)} (h : AlikeOutcome R x y) (hR : ∀ n, R' n → R n) :
    AlikeOutcome R' x y := by
  cases h with
  | none => exact Option.Rel.none
  | some h => exact Option.Rel.some ⟨h.1, h.2.mono hR⟩

theorem bind_same {α : Type} (x : Option α) {f g : α → Option (V × Store V)}
    (h : ∀ a, AlikeOutcome R (f a) (g a)) : AlikeOutcome R (x.bind f) (x.bind g) := by
  cases x with
  | none => exact Option.Rel.none
  | some a => exact h a

theorem bind {x y : Option (V × Store V)} (hxy : AlikeOutcome R x y)
    {f g : V × Store V → Option (V × Store V)}
    (h : ∀ v s t, Alike R s t → AlikeOutcome R' (f (v, s)) (g (v, t))) :
    AlikeOutcome R' (x.bind f) (y.bind g) := by
  cases hxy with
  | none => exact Option.Rel.none
  | @some r r' hr =>
    obtain ⟨v, s⟩ := r
    obtain ⟨v', t⟩ := r'
    obtain ⟨rfl, halike⟩ := hr
    exact h v s t halike

theorem map (x : Option V) (h : Alike R s t) :
    AlikeOutcome R (x.map fun v => (v, s)) (x.map fun v => (v, t)) := by
  cases x with
  | none => exact Option.Rel.none
  | some v => exact Option.Rel.some ⟨rfl, h⟩

theorem leave {x y : Option (V × World V)} (hxy : x.map shown = y.map shown)
    (h : Alike R s t) : AlikeOutcome R (leave s x) (Anf.leave t y) := by
  cases x with
  | none =>
    cases y with
    | none => exact Option.Rel.none
    | some r' => cases hxy
  | some r =>
    cases y with
    | none => cases hxy
    | some r' =>
      have heq : shown r = shown r' := Option.some.inj hxy
      obtain ⟨hvalue, heffect⟩ := Prod.ext_iff.1 heq
      exact Option.Rel.some ⟨hvalue, h.withWorld heffect⟩

end AlikeOutcome

variable {meaning : Meaning V}

theorem loopRun_alike {R : String → Prop} {body : Store V → Option (V × Store V)}
    {iterVar : String}
    (hbody : ∀ s t, Alike (fun n => R n ∨ n = iterVar) s t → AlikeOutcome R (body s) (body t))
    (step : Int) (count : Nat) (i : Int) (last : V) {s t : Store V} (h : Alike R s t) :
    AlikeOutcome R (loopRun meaning body iterVar step count i last s)
      (loopRun meaning body iterVar step count i last t) := by
  induction count generalizing i last s t with
  | zero => exact .some last h
  | succ count ih =>
    rw [loopRun, loopRun]
    exact (hbody _ _ (h.bind iterVar (meaning.iter i))).bind fun v s t halike =>
      ih (i + step) v halike

mutual

/-- An operation does the same in states that are alike on what is live in it. -/
theorem evalValue_alike (hm : IgnoresUpdates meaning) : ∀ (value : ANFValue)
    {R : String → Prop}, (∀ n ∈ liveOf value, R n) → ∀ {s t : Store V}, Alike R s t →
    AlikeOutcome R (evalValue meaning value s) (evalValue meaning value t)
  | .loadParam name, R, hR, s, t, h => by
    rw [evalValue, evalValue, h.names name (hR name (by rw [liveOf]; exact List.mem_cons_self))]
    exact .map _ h
  | .loadProp name, R, hR, s, t, h => by
    rw [evalValue, evalValue, h.props]
    exact .map _ h
  | .loadConst (.ref name), R, hR, s, t, h => by
    rw [evalValue, evalValue, h.names name (hR name (by rw [liveOf]; exact List.mem_cons_self))]
    exact .map _ h
  | .loadConst (.const c), R, hR, s, t, h => by
    rw [evalValue, evalValue]
    · exact .some _ h
    · rintro _ ⟨⟩
    · rintro _ ⟨⟩
  | .loadConst .this, R, hR, s, t, h => by
    rw [evalValue, evalValue]
    · exact .some _ h
    · rintro _ ⟨⟩
    · rintro _ ⟨⟩
  | .loadConst .void, R, hR, s, t, h => by
    rw [evalValue, evalValue]
    · exact .some _ h
    · rintro _ ⟨⟩
    · rintro _ ⟨⟩
  | .binOp op left right resultBytes, R, hR, s, t, h => by
    rw [liveOf] at hR
    rw [evalValue, evalValue, h.names left (hR left List.mem_cons_self),
      h.names right (hR right (List.mem_cons_of_mem _ List.mem_cons_self))]
    exact .bind_same _ fun l => .bind_same _ fun r => .map _ h
  | .unaryOp op operand resultBytes, R, hR, s, t, h => by
    rw [liveOf] at hR
    rw [evalValue, evalValue, h.names operand (hR operand List.mem_cons_self)]
    exact .bind_same _ fun x => .map _ h
  | .call func args, R, hR, s, t, h => by
    rw [liveOf] at hR
    rw [evalValue, evalValue, h.read hR]
    exact .bind_same _ fun xs => .leave (hm.call func xs h.effect) h
  | .methodCall object method args, R, hR, s, t, h => by
    rw [liveOf] at hR
    rw [evalValue, evalValue, h.names object (hR object List.mem_cons_self),
      h.read fun n hn => hR n (List.mem_cons_of_mem _ hn)]
    exact .bind_same _ fun o => .bind_same _ fun xs =>
      .leave (hm.methodCall o method xs h.effect) h
  | .ifValue cond thenBody elseBody results, R, hR, s, t, h => by
    rw [liveOf] at hR
    have hthen := evalBindings_alike hm thenBody
      (fun n hn => hR n (List.mem_cons_of_mem _ (List.mem_append_left _ hn))) meaning.nothing h
    have helse := evalBindings_alike hm elseBody
      (fun n hn => hR n (List.mem_cons_of_mem _ (List.mem_append_right _ hn))) meaning.nothing h
    rw [evalValue, evalValue, h.names cond (hR cond List.mem_cons_self)]
    refine .bind_same _ fun c => .bind_same _ fun b => ?_
    split
    · exact hthen
    · exact helse
  | .loop count body iterVar start step, R, hR, s, t, h => by
    rw [liveOf] at hR
    have hbody : ∀ n ∈ live body, R n ∨ n = iterVar := by
      intro n hn
      by_cases hiter : n = iterVar
      · exact .inr hiter
      · exact .inl (hR n (List.mem_filter.2 ⟨hn, decide_eq_true hiter⟩))
    rw [evalValue, evalValue]
    exact loopRun_alike (fun s t hst =>
      (evalBindings_alike hm body hbody meaning.nothing hst).mono fun n hn => .inl hn)
      step count start _ h
  | .assert name, R, hR, s, t, h => by
    rw [liveOf] at hR
    rw [evalValue, evalValue, h.names name (hR name List.mem_cons_self)]
    refine .bind_same _ fun x => .bind_same _ fun b => ?_
    split
    · exact .some _ h
    · exact Option.Rel.none
  | .updateProp name operand, R, hR, s, t, h => by
    rw [liveOf] at hR
    rw [evalValue, evalValue, h.names operand (hR operand List.mem_cons_self)]
    exact .bind_same _ fun x => .some _ (h.withWorld (effect_update h.effect name x))
  | .getStateScript, R, hR, s, t, h => by
    rw [evalValue, evalValue, hm.stateScript h.effect]
    exact .map _ h
  | .checkPreimage preimage sighashFlag, R, hR, s, t, h => by
    rw [liveOf] at hR
    rw [evalValue, evalValue, h.names preimage (hR preimage List.mem_cons_self)]
    exact .bind_same _ fun x => .leave (hm.checkPreimage x sighashFlag h.effect) h
  | .deserializeState preimage, R, hR, s, t, h => by
    rw [liveOf] at hR
    rw [evalValue, evalValue, h.names preimage (hR preimage List.mem_cons_self)]
    exact .bind_same _ fun x => .leave (hm.deserializeState x h.effect) h
  | .addOutput satoshis stateValues preimage, R, hR, s, t, h => by
    rw [liveOf] at hR
    rw [evalValue, evalValue, h.names satoshis (hR satoshis List.mem_cons_self),
      h.read fun n hn => hR n (List.mem_cons_of_mem _ hn)]
    exact .bind_same _ fun x => .bind_same _ fun xs =>
      .some _ (h.withWorld (effect_send h.effect _))
  | .addRawOutput satoshis scriptBytes, R, hR, s, t, h => by
    rw [liveOf] at hR
    rw [evalValue, evalValue, h.names satoshis (hR satoshis List.mem_cons_self),
      h.names scriptBytes (hR scriptBytes (List.mem_cons_of_mem _ List.mem_cons_self))]
    exact .bind_same _ fun x => .bind_same _ fun b =>
      .some _ (h.withWorld (effect_send h.effect _))
  | .addDataOutput satoshis scriptBytes, R, hR, s, t, h => by
    rw [liveOf] at hR
    rw [evalValue, evalValue, h.names satoshis (hR satoshis List.mem_cons_self),
      h.names scriptBytes (hR scriptBytes (List.mem_cons_of_mem _ List.mem_cons_self))]
    exact .bind_same _ fun x => .bind_same _ fun b =>
      .some _ (h.withWorld (effect_send h.effect _))
  | .arrayLiteral elements, R, hR, s, t, h => by
    rw [liveOf] at hR
    rw [evalValue, evalValue, h.read hR]
    exact .bind_same _ fun xs => .some _ h
  | .rawScript bytes inArity outArity, R, hR, s, t, h => by
    rw [evalValue, evalValue]
    exact .leave (hm.rawScript bytes inArity outArity h.effect) h

theorem evalBindings_alike (hm : IgnoresUpdates meaning) : ∀ (bindings : List ANFBinding)
    {R : String → Prop}, (∀ n ∈ live bindings, R n) → ∀ (last : V) {s t : Store V},
    Alike R s t →
      AlikeOutcome R (evalBindings meaning bindings last s) (evalBindings meaning bindings last t)
  | [], R, hR, last, s, t, h => by
    rw [evalBindings, evalBindings]
    exact .some last h
  | .mk name value :: rest, R, hR, last, s, t, h => by
    obtain ⟨hvalue, hrest⟩ := live_cons_subset hR
    rw [evalBindings, evalBindings]
    refine (evalValue_alike hm value hvalue h).bind fun v s t halike => ?_
    exact (evalBindings_alike hm rest hrest v (halike.bind name v)).mono fun n hn => .inl hn

end

/-- One binding does the same in states that are alike on what is live in it and after it. -/
theorem runBinding_alike (hm : IgnoresUpdates meaning) {name : String} {value : ANFValue}
    {rest : List ANFBinding} {s t : Store V}
    (h : Alike (fun n => n ∈ live (.mk name value :: rest)) s t) :
    Option.Rel (Alike fun n => n ∈ live rest) (runBinding meaning (.mk name value) s)
      (runBinding meaning (.mk name value) t) := by
  obtain ⟨hvalue, hrest⟩ := live_cons_subset (R := fun n => n ∈ live (.mk name value :: rest))
    fun n hn => hn
  rw [runBinding, runBinding, ANFBinding.value_mk, ANFBinding.name_mk]
  have hrel := evalValue_alike hm value hvalue h
  generalize evalValue meaning value s = x at hrel
  generalize evalValue meaning value t = y at hrel
  cases hrel with
  | none => exact Option.Rel.none
  | @some r r' hr =>
    obtain ⟨v, s'⟩ := r
    obtain ⟨v', t'⟩ := r'
    obtain ⟨rfl, halike⟩ := hr
    exact Option.Rel.some ((halike.bind name v).mono hrest)

end Congr

end Runar.Anf
