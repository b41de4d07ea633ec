/-
  Sdk/StrictRuns.lean --- what the strict modes of the interpreter enforce.

  WHAT THIS FILE IS FOR.  A strict run stops with an assertion failure exactly at the first
  assert of the method itself whose condition is false, in whatever arm or loop body it
  stands, and an authoritative run verifies every call of a crypto builtin there.  A
  private method is run without the caller's mode: its asserts stop nothing, and its
  crypto builtins are mocked.
-/
import Runar.Sdk.AnfInterpreter

set_option autoImplicit false

namespace Runar.Sdk.AnfInterpreter

open Script Logic LogM

/-! ## Events -/

/-- An assert that was executed with a false condition. -/
def Event.Fails : Event → Prop
  | .assert _ holds => holds = false
  | .crypto _ _ _ => False

/-- An event of the called method itself. -/
def Event.Own : Event → Prop
  | .assert site _ | .crypto site _ _ => site = .own

/-- A crypto builtin that was mocked. -/
def Event.Mocked : Event → Prop
  | .assert _ _ => False
  | .crypto _ _ verified => verified = false

/-- A violation: an assert of the method itself with a false condition. -/
def Event.Violation (e : Event) : Prop := e.Fails ∧ e.Own

/-- A failure that comes of an assert. -/
def Failure.FromAssert : Failure → Prop
  | .assertionFailure _ _ => True
  | .error _ => False

/-! ## Every evaluation -/

section Rules

/-- What is to hold of the parts of an evaluation holds of the whole if it holds of reading
and changing the state and is kept by sequence. -/
structure Rules (Holds : ∀ {α : Type}, EvalM α → Prop) : Prop where
  pure : ∀ {α : Type} (a : α), Holds (pure a : EvalM α)
  read : Holds (read : EvalM Machine)
  update : ∀ f : Machine → Machine, Holds (update f : EvalM Unit)
  error : ∀ {α : Type} (message : String), Holds (fail (.error message) : EvalM α)
  bind : ∀ {α β : Type} {m : EvalM α} {f : α → EvalM β}, Holds m → (∀ a, Holds (f a)) →
    Holds (m >>= f)

variable {Holds : ∀ {α : Type}, EvalM α → Prop} {ops : Ops} {props : List String}
  {callMethod : String → List JsValue → EvalM JsValue} {strict : Option StrictCtx} {site : Site}

namespace Rules

theorem orThrow (rules : Rules Holds) {α : Type} (result : Except String α) :
    Holds (orThrow result) := by
  cases result with
  | ok a => exact rules.pure a
  | error message => exact rules.error message

theorem keepBytes (rules : Rules Holds) (bindingName : String)
    (result : Except String (JsValue × Option (List Nat))) :
    Holds (keepBytes bindingName result) := by
  refine rules.bind (rules.orThrow result) fun (value, bytes) => ?_
  cases bytes with
  | none => exact rules.pure value
  | some bytes => exact rules.bind (rules.update _) fun _ => rules.pure value

theorem lastValue (rules : Rules Holds) (body : List AnfBinding) : Holds (lastValue body) :=
  rules.bind rules.read fun _ => rules.pure _

theorem evalLoop (rules : Rules Holds) {body : EvalM JsValue} (hbody : Holds body)
    (iterVar : String) (step : Int) (count : Nat) (i : Int) (last : JsValue) :
    Holds (evalLoop body iterVar step count i last) := by
  induction count generalizing i last with
  | zero => exact rules.pure last
  | succ count ih =>
    exact rules.bind (rules.update _) fun _ => rules.bind hbody fun value => ih (i + step) value

mutual

/-- What holds of asserts, of calls of builtins and of calls of methods holds of every
operation. -/
theorem evalValue (rules : Rules Holds)
    (henforce : ∀ bindingName predicate, Holds (enforce strict site bindingName predicate))
    (hcall : ∀ func args, Holds (evalCall ops site func args (strict.bind (·.realCrypto))))
    (hmethod : ∀ name args, Holds (callMethod name args)) (bindingName : String) :
    ∀ value : AnfValue,
      Holds (evalValue ops props callMethod strict site bindingName value)
  | .loadParam name | .loadProp name => by
    rw [AnfInterpreter.evalValue]
    exact rules.bind rules.read fun _ => rules.pure _
  | .loadConst v => by
    rw [AnfInterpreter.evalValue]
    cases refTarget v with
    | none => exact rules.pure v
    | some target =>
      refine rules.bind rules.read fun m => ?_
      dsimp only
      cases m.scriptBytes target with
      | none => exact rules.pure _
      | some carried => exact rules.bind (rules.update _) fun _ => rules.pure _
  | .binOp op left right resultType => by
    rw [AnfInterpreter.evalValue]
    exact rules.bind rules.read fun _ => rules.keepBytes bindingName _
  | .unaryOp op operand resultType => by
    rw [AnfInterpreter.evalValue]
    exact rules.bind rules.read fun _ => rules.keepBytes bindingName _
  | .call func args => by
    rw [AnfInterpreter.evalValue]
    refine rules.bind rules.read fun m => ?_
    by_cases hassert : func = "assert"
    · rw [if_pos hassert]
      exact henforce bindingName _
    · rw [if_neg hassert]
      exact hcall func _
  | .methodCall method args => by
    rw [AnfInterpreter.evalValue]
    exact rules.bind rules.read fun m => hmethod method _
  | .ifValue cond thenBody elseBody => by
    rw [AnfInterpreter.evalValue]
    refine rules.bind rules.read fun m => ?_
    by_cases hcond : isTruthy (m.env.get cond) = true
    · rw [if_pos hcond]
      exact rules.bind (rules.evalBindings henforce hcall hmethod thenBody)
        fun _ => rules.lastValue thenBody
    · rw [if_neg hcond]
      exact rules.bind (rules.evalBindings henforce hcall hmethod elseBody)
        fun _ => rules.lastValue elseBody
  | .loop count body iterVar start step => by
    rw [AnfInterpreter.evalValue]
    exact rules.evalLoop (rules.bind (rules.evalBindings henforce hcall hmethod body)
      fun _ => rules.lastValue body) iterVar step count start .undefined
  | .assert name marked => by
    rw [AnfInterpreter.evalValue]
    refine rules.bind rules.read fun m => ?_
    cases marked with
    | true => exact rules.pure _
    | false => exact henforce bindingName _
  | .updateProp name ref => by
    rw [AnfInterpreter.evalValue]
    exact rules.bind (rules.update _) fun _ => rules.pure _
  | .addOutput satoshis stateValues => by
    rw [AnfInterpreter.evalValue]
    exact rules.bind (rules.update _) fun _ =>
      rules.bind (rules.update _) fun _ => rules.pure _
  | .addDataOutput satoshis scriptBytes => by
    rw [AnfInterpreter.evalValue]
    exact rules.bind (rules.update _) fun _ => rules.pure _
  | .addRawOutput satoshis scriptBytes => by
    rw [AnfInterpreter.evalValue]
    exact rules.bind (rules.update _) fun _ => rules.pure _
  | .checkPreimage _ | .deserializeState _ | .getStateScript | .other _ => by
    rw [AnfInterpreter.evalValue]
    exact rules.pure _

theorem evalBindings (rules : Rules Holds)
    (henforce : ∀ bindingName predicate, Holds (enforce strict site bindingName predicate))
    (hcall : ∀ func args, Holds (evalCall ops site func args (strict.bind (·.realCrypto))))
    (hmethod : ∀ name args, Holds (callMethod name args)) :
    ∀ bindings : List AnfBinding,
      Holds (evalBindings ops props callMethod strict site bindings)
  | [] => by
    rw [AnfInterpreter.evalBindings]
    exact rules.pure ()
  | .mk name value :: rest => by
    rw [AnfInterpreter.evalBindings]
    exact rules.bind (rules.evalValue henforce hcall hmethod name value) fun v =>
      rules.bind (rules.update _) fun _ => rules.evalBindings henforce hcall hmethod rest

end

/-- What holds of asserts and of calls of builtins in private methods holds of calling a
private method, at any depth. -/
theorem evalMethodCall (rules : Rules Holds) {anf : AnfProgram}
    (henforce : ∀ bindingName predicate, Holds (enforce none .helper bindingName predicate))
    (hcall : ∀ func args, Holds (evalCall ops .helper func args none)) (depth : Nat)
    (methodName : String) (args : List JsValue) :
    Holds (evalMethodCall ops anf depth methodName args) := by
  induction depth generalizing methodName args with
  | zero => exact rules.error _
  | succ depth ih =>
    rw [AnfInterpreter.evalMethodCall]
    cases anf.methods.find? fun m => m.name = methodName ∧ !m.isPublic with
    | none => exact rules.pure _
    | some method =>
      refine rules.bind rules.read fun caller => rules.bind (rules.update _) fun _ => ?_
      refine rules.bind (rules.evalBindings henforce hcall ih method.body) fun _ => ?_
      refine rules.bind (rules.lastValue method.body) fun value => ?_
      exact rules.bind (rules.update _) fun _ => rules.pure value

end Rules

theorem rules_stopsAt :
    Rules fun {_} m => StopsAt Event.Violation Failure.FromAssert m where
  pure _ := .pure
  read := .read
  update _ := .update
  error _ := .fail id
  bind hm hf := hm.bind hf

theorem rules_logs (P : Event → Prop) : Rules fun {_} m => Logs P m where
  pure _ := .silent fun _ => rfl
  read := .silent fun _ => rfl
  update _ := .silent fun _ => rfl
  error _ := .silent fun _ => rfl
  bind hm hf := hm.bind hf

end Rules

/-! ## Asserts -/

section Asserts

variable {ops : Ops} {anf : AnfProgram} {ctx : StrictCtx}

/-- An assert of the method itself stops the run if its condition is false. -/
theorem enforce_own (bindingName : String) (predicate : JsValue) :
    StopsAt Event.Violation Failure.FromAssert (enforce (some ctx) .own bindingName predicate) := by
  unfold enforce
  by_cases htrue : isTruthy predicate = true
  · rw [if_pos htrue]
    exact .bind (.record fun h => Bool.noConfusion h.1) fun _ => .pure
  · rw [if_neg htrue]
    exact .violate ⟨rfl, rfl⟩ trivial

/-- An assert of a private method stops nothing. -/
theorem enforce_helper (bindingName : String) (predicate : JsValue) :
    StopsAt Event.Violation Failure.FromAssert (enforce none .helper bindingName predicate) := by
  have hhelper : ∀ holds, ¬ (Event.assert .helper holds).Violation := fun _ h => nomatch h.2
  unfold enforce
  by_cases htrue : isTruthy predicate = true
  · rw [if_pos htrue]
    exact .bind (.record (hhelper true)) fun _ => .pure
  · rw [if_neg htrue]
    exact .bind (.record (hhelper false)) fun _ => .pure

theorem evalCall_stopsAt (site : Site) (func : String) (args : List JsValue)
    (realCrypto : Option (List Nat)) :
    StopsAt Event.Violation Failure.FromAssert (evalCall ops site func args realCrypto) := by
  unfold evalCall
  by_cases hcrypto : func ∈ cryptoBuiltins
  · rw [if_pos hcrypto]
    cases realCrypto with
    | none => exact .bind (.record fun h => h.1) fun _ => .pure
    | some sighash => exact .bind (.record fun h => h.1) fun _ => .pure
  · rw [if_neg hcrypto]
    exact rules_stopsAt.orThrow _

/-- A run of a method fails as its body does, and logs what its body logs; without such a
method it fails and logs nothing. -/
theorem runMethod_cases (ops : Ops) (anf : AnfProgram) (depth : Nat) (methodName : String)
    (currentState args : Record) (constructorArgs : List JsValue) (strict : Option StrictCtx) :
    (∃ message, runMethod ops anf depth methodName currentState args constructorArgs strict =
        (.error (.error message), [])) ∨
      ∃ body start,
        (∀ failure, (runMethod ops anf depth methodName currentState args constructorArgs
            strict).1 = .error failure ↔
          (evalBindings ops (mutableProps anf) (evalMethodCall ops anf depth) strict .own body
            start).1 = .error failure) ∧
        (runMethod ops anf depth methodName currentState args constructorArgs strict).2 =
          (evalBindings ops (mutableProps anf) (evalMethodCall ops anf depth) strict .own body
            start).2.2 := by
  unfold runMethod
  cases anf.methods.find? fun m => m.name = methodName ∧ m.isPublic with
  | none => exact .inl ⟨_, rfl⟩
  | some method =>
    refine .inr ⟨method.body, ⟨initialEnv anf method currentState args constructorArgs,
      fun _ => none, [], [], [], fun _ => none⟩, ?_⟩
    dsimp only
    cases evalBindings ops (mutableProps anf) (evalMethodCall ops anf depth) strict .own
        method.body ⟨initialEnv anf method currentState args constructorArgs, fun _ => none, [],
          [], [], fun _ => none⟩ with
    | mk result rest =>
      obtain ⟨m, log⟩ := rest
      cases result with
      | error err =>
        exact ⟨fun failure => ⟨fun h => by cases h; rfl, fun h => by cases h; rfl⟩, rfl⟩
      | ok _ => exact ⟨fun failure => ⟨fun h => (nomatch h), fun h => (nomatch h)⟩, rfl⟩

/-- A strict run fails for an assert exactly if it came to a false one of its own. -/
theorem runMethod_stops (ops : Ops) (anf : AnfProgram) (ctx : StrictCtx) (depth : Nat)
    (methodName : String) (currentState args : Record) (constructorArgs : List JsValue) :
    (∃ e ∈ (runMethod ops anf depth methodName currentState args constructorArgs (some ctx)).2,
        e.Violation) ↔
      ∃ failure, (runMethod ops anf depth methodName currentState args constructorArgs
        (some ctx)).1 = .error failure ∧ failure.FromAssert := by
  rcases runMethod_cases ops anf depth methodName currentState args
      constructorArgs (some ctx) with ⟨message, hrun⟩ | ⟨body, start, hfails, hlog⟩
  · rw [hrun]
    refine ⟨fun ⟨_, he, _⟩ => (nomatch he), ?_⟩
    rintro ⟨failure, hfailure, hassert⟩
    cases hfailure
    exact hassert.elim
  · rw [hlog]
    simp only [hfails]
    exact rules_stopsAt.evalBindings enforce_own
      (fun func args => evalCall_stopsAt .own func args _)
      (rules_stopsAt.evalMethodCall enforce_helper
        (fun func args => evalCall_stopsAt .helper func args none) depth) body start

end Asserts

/-! ## Crypto builtins -/

section Crypto

variable {ops : Ops} {anf : AnfProgram} {ctx : StrictCtx} {sighash : List Nat}

/-- The crypto builtins are verified in the method itself, and mocked elsewhere. -/
def Event.VerifiedIfOwn : Event → Prop
  | .assert _ _ => True
  | .crypto site _ verified => verified = true ↔ site = .own

theorem enforce_logs (strict : Option StrictCtx) (site : Site) (bindingName : String)
    (predicate : JsValue) :
    Logs Event.VerifiedIfOwn (enforce strict site bindingName predicate) := by
  have hassert : ∀ holds, (Event.assert site holds).VerifiedIfOwn := fun _ => trivial
  unfold enforce
  by_cases htrue : isTruthy predicate = true
  · rw [if_pos htrue]
    exact .bind (.record (hassert true)) fun _ => .silent fun _ => rfl
  · rw [if_neg htrue]
    cases strict with
    | none => exact .bind (.record (hassert false)) fun _ => .silent fun _ => rfl
    | some ctx => exact .bind (.record (hassert false)) fun _ => .silent fun _ => rfl

theorem evalCall_logs {site : Site} {realCrypto : Option (List Nat)}
    (h : realCrypto.isSome = true ↔ site = .own) (func : String) (args : List JsValue) :
    Logs Event.VerifiedIfOwn (evalCall ops site func args realCrypto) := by
  unfold evalCall
  by_cases hcrypto : func ∈ cryptoBuiltins
  · rw [if_pos hcrypto]
    cases realCrypto with
    | none => exact .bind (.record h) fun _ => .silent fun _ => rfl
    | some sighash => exact .bind (.record h) fun _ => .silent fun _ => rfl
  · rw [if_neg hcrypto]
    exact (rules_logs _).orThrow _

/-- With a sighash, the crypto builtins of the method itself are verified. -/
theorem runMethod_verifies (hcrypto : ctx.realCrypto.isSome = true) (depth : Nat)
    (methodName : String) (currentState args : Record) (constructorArgs : List JsValue) :
    ∀ e ∈ (runMethod ops anf depth methodName currentState args constructorArgs (some ctx)).2,
      e.VerifiedIfOwn := by
  rcases runMethod_cases ops anf depth methodName currentState args
      constructorArgs (some ctx) with ⟨message, hrun⟩ | ⟨body, start, -, hlog⟩
  · rw [hrun]
    exact fun _ he => nomatch he
  · rw [hlog]
    have hown : ((some ctx).bind (·.realCrypto)).isSome = true ↔ Site.own = .own :=
      ⟨fun _ => rfl, fun _ => hcrypto⟩
    exact (rules_logs _).evalBindings (enforce_logs _ _) (evalCall_logs hown)
      ((rules_logs _).evalMethodCall (enforce_logs none .helper)
        (evalCall_logs ⟨fun h => (nomatch h), fun h => (nomatch h)⟩) depth) body start

end Crypto

/-! ## What the modes enforce -/

section Enforces

variable (ops : Ops) (anf : AnfProgram) (depth : Nat) (methodName : String)
  (currentState args : Record) (constructorArgs : List JsValue) (sighash : List Nat)

/-- A run fails for an assert exactly if an assert that it executed has a false condition. -/
def EnforcesAsserts (run : Except Failure ExecutionResult × List Event) : Prop :=
  (∃ failure, run.1 = .error failure ∧ failure.FromAssert) ↔ ∃ e ∈ run.2, e.Fails

/-- Both strict modes enforce the asserts that are executed, wherever they stand, and the
authoritative mode mocks no crypto builtin. -/
def Enforces : Prop :=
  EnforcesAsserts (executeStrict ops anf depth methodName currentState args constructorArgs) ∧
    EnforcesAsserts (executeOnChainAuthoritative ops anf depth methodName currentState args
      constructorArgs sighash) ∧
    ∀ e ∈ (executeOnChainAuthoritative ops anf depth methodName currentState args
      constructorArgs sighash).2, ¬ e.Mocked

/-- A false assert that is executed in a private method is not the end of it: the run also
comes to a false assert of the method itself. -/
def HelpersCovered (run : Except Failure ExecutionResult × List Event) : Prop :=
  (∃ e ∈ run.2, e.Fails) → ∃ e ∈ run.2, e.Violation

/-- A call of a crypto builtin in a private method. -/
def Event.HelperCrypto : Event → Prop
  | .assert _ _ => False
  | .crypto site _ _ => site = .helper

variable {ops anf depth methodName currentState args constructorArgs sighash}

theorem enforcesAsserts_iff {run : Except Failure ExecutionResult × List Event}
    (hstops : (∃ e ∈ run.2, e.Violation) ↔
      ∃ failure, run.1 = .error failure ∧ failure.FromAssert) :
    EnforcesAsserts run ↔ HelpersCovered run := by
  rw [EnforcesAsserts, HelpersCovered, ← hstops]
  constructor
  · exact fun h => h.mpr
  · exact fun h => ⟨fun ⟨e, he, hviolation⟩ => ⟨e, he, hviolation.1⟩, h⟩

theorem mocked_iff {e : Event} (h : e.VerifiedIfOwn) : e.Mocked ↔ e.HelperCrypto := by
  cases e with
  | assert site holds => exact Iff.rfl
  | crypto site func verified =>
    cases site with
    | own => exact ⟨fun hmocked => Bool.noConfusion (hmocked.symm.trans (h.mpr rfl)),
        fun hhelper => nomatch hhelper⟩
    | helper =>
      refine ⟨fun _ => rfl, fun _ => ?_⟩
      show verified = false
      cases verified with
      | false => rfl
      | true => exact nomatch h.mp rfl

end Enforces

/-- Operators that give nothing. -/
def noOps : Ops where
  binOp _ _ _ _ _ _ := .ok (.undefined, none)
  unaryOp _ _ _ _ := .ok (.undefined, none)
  call _ _ := .ok .undefined
  verify _ _ _ := false

/-- `spend()` calls `guard(false)`, and `guard(ok)` asserts `ok`. -/
def guardProgram : AnfProgram where
  properties := []
  methods := [
    ⟨"spend", [], [.mk "t0" (.loadConst (.boolean false)), .mk "t1" (.methodCall "guard" ["t0"])],
      true⟩,
    ⟨"guard", ["ok"], [.mk "t0" (.loadParam "ok"), .mk "t1" (.assert "t0" false)], false⟩]

end Runar.Sdk.AnfInterpreter
