/-
  Typecheck/Sound.lean --- an accepted contract runs well typed, where trust is not misplaced.

  WHAT THIS FILE IS FOR.  The locals of a run match the scopes of the checker one by one
  and the properties match their declarations; every expression that passes has a value of
  its type, every statement that passes keeps the match, until the run logs that something
  taken on trust was wrong.

  AND NOT WITHOUT THAT.  What a private method returns is guessed before the checker looks
  at it, and a guess of the unknown type goes with everything.
-/
import Runar.Typecheck.Passes

set_option autoImplicit false

namespace Runar.Typecheck

open Ast Interpreter Logic

/-! ## What a run is granted -/

/-- The run has logged that trust was misplaced. -/
def Misplaced : Event → Prop
  | .trusted _ => True
  | _ => False

/-- The builtin functions return what their signatures say, and the constants are of
their types. -/
structure Language.Typed (lang : Language) : Prop where
  builtin : ∀ name sig vs v, builtinSig name = some sig → lang.builtin name vs = some v →
    fits sig.returnType v = true
  globals : ∀ name v, lang.globals name = some v →
    builtinSig name = none ∧ ∃ t, knownGlobals.lookup name = some t ∧ fits t v = true

/-- Values fit types one by one, as far as both go. -/
def FitAll (types : List TType) (vs : List Value) : Prop :=
  ∀ (i : Nat) t v, types[i]? = some t → vs[i]? = some v → fits t v = true

theorem FitAll.nil (types : List TType) : FitAll types [] := by
  intro i t v _ hv
  exact nomatch hv

theorem FitAll.cons {t : TType} {types : List TType} {v : Value} {vs : List Value}
    (hv : fits t v = true) (hvs : FitAll types vs) : FitAll (t :: types) (v :: vs) := by
  intro i t' v' ht hv'
  cases i with
  | zero =>
    cases ht
    cases hv'
    exact hv
  | succ i => exact hvs i t' v' ht hv'

theorem FitAll.tail {t : TType} {types : List TType} {v : Value} {vs : List Value}
    (h : FitAll (t :: types) (v :: vs)) : FitAll types vs :=
  fun i t' v' ht hv => h (i + 1) t' v' ht hv

/-! ## The match of a run with the checker -/

/-- A local and what the checker knows of it. -/
def LocalFits (known : String × TType) (actual : String × Value) : Prop :=
  known.1 = actual.1 ∧ fits known.2 actual.2 = true

/-- The locals match the scopes, and the properties their declarations. -/
structure Typed (tc : TypeChecker) (scope : List (String × TType)) (w : World) : Prop where
  locals : List.Forall₂ LocalFits scope w.locals
  props : ∀ name v, w.props.lookup name = some v →
    ∃ t, tc.propType name = some t ∧ fits t v = true

theorem lookup_flatten (env : TypeEnv) (name : String) :
    env.lookup name = env.flatten.lookup name := by
  induction env with
  | nil => rfl
  | cons scope scopes ih =>
    rw [List.flatten_cons, List.lookup_append]
    unfold TypeEnv.lookup at ih ⊢
    rw [List.findSome?_cons, ih]
    cases scope.lookup name <;> rfl

theorem flatten_define (env : TypeEnv) (name : String) (t : TType) :
    (env.define name t).flatten = (name, t) :: env.flatten := by
  cases env <;> rfl

theorem flatten_pushScope (env : TypeEnv) : env.pushScope.flatten = env.flatten := rfl

section Lookup

variable {scope : List (String × TType)} {values : List (String × Value)}

theorem lookup_some (h : List.Forall₂ LocalFits scope values) {name : String} {v : Value}
    (hv : values.lookup name = some v) : ∃ t, scope.lookup name = some t ∧ fits t v = true := by
  induction h with
  | nil => exact nomatch hv
  | @cons known actual scope values hfit _ ih =>
    obtain ⟨n, t⟩ := known
    obtain ⟨n', u⟩ := actual
    obtain ⟨rfl, hfit⟩ := hfit
    by_cases heq : name == n
    · rw [List.lookup_cons, heq] at hv ⊢
      cases hv
      exact ⟨t, rfl, hfit⟩
    · rw [List.lookup_cons, Bool.eq_false_iff.mpr heq] at hv ⊢
      exact ih hv

theorem lookup_none (h : List.Forall₂ LocalFits scope values) {name : String}
    (hv : values.lookup name = none) : scope.lookup name = none := by
  induction h with
  | nil => rfl
  | @cons known actual scope values hfit _ ih =>
    obtain ⟨n, t⟩ := known
    obtain ⟨n', u⟩ := actual
    obtain ⟨rfl, -⟩ := hfit
    by_cases heq : name == n
    · rw [List.lookup_cons, heq] at hv
      exact nomatch hv
    · rw [List.lookup_cons, Bool.eq_false_iff.mpr heq] at hv ⊢
      exact ih hv

/-- A local that is assigned a value of its type. -/
theorem setLocal_fits (h : List.Forall₂ LocalFits scope values) {name : String} {v : Value}
    (hv : ∀ t, scope.lookup name = some t → fits t v = true) :
    List.Forall₂ LocalFits scope (setLocal name v values) := by
  induction h with
  | nil => exact .nil
  | @cons known actual scope values hfit hrest ih =>
    obtain ⟨n, t⟩ := known
    obtain ⟨n', u⟩ := actual
    obtain ⟨rfl, hfit⟩ := hfit
    rw [setLocal]
    by_cases heq : n = name
    · subst heq
      rw [if_pos rfl]
      refine .cons ⟨rfl, hv t ?_⟩ hrest
      rw [List.lookup_cons, beq_self_eq_true]
    · rw [if_neg heq]
      refine .cons ⟨rfl, hfit⟩ (ih fun t' ht' => hv t' ?_)
      have hne : (name == n) = false := beq_eq_false_iff_ne.mpr (Ne.symm heq)
      rw [List.lookup_cons, hne]
      exact ht'

end Lookup

namespace Typed

variable {tc : TypeChecker} {scope : List (String × TType)} {w : World}

theorem define (h : Typed tc scope w) {name : String} {t : TType} {v : Value}
    (hv : fits t v = true) : Typed tc ((name, t) :: scope) (w.define name v) where
  locals := .cons ⟨rfl, hv⟩ h.locals
  props := h.props

theorem assignLocal (h : Typed tc scope w) {name : String} {v : Value}
    (hv : ∀ t, scope.lookup name = some t → fits t v = true) :
    Typed tc scope (w.assignLocal name v) where
  locals := setLocal_fits h.locals hv
  props := h.props

theorem assignProp (h : Typed tc scope w) {name : String} {t : TType} {v : Value}
    (ht : tc.propType name = some t) (hv : fits t v = true) :
    Typed tc scope (w.assignProp name v) where
  locals := h.locals
  props := by
    intro name' v' hv'
    change List.lookup name' ((name, v) :: w.props) = some v' at hv'
    rw [List.lookup_cons] at hv'
    by_cases heq : name' == name
    · rw [heq] at hv'
      cases hv'
      rw [eq_of_beq heq]
      exact ⟨t, ht, hv⟩
    · rw [Bool.eq_false_iff.mpr heq] at hv'
      exact h.props name' v' hv'

end Typed

/-! ## Families -/

section Fits

attribute [local simp] fits

theorem fits_byteFamily {t : TType} {v : Value} (h : isByteFamily t = true) :
    fits t v = v.isBytes := by
  cases t with
  | prim name =>
    have hname : byteStringSubtypes.contains name = true := h
    rw [fits.eq_def]
    dsimp only
    rw [if_pos hname]
  | _ => exact Bool.noConfusion h

theorem fits_bigintFamily {t : TType} {v : Value} (h : isBigintFamily t = true) :
    fits t v = v.isBigint := by
  cases t with
  | prim name =>
    have hname : bigintSubtypes.contains name = true := h
    have hnot : ¬ byteStringSubtypes.contains name = true := by
      cases name <;> first | exact Bool.noConfusion hname | decide
    rw [fits.eq_def]
    dsimp only
    rw [if_neg hnot, if_pos hname]
  | _ => exact Bool.noConfusion h

@[simp] theorem fits_boolean (v : Value) : fits .boolean v = v.isBoolean := by rw [fits]; rfl

@[simp] theorem fits_bigint (v : Value) : fits .bigint v = v.isBigint := by rw [fits]; rfl

@[simp] theorem fits_byteString (v : Value) : fits .byteString v = v.isBytes := by rw [fits]; rfl

@[simp] theorem fits_void (v : Value) : fits .void v = true := by simp

@[simp] theorem fits_unknown (v : Value) : fits .unknown v = true := by simp

@[simp] theorem fits_array (t : TType) (vs : List Value) :
    fits (.array t) (.array vs) = vs.all (fits t) := by simp

/-- Whether a number fits does not depend on which. -/
theorem fits_bigint_congr {t : TType} {n m : Int} {a b : Option Script.Bytes}
    (h : fits t (.bigint n a) = true) : fits t (.bigint m b) = true := by
  rw [fits.eq_def] at h ⊢
  cases t <;> exact h

@[simp] theorem fits_inferred (v : Value) : fits .inferred v = true := by simp

theorem array_of_fits {t : TType} {v : Value} (h : fits (.array t) v = true) :
    ∃ elements, v = .array elements ∧ ∀ x ∈ elements, fits t x = true := by
  rw [fits.eq_def] at h
  cases v with
  | array elements => exact ⟨elements, rfl, List.all_eq_true.mp h⟩
  | _ => exact Bool.noConfusion h

/-- A known subtype loses no value. -/
theorem fits_of_known {actual expected : TType} {v : Value}
    (h : isKnownSubtype actual expected = true) (hv : fits actual v = true) :
    fits expected v = true := by
  induction actual, expected using isKnownSubtype.induct generalizing v with
  | case1 t => exact hv
  | case2 actual expected _ hex =>
    rcases hex with rfl | rfl
    · exact fits_inferred v
    · exact fits_unknown v
  | case3 actual expected _ _ hbytes =>
    obtain ⟨ha, he⟩ := (Bool.and_eq_true _ _).mp hbytes
    rw [fits_byteFamily he, ← fits_byteFamily ha]
    exact hv
  | case4 actual expected _ _ _ hnums =>
    obtain ⟨ha, he⟩ := (Bool.and_eq_true _ _).mp hnums
    rw [fits_bigintFamily he, ← fits_bigintFamily ha]
    exact hv
  | case5 a e heq hex hbytes hnums ih =>
    rw [isKnownSubtype.eq_def, if_neg heq, if_neg hex, if_neg hbytes, if_neg hnums] at h
    obtain ⟨elements, rfl, helements⟩ := array_of_fits hv
    rw [fits_array, List.all_eq_true]
    exact fun x hx => ih h (helements x hx)
  | case6 actual expected heq hex hbytes hnums hno =>
    rw [isKnownSubtype.eq_def, if_neg heq, if_neg hex, if_neg hbytes, if_neg hnums] at h
    split at h
    · exact absurd rfl (hno _ _ rfl)
    · exact Bool.noConfusion h

end Fits

/-! ## What is noticed -/

section Notice

variable {P : World → Prop} {checked : Bool}

theorem sound_trusted (site : Site) {Q : Unit → World → Prop} :
    Sound Misplaced P (LogM.record (.trusted site) : EvalM Unit) Q :=
  Sound.record_excuse trivial

theorem sound_observe {type : TType} {v : Value} (h : checked = true → fits type v = true) :
    Sound Misplaced P (observe checked type v) fun v' w => fits type v' = true ∧ P w := by
  unfold observe
  by_cases hfit : fits type v = true
  · rw [if_pos hfit]
    exact Sound.pure fun _ hp => ⟨hfit, hp⟩
  · rw [if_neg hfit]
    have hchecked : ¬ checked = true := fun hc => hfit (h hc)
    rw [if_neg hchecked]
    refine Sound.bind (Q := fun _ _ => False) (sound_trusted _) fun _ => ?_
    exact fun _ hfalse => hfalse.elim

theorem sound_flow {actual expected : TType} {v : Value} (hv : fits actual v = true)
    (h : checked = true → isSubtype actual expected = true) :
    Sound Misplaced P (flow checked actual expected v) fun _ w => fits expected v = true ∧ P w := by
  unfold flow
  refine .ite (fun hfit => .pure fun _ hp => ⟨hfit, hp⟩) fun hfit => ?_
  refine .ite (fun _ => sound_trusted _) fun hchecked => ?_
  have hsub : isSubtype actual expected = true := by
    apply h
    cases checked with
    | true => rfl
    | false => exact absurd rfl hchecked
  refine .ite (fun _ => sound_trusted _) fun hknown => ?_
  rw [hsub, Bool.true_and] at hknown
  have hknown : isKnownSubtype actual expected = true := by
    cases hk : isKnownSubtype actual expected with
    | true => rfl
    | false => exact absurd (by rw [hk]; rfl) hknown
  exact absurd (fits_of_known hknown hv) hfit

/-- Values that flow into parameters fit them. -/
theorem sound_flowAll {actuals expecteds : List TType} {vs : List Value}
    (hlen : actuals.length = vs.length) (hvs : FitAll actuals vs)
    (h : checked = true → ∀ (i : Nat) a e, actuals[i]? = some a → expecteds[i]? = some e →
      isSubtype a e = true) :
    Sound Misplaced P (flowAll checked actuals expecteds vs)
      fun _ w => FitAll expecteds vs ∧ P w := by
  induction actuals generalizing expecteds vs with
  | nil =>
    obtain rfl : vs = [] := List.eq_nil_of_length_eq_zero hlen.symm
    rw [flowAll.eq_def]
    exact .pure fun _ hp => ⟨FitAll.nil _, hp⟩
  | cons actual actuals ih =>
    cases vs with
    | nil => exact nomatch hlen
    | cons v vs =>
      cases expecteds with
      | nil =>
        rw [flowAll.eq_def]
        refine .pure fun _ hp => ⟨?_, hp⟩
        intro i t v' ht _
        exact nomatch ht
      | cons expected expecteds =>
        rw [flowAll]
        refine .andThen (sound_flow (hvs 0 actual v rfl rfl)
          fun hc => h hc 0 actual expected rfl rfl) fun _ hfit => ?_
        refine (ih (Nat.succ.inj hlen) hvs.tail
          fun hc i a e ha he => h hc (i + 1) a e ha he).weaken fun _ _ hq => ?_
        exact ⟨FitAll.cons hfit hq.1, hq.2⟩

theorem sound_flow_any {actual expected : TType} {v : Value} :
    Sound Misplaced P (flow checked actual expected v) fun _ w => P w := by
  unfold flow
  refine .ite (fun _ => .pure fun _ hp => hp) fun _ => ?_
  refine .ite (fun _ => sound_trusted _) fun _ => ?_
  exact .ite (fun _ => sound_trusted _) fun _ => .pure fun _ hp => hp

theorem sound_flowAll_any {actuals expecteds : List TType} {vs : List Value} :
    Sound Misplaced P (flowAll checked actuals expecteds vs) fun _ w => P w := by
  induction actuals, expecteds, vs using flowAll.induct with
  | case1 actual actuals expected expecteds v vs ih =>
    rw [flowAll]
    exact .bind sound_flow_any fun _ => ih
  | case2 actuals expecteds vs hne =>
    rw [flowAll.eq_def]
    split
    · exact absurd rfl (hne _ _ _ _ _ _ rfl rfl)
    · exact .pure fun _ hp => hp

theorem sound_truth (v : Value) :
    Sound Misplaced P (truth v) fun _ w => P w :=
  Sound.ofOption fun _ _ _ hp => hp

theorem sound_observeOperands {agree : Bool} {operands : List Value}
    (h : checked = true → agree = true) :
    Sound Misplaced P (observeOperands checked agree operands) fun _ w => P w := by
  unfold observeOperands
  refine .ite (fun _ => .pure fun _ hp => hp) fun hagree => ?_
  have hchecked : ¬ checked = true := fun hc => hagree (h hc)
  rw [if_neg hchecked]
  exact sound_trusted _

end Notice

/-! ## Operators -/

theorem family_of_bigints {op : BinaryOp} {expected : String} {left right : TType}
    (h : Quiet (requireBigints op expected left right)) :
    isBigintFamily left = true ∧ isBigintFamily right = true :=
  ⟨h.bind.1.require, h.bind.2.require⟩

/-- What passes is for the operands. -/
theorem operandsAgree_of_quiet {op : BinaryOp} {left right : TType} {l r : Value}
    (h : Quiet (checkBinaryExpr op left right)) (hl : fits left l = true)
    (hr : fits right r = true) : operandsAgree op l r = true := by
  have hnums : ∀ {expected : String}, Quiet (requireBigints op expected left right) →
      (l.isBigint && r.isBigint) = true := by
    intro expected hq
    obtain ⟨hleft, hright⟩ := family_of_bigints hq
    rw [← fits_bigintFamily hleft, ← fits_bigintFamily hright, hl, hr]
    rfl
  have hboth : ∀ {expected : String} {t t' : TType},
      Quiet (if (isByteFamily left && isByteFamily right) = true then pure t else do
        requireBigints op expected left right
        pure t') → (l.isBigint && r.isBigint || l.isBytes && r.isBytes) = true := by
    intro expected t t' hq
    by_cases hbytes : (isByteFamily left && isByteFamily right) = true
    · obtain ⟨hleft, hright⟩ := (Bool.and_eq_true _ _).mp hbytes
      rw [← fits_byteFamily hleft, ← fits_byteFamily hright, hl, hr]
      exact Bool.or_true _
    · rw [if_neg hbytes] at hq
      rw [hnums hq.bind.1]
      rfl
  cases op <;> first | rfl | exact hnums (Quiet.bind h).1 | exact hboth h

theorem applyBinary_bigints {op : BinaryOp} {l r v : Value} (hop : givesNumber op = true)
    (hl : l.isBigint = true) (hr : r.isBigint = true) (h : applyBinary op l r = some v) :
    v.isBigint = true := by
  cases l with
  | bigint a aBytes =>
    cases r with
    | bigint b bBytes => exact applyNumbers_isBigint hop h
    | _ => exact Bool.noConfusion hr
  | _ => exact Bool.noConfusion hl

theorem applyBinary_bytes {op : BinaryOp} {l r v : Value} (hop : givesNumber op = true)
    (hl : l.isBytes = true) (hr : r.isBytes = true) (h : applyBinary op l r = some v) :
    v.isBytes = true := by
  cases l with
  | bytes a =>
    cases r with
    | bytes b =>
      change applyBytes op a b = some v at h
      unfold applyBytes at h
      split at h
      all_goals first
        | (cases h; rfl)
        | exact Bool.noConfusion hop
        | (obtain ⟨f, -, h⟩ := Option.bind_eq_some_iff.mp h
           obtain ⟨bs, -, rfl⟩ := Option.map_eq_some_iff.mp h
           rfl)
    | _ => exact Bool.noConfusion hr
  | _ => exact Bool.noConfusion hl

/-- What an operator gives is of the type of the operation. -/
theorem fits_applyBinary {op : BinaryOp} {left right : TType} {l r v : Value}
    (hand : op ≠ .and) (hor : op ≠ .or) (hquiet : Quiet (checkBinaryExpr op left right))
    (hl : fits left l = true) (hr : fits right r = true) (h : applyBinary op l r = some v) :
    fits (value (checkBinaryExpr op left right)) v = true := by
  have hnums : ∀ {expected : String}, Quiet (requireBigints op expected left right) →
      givesNumber op = true → v.isBigint = true := by
    intro expected hq hop
    obtain ⟨hleft, hright⟩ := family_of_bigints hq
    refine applyBinary_bigints hop ?_ ?_ h
    · rw [← fits_bigintFamily hleft, hl]
    · rw [← fits_bigintFamily hright, hr]
  have hboth : ∀ {expected : String},
      Quiet (if (isByteFamily left && isByteFamily right) = true then pure TType.byteString else do
        requireBigints op expected left right
        pure TType.bigint) → givesNumber op = true →
      fits (value (if (isByteFamily left && isByteFamily right) = true then pure TType.byteString
        else do
          requireBigints op expected left right
          pure TType.bigint)) v = true := by
    intro expected hq hop
    by_cases hbytes : (isByteFamily left && isByteFamily right) = true
    · obtain ⟨hleft, hright⟩ := (Bool.and_eq_true _ _).mp hbytes
      rw [if_pos hbytes, value_pure, fits_byteString]
      refine applyBinary_bytes hop ?_ ?_ h
      · rw [← fits_byteFamily hleft, hl]
      · rw [← fits_byteFamily hright, hr]
    · rw [if_neg hbytes] at hq ⊢
      rw [value_bind, value_pure, fits_bigint]
      exact hnums hq.bind.1 hop
  cases op with
  | add | bitAnd | bitOr | bitXor => exact hboth hquiet rfl
  | sub | mul | div | mod | shl | shr =>
    unfold checkBinaryExpr at hquiet ⊢
    rw [value_bind, value_pure, fits_bigint]
    exact hnums hquiet.bind.1 rfl
  | lt | le | gt | ge | eq | ne =>
    unfold checkBinaryExpr
    rw [value_bind, value_pure, fits_boolean]
    exact applyBinary_isBoolean rfl h
  | and => exact absurd rfl hand
  | or => exact absurd rfl hor

theorem operandAgrees_of_quiet {op : UnaryOp} {t : TType} {o : Value}
    (h : Quiet (checkUnaryExpr op t)) (ho : fits t o = true) : operandAgrees op o = true := by
  have hnum : isBigintFamily t = true → o.isBigint = true := by
    intro hfamily
    rw [← fits_bigintFamily hfamily, ho]
  cases op with
  | not => rfl
  | neg => exact hnum h.bind.1.require
  | bitNot =>
    unfold checkUnaryExpr at h
    dsimp only at h
    change (o.isBigint || o.isBytes) = true
    by_cases hbytes : isByteFamily t = true
    · rw [← fits_byteFamily hbytes, ho]
      exact Bool.or_true _
    · rw [if_neg hbytes] at h
      rw [hnum h.bind.1.require]
      rfl

/-- What a unary operator gives is of the type of the operation. -/
theorem fits_applyUnary {op : UnaryOp} {t : TType} {o v : Value}
    (hquiet : Quiet (checkUnaryExpr op t)) (ho : fits t o = true)
    (h : applyUnary op o = some v) : fits (value (checkUnaryExpr op t)) v = true := by
  cases op with
  | not =>
    unfold checkUnaryExpr
    rw [value_bind, value_pure, fits_boolean]
    obtain ⟨b, -, rfl⟩ := Option.map_eq_some_iff.mp h
    rfl
  | neg =>
    unfold checkUnaryExpr
    rw [value_bind, value_pure, fits_bigint]
    cases o with
    | bigint n bytes =>
      obtain ⟨m, -, rfl⟩ := Option.map_eq_some_iff.mp h
      rfl
    | _ => exact nomatch h
  | bitNot =>
    unfold checkUnaryExpr at hquiet ⊢
    dsimp only at hquiet ⊢
    by_cases hbytes : isByteFamily t = true
    · rw [if_pos hbytes, value_pure, fits_byteString]
      have hisBytes : o.isBytes = true := by rw [← fits_byteFamily hbytes, ho]
      cases o with
      | bytes bs =>
        cases h
        rfl
      | _ => exact Bool.noConfusion hisBytes
    · rw [if_neg hbytes] at hquiet ⊢
      rw [value_bind, value_pure, fits_bigint]
      have hisNum : o.isBigint = true := by rw [← fits_bigintFamily hquiet.bind.1.require, ho]
      cases o with
      | bigint n bytes =>
        cases h
        rfl
      | _ => exact Bool.noConfusion hisNum

/-! ## Names -/

/-- What is granted to a run of a method: the language keeps its word, and methods called
with arguments that fit end, if they do, with the match unbroken. -/
structure Runtime.Granted (R : Runtime) : Prop where
  builtin : ∀ name sig vs v, builtinSig name = some sig → R.builtin name vs = some v →
    fits sig.returnType v = true
  globals : ∀ name v, R.globals name = some v →
    builtinSig name = none ∧ ∃ t, knownGlobals.lookup name = some t ∧ fits t v = true
  names : ∀ name sig, R.tc.methodSig name = some sig → builtinSig name = none
  calls : ∀ name sig vs scope, R.tc.methodSig name = some sig → FitAll sig.params vs →
    Sound Misplaced (Typed R.tc scope) (R.callMethod name vs) fun _ w => Typed R.tc scope w

/-- A result of a type, and the match unbroken. -/
def Gives (tc : TypeChecker) (env : TypeEnv) (t : TType) (v : Value) (w : World) : Prop :=
  fits t v = true ∧ Typed tc env.flatten w

theorem not_reserved {name : String} (h : name ∉ reservedNames) :
    name ≠ "this" ∧ name ≠ "super" ∧ ¬ (name = "true" ∨ name = "false") := by
  rw [reservedNames, List.mem_cons, List.mem_cons, List.mem_cons, List.mem_cons] at h
  tauto

section Names

variable {tc : TypeChecker} {env : TypeEnv} {name : String}

theorem typeOf_local (hname : name ∉ reservedNames) {t : TType} (h : env.lookup name = some t) :
    typeOf tc env (.identifier name) = t := by
  obtain ⟨hthis, hsuper, hbool⟩ := not_reserved hname
  rw [typeOf_eq, inferExprType, inferIdentifier, if_neg hthis, if_neg hsuper, if_neg hbool, h]
  rfl

theorem typeOf_global (hname : name ∉ reservedNames) (h : env.lookup name = none)
    (hbuiltin : builtinSig name = none) {t : TType} (ht : knownGlobals.lookup name = some t) :
    typeOf tc env (.identifier name) = t := by
  obtain ⟨hthis, hsuper, hbool⟩ := not_reserved hname
  rw [typeOf_eq, inferExprType, inferIdentifier, if_neg hthis, if_neg hsuper, if_neg hbool, h]
  dsimp only
  rw [hbuiltin, ht]
  rfl

theorem typeOf_prop (hname : name ∉ reservedNames) (h : env.lookup name = none)
    (hglobal : isGlobalName name ≠ true) {t : TType} (ht : tc.propType name = some t) :
    typeOf tc env (.identifier name) = t := by
  obtain ⟨hthis, hsuper, hbool⟩ := not_reserved hname
  have hparts : (builtinSig name).isSome = false ∧ (knownGlobals.lookup name).isSome = false := by
    rw [← Bool.or_eq_false_iff]
    exact Bool.eq_false_iff.mpr hglobal
  rw [typeOf_eq, inferExprType, inferIdentifier, if_neg hthis, if_neg hsuper, if_neg hbool, h]
  dsimp only
  rw [hparts.1, if_neg Bool.false_ne_true]
  cases hk : knownGlobals.lookup name with
  | some t' =>
    rw [hk] at hparts
    exact nomatch hparts.2
  | none =>
    rw [ht]
    rfl

theorem typeOf_property {property : String} {t : TType} (ht : tc.propType property = some t) :
    typeOf tc env (.propertyAccess property) = t := by
  rw [typeOf_eq, inferExprType, inferPropertyAccess, ht]
  rfl

end Names

section Expressions

variable {R : Runtime} {env : TypeEnv}

theorem sound_evalIdentifier (hR : R.Granted) (name : String) :
    Sound Misplaced (Typed R.tc env.flatten) (evalIdentifier R name)
      (Gives R.tc env (typeOf R.tc env (.identifier name))) := by
  refine .reading fun w hw => ?_
  by_cases hname : name ∈ reservedNames
  · rw [if_pos hname]
    refine .ite (fun htrue => .pure ?_) fun _ => .ite (fun hfalse => .pure ?_) fun _ => .fail
    · rintro _ rfl
      subst htrue
      exact ⟨rfl, hw⟩
    · rintro _ rfl
      subst hfalse
      exact ⟨rfl, hw⟩
  rw [if_neg hname]
  cases hlocal : w.locals.lookup name with
  | some v =>
    refine .pure ?_
    rintro _ rfl
    obtain ⟨t, ht, hfit⟩ := lookup_some hw.locals hlocal
    rw [← lookup_flatten] at ht
    refine ⟨?_, hw⟩
    rw [typeOf_local hname ht]
    exact hfit
  | none =>
    have hnone : env.lookup name = none := by
      rw [lookup_flatten]
      exact lookup_none hw.locals hlocal
    refine .ite (fun _ => .ofOption ?_) fun hglobal => .ofOption ?_
    · rintro v _ hv rfl
      obtain ⟨hbuiltin, t, ht, hfit⟩ := hR.globals name v hv
      refine ⟨?_, hw⟩
      rw [typeOf_global hname hnone hbuiltin ht]
      exact hfit
    · rintro v _ hv rfl
      obtain ⟨t, ht, hfit⟩ := hw.props name v hv
      refine ⟨?_, hw⟩
      rw [typeOf_prop hname hnone hglobal ht]
      exact hfit

theorem sound_evalProperty (property : String) :
    Sound Misplaced (Typed R.tc env.flatten) (evalProperty property)
      (Gives R.tc env (typeOf R.tc env (.propertyAccess property))) := by
  refine .reading fun w hw => .ofOption ?_
  rintro v _ hv rfl
  obtain ⟨t, ht, hfit⟩ := hw.props property v hv
  refine ⟨?_, hw⟩
  rw [typeOf_property ht]
  exact hfit

/-! ## Members -/

theorem typeOf_this : typeOf R.tc env (.identifier "this") = .this := rfl

/-- No value is of the type of the contract. -/
theorem ne_this_of_fits {t : TType} {v : Value} (h : fits t v = true) : t ≠ .this := by
  rintro rfl
  rw [fits] at h
  exact Bool.noConfusion h

/-- The type of a member that is no property of the contract. -/
theorem inferMemberExpr_length {object : Expression} {objType : TType} {v : Int}
    (h : objType ≠ .this) :
    fits (value (inferMemberExpr R.tc object "length" objType)) (.num v) = true := by
  unfold inferMemberExpr
  rw [if_neg h, if_neg (fun hp => absurd hp.2 (by decide)),
    if_neg (fun hp => absurd hp.2 (by decide))]
  split
  · rfl
  · exact fits_unknown _

/-- The local of a name, as the checker sees the name. -/
theorem typeOf_lookup {name : String} {w : World} (hw : Typed R.tc env.flatten w) {v : Value}
    (hv : w.locals.lookup name = some v) (hname : name ≠ "this") :
    typeOf R.tc env (.identifier name) ≠ .this := by
  by_cases hreserved : name ∈ reservedNames
  · simp only [reservedNames, List.mem_cons, List.not_mem_nil, or_false] at hreserved
    rcases hreserved with rfl | rfl | rfl | rfl
    · exact absurd rfl hname
    · exact fun h => by cases h
    · exact fun h => by cases h
    · exact fun h => by cases h
  · obtain ⟨t, ht, hfit⟩ := lookup_some hw.locals hv
    rw [← lookup_flatten] at ht
    rw [typeOf_local hreserved ht]
    exact ne_this_of_fits hfit

/-- The preimage of a context. -/
theorem fits_txPreimage {object : String} (h : env.lookup object = some .statefulContext)
    (hne : typeOf R.tc env (.identifier object) ≠ .this) (bs : Script.Bytes) :
    fits (value (inferMemberExpr R.tc (.identifier object) "txPreimage"
      (typeOf R.tc env (.identifier object)))) (.bytes bs) = true := by
  unfold inferMemberExpr
  rw [if_neg hne]
  by_cases hreserved : object ∈ reservedNames
  · simp only [reservedNames, List.mem_cons, List.not_mem_nil, or_false] at hreserved
    rcases hreserved with rfl | rfl | rfl | rfl <;> rfl
  · rw [typeOf_local hreserved h, if_pos ⟨rfl, rfl⟩]
    rfl

theorem sound_evalMember (object property : String) :
    Sound Misplaced (Typed R.tc env.flatten) (evalMember R env object property)
      (Gives R.tc env (typeOf R.tc env (.memberExpr (.identifier object) property))) := by
  refine .reading fun w hw => ?_
  rw [typeOf_member]
  refine .ite (fun hthis => .ofOption ?_) fun hthis => ?_
  · rintro v _ hv rfl
    subst hthis
    obtain ⟨t, ht, hfit⟩ := hw.props property v hv
    refine ⟨?_, hw⟩
    unfold inferMemberExpr
    rw [typeOf_this, if_pos rfl, ht]
    exact hfit
  cases hlocal : w.locals.lookup object with
  | none =>
    refine .ite (fun hsig => .ofOption ?_) fun _ => .fail
    rintro v _ hv rfl
    subst hsig
    obtain ⟨n, -, rfl⟩ := Option.map_eq_some_iff.mp hv
    have hnone : env.lookup "SigHash" = none := by
      rw [lookup_flatten]
      exact lookup_none hw.locals hlocal
    refine ⟨?_, hw⟩
    rw [typeOf_global (by decide) hnone (by decide +kernel) rfl]
    rfl
  | some v =>
    have hne := typeOf_lookup hw hlocal hthis
    cases v with
    | context =>
      refine .ite (fun hprop => ?_) fun _ => .fail
      subst hprop
      by_cases hcontext : env.lookup object = some .statefulContext
      · rw [if_pos hcontext]
        refine .pure ?_
        rintro _ rfl
        exact ⟨fits_txPreimage hcontext hne _, hw⟩
      · rw [if_neg hcontext]
        refine .bind (Q := fun _ _ => False) (sound_trusted _) fun _ => ?_
        exact fun _ hfalse => hfalse.elim
    | bytes bs =>
      refine .ite (fun hprop => .pure ?_) fun _ => .fail
      rintro _ rfl
      subst hprop
      exact ⟨inferMemberExpr_length hne, hw⟩
    | _ => exact .fail

/-! ## Elements -/

/-- Whether an array fits a type that is no array type does not depend on which. -/
theorem fits_array_congr {t : TType} {vs ws : List Value} (h : fits t (.array vs) = true)
    (hws : ∀ w ∈ ws, w ∈ vs ∨ fits (elementType t) w = true) : fits t (.array ws) = true := by
  cases t with
  | array element =>
    rw [fits_array, List.all_eq_true] at h ⊢
    intro w hw
    rcases hws w hw with hmem | hfit
    · exact h w hmem
    · exact hfit
  | _ => exact h

theorem sound_evalIndex {P : World → Prop} {t : TType} {o i : Value} (ho : fits t o = true) :
    Sound Misplaced P (evalIndex o i) fun v w => fits (elementType t) v = true ∧ P w := by
  unfold evalIndex
  split
  · refine .ite (fun _ => .ofOption ?_) fun _ => .fail
    rename_i elements n _ _
    intro v w hv hp
    refine ⟨?_, hp⟩
    cases t with
    | array element =>
      rw [fits_array, List.all_eq_true] at ho
      exact ho v (List.mem_of_getElem? hv)
    | _ => exact fits_unknown v
  · refine .ite (fun _ => .ofOption ?_) fun _ => .fail
    intro v w hv hp
    refine ⟨?_, hp⟩
    cases t with
    | array element =>
      obtain ⟨elements, heq, -⟩ := array_of_fits ho
      exact nomatch heq
    | _ => exact fits_unknown v
  · exact .fail

theorem sound_storeAt {P : World → Prop} {t : TType} {o i v : Value} (ho : fits t o = true)
    (hv : fits (elementType t) v = true) :
    Sound Misplaced P (storeAt o i v) fun o' w => fits t o' = true ∧ P w := by
  unfold storeAt
  split
  · refine .ite (fun _ => .pure fun w hp => ⟨?_, hp⟩) fun _ => .fail
    refine fits_array_congr ho fun x hx => ?_
    rcases List.mem_or_eq_of_mem_set hx with hmem | rfl
    · exact Or.inl hmem
    · exact Or.inr hv
  · exact .fail

/-! ## Assignments -/

theorem sound_assignProperty {property : String} {v : Value}
    (hv : ∀ t, R.tc.propType property = some t → fits t v = true) :
    Sound Misplaced (Typed R.tc env.flatten) (assignProperty property v)
      fun _ w => Typed R.tc env.flatten w := by
  refine .reading fun w hw => .ite (fun hsome => .update ?_) fun _ => .fail
  rintro _ rfl
  obtain ⟨old, hold⟩ := Option.isSome_iff_exists.mp hsome
  obtain ⟨t, ht, -⟩ := hw.props property old hold
  exact hw.assignProp ht (hv t ht)

theorem sound_assignName {name : String} {v : Value}
    (hv : fits (typeOf R.tc env (.identifier name)) v = true) :
    Sound Misplaced (Typed R.tc env.flatten) (assignName name v)
      fun _ w => Typed R.tc env.flatten w := by
  refine .reading fun w hw => .ite (fun _ => .fail) fun hname => ?_
  refine .ite (fun _ => .update ?_) fun hlocal => .ite (fun _ => .fail) fun hglobal => ?_
  · rintro _ rfl
    refine hw.assignLocal fun t ht => ?_
    rw [← lookup_flatten] at ht
    rw [typeOf_local hname ht] at hv
    exact hv
  · have hnone : env.lookup name = none := by
      rw [lookup_flatten]
      apply lookup_none hw.locals
      cases hl : w.locals.lookup name with
      | none => rfl
      | some old => exact absurd (by rw [hl]; rfl) hlocal
    refine (sound_assignProperty fun t ht => ?_).strengthen ?_
    · rw [typeOf_prop hname hnone hglobal ht] at hv
      exact hv
    · rintro _ rfl
      exact hw

/-! ## Calls -/

theorem sound_callBuiltin {P : World → Prop} {checked : Bool} (hR : R.Granted) {name : String}
    {sig : FuncSig} (hsig : builtinSig name = some sig) {types : List TType} {vs : List Value} :
    Sound Misplaced P (callBuiltin R checked name sig types vs)
      fun v w => fits sig.returnType v = true ∧ P w := by
  unfold callBuiltin
  refine .bind (Q := fun _ => P) sound_flowAll_any fun _ => .ite (fun hassert => ?_) fun _ => ?_
  · have hvoid : sig.returnType = .void := by
      subst hassert
      have hassert : builtinSig "assert" = some ⟨[.boolean], .void⟩ := by decide +kernel
      rw [hassert] at hsig
      cases hsig
      rfl
    rw [hvoid]
    cases vs with
    | nil => exact .fail
    | cons v vs =>
      refine .bind (sound_truth v) fun holds => .ite (fun _ => .pure ?_) fun _ => .fail
      exact fun w hp => ⟨fits_void _, hp⟩
  · exact .ofOption fun v w hv hp => ⟨hR.builtin name sig vs v hsig hv, hp⟩

theorem sound_callOwn {checked : Bool} (hR : R.Granted) {name : String}
    {args : List Expression} {vs : List Value} (hlen : vs.length = args.length)
    (hvs : FitAll (args.map (typeOf R.tc env)) vs)
    (h : checked = true → ∀ sig, R.tc.methodSig name = some sig →
      CallPasses R.tc env name sig args) :
    Sound Misplaced (Typed R.tc env.flatten)
      (callOwn R checked name (args.map (typeOf R.tc env)) vs)
      fun v w => (∃ sig, R.tc.methodSig name = some sig ∧ fits sig.returnType v = true) ∧
        Typed R.tc env.flatten w := by
  unfold callOwn
  cases hsig : R.tc.methodSig name with
  | none => exact .fail
  | some sig =>
    dsimp only
    have hflow : Sound Misplaced (Typed R.tc env.flatten)
        (flowAll checked (args.map (typeOf R.tc env)) sig.params vs)
        fun _ w => FitAll sig.params vs ∧ Typed R.tc env.flatten w := by
      refine sound_flowAll (by rw [List.length_map, hlen]) hvs ?_
      intro hc i a e ha he
      obtain ⟨-, hsub⟩ := (h hc sig hsig).params (hR.names name sig hsig)
      rw [List.getElem?_map] at ha
      obtain ⟨arg, harg, rfl⟩ := Option.map_eq_some_iff.mp ha
      exact hsub i arg e harg he
    refine .andThen hflow fun _ hfit => ?_
    refine .bind (hR.calls name sig vs _ hsig hfit) fun v => ?_
    by_cases hret : fits sig.returnType v = true
    · rw [if_pos hret]
      exact .pure fun w hw => ⟨⟨sig, rfl, hret⟩, hw⟩
    · rw [if_neg hret]
      refine .bind (Q := fun _ _ => False) (sound_trusted _) fun _ => ?_
      exact fun _ hfalse => hfalse.elim

theorem sound_isContractObject {P : World → Prop} (object : Expression) :
    Sound Misplaced P (isContractObject object)
      fun own w => (object = .identifier "this" → own = true) ∧ P w := by
  refine .reading fun w hw => ?_
  split
  · refine .pure ?_
    rintro _ rfl
    refine ⟨?_, hw⟩
    rintro ⟨⟩
    rfl
  · rename_i hne
    refine .pure ?_
    rintro _ rfl
    refine ⟨?_, hw⟩
    rintro rfl
    exact absurd rfl (hne _)

theorem sound_evalStateScript {P : World → Prop} :
    Sound Misplaced P (evalStateScript R) fun v w => fits .byteString v = true ∧ P w := by
  refine .reading fun w hw => .pure ?_
  rintro _ rfl
  exact ⟨rfl, hw⟩

end Expressions

/-! ## Expressions -/

section Fundamental

variable {R : Runtime}

theorem typeOf_logical {env : TypeEnv} {op : BinaryOp} {left right : Expression}
    (h : op = .and ∨ op = .or) : typeOf R.tc env (.binaryExpr op left right) = .boolean := by
  rw [typeOf_binary]
  rcases h with rfl | rfl
  · unfold checkBinaryExpr
    rw [value_bind, value_bind]
    rfl
  · unfold checkBinaryExpr
    rw [value_bind, value_bind]
    rfl

theorem typeOf_super {env : TypeEnv} {args : List Expression} {ret : Option PrimitiveType} :
    typeOf R.tc env (.callExpr (.identifier "super") args ret) = .void := by
  have hargs := plain_inferEach R.tc env _ visiting_only args
  rw [typeOf_eq, inferExprType.eq_def]
  dsimp only
  rw [if_pos rfl, value_bind]
  rfl

/-- The type of raw script is the one declared. -/
theorem typeOf_asm {env : TypeEnv} {args : List Expression} {ret : Option PrimitiveType} :
    typeOf R.tc env (.callExpr (.identifier "asm") args ret) =
      match ret with
      | some t => .prim t
      | none => .void := by
  have hargs := plain_inferEach R.tc env _ visiting_only args
  rw [typeOf_eq, inferExprType.eq_def]
  dsimp only
  rw [if_neg (by decide), if_pos rfl, value_bind]
  rfl

theorem fits_of_replicated {t : TType} {rest : List Expression} {vs : List Value}
    (hlen : vs.length = rest.length) (h : FitAll (rest.map fun _ => t) vs) :
    ∀ v ∈ vs, fits t v = true := by
  intro v hv
  obtain ⟨i, hi, rfl⟩ := List.getElem_of_mem hv
  refine h i t _ ?_ (List.getElem?_eq_getElem hi)
  rw [List.getElem?_map, List.getElem?_eq_getElem (hlen ▸ hi)]
  rfl

namespace OwnCall

variable {tc : TypeChecker} {env : TypeEnv} {property : String} {args : List Expression}
  {type : TType}

theorem type_of_script (h : OwnCall tc env property args type)
    (hname : property = "getStateScript") : type = .byteString := by
  cases h with
  | stateScript _ htype => exact htype
  | output hout _ _ =>
    rw [hname] at hout
    exact absurd hout (by decide)
  | method _ _ hne _ _ _ => exact absurd hname hne

theorem of_output (h : OwnCall tc env property args type) (hname : property ∈ outputIntrinsics) :
    OutputPasses tc env args ∧ type = .void := by
  cases h with
  | stateScript heq _ =>
    rw [heq] at hname
    exact absurd hname (by decide)
  | output _ hpasses htype => exact ⟨hpasses, htype⟩
  | method _ _ _ hnot _ _ => exact absurd hname hnot

theorem of_method (h : OwnCall tc env property args type) (hscript : property ≠ "getStateScript")
    (hout : property ∉ outputIntrinsics) :
    ∃ sig, tc.methodSig property = some sig ∧ CallPasses tc env property sig args ∧
      type = sig.returnType := by
  cases h with
  | stateScript heq _ => exact absurd heq hscript
  | output hmem _ _ => exact absurd hmem hout
  | method sig hfound _ _ hpasses htype => exact ⟨sig, hfound, hpasses, htype⟩

end OwnCall

/-- A call of an own method that passes has a value of its type. -/
theorem sound_ownMethod {checked : Bool} {env : TypeEnv} {property : String}
    {args : List Expression} {type : TType} {vs : List Value} (hR : R.Granted)
    (hlen : vs.length = args.length) (hvs : FitAll (args.map (typeOf R.tc env)) vs)
    (h : checked = true → ∃ sig, R.tc.methodSig property = some sig ∧
      CallPasses R.tc env property sig args ∧ type = sig.returnType) :
    Sound Misplaced (Typed R.tc env.flatten)
      (callOwn R checked property (args.map (typeOf R.tc env)) vs >>= observe checked type)
      (Gives R.tc env type) := by
  refine .andThen (sound_callOwn hR hlen hvs fun hc sig hfound => ?_)
    fun v hv => sound_observe fun hc => ?_
  · obtain ⟨sig', hfound', hcall, -⟩ := h hc
    cases hfound.symm.trans hfound'
    exact hcall
  · obtain ⟨sig, hfound, hfit⟩ := hv
    obtain ⟨sig', hfound', -, htype⟩ := h hc
    cases hfound.symm.trans hfound'
    rw [htype]
    exact hfit

theorem OutputPasses.each_of_ne {tc : TypeChecker} {env : TypeEnv} {e : Expression}
    {rest : List Expression} (h : OutputPasses tc env (e :: rest))
    (hne : ∀ elements, rest = [.arrayLiteral elements] → False) :
    ∀ e ∈ rest, Passes tc env e := by
  have hrest := h.2
  split at hrest
  · exact absurd rfl (hne _)
  · exact hrest

mutual

/-- An expression that passes has a value of its type. -/
theorem sound_expr (hR : R.Granted) (checked : Bool) (env : TypeEnv) :
    ∀ e : Expression, (checked = true → Passes R.tc env e) →
      Sound Misplaced (Typed R.tc env.flatten) (evalExpr R checked env e)
        (Gives R.tc env (typeOf R.tc env e))
  | .bigintLiteral n, _ => by
      rw [evalExpr]
      exact .pure fun w hw => ⟨rfl, hw⟩
  | .boolLiteral b, _ => by
      rw [evalExpr]
      exact .pure fun w hw => ⟨rfl, hw⟩
  | .bytestringLiteral bs, _ => by
      rw [evalExpr]
      exact .pure fun w hw => ⟨rfl, hw⟩
  | .identifier name, _ => by
      rw [evalExpr]
      exact .andThen (sound_evalIdentifier hR name) fun v hv => sound_observe fun _ => hv
  | .propertyAccess property, _ => by
      rw [evalExpr]
      exact .andThen (sound_evalProperty property) fun v hv => sound_observe fun _ => hv
  | .memberExpr object property, h => by
      have ho := sound_expr hR checked env object fun hc => passes_member (h hc)
      rw [evalExpr.eq_def]
      dsimp only
      split
      · exact .andThen (sound_evalMember _ property) fun v hv => sound_observe fun _ => hv
      · rename_i hne
        refine .andThen ho fun o hfit => ?_
        split
        · refine .ite (fun hprop => ?_) fun _ => .fail
          subst hprop
          refine .andThen (.pure fun w hw => ⟨?_, hw⟩) fun v hv => sound_observe fun _ => hv
          rw [typeOf_member]
          exact inferMemberExpr_length (ne_this_of_fits hfit)
        · exact .fail
  | .binaryExpr op left right, h => by
      have hl := sound_expr hR checked env left fun hc => (passes_binary (h hc)).1
      have hr := sound_expr hR checked env right fun hc => (passes_binary (h hc)).2.1
      rw [evalExpr]
      refine .andThen hl fun l hl => .ite (fun hand => ?_) fun hand => ?_
      · refine .bind (sound_truth l) fun b => .ite (fun _ => ?_) fun _ => ?_
        · refine .andThen hr fun r _ => .bind (sound_truth r) fun c => ?_
          refine .andThen (.pure fun w hw => ⟨?_, hw⟩) fun v hv => sound_observe fun _ => hv
          rw [typeOf_logical (Or.inl hand)]
          rfl
        · refine .andThen (.pure fun w hw => ⟨?_, hw⟩) fun v hv => sound_observe fun _ => hv
          rw [typeOf_logical (Or.inl hand)]
          rfl
      refine .ite (fun hor => ?_) fun hor => ?_
      · refine .bind (sound_truth l) fun b => .ite (fun _ => ?_) fun _ => ?_
        · refine .andThen (.pure fun w hw => ⟨?_, hw⟩) fun v hv => sound_observe fun _ => hv
          rw [typeOf_logical (Or.inr hor)]
          rfl
        · refine .andThen hr fun r _ => .bind (sound_truth r) fun c => ?_
          refine .andThen (.pure fun w hw => ⟨?_, hw⟩) fun v hv => sound_observe fun _ => hv
          rw [typeOf_logical (Or.inr hor)]
          rfl
      refine .andThen hr fun r hr => ?_
      refine .bind (sound_observeOperands fun hc =>
        operandsAgree_of_quiet (passes_binary (h hc)).2.2 hl hr) fun _ => ?_
      refine .andThen (.ofOption fun v w hv hw => ⟨hv, hw⟩) fun v hv => sound_observe fun hc => ?_
      rw [typeOf_binary]
      exact fits_applyBinary hand hor (passes_binary (h hc)).2.2 hl hr hv
  | .unaryExpr op operand, h => by
      have ho := sound_expr hR checked env operand fun hc => (passes_unary (h hc)).1
      rw [evalExpr]
      refine .andThen ho fun o ho => ?_
      refine .bind (sound_observeOperands fun hc =>
        operandAgrees_of_quiet (passes_unary (h hc)).2 ho) fun _ => ?_
      refine .andThen (.ofOption fun v w hv hw => ⟨hv, hw⟩) fun v hv => sound_observe fun hc => ?_
      rw [typeOf_unary]
      exact fits_applyUnary (passes_unary (h hc)).2 ho hv
  | .callExpr (.identifier name) args ret, h => by
      have hargs := sound_exprs hR checked env args
      rw [evalExpr.eq_def]
      dsimp only
      refine .ite (fun hsuper => ?_) fun hsuper => ?_
      · subst hsuper
        refine .andThen (hargs fun hc => passes_super (h hc)) fun _ _ => ?_
        refine .andThen (.pure fun w hw => ⟨?_, hw⟩) fun v hv => sound_observe fun _ => hv
        rw [typeOf_super]
        exact fits_void _
      refine .ite (fun hasm => ?_) fun hasm => ?_
      · subst hasm
        rw [typeOf_asm]
        refine .bind (Q := fun _ w => Typed R.tc env.flatten w) (.ofOption fun _ _ _ hw => hw)
          fun v => ?_
        cases ret with
        | none =>
          exact .andThen (.pure fun w hw => ⟨fits_void v, hw⟩) fun v hv =>
            sound_observe fun _ => hv
        | some t =>
          by_cases hfit : fits (.prim t) v = true
          · dsimp only
            rw [if_pos hfit]
            exact .andThen (.pure fun w hw => ⟨hfit, hw⟩) fun v hv => sound_observe fun _ => hv
          · dsimp only
            rw [if_neg hfit]
            refine .bind (Q := fun _ _ => False) (sound_trusted _) fun _ => ?_
            exact fun _ hfalse => hfalse.elim
      have hpasses := fun hc => passes_callIdentifier hsuper hasm (h hc)
      cases hbuiltin : builtinSig name with
      | some sig =>
        refine .andThen (hargs fun hc => (hpasses hc).1) fun vs hvs => ?_
        refine .andThen (sound_callBuiltin hR hbuiltin) fun v hv => sound_observe fun hc => ?_
        have hsig := (hpasses hc).2 sig
        rw [hbuiltin] at hsig
        rw [(hsig rfl).2]
        exact hv
      | none =>
        refine .andThen (hargs fun hc => (hpasses hc).1) fun vs hvs => ?_
        have hsig : ∀ sig, R.tc.methodSig name = some sig →
            ((builtinSig name).orElse fun _ => R.tc.methodSig name) = some sig := by
          intro sig hsig
          rw [hbuiltin]
          exact hsig
        have hown := sound_callOwn hR hvs.1 hvs.2 fun hc sig hfound =>
          ((hpasses hc).2 sig (hsig sig hfound)).1
        refine .andThen hown fun v hv => sound_observe fun hc => ?_
        obtain ⟨sig, hfound, hfit⟩ := hv
        rw [((hpasses hc).2 sig (hsig sig hfound)).2]
        exact hfit
  | .callExpr (.propertyAccess property) args ret, h => by
      have hargs := sound_exprs hR checked env args
      have hout := sound_outputArgs hR checked env args
      rw [evalExpr.eq_def]
      dsimp only
      have hpasses := fun hc => passes_callProperty (h hc)
      refine .ite (fun hscript => ?_) fun hscript => ?_
      · refine .andThen sound_evalStateScript fun v hv => sound_observe fun hc => ?_
        rw [(hpasses hc).type_of_script hscript]
        exact hv
      refine .ite (fun houtput => ?_) fun houtput => ?_
      · refine .bind (hout fun hc => ((hpasses hc).of_output houtput).1) fun _ => ?_
        refine .bind (.pure fun w hw => hw) fun v => sound_observe fun hc => ?_
        rw [((hpasses hc).of_output houtput).2]
        exact fits_void v
      · have hmethod := fun hc => (hpasses hc).of_method hscript houtput
        refine .andThen (hargs fun hc => ?_) fun vs hvs => ?_
        · obtain ⟨sig, -, hcall, -⟩ := hmethod hc
          exact hcall.each
        exact sound_ownMethod hR hvs.1 hvs.2 hmethod
  | .callExpr (.memberExpr object property) args ret, h => by
      have hargs := sound_exprs hR checked env args
      have hout := sound_outputArgs hR checked env args
      rw [evalExpr.eq_def]
      dsimp only
      refine .andThen (sound_isContractObject object) fun own hown => ?_
      have hpasses := fun hc => (passes_callMember (h hc)).2.2
      refine .ite (fun hscript => ?_) fun hscript => ?_
      · refine .andThen sound_evalStateScript fun v hv => sound_observe fun hc => ?_
        rw [(hpasses hc).type_of_script hscript.2]
        exact hv
      refine .ite (fun houtput => ?_) fun houtput => ?_
      · refine .bind (hout fun hc => ((hpasses hc).of_output houtput.2).1) fun _ => ?_
        refine .bind (.pure fun w hw => hw) fun v => sound_observe fun hc => ?_
        rw [((hpasses hc).of_output houtput.2).2]
        exact fits_void v
      split
      · have hscript' : property ≠ "getStateScript" := fun hp => hscript ⟨hown rfl, hp⟩
        have houtput' : property ∉ outputIntrinsics := fun hp => houtput ⟨hown rfl, hp⟩
        have hmethod := fun hc => (hpasses hc).of_method hscript' houtput'
        refine .andThen (hargs fun hc => ?_) fun vs hvs => ?_
        · obtain ⟨sig, -, hcall, -⟩ := hmethod hc
          exact hcall.each
        exact sound_ownMethod hR hvs.1 hvs.2 hmethod
      · exact .fail
  | .callExpr (.bigintLiteral _) _ _, _ | .callExpr (.boolLiteral _) _ _, _
  | .callExpr (.bytestringLiteral _) _ _, _ | .callExpr (.binaryExpr _ _ _) _ _, _
  | .callExpr (.unaryExpr _ _) _ _, _ | .callExpr (.callExpr _ _ _) _ _, _
  | .callExpr (.ternaryExpr _ _ _) _ _, _ | .callExpr (.indexAccess _ _) _ _, _
  | .callExpr (.incrementExpr _ _) _ _, _ | .callExpr (.decrementExpr _ _) _ _, _
  | .callExpr (.arrayLiteral _) _ _, _ => by
      rw [evalExpr.eq_def]
      exact .fail
  | .ternaryExpr condition consequent alternate, h => by
      have hc := sound_expr hR checked env condition fun hc => (passes_ternary (h hc)).1
      have hl := sound_expr hR checked env consequent fun hc => (passes_ternary (h hc)).2.1
      have hr := sound_expr hR checked env alternate fun hc => (passes_ternary (h hc)).2.2.1
      rw [evalExpr]
      refine .andThen hc fun c _ => .bind (sound_truth c) fun b => .ite (fun _ => ?_) fun _ => ?_
      · refine .andThen hl fun v hv => ?_
        refine .andThen (sound_flow hv fun hc => (passes_ternary (h hc)).2.2.2.1) fun _ hfit => ?_
        exact sound_observe fun _ => hfit
      · refine .andThen hr fun v hv => ?_
        refine .andThen (sound_flow hv fun hc => (passes_ternary (h hc)).2.2.2.2) fun _ hfit => ?_
        exact sound_observe fun _ => hfit
  | .indexAccess object index, h => by
      have ho := sound_expr hR checked env object fun hc => (passes_index (h hc)).1
      have hi := sound_expr hR checked env index fun hc => (passes_index (h hc)).2
      rw [evalExpr, typeOf_index]
      refine .andThen ho fun o ho => .andThen hi fun i _ => ?_
      exact .andThen (sound_evalIndex ho) fun v hv => sound_observe fun _ => hv
  | .incrementExpr operand isPrefix, h => by
      have ho := sound_expr hR checked env operand fun hc => passes_increment (h hc)
      rw [evalExpr, typeOf_increment]
      refine .andThen ho fun o ho => ?_
      cases o with
      | bigint n bytes =>
        have hassign := sound_assign hR checked env operand (fun hc => passes_increment (h hc))
          (.num (n + 1)) (fits_bigint_congr ho)
        refine .bind hassign fun _ => .pure fun w hw => ⟨?_, hw⟩
        cases isPrefix <;> rfl
      | _ => exact .fail
  | .decrementExpr operand isPrefix, h => by
      have ho := sound_expr hR checked env operand fun hc => passes_decrement (h hc)
      rw [evalExpr, typeOf_decrement]
      refine .andThen ho fun o ho => ?_
      cases o with
      | bigint n bytes =>
        have hassign := sound_assign hR checked env operand (fun hc => passes_decrement (h hc))
          (.num (n - 1)) (fits_bigint_congr ho)
        refine .bind hassign fun _ => .pure fun w hw => ⟨?_, hw⟩
        cases isPrefix <;> rfl
      | _ => exact .fail
  | .arrayLiteral [], _ => by
      rw [evalExpr]
      exact .pure fun w hw => ⟨rfl, hw⟩
  | .arrayLiteral (first :: rest), h => by
      have hf := sound_expr hR checked env first fun hc => (passes_array (h hc)).1
      have hr := sound_exprs hR checked env rest fun hc e he => ((passes_array (h hc)).2 e he).1
      rw [evalExpr]
      refine .andThen hf fun v hv => .andThen hr fun vs hvs => ?_
      have hlen : (rest.map (typeOf R.tc env)).length = vs.length := by
        rw [List.length_map, hvs.1]
      refine .andThen (sound_flowAll hlen hvs.2 fun hc i a e ha he => ?_) fun _ hfits => ?_
      · rw [List.getElem?_map] at ha he
        obtain ⟨arg, harg, rfl⟩ := Option.map_eq_some_iff.mp ha
        obtain ⟨_, _, rfl⟩ := Option.map_eq_some_iff.mp he
        exact ((passes_array (h hc)).2 arg (List.mem_of_getElem? harg)).2
      · refine sound_observe fun hc => ?_
        rw [typeOf_array, fits_array, List.all_cons, hv, Bool.true_and, List.all_eq_true]
        exact fits_of_replicated hvs.1 hfits

/-- So does each of some expressions. -/
theorem sound_exprs (hR : R.Granted) (checked : Bool) (env : TypeEnv) :
    ∀ es : List Expression, (checked = true → ∀ e ∈ es, Passes R.tc env e) →
      Sound Misplaced (Typed R.tc env.flatten) (evalExprs R checked env es)
        fun vs w => (vs.length = es.length ∧ FitAll (es.map (typeOf R.tc env)) vs) ∧
          Typed R.tc env.flatten w
  | [], _ => by
      rw [evalExprs]
      exact .pure fun w hw => ⟨⟨rfl, FitAll.nil _⟩, hw⟩
  | e :: rest, h => by
      have he := sound_expr hR checked env e fun hc => h hc e List.mem_cons_self
      have hr := sound_exprs hR checked env rest fun hc e he => h hc e (List.mem_cons_of_mem _ he)
      rw [evalExprs]
      refine .andThen he fun v hv => .andThen hr fun vs hvs => .pure fun w hw => ?_
      exact ⟨⟨congrArg Nat.succ hvs.1, FitAll.cons hv hvs.2⟩, hw⟩

theorem sound_outputArgs (hR : R.Granted) (checked : Bool) (env : TypeEnv) :
    ∀ es : List Expression, (checked = true → OutputPasses R.tc env es) →
      Sound Misplaced (Typed R.tc env.flatten) (evalOutputArgs R checked env es)
        fun _ w => Typed R.tc env.flatten w
  | [], _ => by
      rw [evalOutputArgs]
      exact .pure fun w hw => hw
  | e :: rest, h => by
      have he := sound_expr hR checked env e fun hc => (h hc).1
      rw [evalOutputArgs.eq_def]
      refine .andThen he fun v _ => ?_
      split
      · rename_i elements
        have hr := sound_exprs hR checked env elements fun hc => (h hc).2
        exact .andThen hr fun vs _ => .pure fun w hw => hw
      · rename_i hne
        have hr := sound_exprs hR checked env rest fun hc => (h hc).each_of_ne hne
        exact .andThen hr fun vs _ => .pure fun w hw => hw

/-- An assignment of a value of the type of its target. -/
theorem sound_assign (hR : R.Granted) (checked : Bool) (env : TypeEnv) :
    ∀ target : Expression, (checked = true → Passes R.tc env target) →
      ∀ v, fits (typeOf R.tc env target) v = true →
      Sound Misplaced (Typed R.tc env.flatten) (assign R checked env target v)
        fun _ w => Typed R.tc env.flatten w
  | .identifier name, _, v, hv => by
      rw [assign]
      exact sound_assignName hv
  | .propertyAccess property, _, v, hv => by
      rw [assign]
      refine sound_assignProperty fun t ht => ?_
      rw [typeOf_property ht] at hv
      exact hv
  | .indexAccess object index, h, v, hv => by
      have ho := sound_expr hR checked env object fun hc => (passes_index (h hc)).1
      have hi := sound_expr hR checked env index fun hc => (passes_index (h hc)).2
      have ha := sound_assign hR checked env object fun hc => (passes_index (h hc)).1
      rw [typeOf_index] at hv
      rw [assign]
      refine .andThen ho fun o ho => .andThen hi fun i _ => ?_
      exact .andThen (sound_storeAt ho hv) fun o' ho' => ha o' ho'
  | .bigintLiteral _, _, _, _ | .boolLiteral _, _, _, _ | .bytestringLiteral _, _, _, _
  | .memberExpr _ _, _, _, _ | .binaryExpr _ _ _, _, _, _ | .unaryExpr _ _, _, _, _
  | .callExpr _ _ _, _, _, _ | .ternaryExpr _ _ _, _, _, _ | .incrementExpr _ _, _, _, _
  | .decrementExpr _ _, _, _, _ | .arrayLiteral _, _, _, _ => by
      rw [assign]
      · exact .fail
      all_goals simp

end

end Fundamental

/-! ## Scopes -/

/-- The match holds of the locals below those a block has declared. -/
def Within (tc : TypeChecker) (scope : List (String × TType)) (w : World) : Prop :=
  ∃ extra locals, w.locals = extra ++ locals ∧ Typed tc scope ⟨locals, w.props⟩

theorem Typed.within {tc : TypeChecker} {scope : List (String × TType)} {w : World}
    (h : Typed tc scope w) : Within tc scope w := ⟨[], w.locals, rfl, h⟩

theorem Within.of_append {tc : TypeChecker} {more scope : List (String × TType)} {w : World}
    (h : Within tc (more ++ scope) w) : Within tc scope w := by
  obtain ⟨extra, locals, heq, htyped⟩ := h
  have hdrop := List.forall₂_drop more.length htyped.locals
  rw [List.drop_left] at hdrop
  refine ⟨extra ++ locals.take more.length, locals.drop more.length, ?_, hdrop, htyped.props⟩
  rw [List.append_assoc, List.take_append_drop]
  exact heq

/-- How a statement ends: after it the scopes are those of the checker, and below what it
has declared those it found. -/
def Ends (tc : TypeChecker) (env env' : TypeEnv) : Outcome → World → Prop
  | .next, w => Typed tc env'.flatten w
  | .returned _, w => Within tc env.flatten w

/-- A statement adds to the scopes in front. -/
theorem flatten_envAfter (tc : TypeChecker) (env : TypeEnv) (stmt : Statement) :
    ∃ more, (envAfter tc env stmt).flatten = more ++ env.flatten := by
  cases stmt with
  | variableDecl name type init =>
    cases type with
    | none => exact ⟨[_], flatten_define env name _⟩
    | some type => exact ⟨[_], flatten_define env name _⟩
  | _ => exact ⟨[], rfl⟩

theorem Ends.within {tc : TypeChecker} {env : TypeEnv} {stmt : Statement} {outcome : Outcome}
    {w : World} (h : Ends tc env (envAfter tc env stmt) outcome w) : Within tc env.flatten w := by
  cases outcome with
  | next =>
    obtain ⟨more, hmore⟩ := flatten_envAfter tc env stmt
    have htyped : Typed tc (envAfter tc env stmt).flatten w := h
    rw [hmore] at htyped
    exact htyped.within.of_append
  | returned v => exact h

section Statements

variable {R : Runtime} {checked : Bool}

theorem sound_inScope {α : Type} {scope : List (String × TType)} {m : EvalM α}
    (hm : Sound Misplaced (Typed R.tc scope) m fun _ w => Within R.tc scope w) :
    Sound Misplaced (Typed R.tc scope) (inScope m) fun _ w => Typed R.tc scope w := by
  refine .reading fun before hbefore => ?_
  have hm' : Sound Misplaced (fun w => w = before) m fun _ w => Within R.tc scope w :=
    hm.strengthen (by rintro _ rfl; exact hbefore)
  refine .bind hm' fun a => .bind (Q := fun _ w => Typed R.tc scope w) (.update ?_) fun _ =>
    .pure fun w hw => hw
  rintro w ⟨extra, locals, heq, htyped⟩
  have hlen : before.locals.length = locals.length := by
    rw [← hbefore.locals.length_eq, ← htyped.locals.length_eq]
  refine ⟨?_, htyped.props⟩
  change List.Forall₂ LocalFits scope (w.locals.drop (w.locals.length - before.locals.length))
  rw [heq, List.length_append, hlen, Nat.add_sub_cancel, List.drop_left]
  exact htyped.locals

theorem sound_evalDecl (hR : R.Granted) {env : TypeEnv} {name : String} {type : Option TypeNode}
    {init : Expression} (h : checked = true → DeclPasses R.tc env type init) :
    Sound Misplaced (Typed R.tc env.flatten) (evalDecl R checked env name type init)
      fun _ w => Typed R.tc (envAfter R.tc env (.variableDecl name type init)).flatten w := by
  unfold evalDecl
  refine .andThen (sound_expr hR checked env init fun hc => (h hc).1) fun v hv => ?_
  cases type with
  | none =>
    refine .update fun w hw => ?_
    change Typed R.tc (env.define name _).flatten _
    rw [flatten_define]
    exact hw.define hv
  | some type =>
    refine .andThen (sound_flow hv fun hc => (h hc).2 type rfl) fun _ hfit => ?_
    refine .update fun w hw => ?_
    change Typed R.tc (env.define name _).flatten _
    rw [flatten_define]
    exact hw.define hfit

/-- A loop keeps what its parts keep. -/
theorem sound_loopRun {P : World → Prop} {condition : EvalM Bool} {body : EvalM Outcome}
    {step : EvalM Unit} (hcond : Sound Misplaced P condition fun _ w => P w)
    (hbody : Sound Misplaced P body fun _ w => P w)
    (hstep : Sound Misplaced P step fun _ w => P w) (n : Nat) :
    Sound Misplaced P (loopRun condition body step n) fun _ w => P w := by
  induction n with
  | zero => exact .fail
  | succ n ih =>
    rw [loopRun]
    refine .bind hcond fun holds => .ite (fun _ => ?_) fun _ => .pure fun w hw => hw
    refine .bind hbody fun outcome => ?_
    cases outcome with
    | next => exact .bind hstep fun _ => ih
    | returned v => exact .pure fun w hw => hw

mutual

/-- A statement that passes keeps the match. -/
theorem sound_statement (hR : R.Granted) :
    ∀ (checked : Bool) (env : TypeEnv) (stmt : Statement),
      (checked = true → Quiet (checkStatement R.tc env stmt)) →
      Sound Misplaced (Typed R.tc env.flatten) (evalStatement R checked env stmt)
        (Ends R.tc env (envAfter R.tc env stmt))
  | checked, env, .variableDecl name type init, h => by
      rw [evalStatement]
      refine .bind (sound_evalDecl hR fun hc => ?_) fun _ => .pure fun w hw => hw
      have hquiet := h hc
      rw [checkStatement] at hquiet
      exact declPasses hquiet
  | checked, env, .assignment target v, h => by
      have hv := sound_expr hR checked env v fun hc => (passes_assignment (h hc)).2.1
      have ht := sound_assign hR checked env target fun hc => (passes_assignment (h hc)).1
      rw [evalStatement]
      refine .andThen hv fun v hv => ?_
      refine .andThen (sound_flow hv fun hc => (passes_assignment (h hc)).2.2) fun _ hfit => ?_
      exact .bind (ht v hfit) fun _ => .pure fun w hw => hw
  | checked, env, .ifStatement condition thenBody elseBody, h => by
      have hc := sound_expr hR checked env condition fun hc => (passes_if (h hc)).1
      have hthen := sound_statements hR checked env.pushScope thenBody fun hc =>
        (passes_if (h hc)).2.1
      rw [evalStatement.eq_def]
      refine .andThen hc fun c _ => .bind (sound_truth c) fun holds => .ite (fun _ => ?_) fun _ => ?_
      · refine (sound_inScope hthen).weaken fun outcome w hw => ?_
        cases outcome with
        | next => exact hw
        | returned v => exact hw.within
      · split
        · rename_i elseBody
          have helse := sound_statements hR checked env.pushScope elseBody fun hc =>
            (passes_if (h hc)).2.2 elseBody rfl
          refine (sound_inScope helse).weaken fun outcome w hw => ?_
          cases outcome with
          | next => exact hw
          | returned v => exact hw.within
        · exact .pure fun w hw => hw
  | checked, env, .forStatement name type init condition step body, h => by
      have hdecl : Sound Misplaced (Typed R.tc env.flatten)
          (evalDecl R checked env.pushScope name type init) _ :=
        sound_evalDecl hR fun hc => (passes_for (h hc)).1
      have hcond := sound_expr hR checked
        (envAfter R.tc env.pushScope (.variableDecl name type init)) condition
        fun hc => (passes_for (h hc)).2.1
      have hbody := sound_statements hR checked
        (envAfter R.tc env.pushScope (.variableDecl name type init)) body
        fun hc => (passes_for (h hc)).2.2
      -- the checker does not look at the update
      have hstep := sound_statement hR false
        (envAfter R.tc env.pushScope (.variableDecl name type init)) step
        fun hc => Bool.noConfusion hc
      rw [evalStatement]
      have hloop := sound_loopRun (.andThen hcond fun c _ => sound_truth c) (sound_inScope hbody)
        (sound_inScope (.bind hstep fun _ => .pure (a := ()) fun w hw => hw.within)) R.fuel
      obtain ⟨more, hmore⟩ := flatten_envAfter R.tc env.pushScope (.variableDecl name type init)
      refine (sound_inScope (.bind hdecl fun _ => hloop.weaken fun _ w hw => ?_)).weaken
        fun outcome w hw => ?_
      · have hwithin := hw.within
        rw [hmore] at hwithin
        exact hwithin.of_append
      · cases outcome with
        | next => exact hw
        | returned v => exact hw.within
  | checked, env, .expressionStatement expression, h => by
      have he := sound_expr hR checked env expression fun hc => passes_expressionStatement (h hc)
      rw [evalStatement]
      exact .andThen he fun v _ => .pure fun w hw => hw
  | checked, env, .returnStatement none, _ => by
      rw [evalStatement]
      exact .pure fun w hw => hw.within
  | checked, env, .returnStatement (some v), h => by
      have hv := sound_expr hR checked env v fun hc => passes_return (h hc)
      rw [evalStatement]
      exact .andThen hv fun v _ => .pure fun w hw => hw.within

theorem sound_statements (hR : R.Granted) :
    ∀ (checked : Bool) (env : TypeEnv) (stmts : List Statement),
      (checked = true → Quiet (checkStatements R.tc env stmts)) →
      Sound Misplaced (Typed R.tc env.flatten) (evalStatements R checked env stmts)
        fun _ w => Within R.tc env.flatten w
  | checked, env, [], _ => by
      rw [evalStatements]
      exact .pure fun w hw => hw.within
  | checked, env, stmt :: rest, h => by
      have hstmt := sound_statement hR checked env stmt fun hc => (passes_cons (h hc)).1
      have hrest := sound_statements hR checked (envAfter R.tc env stmt) rest fun hc =>
        (passes_cons (h hc)).2
      obtain ⟨more, hmore⟩ := flatten_envAfter R.tc env stmt
      rw [evalStatements]
      refine .bind hstmt fun outcome => ?_
      cases outcome with
      | next =>
        refine hrest.weaken fun _ w hw => ?_
        rw [hmore] at hw
        exact hw.of_append
      | returned v => exact .pure fun w hw => hw

end

end Statements

/-! ## Methods -/

theorem flatten_params (params : List ParamNode) (env : TypeEnv) :
    (params.foldl (fun env p => env.define p.name (typeNodeToTType p.type)) env).flatten =
      (params.map fun p => (p.name, typeNodeToTType p.type)).reverse ++ env.flatten := by
  induction params generalizing env with
  | nil => rfl
  | cons p params ih =>
    rw [List.foldl_cons, ih, flatten_define, List.map_cons, List.reverse_cons, List.append_assoc]
    rfl

theorem params_fit {params : List ParamNode} {args : List Value}
    (hlen : args.length = params.length)
    (hfit : FitAll (params.map fun p => typeNodeToTType p.type) args) :
    List.Forall₂ LocalFits (params.map fun p => (p.name, typeNodeToTType p.type))
      ((params.map (·.name)).zip args) := by
  induction params generalizing args with
  | nil => exact .nil
  | cons p params ih =>
    cases args with
    | nil => exact nomatch hlen
    | cons v args =>
      exact .cons ⟨rfl, hfit 0 _ v rfl rfl⟩ (ih (Nat.succ.inj hlen) hfit.tail)

/-- A method whose body passes, run on arguments that fit its parameters. -/
theorem sound_runBody {R : Runtime} (hR : R.Granted) {method : MethodNode} {args : List Value}
    (hpasses : Quiet (checkStatements R.tc (paramEnv method.params) method.body))
    (hlen : args.length = method.params.length)
    (hfit : FitAll (method.params.map fun p => typeNodeToTType p.type) args)
    (scope : List (String × TType)) :
    Sound Misplaced (Typed R.tc scope) (runBody R method args) fun _ w => Typed R.tc scope w := by
  have hbody := sound_statements hR true (paramEnv method.params) method.body fun _ => hpasses
  refine .reading fun before hbefore => ?_
  refine .bind (Q := fun _ w => Typed R.tc (paramEnv method.params).flatten w) (.update ?_)
    fun _ => ?_
  · rintro _ rfl
    refine ⟨?_, hbefore.props⟩
    unfold paramEnv
    rw [flatten_params]
    change List.Forall₂ LocalFits _ (paramLocals method.params args)
    have hempty : TypeEnv.empty.flatten = ([] : List (String × TType)) := rfl
    rw [hempty, List.append_nil]
    exact List.rel_reverse (params_fit hlen hfit)
  · refine .bind hbody fun outcome => ?_
    refine .bind (Q := fun _ w => Typed R.tc scope w) (.update ?_) fun _ => ?_
    · rintro w ⟨_, _, _, htyped⟩
      exact ⟨hbefore.locals, htyped.props⟩
    · cases outcome with
      | next => exact .pure fun w hw => hw
      | returned v => exact .pure fun w hw => hw

/-- No two methods have one name, and none has the name of a builtin function. -/
structure Distinct (contract : ContractNode) : Prop where
  names : (contract.methods.map (·.name)).Nodup
  builtin : ∀ method ∈ contract.methods, builtinSig method.name = none

theorem find_of_nodup {methods : List MethodNode} (h : (methods.map (·.name)).Nodup)
    {method : MethodNode} (hmem : method ∈ methods) :
    methods.find? (fun m => m.name = method.name) = some method := by
  induction methods with
  | nil => exact nomatch hmem
  | cons first rest ih =>
    rw [List.map_cons, List.nodup_cons] at h
    rcases List.mem_cons.mp hmem with rfl | hmem
    · exact List.find?_cons_of_pos (decide_eq_true rfl)
    · have hne : first.name ≠ method.name := by
        intro heq
        apply h.1
        rw [heq]
        exact List.mem_map_of_mem hmem
      rw [List.find?_cons_of_neg (by simpa using hne)]
      exact ih h.2 hmem

/-- The signature of a name is the one of the method of that name. -/
theorem methodSig_mem {contract : ContractNode} {name : String} {sig : FuncSig}
    (hsig : (TypeChecker.ofContract contract).methodSig name = some sig) :
    ∃ method ∈ contract.methods, method.name = name ∧ sig = methodSigOf method := by
  obtain ⟨before, after, hsplit, -⟩ := List.lookup_eq_some_iff.mp hsig
  have hmem : (name, sig) ∈ (TypeChecker.ofContract contract).methodSigs := by
    rw [← List.mem_reverse, hsplit]
    exact List.mem_append_right before List.mem_cons_self
  obtain ⟨method, hmethod, heq⟩ := List.mem_map.mp hmem
  obtain ⟨rfl, rfl⟩ := Prod.mk.inj heq
  exact ⟨method, hmethod, rfl, rfl⟩

/-- What the body of a method runs with. -/
def runtimeAt (contract : ContractNode) (lang : Language) (fuel depth : Nat) : Runtime where
  tc := .ofContract contract
  builtin := lang.builtin
  globals := lang.globals
  rawScript := lang.rawScript
  txPreimage := lang.txPreimage
  stateScript := lang.stateScript
  callMethod := runMethod contract lang fuel depth
  fuel := fuel

/-- A method run on arguments that fit keeps the match, at every depth. -/
theorem sound_runMethod {contract : ContractNode} (hacc : Accepted contract)
    (hnames : Distinct contract) {lang : Language} (hlang : lang.Typed) (fuel depth : Nat) :
    ∀ method ∈ contract.methods, ∀ vs scope,
      FitAll (method.params.map fun p => typeNodeToTType p.type) vs →
      Sound Misplaced (Typed (.ofContract contract) scope)
        (runMethod contract lang fuel depth method.name vs)
        fun _ w => Typed (.ofContract contract) scope w := by
  induction depth with
  | zero =>
    intro method _ vs scope _
    exact .fail
  | succ depth ih =>
    intro method hmem vs scope hfit
    rw [runMethod, find_of_nodup hnames.names hmem]
    refine .ite (fun hlen => ?_) fun _ => .fail
    have hR : (runtimeAt contract lang fuel depth).Granted := {
      builtin := hlang.builtin
      globals := hlang.globals
      names := by
        intro name sig hsig
        obtain ⟨callee, hcallee, rfl, -⟩ := methodSig_mem hsig
        exact hnames.builtin callee hcallee
      calls := by
        intro name sig vs scope hsig hfit
        obtain ⟨callee, hcallee, rfl, rfl⟩ := methodSig_mem hsig
        exact ih callee hcallee vs scope hfit }
    exact sound_runBody hR (hacc.passes hmem) hlen hfit scope

/-! ## Runs -/

/-- An expression has a value outside the family of its type, or an operator meets operands
it is not for. -/
def IllTyped : Event → Prop
  | .illTyped _ _ | .mixedOperands _ => True
  | .trusted _ => False

/-- Every expression has a value of its type and every operator operands it is for. -/
def WellTyped (log : List Event) : Prop := ∀ e ∈ log, ¬ IllTyped e

/-- No trust is misplaced. -/
def TrustKept (log : List Event) : Prop := ∀ e ∈ log, ¬ Misplaced e

/-- What a method logs when it is called on arguments. -/
def runLog (contract : ContractNode) (lang : Language) (fuel depth : Nat) (method : MethodNode)
    (args : List Value) (props : List (String × Value)) : List Event :=
  (runMethod contract lang fuel depth method.name args ⟨[], props⟩).2.2

/-- The arguments and the properties are of their declared families. -/
structure DeclaredFamilies (contract : ContractNode) (method : MethodNode) (args : List Value)
    (props : List (String × Value)) : Prop where
  args : FitAll (method.params.map fun p => typeNodeToTType p.type) args
  props : ∀ name v, props.lookup name = some v →
    ∃ t, (TypeChecker.ofContract contract).propType name = some t ∧ fits t v = true

/-- Assert that a number is positive. -/
def unlockPositive : MethodNode where
  name := "unlock"
  params := [⟨"n", .primitive .bigint⟩]
  body :=
    [.expressionStatement (.callExpr (.identifier "assert")
      [.binaryExpr .gt (.identifier "n") (.bigintLiteral 0)] none)]
  visibility := .isPublic
  sighashType := none

def positive : ContractNode where
  parentClass := .smartContract
  properties := []
  constructor := ⟨"constructor", [], [], .isPublic, none⟩
  methods := [unlockPositive]

/-- A language without functions and constants. -/
def bareLanguage : Language where
  builtin := fun _ _ => none
  globals := fun _ => none
  rawScript := fun _ => none
  txPreimage := []
  stateScript := fun _ => []

theorem bareLanguage_typed : bareLanguage.Typed where
  builtin := fun _ _ _ _ _ h => nomatch h
  globals := fun _ _ h => nomatch h

/-- Declare a number with what a private method returns, and compare it. -/
def unlockLeaky : MethodNode where
  name := "unlock"
  params := []
  body :=
    [.variableDecl "x" (some (.primitive .bigint)) (.callExpr (.propertyAccess "read") [] none),
     .expressionStatement (.callExpr (.identifier "assert")
       [.binaryExpr .gt (.identifier "x") (.bigintLiteral 0)] none)]
  visibility := .isPublic
  sighashType := none

/-- The private method returns a concatenation, which is guessed to be a number. -/
def leaky : ContractNode where
  parentClass := .smartContract
  properties := [⟨"data", .primitive .ByteString, true, none, false⟩]
  constructor := ⟨"constructor", [], [], .isPublic, none⟩
  methods :=
    [unlockLeaky,
     ⟨"read", [], [.returnStatement
       (some (.binaryExpr .add (.propertyAccess "data") (.propertyAccess "data")))],
      .isPrivate, none⟩]

end Runar.Typecheck
