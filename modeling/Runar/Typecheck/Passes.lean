/-
  Typecheck/Passes.lean --- the checker as a judgement.

  WHAT THIS FILE IS FOR.  A check threads the reports and the consumed values through an
  expression.  Its result does not depend on either, and no report is taken back; so what
  passes without a report was made of parts that passed without a report, and each part
  has the type it has on its own.
-/
import Runar.Typecheck.Run

set_option autoImplicit false

namespace Runar.Typecheck

open Ast

/-! ## Checks that pass -/

section Checks

variable {α β : Type}

/-- The result of a check. -/
def value (m : Check α) : α := (m.run ⟨[], [], []⟩).1

/-- Somewhere, the check reports nothing. -/
def Quiet (m : Check α) : Prop := ∃ s, (m.run s).2.errors = s.errors

/-- A check whose result does not depend on the state, and that takes no report back. -/
class Steady (m : Check α) : Prop where
  result : ∀ s s', (m.run s).1 = (m.run s').1
  grows : ∀ s, ∃ more, (m.run s).2.errors = s.errors ++ more

theorem run_bind (m : Check α) (f : α → Check β) (s : CheckState) :
    (m >>= f).run s = (f (m.run s).1).run (m.run s).2 := rfl

instance Steady.pure (a : α) : Steady (pure a : Check α) where
  result := fun _ _ => rfl
  grows := fun s => ⟨[], (List.append_nil s.errors).symm⟩

instance Steady.bind (m : Check α) (f : α → Check β) [hm : Steady m] [hf : ∀ a, Steady (f a)] :
    Steady (m >>= f) where
  result := by
    intro s s'
    rw [run_bind, run_bind, hm.result s s']
    exact (hf _).result _ _
  grows := by
    intro s
    obtain ⟨first, hfirst⟩ := hm.grows s
    obtain ⟨second, hsecond⟩ := (hf (m.run s).1).grows (m.run s).2
    refine ⟨first ++ second, ?_⟩
    rw [run_bind, hsecond, hfirst, List.append_assoc]

/-- A steady check that forgets no consumed value. -/
class Thrifty (m : Check α) : Prop extends Steady m where
  consumes : ∀ s, s.consumedValues ⊆ (m.run s).2.consumedValues

instance Thrifty.pure (a : α) : Thrifty (pure a : Check α) where
  toSteady := Steady.pure a
  consumes := fun _ => List.Subset.refl _

instance Thrifty.bind (m : Check α) (f : α → Check β) [hm : Thrifty m]
    [hf : ∀ a, Thrifty (f a)] : Thrifty (m >>= f) where
  toSteady := Steady.bind m f
  consumes := by
    intro s
    rw [run_bind]
    exact List.Subset.trans (hm.consumes s) ((hf _).consumes _)

/-- A thrifty check that leaves the aliases alone. -/
class Plain (m : Check α) : Prop extends Thrifty m where
  aliases : ∀ s, (m.run s).2.affineAliases = s.affineAliases

instance Plain.pure (a : α) : Plain (pure a : Check α) where
  toThrifty := Thrifty.pure a
  aliases := fun _ => rfl

instance Plain.bind (m : Check α) (f : α → Check β) [hm : Plain m] [hf : ∀ a, Plain (f a)] :
    Plain (m >>= f) where
  toThrifty := Thrifty.bind m f
  aliases := by
    intro s
    rw [run_bind, (hf _).aliases, hm.aliases]

instance Plain.ite (c : Prop) [Decidable c] (m m' : Check α) [hm : Plain m]
    [hm' : Plain m'] : Plain (if c then m else m') := by
  split
  · exact hm
  · exact hm'

instance Plain.report (d : Diagnostic) : Plain (report d) where
  result := fun _ _ => rfl
  grows := fun _ => ⟨[d], rfl⟩
  consumes := fun _ => List.Subset.refl _
  aliases := fun _ => rfl

instance Plain.require (c : Bool) (d : Diagnostic) : Plain (require c d) :=
  inferInstanceAs (Plain (if c = true then _ else _))

theorem value_run (m : Check α) [hm : Steady m] (s : CheckState) : (m.run s).1 = value m :=
  hm.result _ _

theorem value_bind (m : Check α) (f : α → Check β) [Steady m] [hf : ∀ a, Steady (f a)] :
    value (m >>= f) = value (f (value m)) := (hf _).result _ _

/-- Two checks after each other report nothing only if neither does. -/
theorem errors_split {m : Check α} {f : α → Check β} {s : CheckState} [hm : Steady m]
    [hf : ∀ a, Steady (f a)] (h : ((m >>= f).run s).2.errors = s.errors) :
    (m.run s).2.errors = s.errors ∧
      ((f (value m)).run (m.run s).2).2.errors = (m.run s).2.errors := by
  rw [run_bind, value_run] at h
  obtain ⟨first, hfirst⟩ := hm.grows s
  obtain ⟨second, hsecond⟩ := (hf (value m)).grows (m.run s).2
  have hnone : first ++ second = [] := by
    rw [hsecond, hfirst, List.append_assoc] at h
    exact List.append_right_eq_self.mp h
  obtain ⟨rfl, rfl⟩ := List.append_eq_nil_iff.mp hnone
  rw [List.append_nil] at hfirst hsecond
  exact ⟨hfirst, hsecond⟩

/-- What passes is made of parts that pass. -/
theorem Quiet.bind {m : Check α} {f : α → Check β} [hm : Steady m] [hf : ∀ a, Steady (f a)]
    (h : Quiet (m >>= f)) : Quiet m ∧ Quiet (f (value m)) := by
  obtain ⟨s, hs⟩ := h
  obtain ⟨hfirst, hsecond⟩ := errors_split hs
  exact ⟨⟨s, hfirst⟩, ⟨(m.run s).2, hsecond⟩⟩

@[simp] theorem value_pure (a : α) : value (pure a : Check α) = a := rfl

theorem Quiet.pure (a : α) : Quiet (pure a : Check α) := ⟨⟨[], [], []⟩, rfl⟩

theorem not_quiet_report (d : Diagnostic) : ¬ Quiet (report d) := by
  rintro ⟨s, hs⟩
  exact absurd (List.append_right_eq_self.mp hs) (List.cons_ne_nil _ _)

theorem Quiet.require {c : Bool} {d : Diagnostic} (h : Quiet (require c d)) : c = true := by
  cases c with
  | true => rfl
  | false => exact absurd h (not_quiet_report d)

end Checks

/-! ## The parts of the checker are plain -/

/-- The argument a call consumes, with the value it is booked under. -/
def staticOrigin (tc : TypeChecker) (env : TypeEnv) (aliases : List (String × String))
    (func : String) (args : List Expression) : Option (Expression × String) :=
  match (consumedArg func).bind (args[·]?) with
  | none => none
  | some arg =>
      if (affineExprType tc env arg).any isAffineType then
        (affineOriginOfExpr aliases arg).map fun origin => (arg, origin)
      else none

instance (tc : TypeChecker) (env : TypeEnv) (name : String) :
    Plain (inferIdentifier tc env name) := by
  unfold inferIdentifier
  repeat' first | infer_instance | split

instance (tc : TypeChecker) (property : String) : Plain (inferPropertyAccess tc property) := by
  unfold inferPropertyAccess
  split <;> infer_instance

instance (tc : TypeChecker) (object : Expression) (property : String) (t : TType) :
    Plain (inferMemberExpr tc object property t) := by
  unfold inferMemberExpr
  repeat' first | infer_instance | split

instance (op : BinaryOp) (expected : String) (l r : TType) :
    Plain (requireBigints op expected l r) := by
  unfold requireBigints
  infer_instance

instance (op : BinaryOp) (l r : TType) : Plain (checkBinaryExpr op l r) := by
  cases op <;> (unfold checkBinaryExpr; infer_instance)

instance (op : UnaryOp) (t : TType) : Plain (checkUnaryExpr op t) := by
  cases op <;> (unfold checkUnaryExpr; infer_instance)

/-- What a consumption does: nothing, or it reports a value that was consumed before, or it
marks the value. -/
theorem run_affineConsumption (tc : TypeChecker) (env : TypeEnv) (func : String)
    (args : List Expression) (s : CheckState) :
    ((checkAffineConsumption tc env func args).run s).2 =
      match staticOrigin tc env s.affineAliases func args with
      | none => s
      | some (arg, origin) =>
          if s.consumedValues.contains origin then
            { s with errors := s.errors ++ [.consumedTwice (affineLabel origin arg)] }
          else { s with consumedValues := origin :: s.consumedValues } := by
  unfold checkAffineConsumption staticOrigin
  cases (consumedArg func).bind (args[·]?) with
  | none => rfl
  | some arg =>
    dsimp only
    by_cases haffine : (affineExprType tc env arg).any isAffineType = true
    · rw [if_pos haffine, if_pos haffine, run_bind]
      have hrun : StateT.run (get : Check CheckState) s = (s, s) := rfl
      rw [hrun]
      dsimp only
      cases affineOriginOfExpr s.affineAliases arg with
      | none => rfl
      | some origin =>
        dsimp only [Option.map_some]
        split <;> rfl
    · rw [if_neg haffine, if_neg haffine]
      rfl

instance (tc : TypeChecker) (env : TypeEnv) (func : String) (args : List Expression) :
    Plain (checkAffineConsumption tc env func args) where
  result := fun _ _ => rfl
  grows := by
    intro s
    rw [run_affineConsumption]
    split
    · exact ⟨[], (List.append_nil _).symm⟩
    · split
      · exact ⟨_, rfl⟩
      · exact ⟨[], (List.append_nil _).symm⟩
  aliases := by
    intro s
    rw [run_affineConsumption]
    split
    · rfl
    · split <;> rfl
  consumes := by
    intro s
    rw [run_affineConsumption]
    split
    · exact List.Subset.refl _
    · split
      · exact List.Subset.refl _
      · exact List.subset_cons_self _ _

instance (func : String) (arg : Expression) : Plain (checkIndexLiteral func arg) := by
  unfold checkIndexLiteral
  repeat' first | infer_instance | split

instance (arg : Expression) : Plain (checkPrefixLen arg) := by
  unfold checkPrefixLen
  repeat' first | infer_instance | split

theorem plain_forM {o : Option Expression} {f : Expression → Check Unit}
    (h : ∀ a, Plain (f a)) : Plain (o.forM f) := by
  cases o with
  | none => exact Plain.pure _
  | some a => exact h a

instance (tc : TypeChecker) (func : String) (sig : FuncSig) (args : List Expression) :
    Plain (checkCallShape tc func sig args) := by
  have hindex : Plain ((args[0]?).forM (checkIndexLiteral func)) := plain_forM fun _ => inferInstance
  unfold checkCallShape
  infer_instance

theorem run_recordAlias (name : String) (t : TType) (init : Expression) (s : CheckState) :
    ((recordAlias name t init).run s).2.errors = s.errors ∧
      ((recordAlias name t init).run s).2.consumedValues = s.consumedValues := by
  change (if isAffineType t then _ else s : CheckState).errors = s.errors ∧
    (if isAffineType t then _ else s : CheckState).consumedValues = s.consumedValues
  split
  · split <;> exact ⟨rfl, rfl⟩
  · exact ⟨rfl, rfl⟩

instance (name : String) (t : TType) (init : Expression) : Thrifty (recordAlias name t init) where
  result := fun _ _ => rfl
  grows := fun s => ⟨[], by rw [(run_recordAlias name t init s).1, List.append_nil]⟩
  consumes := fun s => by rw [(run_recordAlias name t init s).2]; exact List.Subset.refl _

/-! ## Visits -/

/-- A visit looks at the argument it is given: it passes only if that does. -/
structure Visiting (visit : Visit) : Prop where
  plain : ∀ i m, Plain m → Plain (visit i m)

theorem visiting_only : Visiting visitOnly where
  plain := by
    intro i m hm
    unfold visitOnly
    infer_instance

theorem visiting_argument (func : String) (params : List TType) :
    Visiting (visitArgument func params) where
  plain := by
    intro i m hm
    unfold visitArgument
    refine @Plain.bind _ _ m _ hm ?_
    intro t
    split <;> infer_instance

theorem visiting_assert : Visiting visitAssert where
  plain := by
    intro i m hm
    unfold visitAssert
    split
    · infer_instance
    · exact visiting_only.plain 1 m hm
    · infer_instance

theorem visiting_prevOutputScript (args : List Expression) :
    Visiting (visitPrevOutputScript args) where
  plain := by
    intro i m hm
    have honly := fun j => visiting_only.plain j m hm
    have hprefix : Plain ((args[2]?).forM checkPrefixLen) := plain_forM fun _ => inferInstance
    unfold visitPrevOutputScript
    split
    · infer_instance
    · have := honly 2
      infer_instance
    · exact honly _

theorem visiting_addOutput (tc : TypeChecker) : Visiting (visitAddOutput tc) where
  plain := by
    intro i m hm
    unfold visitAddOutput
    refine @Plain.bind _ _ m _ hm ?_
    intro t
    repeat' first | infer_instance | split

theorem visiting_scriptOutput (func : String) : Visiting (visitScriptOutput func) where
  plain := by
    intro i m hm
    unfold visitScriptOutput
    split <;> infer_instance

theorem visiting_call (func : String) (sig : FuncSig) (args : List Expression) :
    Visiting (visitCall func sig args) := by
  unfold visitCall
  split
  · exact visiting_assert
  · split
    · exact visiting_only
    · split
      · exact visiting_prevOutputScript args
      · exact visiting_argument func sig.params

theorem Visiting.succ {visit : Visit} (h : Visiting visit) : Visiting fun i => visit (i + 1) where
  plain := fun i => h.plain (i + 1)

/-- The elements of an array literal. -/
theorem visiting_element (elemType : TType) :
    Visiting fun _ infer => do
      let et ← infer
      require (isSubtype et elemType || et == .unknown) (.arrayElement elemType et) where
  plain := by
    intro i m hm
    infer_instance

/-! ## Inference is plain -/

/-- A callee that is called by a name. -/
def isNamed : Expression → Bool
  | .identifier _ | .propertyAccess _ | .memberExpr _ _ => true
  | _ => false

theorem inferExprType_callOther {tc : TypeChecker} {env : TypeEnv} {callee : Expression}
    {args : List Expression} {ret : Option PrimitiveType} (h : isNamed callee = false) :
    inferExprType tc env (.callExpr callee args ret) = (do
      let _ ← inferExprType tc env callee
      inferEach tc env visitOnly args
      pure .unknown) := by
  cases callee <;> first | exact Bool.noConfusion h | exact inferExprType.eq_def _ _ _

theorem plain_callOther {tc : TypeChecker} {env : TypeEnv} {callee : Expression}
    {args : List Expression} {ret : Option PrimitiveType}
    (hcallee : Plain (inferExprType tc env callee))
    (hargs : Plain (inferEach tc env visitOnly args)) (h : isNamed callee = false) :
    Plain (inferExprType tc env (.callExpr callee args ret)) := by
  rw [inferExprType_callOther h]
  infer_instance

mutual

theorem plain_infer (tc : TypeChecker) (env : TypeEnv) :
    ∀ e : Expression, Plain (inferExprType tc env e)
  | .bigintLiteral _ | .boolLiteral _ | .bytestringLiteral _ | .identifier _
  | .propertyAccess _ => by
      rw [inferExprType]
      infer_instance
  | .memberExpr object property => by
      have ho := plain_infer tc env object
      rw [inferExprType]
      infer_instance
  | .binaryExpr op left right => by
      have hl := plain_infer tc env left
      have hr := plain_infer tc env right
      rw [inferExprType]
      infer_instance
  | .unaryExpr op operand => by
      have ho := plain_infer tc env operand
      rw [inferExprType]
      infer_instance
  | .callExpr (.identifier name) args ret => by
      have hargs := fun visit h => plain_inferEach tc env visit h args
      have honly := hargs _ visiting_only
      have hcall := fun func sig => hargs _ (visiting_call func sig args)
      rw [inferExprType.eq_def]
      dsimp only
      repeat' first | infer_instance | split
  | .callExpr (.propertyAccess property) args ret => by
      have hargs := fun visit h => plain_inferEach tc env visit h args
      have honly := hargs _ visiting_only
      have hcall := fun func sig => hargs _ (visiting_call func sig args)
      have hscript := fun func => hargs _ (visiting_scriptOutput func)
      have hadd := plain_inferAddOutput tc env args
      rw [inferExprType.eq_def]
      dsimp only
      repeat' first | infer_instance | split
  | .callExpr (.memberExpr object property) args ret => by
      have ho := plain_infer tc env object
      have hargs := fun visit h => plain_inferEach tc env visit h args
      have honly := hargs _ visiting_only
      have hcall := fun func sig => hargs _ (visiting_call func sig args)
      have hscript := fun func => hargs _ (visiting_scriptOutput func)
      have hadd := plain_inferAddOutput tc env args
      rw [inferExprType.eq_def]
      refine @Plain.bind _ _ _ _ ho ?_
      intro t
      dsimp only
      repeat' first | infer_instance | split
  | .callExpr (.bigintLiteral n) args _ =>
      plain_callOther (plain_infer tc env (.bigintLiteral n))
        (plain_inferEach tc env _ visiting_only args) rfl
  | .callExpr (.boolLiteral b) args _ =>
      plain_callOther (plain_infer tc env (.boolLiteral b))
        (plain_inferEach tc env _ visiting_only args) rfl
  | .callExpr (.bytestringLiteral bs) args _ =>
      plain_callOther (plain_infer tc env (.bytestringLiteral bs))
        (plain_inferEach tc env _ visiting_only args) rfl
  | .callExpr (.binaryExpr op l r) args _ =>
      plain_callOther (plain_infer tc env (.binaryExpr op l r))
        (plain_inferEach tc env _ visiting_only args) rfl
  | .callExpr (.unaryExpr op e) args _ =>
      plain_callOther (plain_infer tc env (.unaryExpr op e))
        (plain_inferEach tc env _ visiting_only args) rfl
  | .callExpr (.callExpr f as t) args _ =>
      plain_callOther (plain_infer tc env (.callExpr f as t))
        (plain_inferEach tc env _ visiting_only args) rfl
  | .callExpr (.ternaryExpr c t e) args _ =>
      plain_callOther (plain_infer tc env (.ternaryExpr c t e))
        (plain_inferEach tc env _ visiting_only args) rfl
  | .callExpr (.indexAccess o i) args _ =>
      plain_callOther (plain_infer tc env (.indexAccess o i))
        (plain_inferEach tc env _ visiting_only args) rfl
  | .callExpr (.incrementExpr e p) args _ =>
      plain_callOther (plain_infer tc env (.incrementExpr e p))
        (plain_inferEach tc env _ visiting_only args) rfl
  | .callExpr (.decrementExpr e p) args _ =>
      plain_callOther (plain_infer tc env (.decrementExpr e p))
        (plain_inferEach tc env _ visiting_only args) rfl
  | .callExpr (.arrayLiteral es) args _ =>
      plain_callOther (plain_infer tc env (.arrayLiteral es))
        (plain_inferEach tc env _ visiting_only args) rfl
  | .ternaryExpr condition consequent alternate => by
      have hc := plain_infer tc env condition
      have hl := plain_infer tc env consequent
      have hr := plain_infer tc env alternate
      rw [inferExprType]
      infer_instance
  | .indexAccess object index => by
      have ho := plain_infer tc env object
      have hi := plain_infer tc env index
      rw [inferExprType]
      refine @Plain.bind _ _ _ _ ho fun t => @Plain.bind _ _ _ _ hi fun _ =>
        @Plain.bind _ _ _ _ inferInstance fun _ => ?_
      split <;> infer_instance
  | .incrementExpr operand _ => by
      have ho := plain_infer tc env operand
      rw [inferExprType]
      infer_instance
  | .decrementExpr operand _ => by
      have ho := plain_infer tc env operand
      rw [inferExprType]
      infer_instance
  | .arrayLiteral [] => by
      rw [inferExprType]
      infer_instance
  | .arrayLiteral (first :: rest) => by
      have hf := plain_infer tc env first
      have hr := fun t => plain_inferEach tc env _ (visiting_element t) rest
      rw [inferExprType]
      infer_instance

theorem plain_inferEach (tc : TypeChecker) (env : TypeEnv) (visit : Visit)
    (hvisit : Visiting visit) : ∀ args : List Expression, Plain (inferEach tc env visit args)
  | [] => by
      rw [inferEach]
      infer_instance
  | arg :: rest => by
      have harg := hvisit.plain 0 _ (plain_infer tc env arg)
      have hrest := plain_inferEach tc env _ hvisit.succ rest
      rw [inferEach]
      infer_instance

theorem plain_inferAddOutput (tc : TypeChecker) (env : TypeEnv) :
    ∀ args : List Expression, Plain (inferAddOutput tc env args)
  | [] => by
      rw [inferAddOutput]
      infer_instance
  | arg :: rest => by
      have hvisit := visiting_addOutput tc
      have harg := hvisit.plain 0 _ (plain_infer tc env arg)
      rw [inferAddOutput.eq_def]
      refine @Plain.bind _ _ _ _ harg ?_
      intro _
      split
      · exact plain_inferEach tc env _ hvisit.succ _
      · exact plain_inferEach tc env _ hvisit.succ _

end

instance (tc : TypeChecker) (env : TypeEnv) (e : Expression) :
    Plain (inferExprType tc env e) := plain_infer tc env e

theorem typeOf_eq (tc : TypeChecker) (env : TypeEnv) (e : Expression) :
    typeOf tc env e = value (inferExprType tc env e) := rfl

/-! ## Expressions that pass -/

/-- The checker reports nothing in an expression. -/
def Passes (tc : TypeChecker) (env : TypeEnv) (e : Expression) : Prop :=
  Quiet (inferExprType tc env e)

section Inversion

variable {tc : TypeChecker} {env : TypeEnv}

theorem passes_binary {op : BinaryOp} {left right : Expression}
    (h : Passes tc env (.binaryExpr op left right)) :
    Passes tc env left ∧ Passes tc env right ∧
      Quiet (checkBinaryExpr op (typeOf tc env left) (typeOf tc env right)) := by
  unfold Passes at h
  rw [inferExprType] at h
  obtain ⟨hleft, h⟩ := h.bind
  obtain ⟨hright, h⟩ := h.bind
  exact ⟨hleft, hright, h⟩

theorem typeOf_binary (op : BinaryOp) (left right : Expression) :
    typeOf tc env (.binaryExpr op left right) =
      value (checkBinaryExpr op (typeOf tc env left) (typeOf tc env right)) := by
  rw [typeOf_eq, inferExprType, value_bind, value_bind]
  rfl

theorem passes_unary {op : UnaryOp} {operand : Expression}
    (h : Passes tc env (.unaryExpr op operand)) :
    Passes tc env operand ∧ Quiet (checkUnaryExpr op (typeOf tc env operand)) := by
  unfold Passes at h
  rw [inferExprType] at h
  exact h.bind

theorem typeOf_unary (op : UnaryOp) (operand : Expression) :
    typeOf tc env (.unaryExpr op operand) =
      value (checkUnaryExpr op (typeOf tc env operand)) := by
  rw [typeOf_eq, inferExprType, value_bind]
  rfl

theorem passes_member {object : Expression} {property : String}
    (h : Passes tc env (.memberExpr object property)) : Passes tc env object := by
  unfold Passes at h
  rw [inferExprType] at h
  exact h.bind.1

theorem typeOf_member (object : Expression) (property : String) :
    typeOf tc env (.memberExpr object property) =
      value (inferMemberExpr tc object property (typeOf tc env object)) := by
  rw [typeOf_eq, inferExprType, value_bind]
  rfl

/-- The type of a ternary with branches of these types. -/
def branchType (consequent alternate : TType) : Check TType :=
  if consequent = alternate then pure consequent
  else if isSubtype alternate consequent then pure consequent
  else if isSubtype consequent alternate then pure alternate
  else do
    report (.ternaryBranches consequent alternate)
    pure consequent

instance (consequent alternate : TType) : Plain (branchType consequent alternate) := by
  unfold branchType
  infer_instance

theorem isSubtype_self (t : TType) : isSubtype t t = true := by
  rw [isSubtype.eq_def, if_pos rfl]

theorem isSubtype_unknown (t : TType) : isSubtype .unknown t = true := by
  rw [isSubtype.eq_def]
  split
  · rfl
  · rw [if_pos (Or.inr rfl)]

theorem branchType_spec {consequent alternate : TType}
    (h : Quiet (branchType consequent alternate)) :
    isSubtype consequent (value (branchType consequent alternate)) = true ∧
      isSubtype alternate (value (branchType consequent alternate)) = true := by
  unfold branchType at h ⊢
  by_cases heq : consequent = alternate
  · rw [if_pos heq, value_pure]
    exact ⟨isSubtype_self _, heq ▸ isSubtype_self _⟩
  · rw [if_neg heq] at h ⊢
    by_cases hsub : isSubtype alternate consequent = true
    · rw [if_pos hsub, value_pure]
      exact ⟨isSubtype_self _, hsub⟩
    · rw [if_neg hsub] at h ⊢
      by_cases hsup : isSubtype consequent alternate = true
      · rw [if_pos hsup, value_pure]
        exact ⟨hsup, isSubtype_self _⟩
      · rw [if_neg hsup] at h
        exact absurd h.bind.1 (not_quiet_report _)

theorem inferExprType_ternary (condition consequent alternate : Expression) :
    inferExprType tc env (.ternaryExpr condition consequent alternate) = (do
      let condType ← inferExprType tc env condition
      require (condType == .boolean) (.ternaryCondition condType)
      let consequentType ← inferExprType tc env consequent
      let alternateType ← inferExprType tc env alternate
      branchType consequentType alternateType) := by
  rw [inferExprType]
  rfl

theorem passes_ternary {condition consequent alternate : Expression}
    (h : Passes tc env (.ternaryExpr condition consequent alternate)) :
    Passes tc env condition ∧ Passes tc env consequent ∧ Passes tc env alternate ∧
      isSubtype (typeOf tc env consequent)
        (typeOf tc env (.ternaryExpr condition consequent alternate)) = true ∧
      isSubtype (typeOf tc env alternate)
        (typeOf tc env (.ternaryExpr condition consequent alternate)) = true := by
  have htype : typeOf tc env (.ternaryExpr condition consequent alternate) =
      value (branchType (typeOf tc env consequent) (typeOf tc env alternate)) := by
    rw [typeOf_eq, inferExprType_ternary, value_bind, value_bind, value_bind, value_bind]
    rfl
  unfold Passes at h
  rw [inferExprType_ternary] at h
  obtain ⟨hcond, h⟩ := h.bind
  obtain ⟨-, h⟩ := h.bind
  obtain ⟨hcons, h⟩ := h.bind
  obtain ⟨halt, h⟩ := h.bind
  rw [htype]
  exact ⟨hcond, hcons, halt, branchType_spec h⟩

/-- The type of an element is found without a report. -/
theorem plain_element (t : TType) : Plain (match t with
    | .array element => (pure element : Check TType)
    | _ => pure .unknown) := by
  split <;> infer_instance

theorem passes_index {object index : Expression}
    (h : Passes tc env (.indexAccess object index)) :
    Passes tc env object ∧ Passes tc env index := by
  unfold Passes at h
  rw [inferExprType] at h
  have := plain_element
  obtain ⟨hobject, h⟩ := h.bind
  exact ⟨hobject, h.bind.1⟩

/-- The type of an element of an array type. -/
def elementType : TType → TType
  | .array element => element
  | _ => .unknown

theorem typeOf_index (object index : Expression) :
    typeOf tc env (.indexAccess object index) = elementType (typeOf tc env object) := by
  have := plain_element
  rw [typeOf_eq, inferExprType, value_bind, value_bind, value_bind, typeOf_eq]
  cases value (inferExprType tc env object) <;> rfl

theorem passes_increment {operand : Expression} {isPrefix : Bool}
    (h : Passes tc env (.incrementExpr operand isPrefix)) : Passes tc env operand := by
  unfold Passes at h
  rw [inferExprType] at h
  exact h.bind.1

theorem typeOf_increment (operand : Expression) (isPrefix : Bool) :
    typeOf tc env (.incrementExpr operand isPrefix) = .bigint := by
  rw [typeOf_eq, inferExprType, value_bind, value_bind]
  rfl

theorem passes_decrement {operand : Expression} {isPrefix : Bool}
    (h : Passes tc env (.decrementExpr operand isPrefix)) : Passes tc env operand := by
  unfold Passes at h
  rw [inferExprType] at h
  exact h.bind.1

theorem typeOf_decrement (operand : Expression) (isPrefix : Bool) :
    typeOf tc env (.decrementExpr operand isPrefix) = .bigint := by
  rw [typeOf_eq, inferExprType, value_bind, value_bind]
  rfl

/-! ## Arguments that pass -/

theorem quiet_inferEach {args : List Expression} :
    ∀ {visit : Visit}, Visiting visit → Quiet (inferEach tc env visit args) →
      ∀ i e, args[i]? = some e → Quiet (visit i (inferExprType tc env e)) := by
  induction args with
  | nil =>
    intro visit _ _ i e he
    exact nomatch he
  | cons arg rest ih =>
    intro visit hvisit h i e he
    rw [inferEach] at h
    have := hvisit.plain 0 _ (plain_infer tc env arg)
    have := plain_inferEach tc env _ hvisit.succ rest
    obtain ⟨harg, hrest⟩ := h.bind
    cases i with
    | zero =>
      obtain rfl : arg = e := Option.some.inj he
      exact harg
    | succ i => exact ih hvisit.succ hrest i e he

/-- The arguments before a position are inferred, by a visit that passes only if they do. -/
def Inspects (visit : Visit) (n : Nat) : Prop :=
  ∀ i < n, ∀ m : Check TType, Plain m →
    ∃ (before : Check Unit) (after : TType → Check Unit), Plain before ∧ (∀ t, Plain (after t)) ∧
      visit i m = before >>= fun _ => m >>= after

theorem passes_each {args : List Expression} {visit : Visit} (hvisit : Visiting visit)
    (hin : Inspects visit args.length) (h : Quiet (inferEach tc env visit args)) :
    ∀ e ∈ args, Passes tc env e := by
  intro e he
  obtain ⟨i, hi, rfl⟩ := List.getElem_of_mem he
  have hquiet := quiet_inferEach hvisit h i _ (List.getElem?_eq_getElem hi)
  obtain ⟨before, after, _, _, heq⟩ := hin i hi _ (plain_infer tc env args[i])
  rw [heq] at hquiet
  exact hquiet.bind.2.bind.1

theorem inspects_only (n : Nat) : Inspects visitOnly n :=
  fun _ _ _ _ => ⟨pure (), fun _ => pure (), inferInstance, fun _ => inferInstance, rfl⟩

/-- The check of an argument whose type is known. -/
def checkArgument (func : String) (params : List TType) (i : Nat) (t : TType) : Check Unit :=
  match params[i]? with
  | none => pure ()
  | some expected => require (isSubtype t expected || t == .unknown)
      (.argument (i + 1) func expected t)

theorem quiet_visitArgument {func : String} {params : List TType} {i : Nat} {m : Check TType}
    [hm : Steady m] (h : Quiet (visitArgument func params i m)) :
    Quiet m ∧ ∀ expected, params[i]? = some expected → isSubtype (value m) expected = true := by
  have h : Quiet (m >>= checkArgument func params i) := h
  have hsteady : ∀ t : TType, Steady (checkArgument func params i t) := by
    intro t
    unfold checkArgument
    split <;> infer_instance
  obtain ⟨hquiet, h⟩ := @Quiet.bind _ _ m _ hm hsteady h
  refine ⟨hquiet, ?_⟩
  intro expected hexpected
  unfold checkArgument at h
  rw [hexpected] at h
  rcases (Bool.or_eq_true _ _).mp h.require with hsub | hunknown
  · exact hsub
  · rw [eq_of_beq hunknown]
    exact isSubtype_unknown _

theorem inspects_argument (func : String) (params : List TType) (n : Nat) :
    Inspects (visitArgument func params) n := by
  intro i _ m _
  refine ⟨pure (), checkArgument func params i, inferInstance, ?_, rfl⟩
  intro t
  unfold checkArgument
  split <;> infer_instance

theorem inspects_assert {n : Nat} (hn : n ≤ 2) : Inspects visitAssert n := by
  intro i hi m hm
  match i, hi with
  | 0, _ => exact ⟨pure (), fun t => require (t == .boolean || t == .unknown) (.assertCondition t),
      inferInstance, fun _ => inferInstance, rfl⟩
  | 1, _ => exact inspects_only 2 1 (by omega) m hm
  | i + 2, hi => omega

theorem inspects_prevOutputScript {args : List Expression}
    (hargs : args.length = 2 ∨ args.length = 3) :
    Inspects (visitPrevOutputScript args) args.length := by
  intro i hi m hm
  match i, hi with
  | 0, _ => exact inspects_only 1 0 (by omega) m hm
  | 1, _ => exact ⟨pure (), fun t => require (isSubtype t .byteString || t == .unknown)
      (.argument 2 "extractPrevOutputScript" .byteString t), inferInstance,
      fun _ => inferInstance, rfl⟩
  | 2, hi =>
    have hlen : args.length = 3 := by omega
    refine ⟨(args[2]?).forM checkPrefixLen, fun _ => pure (), plain_forM fun _ => inferInstance,
      fun _ => inferInstance, ?_⟩
    exact if_pos hlen
  | i + 3, hi => omega

theorem inspects_scriptOutput {func : String} {n : Nat} (hn : n ≤ 2) :
    Inspects (visitScriptOutput func) n := by
  intro i hi m _
  match i, hi with
  | 0, _ => exact ⟨pure (), fun t => require (isBigintFamily t || t == .unknown)
      (.outputArg func "first argument (satoshis)" "bigint" t), inferInstance,
      fun _ => inferInstance, rfl⟩
  | 1, _ => exact ⟨pure (), fun t => require (isSubtype t .byteString || t == .unknown)
      (.outputArg func "second argument (scriptBytes)" "ByteString" t), inferInstance,
      fun _ => inferInstance, rfl⟩
  | i + 2, hi => omega

theorem inspects_addOutput (n : Nat) : Inspects (visitAddOutput tc) n := by
  intro i _ m _
  obtain ⟨after, hafter, heq⟩ : ∃ after : TType → Check Unit, (∀ t, Plain (after t)) ∧
      visitAddOutput tc i m = m >>= after := by
    unfold visitAddOutput
    refine ⟨_, ?_, rfl⟩
    intro t
    repeat' first | infer_instance | split
  exact ⟨pure (), after, inferInstance, hafter, heq⟩

/-! ## Calls that pass -/

/-- What a call that passes says of its arguments. -/
structure CallPasses (tc : TypeChecker) (env : TypeEnv) (func : String) (sig : FuncSig)
    (args : List Expression) : Prop where
  each : ∀ e ∈ args, Passes tc env e
  params : builtinSig func = none →
    args.length = sig.params.length ∧
      ∀ (i : Nat) e expected, args[i]? = some e → sig.params[i]? = some expected →
        isSubtype (typeOf tc env e) expected = true

/-- The functions whose arguments are checked in a way of their own are builtin. -/
theorem not_special {func : String} (h : builtinSig func = none) :
    func ≠ "assert" ∧ func ≠ "checkMultiSig" ∧ func ≠ "extractPrevOutputScript" ∧
      func ≠ "requireOutputP2PKH" ∧ func ≠ "currentBlockHeight" := by
  refine ⟨?_, ?_, ?_, ?_, ?_⟩ <;> (rintro rfl; exact absurd h (by decide +kernel))

/-- A call whose shape passes has all its arguments inferred. -/
theorem inspects_call {func : String} {sig : FuncSig} {args : List Expression}
    (hshape : Quiet (checkCallShape tc func sig args)) :
    Inspects (visitCall func sig args) args.length := by
  unfold checkCallShape at hshape
  unfold visitCall
  by_cases hassert : func = "assert"
  · rw [if_pos hassert] at hshape ⊢
    exact inspects_assert (of_decide_eq_true hshape.require).2
  · rw [if_neg hassert] at hshape ⊢
    by_cases hmulti : func = "checkMultiSig" ∧ args.length ≠ 2
    · rw [if_pos hmulti]
      exact inspects_only _
    · rw [if_neg hmulti] at hshape ⊢
      by_cases hprev : func = "extractPrevOutputScript"
      · rw [if_pos hprev]
        have : Plain ((args[0]?).forM (checkIndexLiteral func)) :=
          plain_forM fun _ => inferInstance
        dsimp only at hshape
        rw [if_pos (Or.inl hprev), if_pos hprev] at hshape
        exact inspects_prevOutputScript (of_decide_eq_true hshape.bind.2.require)
      · rw [if_neg hprev]
        exact inspects_argument _ _ _

theorem callPasses {func : String} {sig : FuncSig} {args : List Expression}
    (hshape : Quiet (checkCallShape tc func sig args))
    (hargs : Quiet (inferEach tc env (visitCall func sig args) args)) :
    CallPasses tc env func sig args where
  each := passes_each (visiting_call func sig args) (inspects_call hshape) hargs
  params := by
    intro hbuiltin
    obtain ⟨hassert, hmulti, hprev, hp2pkh, hheight⟩ := not_special hbuiltin
    have hvisit : visitCall func sig args = visitArgument func sig.params := by
      unfold visitCall
      rw [if_neg hassert, if_neg (fun h => hmulti h.1), if_neg hprev]
    constructor
    · unfold checkCallShape at hshape
      rw [if_neg hassert, if_neg (fun h => hmulti h.1), if_neg (by tauto), if_neg hprev,
        if_neg (by tauto)] at hshape
      exact eq_of_beq (Quiet.require hshape)
    · intro i e expected he hexpected
      rw [hvisit] at hargs
      have h := quiet_inferEach (visiting_argument func sig.params) hargs i e he
      exact (quiet_visitArgument h).2 expected hexpected

theorem passes_array {first : Expression} {rest : List Expression}
    (h : Passes tc env (.arrayLiteral (first :: rest))) :
    Passes tc env first ∧ ∀ e ∈ rest, Passes tc env e ∧
      isSubtype (typeOf tc env e) (typeOf tc env first) = true := by
  unfold Passes at h
  rw [inferExprType] at h
  have hsteady := fun t => plain_inferEach tc env _ (visiting_element t) rest
  obtain ⟨hfirst, h⟩ := h.bind
  have hrest := h.bind.1
  refine ⟨hfirst, ?_⟩
  intro e he
  obtain ⟨i, hi, rfl⟩ := List.getElem_of_mem he
  have hvisit := quiet_inferEach (visiting_element _) hrest i _ (List.getElem?_eq_getElem hi)
  obtain ⟨hquiet, hsub⟩ := hvisit.bind
  refine ⟨hquiet, ?_⟩
  rcases (Bool.or_eq_true _ _).mp hsub.require with hsub | hunknown
  · exact hsub
  · rw [typeOf_eq, eq_of_beq hunknown]
    exact isSubtype_unknown _

theorem typeOf_array (first : Expression) (rest : List Expression) :
    typeOf tc env (.arrayLiteral (first :: rest)) = .array (typeOf tc env first) := by
  have hsteady := fun t => plain_inferEach tc env _ (visiting_element t) rest
  rw [typeOf_eq, inferExprType, value_bind, value_bind]
  rfl

/-- The arguments of an output pass, the state values of an array literal one by one. -/
def OutputPasses (tc : TypeChecker) (env : TypeEnv) : List Expression → Prop
  | [] => True
  | first :: rest => Passes tc env first ∧
      match rest with
      | [.arrayLiteral elements] => ∀ e ∈ elements, Passes tc env e
      | rest => ∀ e ∈ rest, Passes tc env e

theorem passes_elements {elements : List Expression}
    (h : Passes tc env (.arrayLiteral elements)) : ∀ e ∈ elements, Passes tc env e := by
  cases elements with
  | nil =>
    intro e he
    exact nomatch he
  | cons first rest =>
    obtain ⟨hfirst, hrest⟩ := passes_array h
    intro e he
    rcases List.mem_cons.mp he with rfl | he
    · exact hfirst
    · exact (hrest e he).1

theorem OutputPasses.of_each {args : List Expression} (h : ∀ e ∈ args, Passes tc env e) :
    OutputPasses tc env args := by
  cases args with
  | nil => exact trivial
  | cons first rest =>
    have hrest : ∀ e ∈ rest, Passes tc env e := fun e he => h e (List.mem_cons_of_mem _ he)
    refine ⟨h first List.mem_cons_self, ?_⟩
    split
    · exact passes_elements (hrest _ List.mem_cons_self)
    · exact hrest

theorem outputPasses_addOutput {args : List Expression}
    (h : Quiet (inferAddOutput tc env args)) : OutputPasses tc env args := by
  cases args with
  | nil => exact trivial
  | cons first rest =>
    have hvisit := visiting_addOutput tc
    have hin : ∀ n, Inspects (fun i => visitAddOutput tc (i + 1)) n :=
      fun n i hi => inspects_addOutput (n + 1) (i + 1) (Nat.succ_lt_succ hi)
    have harg := hvisit.plain 0 _ (plain_infer tc env first)
    have hrest : Steady (match rest with
        | [.arrayLiteral elements] =>
            inferEach tc env (fun i => visitAddOutput tc (i + 1)) elements
        | rest => inferEach tc env (fun i => visitAddOutput tc (i + 1)) rest) := by
      split <;> exact (plain_inferEach tc env _ hvisit.succ _).toSteady
    rw [inferAddOutput.eq_def] at h
    obtain ⟨hfirst, h⟩ := h.bind
    obtain ⟨before, after, _, _, heq⟩ :=
      inspects_addOutput 1 0 Nat.one_pos _ (plain_infer tc env first)
    rw [heq] at hfirst
    refine ⟨hfirst.bind.2.bind.1, ?_⟩
    split
    · exact passes_each hvisit.succ (hin _) h
    · rename_i hne
      split at h
      · exact absurd rfl (hne _)
      · exact passes_each hvisit.succ (hin _) h

theorem passes_super {args : List Expression} {ret : Option PrimitiveType}
    (h : Passes tc env (.callExpr (.identifier "super") args ret)) :
    ∀ e ∈ args, Passes tc env e := by
  unfold Passes at h
  rw [inferExprType.eq_def] at h
  dsimp only at h
  rw [if_pos rfl] at h
  have hsteady := plain_inferEach tc env _ visiting_only args
  exact passes_each visiting_only (inspects_only _) h.bind.1

/-- The call of a function or a method by its name. -/
theorem passes_callIdentifier {name : String} {args : List Expression}
    {ret : Option PrimitiveType} (hsuper : name ≠ "super") (hasm : name ≠ "asm")
    (h : Passes tc env (.callExpr (.identifier name) args ret)) :
    (∀ e ∈ args, Passes tc env e) ∧
      ∀ sig, ((builtinSig name).orElse fun _ => tc.methodSig name) = some sig →
        CallPasses tc env name sig args ∧
          typeOf tc env (.callExpr (.identifier name) args ret) = sig.returnType := by
  have hcall := fun sig => plain_inferEach tc env _ (visiting_call name sig args) args
  have honly := plain_inferEach tc env _ visiting_only args
  have heq := inferExprType.eq_def tc env (.callExpr (.identifier name) args ret)
  dsimp only at heq
  rw [if_neg hsuper, if_neg hasm] at heq
  unfold Passes at h
  rw [typeOf_eq]
  rw [heq] at h ⊢
  cases hsig : (builtinSig name).orElse fun _ => tc.methodSig name with
  | none =>
    rw [hsig] at h
    dsimp only at h
    refine ⟨?_, fun _ hnone => nomatch hnone⟩
    split at h
    · exact absurd h.bind.1 (not_quiet_report _)
    · exact passes_each visiting_only (inspects_only _) h.bind.1
  | some sig =>
    rw [hsig] at h
    dsimp only at h ⊢
    obtain ⟨hshape, h⟩ := h.bind
    have hpasses := callPasses hshape h.bind.1
    refine ⟨hpasses.each, ?_⟩
    rintro sig' ⟨⟩
    refine ⟨hpasses, ?_⟩
    rw [value_bind, value_bind]
    split <;> rfl

/-- What a call on the contract that passes is, and the type it has. -/
inductive OwnCall (tc : TypeChecker) (env : TypeEnv) (property : String)
    (args : List Expression) (type : TType) : Prop where
  | stateScript (name : property = "getStateScript") (htype : type = .byteString)
  | output (name : property ∈ outputIntrinsics) (passes : OutputPasses tc env args)
      (htype : type = .void)
  | method (sig : FuncSig) (found : tc.methodSig property = some sig)
      (notScript : property ≠ "getStateScript") (notOutput : property ∉ outputIntrinsics)
      (passes : CallPasses tc env property sig args) (htype : type = sig.returnType)

theorem mem_outputIntrinsics {property : String} :
    property ∈ outputIntrinsics ↔
      property = "addOutput" ∨ property = "addRawOutput" ∨ property = "addDataOutput" := by
  simp [outputIntrinsics]

/-- The checker of a call of an own method. -/
theorem ownMethod_of_quiet {property : String} {args : List Expression} {sig : FuncSig}
    (hfound : tc.methodSig property = some sig) (hscript : property ≠ "getStateScript")
    (hout : property ∉ outputIntrinsics) {m : Check TType}
    (hm : m = do
      checkCallShape tc property sig args
      inferEach tc env (visitCall property sig args) args
      if consumes property then checkAffineConsumption tc env property args
      pure sig.returnType)
    (h : Quiet m) : OwnCall tc env property args (value m) := by
  have hcall := plain_inferEach tc env _ (visiting_call property sig args) args
  subst hm
  obtain ⟨hshape, h⟩ := h.bind
  refine .method sig hfound hscript hout (callPasses hshape h.bind.1) ?_
  rw [value_bind, value_bind]
  split <;> rfl

/-- The checker of an output. -/
theorem output_of_quiet {property : String} {args : List Expression} {stateful count : Bool}
    {d d' : Diagnostic} {m : Check Unit} [Steady m] (hout : property ∈ outputIntrinsics)
    (hm : count = true → Quiet m → OutputPasses tc env args) {call : Check TType}
    (hcall : call = if stateful then do
        require count d
        m
        pure .void
      else do
        report d'
        pure .void)
    (h : Quiet call) : OwnCall tc env property args (value call) := by
  subst hcall
  cases stateful with
  | false => exact absurd h.bind.1 (not_quiet_report _)
  | true =>
    obtain ⟨hcount, h⟩ := Quiet.bind (m := require count d) h
    refine .output hout (hm hcount.require h.bind.1) ?_
    rw [if_pos rfl, value_bind, value_bind]
    rfl

theorem outputPasses_script {property : String} {args : List Expression}
    (hcount : (args.length == 2) = true)
    (h : Quiet (inferEach tc env (visitScriptOutput property) args)) :
    OutputPasses tc env args :=
  .of_each (passes_each (visiting_scriptOutput property)
    (inspects_scriptOutput (eq_of_beq hcount).le) h)

theorem passes_callProperty {property : String} {args : List Expression}
    {ret : Option PrimitiveType}
    (h : Passes tc env (.callExpr (.propertyAccess property) args ret)) :
    OwnCall tc env property args (typeOf tc env (.callExpr (.propertyAccess property) args ret)) := by
  have honly := plain_inferEach tc env _ visiting_only args
  have hscript := plain_inferEach tc env _ (visiting_scriptOutput property) args
  have hadd := plain_inferAddOutput tc env args
  have heq := inferExprType.eq_def tc env (.callExpr (.propertyAccess property) args ret)
  dsimp only at heq
  unfold Passes at h
  rw [typeOf_eq]
  by_cases hstate : property = "getStateScript"
  · rw [if_pos hstate] at heq
    refine .stateScript hstate ?_
    rw [heq, value_bind]
    rfl
  rw [if_neg hstate] at heq
  by_cases haddName : property = "addOutput"
  · rw [if_pos haddName] at heq
    refine output_of_quiet (mem_outputIntrinsics.mpr (Or.inl haddName)) (fun _ => ?_) heq h
    exact outputPasses_addOutput
  rw [if_neg haddName] at heq
  by_cases hrawName : property = "addRawOutput" ∨ property = "addDataOutput"
  · rw [if_pos hrawName] at heq
    refine output_of_quiet (mem_outputIntrinsics.mpr (Or.inr hrawName)) (fun hcount => ?_) heq h
    exact outputPasses_script hcount
  rw [if_neg hrawName] at heq
  have hout : property ∉ outputIntrinsics := by
    rw [mem_outputIntrinsics]
    tauto
  cases hsig : tc.methodSig property with
  | none =>
    rw [hsig] at heq
    rw [heq] at h
    exact absurd h.bind.1 (not_quiet_report _)
  | some sig =>
    rw [hsig] at heq
    exact ownMethod_of_quiet hsig hstate hout heq h

theorem passes_callMember {object : Expression} {property : String} {args : List Expression}
    {ret : Option PrimitiveType}
    (h : Passes tc env (.callExpr (.memberExpr object property) args ret)) :
    Passes tc env object ∧
      (typeOf tc env object = .this ∨ typeOf tc env object = .statefulContext) ∧
      OwnCall tc env property args
        (typeOf tc env (.callExpr (.memberExpr object property) args ret)) := by
  have honly := plain_inferEach tc env _ visiting_only args
  have hscript := plain_inferEach tc env _ (visiting_scriptOutput property) args
  have hadd := plain_inferAddOutput tc env args
  have hcall := fun sig => plain_inferEach tc env _ (visiting_call property sig args) args
  have heq := inferExprType.eq_def tc env (.callExpr (.memberExpr object property) args ret)
  obtain ⟨body, hbody, hsteady, hspec⟩ : ∃ body : TType → Check TType,
      inferExprType tc env (.callExpr (.memberExpr object property) args ret) =
        inferExprType tc env object >>= body ∧ (∀ t, Steady (body t)) ∧
      ∀ t m, m = body t → Quiet m → (t = .this ∨ t = .statefulContext) ∧
        OwnCall tc env property args (value m) := by
    refine ⟨_, heq, ?_, ?_⟩
    · intro t
      dsimp only
      repeat' first | infer_instance | split
    · intro t m hm hquiet
      dsimp only at hm
      by_cases hcontext : t = .statefulContext ∧ property = "getStateScript"
      · rw [if_pos hcontext] at hm
        refine ⟨Or.inr hcontext.1, .stateScript hcontext.2 ?_⟩
        rw [hm, value_bind]
        rfl
      rw [if_neg hcontext] at hm
      by_cases hthis : t = .this ∧ property = "getStateScript"
      · rw [if_pos hthis] at hm
        refine ⟨Or.inl hthis.1, .stateScript hthis.2 ?_⟩
        rw [hm]
        rfl
      rw [if_neg hthis] at hm
      by_cases haddName : (t = .statefulContext ∨ t = .this) ∧ property = "addOutput"
      · rw [if_pos haddName] at hm
        refine ⟨haddName.1.symm, output_of_quiet (mem_outputIntrinsics.mpr (Or.inl haddName.2))
          (fun _ => ?_) hm hquiet⟩
        exact outputPasses_addOutput
      rw [if_neg haddName] at hm
      by_cases hrawName : (t = .statefulContext ∨ t = .this) ∧
          (property = "addRawOutput" ∨ property = "addDataOutput")
      · rw [if_pos hrawName] at hm
        refine ⟨hrawName.1.symm, output_of_quiet (mem_outputIntrinsics.mpr (Or.inr hrawName.2))
          (fun hcount => ?_) hm hquiet⟩
        exact outputPasses_script hcount
      rw [if_neg hrawName] at hm
      cases hsig : if t = .this then tc.methodSig property else none with
      | none =>
        rw [hsig] at hm
        rw [hm] at hquiet
        exact absurd hquiet.bind.1 (not_quiet_report _)
      | some sig =>
        rw [hsig] at hm
        have ht : t = .this := by
          by_contra hne
          rw [if_neg hne] at hsig
          exact nomatch hsig
        rw [if_pos ht] at hsig
        have hstate : property ≠ "getStateScript" := fun hp => hthis ⟨ht, hp⟩
        have hout : property ∉ outputIntrinsics := by
          rw [mem_outputIntrinsics]
          tauto
        exact ⟨Or.inl ht, ownMethod_of_quiet hsig hstate hout hm hquiet⟩
  have htype : typeOf tc env (.callExpr (.memberExpr object property) args ret) =
      value (body (typeOf tc env object)) := by
    rw [typeOf_eq, hbody, value_bind]
    rfl
  unfold Passes at h
  rw [hbody] at h
  obtain ⟨hobject, h⟩ := h.bind
  rw [htype]
  exact ⟨hobject, hspec _ _ rfl h⟩

end Inversion

/-! ## Statements that pass -/

instance (tc : TypeChecker) (env : TypeEnv) (name : String) (type : Option TypeNode)
    (init : Expression) : Thrifty (checkVariableDecl tc env name type init) := by
  unfold checkVariableDecl
  refine @Thrifty.bind _ _ _ _ inferInstance ?_
  intro t
  split <;> infer_instance

mutual

theorem thrifty_statement (tc : TypeChecker) :
    ∀ (env : TypeEnv) (stmt : Statement), Thrifty (checkStatement tc env stmt)
  | env, .variableDecl name type init => by
      rw [checkStatement]
      infer_instance
  | env, .assignment target value => by
      rw [checkStatement]
      infer_instance
  | env, .ifStatement condition thenBody none => by
      have hthen := thrifty_statements tc env.pushScope thenBody
      rw [checkStatement]
      infer_instance
  | env, .ifStatement condition thenBody (some elseBody) => by
      have hthen := thrifty_statements tc env.pushScope thenBody
      have helse := thrifty_statements tc env.pushScope elseBody
      rw [checkStatement]
      infer_instance
  | env, .forStatement name type init condition step body => by
      have hbody := fun env => thrifty_statements tc env body
      rw [checkStatement]
      infer_instance
  | env, .expressionStatement expression => by
      rw [checkStatement]
      infer_instance
  | env, .returnStatement none => by
      rw [checkStatement]
      infer_instance
  | env, .returnStatement (some value) => by
      rw [checkStatement]
      infer_instance

theorem thrifty_statements (tc : TypeChecker) :
    ∀ (env : TypeEnv) (stmts : List Statement), Thrifty (checkStatements tc env stmts)
  | env, [] => by
      rw [checkStatements]
      infer_instance
  | env, stmt :: rest => by
      have hstmt := thrifty_statement tc env stmt
      have hrest := fun env => thrifty_statements tc env rest
      rw [checkStatements]
      infer_instance

end

instance (tc : TypeChecker) (env : TypeEnv) (stmt : Statement) :
    Thrifty (checkStatement tc env stmt) := thrifty_statement tc env stmt

instance (tc : TypeChecker) (env : TypeEnv) (stmts : List Statement) :
    Thrifty (checkStatements tc env stmts) := thrifty_statements tc env stmts

section Statements

variable {tc : TypeChecker} {env : TypeEnv}

theorem value_variableDecl (name : String) (type : Option TypeNode) (init : Expression) :
    value (checkVariableDecl tc env name type init) =
      envAfter tc env (.variableDecl name type init) := by
  unfold checkVariableDecl
  cases type with
  | none =>
    rw [value_bind, value_bind]
    rfl
  | some type =>
    rw [value_bind, value_bind, value_bind]
    rfl

theorem value_statement (stmt : Statement) :
    value (checkStatement tc env stmt) = envAfter tc env stmt := by
  cases stmt with
  | variableDecl name type init =>
    rw [checkStatement]
    exact value_variableDecl name type init
  | assignment target v =>
    rw [checkStatement, value_bind, value_bind, value_bind]
    rfl
  | ifStatement condition thenBody elseBody =>
    cases elseBody with
    | none =>
      rw [checkStatement, value_bind, value_bind, value_bind]
      rfl
    | some elseBody =>
      rw [checkStatement, value_bind, value_bind, value_bind, value_bind]
      rfl
  | forStatement name type init condition step body =>
    rw [checkStatement, value_bind, value_bind, value_bind, value_bind]
    rfl
  | expressionStatement expression =>
    rw [checkStatement, value_bind]
    rfl
  | returnStatement v =>
    cases v with
    | none =>
      rw [checkStatement]
      rfl
    | some v =>
      rw [checkStatement, value_bind]
      rfl

/-- What a declaration that passes says. -/
def DeclPasses (tc : TypeChecker) (env : TypeEnv) (type : Option TypeNode) (init : Expression) :
    Prop :=
  Passes tc env init ∧
    ∀ t, type = some t → isSubtype (typeOf tc env init) (typeNodeToTType t) = true

theorem declPasses {name : String} {type : Option TypeNode} {init : Expression}
    (h : Quiet (checkVariableDecl tc env name type init)) : DeclPasses tc env type init := by
  unfold checkVariableDecl at h
  cases type with
  | none => exact ⟨h.bind.1, fun _ hnone => nomatch hnone⟩
  | some type =>
    obtain ⟨hinit, h⟩ := h.bind
    refine ⟨hinit, ?_⟩
    rintro t ⟨⟩
    exact h.bind.1.require

theorem passes_assignment {target v : Expression}
    (h : Quiet (checkStatement tc env (.assignment target v))) :
    Passes tc env target ∧ Passes tc env v ∧
      isSubtype (typeOf tc env v) (typeOf tc env target) = true := by
  rw [checkStatement] at h
  obtain ⟨htarget, h⟩ := h.bind
  obtain ⟨hv, h⟩ := h.bind
  exact ⟨htarget, hv, h.bind.1.require⟩

theorem passes_if {condition : Expression} {thenBody : List Statement}
    {elseBody : Option (List Statement)}
    (h : Quiet (checkStatement tc env (.ifStatement condition thenBody elseBody))) :
    Passes tc env condition ∧ Quiet (checkStatements tc env.pushScope thenBody) ∧
      ∀ stmts, elseBody = some stmts → Quiet (checkStatements tc env.pushScope stmts) := by
  cases elseBody with
  | none =>
    rw [checkStatement] at h
    obtain ⟨hcond, h⟩ := h.bind
    exact ⟨hcond, h.bind.2.bind.1, fun _ hnone => nomatch hnone⟩
  | some elseBody =>
    rw [checkStatement] at h
    obtain ⟨hcond, h⟩ := h.bind
    obtain ⟨-, h⟩ := h.bind
    obtain ⟨hthen, h⟩ := h.bind
    refine ⟨hcond, hthen, ?_⟩
    rintro stmts ⟨⟩
    exact h.bind.1

theorem passes_for {name : String} {type : Option TypeNode} {init condition : Expression}
    {step : Statement} {body : List Statement}
    (h : Quiet (checkStatement tc env (.forStatement name type init condition step body))) :
    DeclPasses tc env.pushScope type init ∧
      Passes tc (envAfter tc env.pushScope (.variableDecl name type init)) condition ∧
      Quiet (checkStatements tc (envAfter tc env.pushScope (.variableDecl name type init)) body) := by
  rw [checkStatement] at h
  obtain ⟨hdecl, h⟩ := h.bind
  obtain ⟨hcond, h⟩ := h.bind
  have hbody := h.bind.2.bind.1
  rw [value_variableDecl] at hcond hbody
  exact ⟨declPasses hdecl, hcond, hbody⟩

theorem passes_expressionStatement {expression : Expression}
    (h : Quiet (checkStatement tc env (.expressionStatement expression))) :
    Passes tc env expression := by
  rw [checkStatement] at h
  exact h.bind.1

theorem passes_return {v : Expression}
    (h : Quiet (checkStatement tc env (.returnStatement (some v)))) : Passes tc env v := by
  rw [checkStatement] at h
  exact h.bind.1

theorem passes_cons {stmt : Statement} {rest : List Statement}
    (h : Quiet (checkStatements tc env (stmt :: rest))) :
    Quiet (checkStatement tc env stmt) ∧
      Quiet (checkStatements tc (envAfter tc env stmt) rest) := by
  rw [checkStatements] at h
  obtain ⟨hstmt, hrest⟩ := h.bind
  rw [value_statement] at hrest
  exact ⟨hstmt, hrest⟩

end Statements

/-! ## Contracts that are accepted -/

instance : Steady resetAffine where
  result := fun _ _ => rfl
  grows := fun s => ⟨[], (List.append_nil s.errors).symm⟩

instance (tc : TypeChecker) (method : MethodNode) : Steady (checkMethod tc method) := by
  unfold checkMethod
  infer_instance

instance (tc : TypeChecker) : Steady (checkConstructor tc) := by
  unfold checkConstructor
  infer_instance

theorem steady_methods (tc : TypeChecker) :
    ∀ methods : List MethodNode, Steady (methods.forM (checkMethod tc))
  | [] => Steady.pure _
  | method :: rest => by
      have hrest := steady_methods tc rest
      exact Steady.bind (checkMethod tc method) fun _ => rest.forM (checkMethod tc)

theorem quiet_methods {tc : TypeChecker} {methods : List MethodNode}
    (h : Quiet (methods.forM (checkMethod tc))) :
    ∀ method ∈ methods, Quiet (checkMethod tc method) := by
  induction methods with
  | nil =>
    intro method hmem
    exact nomatch hmem
  | cons first rest ih =>
    have hrest := steady_methods tc rest
    change Quiet (checkMethod tc first >>= fun _ => rest.forM (checkMethod tc)) at h
    obtain ⟨hfirst, h⟩ := h.bind
    intro method hmem
    rcases List.mem_cons.mp hmem with rfl | hmem
    · exact hfirst
    · exact ih h method hmem

/-- The body of a method of an accepted contract passes. -/
theorem Accepted.passes {contract : ContractNode} (h : Accepted contract) {method : MethodNode}
    (hmem : method ∈ contract.methods) :
    Quiet (checkStatements (.ofContract contract) (paramEnv method.params) method.body) := by
  have hsteady := steady_methods (.ofContract contract) contract.methods
  have hquiet : Quiet (do
      checkConstructor (.ofContract contract)
      contract.methods.forM (checkMethod (.ofContract contract))) := ⟨⟨[], [], []⟩, h⟩
  have hmethod := quiet_methods hquiet.bind.2 method hmem
  unfold checkMethod at hmethod
  exact hmethod.bind.2.bind.1

end Runar.Typecheck
