/-
  AnfLower/ByteMarks.lean --- the byte marks against the checker's types.

  WHAT THIS FILE IS FOR.  The checker infers a type for every operand; the lowering
  tells bytes from numbers by the shape of the operand and its own tables.  This file
  says for every form of expression when the two agree, and from that when an operator
  is marked as one on bytes exactly if its operands have byte types.
-/
import Runar.AnfLower.Statements
import Runar.Typecheck.Check

set_option autoImplicit false

namespace Runar.AnfLower

open Ast Typecheck LowerM

/-! ## The mark of a lowered operation -/

/-- The tables that tell bytes from numbers. -/
theorem isByteTypedExpr_congr {ctx ctx' : LoweringContext} (hc : ctx'.contract = ctx.contract)
    (hp : ctx'.methodParamTypes = ctx.methodParamTypes)
    (hl : ctx'.localByteVars = ctx.localByteVars) (e : Expression) :
    isByteTypedExpr e ctx' = isByteTypedExpr e ctx := by
  unfold isByteTypedExpr LoweringContext.getParamType LoweringContext.getPropertyType
    LoweringContext.isLocalByteVar
  rw [hc, hp, hl]

/-- Emitting a binding puts it last and leaves the tables as they are. -/
theorem emit_ok {ctx ctx' : LoweringContext} {value : ANFValue} {ref : String}
    (h : emit value ctx = .ok (ref, ctx')) :
    ctx'.bindings.getLast? = some (.mk ref value) ∧
      ∀ e, isByteTypedExpr e ctx' = isByteTypedExpr e ctx := by
  rw [emit_apply, Except.ok.injEq, LoweringContext.emit, Prod.mk.injEq] at h
  obtain ⟨rfl, rfl⟩ := h
  exact ⟨by simp [LoweringContext.emitNamed], isByteTypedExpr_congr rfl rfl rfl⟩

/-- The mark of a binary operation, told from the operands and the tables. -/
def binaryMark (op : BinaryOp) (left right : Expression) (ctx : LoweringContext) : Bool :=
  takesBytes op && (isByteTypedExpr left ctx || isByteTypedExpr right ctx)

def unaryMark (op : UnaryOp) (operand : Expression) (ctx : LoweringContext) : Bool :=
  op == .bitNot && isByteTypedExpr operand ctx

theorem lowerExprToRef_binaryExpr_last {inline : Inline} {op : BinaryOp} {left right : Expression}
    {ctx ctx' : LoweringContext} {ref : String}
    (h : lowerExprToRef inline (.binaryExpr op left right) ctx = .ok (ref, ctx')) :
    ∃ l r, ctx'.bindings.getLast? =
      some (.mk ref (.binOp op l r (binaryMark op left right ctx'))) := by
  rw [lowerExprToRef] at h
  obtain ⟨l, mid, -, h⟩ := bind_ok h
  obtain ⟨r, last, -, h⟩ := bind_ok h
  have h : emit (.binOp op l r (binaryMark op left right last)) last = .ok (ref, ctx') := h
  obtain ⟨hlast, htables⟩ := emit_ok h
  refine ⟨l, r, ?_⟩
  rw [hlast, binaryMark, binaryMark, htables, htables]

theorem lowerExprToRef_unaryExpr_last {inline : Inline} {op : UnaryOp} {operand : Expression}
    {ctx ctx' : LoweringContext} {ref : String}
    (h : lowerExprToRef inline (.unaryExpr op operand) ctx = .ok (ref, ctx')) :
    ∃ r, ctx'.bindings.getLast? =
      some (.mk ref (.unaryOp op r (unaryMark op operand ctx'))) := by
  rw [lowerExprToRef] at h
  obtain ⟨r, last, -, h⟩ := bind_ok h
  have h : emit (.unaryOp op r (unaryMark op operand last)) last = .ok (ref, ctx') := h
  obtain ⟨hlast, htables⟩ := emit_ok h
  refine ⟨r, ?_⟩
  rw [hlast, unaryMark, unaryMark, htables]

/-! ## Where the two notions of bytes agree -/

/-- The type the checker infers for an expression in a scope. -/
def inferredType (tc : TypeChecker) (env : TypeEnv) (s : CheckState) (e : Expression) : TType :=
  ((inferExprType tc env e).run s).1

/-- The lowering's tables have a name down as bytes. -/
def RecordedBytes (ctx : LoweringContext) (name : String) : Prop :=
  (ctx.getParamType name).any isByteType ∨ (ctx.getPropertyType name).any isByteType ∨
    name ∈ ctx.localByteVars

/-- The builtin functions whose result type the lowering has wrong: the first fourteen
return bytes and are not listed, the last three are listed and return integers. -/
def mismatchedBuiltins : List String :=
  ["sha256Compress", "sha256Finalize", "split", "toByteString", "pack", "bn254G1Add",
    "bn254G1ScalarMul", "bn254G1Negate", "merkleRootSha256", "merkleRootHash256",
    "extractScriptCode", "extractOutputs", "buildChangeOutput", "extractPrevOutputScript",
    "extractVersion", "extractLocktime", "extractSigHashType"]

/-- The lowering has an expression down as bytes exactly if its type is a byte type, by
the form of the expression. -/
def Faithful (tc : TypeChecker) (env : TypeEnv) (s : CheckState) (ctx : LoweringContext)
    (e : Expression) : Prop :=
  match e with
  | .bigintLiteral _ | .boolLiteral _ | .bytestringLiteral _ => True
  | .identifier name =>
      RecordedBytes ctx name ↔ isByteFamily (inferredType tc env s (.identifier name))
  | .propertyAccess property | .memberExpr (.identifier "this") property =>
      (ctx.getPropertyType property).any isByteType ↔ (tc.propType property).any isByteFamily
  | .callExpr (.identifier name) args asmType =>
      if (builtinSig name).isSome then name ∉ mismatchedBuiltins
      else ¬ isByteFamily (inferredType tc env s (.callExpr (.identifier name) args asmType))
  -- no other form is ever taken for bytes
  | e => ¬ isByteFamily (inferredType tc env s e)

/-! ### Builtin functions -/

theorem forall_mem_of_take_drop {α : Type} {p : α → Prop} {l : List α} (n : Nat)
    (htake : ∀ a ∈ l.take n, p a) (hdrop : ∀ a ∈ l.drop n, p a) : ∀ a ∈ l, p a := by
  intro a ha
  rw [← List.take_append_drop n l, List.mem_append] at ha
  exact ha.elim (htake a) (hdrop a)

/-- Over the table of builtins, the list of byte-returning functions is wrong for the
mismatched ones and for no other. -/
theorem byteReturning_of_mem_builtinFunctions :
    ∀ entry ∈ builtinFunctions, entry.1 ∉ mismatchedBuiltins ↔
      (byteReturningFunctions.contains entry.1 ↔ isByteFamily entry.2.returnType) := by
  -- in parts, each a small computation
  refine forall_mem_of_take_drop 25 (by decide) ?_
  refine forall_mem_of_take_drop 25 (by decide) ?_
  refine forall_mem_of_take_drop 25 (by decide) ?_
  decide

theorem mem_builtinFunctions_of_byteReturning :
    ∀ name ∈ byteReturningFunctions, (builtinSig name).isSome := by
  decide

theorem mem_of_lookup {α β : Type} [DecidableEq α] {a : α} {b : β} {l : List (α × β)}
    (h : l.lookup a = some b) : (a, b) ∈ l := by
  induction l with
  | nil => cases h
  | cons p rest ih =>
    rw [List.lookup_cons] at h
    split at h
    · rename_i heq
      obtain rfl := eq_of_beq heq
      cases h
      exact List.mem_cons_self
    · exact List.mem_cons_of_mem _ (ih h)

/-- The type of a call of a builtin function is the one of its signature. -/
theorem inferredType_builtin {name : String} {sig : FuncSig} (h : builtinSig name = some sig)
    (tc : TypeChecker) (env : TypeEnv) (s : CheckState) (args : List Expression)
    (asmType : Option PrimitiveType) :
    inferredType tc env s (.callExpr (.identifier name) args asmType) = sig.returnType := by
  have hreserved : ∀ reserved ∈ ["super", "asm"], builtinSig reserved = none := by
    decide
  have hsuper : name ≠ "super" := by
    rintro rfl
    rw [hreserved "super" (by simp)] at h
    cases h
  have hasm : name ≠ "asm" := by
    rintro rfl
    rw [hreserved "asm" (by simp)] at h
    cases h
  simp only [inferredType, inferExprType, if_neg hsuper, if_neg hasm, h, Option.orElse]
  cases consumes name <;> rfl

theorem inferredType_bytestringLiteral (tc : TypeChecker) (env : TypeEnv) (s : CheckState)
    (value : Script.Bytes) :
    inferredType tc env s (.bytestringLiteral value) = .byteString := by
  simp only [inferredType, inferExprType]
  rfl

/-- The type of a property is the one in the checker's table. -/
theorem isByteFamily_propertyAccess (tc : TypeChecker) (env : TypeEnv) (s : CheckState)
    (property : String) :
    isByteFamily (inferredType tc env s (.propertyAccess property)) =
      (tc.propType property).any isByteFamily := by
  simp only [inferredType, inferExprType, inferPropertyAccess]
  cases tc.propType property <;> rfl

theorem isByteFamily_thisMember (tc : TypeChecker) (env : TypeEnv) (s : CheckState)
    (property : String) :
    isByteFamily (inferredType tc env s (.memberExpr (.identifier "this") property)) =
      (tc.propType property).any isByteFamily := by
  simp only [inferredType, inferExprType, inferMemberExpr, inferIdentifier]
  cases tc.propType property with
  | some t => rfl
  | none =>
    cases tc.methodSig property with
    | some sig => rfl
    | none =>
      by_cases hscript : property = "getStateScript"
      · simp [hscript]; rfl
      · simp [hscript]; rfl

theorem recordedBytes_iff (ctx : LoweringContext) (name : String) :
    isByteTypedExpr (.identifier name) ctx ↔ RecordedBytes ctx name := by
  simp [isByteTypedExpr, RecordedBytes, LoweringContext.isLocalByteVar, or_assoc]

/-- What the forms say is what they are for. -/
theorem faithful_iff (tc : TypeChecker) (env : TypeEnv) (s : CheckState) (ctx : LoweringContext)
    (e : Expression) :
    Faithful tc env s ctx e ↔ (isByteTypedExpr e ctx ↔ isByteFamily (inferredType tc env s e)) := by
  unfold Faithful
  split
  · simp only [inferredType, inferExprType, true_iff]
    exact Iff.rfl
  · simp only [inferredType, inferExprType, true_iff]
    exact Iff.rfl
  · rw [inferredType_bytestringLiteral]
    simp only [true_iff]
    exact Iff.rfl
  · rw [recordedBytes_iff]
  · rw [isByteFamily_propertyAccess, isByteTypedExpr]
  · rw [isByteFamily_thisMember, isByteTypedExpr]
  · rename_i name args asmType
    rw [isByteTypedExpr]
    split
    · rename_i hsome
      obtain ⟨sig, hsig⟩ := Option.isSome_iff_exists.mp hsome
      rw [inferredType_builtin hsig]
      exact byteReturning_of_mem_builtinFunctions (name, sig) (mem_of_lookup hsig)
    · rename_i hnone
      have hunlisted : name ∉ byteReturningFunctions := fun hmem =>
        hnone (mem_builtinFunctions_of_byteReturning name hmem)
      simp [hunlisted]
  · rename_i hbig hbool hbytes hident hprop hthis hcall
    have hform : isByteTypedExpr e ctx = false := by
      unfold isByteTypedExpr
      split
      · exact absurd rfl (hbytes _)
      · exact absurd rfl (hident _)
      · exact absurd rfl (hprop _)
      · exact absurd rfl (hthis _)
      · exact absurd rfl (hcall _ _ _)
      · rfl
    simp [hform]

/-! ## The operators -/

/-- Both operands have byte types. -/
def BothBytes (tc : TypeChecker) (env : TypeEnv) (s : CheckState) (left right : Expression) : Prop :=
  isByteFamily (inferredType tc env s left) ∧ isByteFamily (inferredType tc env s right)

/-- When the mark of a binary operation is right.  Between bytes, one of the operands has
to be seen as what it is; between others, both. -/
def BinaryFaithful (tc : TypeChecker) (env : TypeEnv) (s : CheckState) (ctx : LoweringContext)
    (left right : Expression) : Prop :=
  let l := Faithful tc env s ctx left
  let r := Faithful tc env s ctx right
  match isByteFamily (inferredType tc env s left), isByteFamily (inferredType tc env s right) with
  | true, true => l ∨ r
  | false, false => l ∧ r
  -- only `===` and `!==` are accepted between bytes and an unknown type
  | true, false => ¬ l ∧ r
  | false, true => l ∧ ¬ r

theorem binaryMark_iff (tc : TypeChecker) (env : TypeEnv) (s : CheckState)
    (ctx : LoweringContext) {op : BinaryOp} (hop : takesBytes op) (left right : Expression) :
    (binaryMark op left right ctx ↔ BothBytes tc env s left right) ↔
      BinaryFaithful tc env s ctx left right := by
  unfold BinaryFaithful
  simp only [faithful_iff, binaryMark, BothBytes, hop, Bool.true_and]
  cases isByteFamily (inferredType tc env s left) <;>
    cases isByteFamily (inferredType tc env s right) <;>
    cases isByteTypedExpr left ctx <;> cases isByteTypedExpr right ctx <;> simp

theorem unaryMark_iff (tc : TypeChecker) (env : TypeEnv) (s : CheckState)
    (ctx : LoweringContext) (operand : Expression) :
    (unaryMark .bitNot operand ctx ↔ isByteFamily (inferredType tc env s operand)) ↔
      Faithful tc env s ctx operand := by
  rw [faithful_iff]
  exact Iff.rfl

/-- The parameters of the method below. -/
def pickParams : List ParamNode :=
  [⟨"flag", .primitive .boolean⟩, ⟨"a", .primitive .ByteString⟩, ⟨"b", .primitive .ByteString⟩]

/-- `(flag ? a : b) + (flag ? b : a)` -/
def pickConcat : Expression :=
  .binaryExpr .add (.ternaryExpr (.identifier "flag") (.identifier "a") (.identifier "b"))
    (.ternaryExpr (.identifier "flag") (.identifier "b") (.identifier "a"))

/-- `assert((flag ? a : b) + (flag ? b : a) === a)` -/
def pickMethod : MethodNode where
  name := "check"
  params := pickParams
  body := [.expressionStatement (.callExpr (.identifier "assert")
    [.binaryExpr .eq pickConcat (.identifier "a")] none)]
  visibility := .isPublic
  sighashType := none

def pickContract : ContractNode where
  parentClass := .smartContract
  properties := []
  constructor := ⟨"constructor", [], [], .isPublic, none⟩
  methods := [pickMethod]

def emptyCheckState : CheckState := ⟨[], [], []⟩

def pickEnv : TypeEnv := paramEnv pickParams

end Runar.AnfLower
