/-
  Validate/CallPaths.lean --- the calls an execution of a method makes.

  WHAT THIS FILE IS FOR.  Some checks of the compiler count calls by walking over a
  method's text.  An execution takes one arm of a branch, runs a loop as often as its
  bounds say and makes the calls of the helpers it calls.  This file has the calls of
  every execution path, the greatest number of calls of a kind on a path, and the walk
  over the text, and relates the three.

  ONE RECURSION.  Everything is defined over the syntax with what a call of a helper
  contributes as a parameter, and closed over the contract's private methods by depth.
-/
import Runar.AnfLower.Statements
import Runar.Logic.Peak

set_option autoImplicit false

namespace Runar.Validate

open Ast AnfLower Logic

/-- The name a call is made by. -/
def calleeName : Expression → Option String
  | .identifier name => some name
  | .propertyAccess property => some property
  | .memberExpr _ property => some property
  | _ => none

/-- How often the body of a loop runs.  Lowering reads the header when it unrolls the
loop, and refuses a loop whose bounds are not literals. -/
def loopCount (init condition : Expression) (update : Statement) : Nat :=
  match extractLoopShape init condition update with
  | .ok shape => shape.count
  | .error _ => 0

/-! ## The walk over the text -/

section Walk

/- What a call of a helper adds. -/
variable (helper : String → List String)

mutual

/-- The names of the calls in an expression.  The operand of `++` and `--` is not
walked. -/
def walkExpr : Expression → List String
  | .callExpr callee args _ =>
      ((calleeName callee).toList.flatMap fun name => name :: helper name) ++ walkExprs args ++
        walkExpr callee
  | .binaryExpr _ left right => walkExpr left ++ walkExpr right
  | .unaryExpr _ operand => walkExpr operand
  | .ternaryExpr condition consequent alternate =>
      walkExpr condition ++ walkExpr consequent ++ walkExpr alternate
  | .indexAccess object index => walkExpr object ++ walkExpr index
  | .memberExpr object _ => walkExpr object
  | .arrayLiteral elements => walkExprs elements
  | .incrementExpr _ _ | .decrementExpr _ _ | .bigintLiteral _ | .boolLiteral _
  | .bytestringLiteral _ | .identifier _ | .propertyAccess _ => []

def walkExprs : List Expression → List String
  | [] => []
  | e :: rest => walkExpr e ++ walkExprs rest

end

mutual

/-- The names of the calls in a statement, the header of a loop and both arms of a
branch included. -/
def walkStmt : Statement → List String
  | .assignment target value => walkExpr helper target ++ walkExpr helper value
  | .expressionStatement expression => walkExpr helper expression
  | .ifStatement condition thenBody elseBody =>
      walkExpr helper condition ++ walkBody thenBody ++
        (match elseBody with
          | some elseBody => walkBody elseBody
          | none => [])
  | .forStatement _ _ init condition update body =>
      walkExpr helper init ++ walkExpr helper condition ++ walkStmt update ++ walkBody body
  | .returnStatement value =>
      match value with
      | some value => walkExpr helper value
      | none => []
  | .variableDecl _ _ init => walkExpr helper init

def walkBody : List Statement → List String
  | [] => []
  | stmt :: rest => walkStmt stmt ++ walkBody rest

end

end Walk

/-! ## Execution paths -/

section Paths

/- The calls a call of a helper makes. -/
variable (helper : String → Language String)

/-- The calls a call makes, its arguments apart. -/
def callPaths (callee : Expression) : Language String :=
  match calleeName callee with
  | some name => {[name]} * helper name
  | none => 1

mutual

/-- The calls an evaluation of an expression makes. -/
def exprPaths : Expression → Language String
  | .callExpr callee args _ => exprsPaths args * exprPaths callee * callPaths helper callee
  | .binaryExpr _ left right => exprPaths left * exprPaths right
  | .unaryExpr _ operand => exprPaths operand
  | .ternaryExpr condition consequent alternate =>
      exprPaths condition * (exprPaths consequent + exprPaths alternate)
  | .indexAccess object index => exprPaths object * exprPaths index
  | .memberExpr object _ => exprPaths object
  | .incrementExpr operand _ | .decrementExpr operand _ => exprPaths operand
  | .arrayLiteral elements => exprsPaths elements
  | .bigintLiteral _ | .boolLiteral _ | .bytestringLiteral _ | .identifier _
  | .propertyAccess _ => 1

def exprsPaths : List Expression → Language String
  | [] => 1
  | e :: rest => exprPaths e * exprsPaths rest

end

mutual

/-- The calls an execution of a statement makes. -/
def stmtPaths : Statement → Language String
  | .assignment target value => exprPaths helper value * exprPaths helper target
  | .expressionStatement expression => exprPaths helper expression
  | .ifStatement condition thenBody elseBody =>
      exprPaths helper condition * (bodyPaths thenBody +
        match elseBody with
        | some elseBody => bodyPaths elseBody
        | none => 1)
  | .forStatement _ _ init condition update body =>
      bodyPaths body ^ loopCount init condition update
  | .returnStatement value =>
      match value with
      | some value => exprPaths helper value
      | none => 1
  | .variableDecl _ _ init => exprPaths helper init

/-- The calls an execution of a block makes.  After an `if` whose block always returns,
the rest is its else-block. -/
def bodyPaths : List Statement → Language String
  | [] => 1
  | stmt :: rest =>
      match stmt, rest with
      | .ifStatement condition thenBody none, next :: more =>
          if branchEndsWithReturn thenBody then
            exprPaths helper condition * (bodyPaths thenBody + bodyPaths (next :: more))
          else
            stmtPaths (.ifStatement condition thenBody none) * bodyPaths (next :: more)
      | stmt, rest => stmtPaths stmt * bodyPaths rest

end

end Paths

/-! ## The most calls on a path -/

section Most

/- The calls that are counted, and how many of them a call of a helper makes. -/
variable (P : String → Bool) (helper : String → Nat)

def callMost (callee : Expression) : Nat :=
  match calleeName callee with
  | some name => (if P name then 1 else 0) + helper name
  | none => 0

mutual

/-- The most counted calls on a path of an expression. -/
def exprMost : Expression → Nat
  | .callExpr callee args _ => exprsMost args + exprMost callee + callMost P helper callee
  | .binaryExpr _ left right => exprMost left + exprMost right
  | .unaryExpr _ operand => exprMost operand
  | .ternaryExpr condition consequent alternate =>
      exprMost condition + max (exprMost consequent) (exprMost alternate)
  | .indexAccess object index => exprMost object + exprMost index
  | .memberExpr object _ => exprMost object
  | .incrementExpr operand _ | .decrementExpr operand _ => exprMost operand
  | .arrayLiteral elements => exprsMost elements
  | .bigintLiteral _ | .boolLiteral _ | .bytestringLiteral _ | .identifier _
  | .propertyAccess _ => 0

def exprsMost : List Expression → Nat
  | [] => 0
  | e :: rest => exprMost e + exprsMost rest

end

mutual

/-- The most counted calls on a path of a statement. -/
def stmtMost : Statement → Nat
  | .assignment target value => exprMost P helper value + exprMost P helper target
  | .expressionStatement expression => exprMost P helper expression
  | .ifStatement condition thenBody elseBody =>
      exprMost P helper condition + max (bodyMost thenBody)
        (match elseBody with
          | some elseBody => bodyMost elseBody
          | none => 0)
  | .forStatement _ _ init condition update body =>
      loopCount init condition update * bodyMost body
  | .returnStatement value =>
      match value with
      | some value => exprMost P helper value
      | none => 0
  | .variableDecl _ _ init => exprMost P helper init

def bodyMost : List Statement → Nat
  | [] => 0
  | stmt :: rest =>
      match stmt, rest with
      | .ifStatement condition thenBody none, next :: more =>
          if branchEndsWithReturn thenBody then
            exprMost P helper condition + max (bodyMost thenBody) (bodyMost (next :: more))
          else
            stmtMost (.ifStatement condition thenBody none) + bodyMost (next :: more)
      | stmt, rest => stmtMost stmt + bodyMost rest

end

end Most

/-! ## Calls the walk does not see -/

section Hidden

/- The calls that are counted, how many of them a call of a helper makes, and whether it
hides one. -/
variable (P : String → Bool) (helper : String → Nat) (hides : String → Bool)

def callHides (callee : Expression) : Bool :=
  match calleeName callee with
  | some name => hides name
  | none => false

mutual

/-- The operand of a `++` or `--` that runs makes a counted call. -/
def exprHides : Expression → Bool
  | .callExpr callee args _ => exprsHide args || exprHides callee || callHides hides callee
  | .binaryExpr _ left right => exprHides left || exprHides right
  | .unaryExpr _ operand => exprHides operand
  | .ternaryExpr condition consequent alternate =>
      exprHides condition || exprHides consequent || exprHides alternate
  | .indexAccess object index => exprHides object || exprHides index
  | .memberExpr object _ => exprHides object
  | .incrementExpr operand _ | .decrementExpr operand _ => exprMost P helper operand != 0
  | .arrayLiteral elements => exprsHide elements
  | .bigintLiteral _ | .boolLiteral _ | .bytestringLiteral _ | .identifier _
  | .propertyAccess _ => false

def exprsHide : List Expression → Bool
  | [] => false
  | e :: rest => exprHides e || exprsHide rest

end

mutual

def stmtHides : Statement → Bool
  | .assignment target value => exprHides P helper hides value || exprHides P helper hides target
  | .expressionStatement expression => exprHides P helper hides expression
  | .ifStatement condition thenBody elseBody =>
      exprHides P helper hides condition || bodyHides thenBody ||
        (match elseBody with
          | some elseBody => bodyHides elseBody
          | none => false)
  | .forStatement _ _ init condition update body =>
      loopCount init condition update != 0 && bodyHides body
  | .returnStatement value =>
      match value with
      | some value => exprHides P helper hides value
      | none => false
  | .variableDecl _ _ init => exprHides P helper hides init

def bodyHides : List Statement → Bool
  | [] => false
  | stmt :: rest => stmtHides stmt || bodyHides rest

end

end Hidden

/-! ## The peak of the paths -/

section Peaks

variable {P : String → Bool} {paths : String → Language String} {most : String → Nat}

theorem peak_call (hhelper : ∀ name, Peak P (paths name) (most name)) (callee : Expression) :
    Peak P (callPaths paths callee) (callMost P most callee) := by
  unfold callPaths callMost
  cases calleeName callee with
  | none => exact .one
  | some name =>
    have hname := Peak.singleton (P := P) [name]
    rw [List.countP_singleton] at hname
    exact hname.mul (hhelper name)

mutual

theorem peak_expr (hhelper : ∀ name, Peak P (paths name) (most name)) :
    ∀ e : Expression, Peak P (exprPaths paths e) (exprMost P most e)
  | .callExpr callee args _ => by
    rw [exprPaths, exprMost]
    exact ((peak_exprs hhelper args).mul (peak_expr hhelper callee)).mul (peak_call hhelper callee)
  | .binaryExpr _ left right => by
    rw [exprPaths, exprMost]
    exact (peak_expr hhelper left).mul (peak_expr hhelper right)
  | .unaryExpr _ operand => by
    rw [exprPaths, exprMost]
    exact peak_expr hhelper operand
  | .ternaryExpr condition consequent alternate => by
    rw [exprPaths, exprMost]
    exact (peak_expr hhelper condition).mul
      ((peak_expr hhelper consequent).add (peak_expr hhelper alternate))
  | .indexAccess object index => by
    rw [exprPaths, exprMost]
    exact (peak_expr hhelper object).mul (peak_expr hhelper index)
  | .memberExpr object _ => by
    rw [exprPaths, exprMost]
    exact peak_expr hhelper object
  | .incrementExpr operand _ | .decrementExpr operand _ => by
    rw [exprPaths, exprMost]
    exact peak_expr hhelper operand
  | .arrayLiteral elements => by
    rw [exprPaths, exprMost]
    exact peak_exprs hhelper elements
  | .bigintLiteral _ | .boolLiteral _ | .bytestringLiteral _ | .identifier _
  | .propertyAccess _ => by
    rw [exprPaths, exprMost]
    exact .one

theorem peak_exprs (hhelper : ∀ name, Peak P (paths name) (most name)) :
    ∀ es : List Expression, Peak P (exprsPaths paths es) (exprsMost P most es)
  | [] => by
    rw [exprsPaths, exprsMost]
    exact .one
  | e :: rest => by
    rw [exprsPaths, exprsMost]
    exact (peak_expr hhelper e).mul (peak_exprs hhelper rest)

end

mutual

theorem peak_stmt (hhelper : ∀ name, Peak P (paths name) (most name)) :
    ∀ stmt : Statement, Peak P (stmtPaths paths stmt) (stmtMost P most stmt)
  | .assignment target value => by
    rw [stmtPaths, stmtMost]
    exact (peak_expr hhelper value).mul (peak_expr hhelper target)
  | .expressionStatement expression => by
    rw [stmtPaths, stmtMost]
    exact peak_expr hhelper expression
  | .ifStatement condition thenBody (some elseBody) => by
    rw [stmtPaths, stmtMost]
    exact (peak_expr hhelper condition).mul
      ((peak_body hhelper thenBody).add (peak_body hhelper elseBody))
  | .ifStatement condition thenBody none => by
    rw [stmtPaths, stmtMost]
    exact (peak_expr hhelper condition).mul ((peak_body hhelper thenBody).add .one)
  | .forStatement _ _ init condition update body => by
    rw [stmtPaths, stmtMost]
    exact (peak_body hhelper body).pow _
  | .returnStatement (some value) => by
    rw [stmtPaths, stmtMost]
    exact peak_expr hhelper value
  | .returnStatement none => by
    rw [stmtPaths, stmtMost]
    exact .one
  | .variableDecl _ _ init => by
    rw [stmtPaths, stmtMost]
    exact peak_expr hhelper init

theorem peak_body (hhelper : ∀ name, Peak P (paths name) (most name)) :
    ∀ body : List Statement, Peak P (bodyPaths paths body) (bodyMost P most body)
  | [] => by
    rw [bodyPaths, bodyMost]
    exact .one
  | .ifStatement condition thenBody none :: next :: more => by
    rw [bodyPaths, bodyMost]
    have hrest := peak_body hhelper (next :: more)
    by_cases hreturn : branchEndsWithReturn thenBody = true
    · rw [if_pos hreturn, if_pos hreturn]
      exact (peak_expr hhelper condition).mul ((peak_body hhelper thenBody).add hrest)
    · rw [if_neg hreturn, if_neg hreturn]
      exact (peak_stmt hhelper (.ifStatement condition thenBody none)).mul hrest
  | [.ifStatement condition thenBody none] => by
    rw [bodyPaths, bodyMost]
    · exact (peak_stmt hhelper (.ifStatement condition thenBody none)).mul (peak_body hhelper [])
    all_goals rintro _ _ _ _ _ ⟨⟩
  | .assignment target value :: rest => by
    rw [bodyPaths, bodyMost]
    · exact (peak_stmt hhelper (.assignment target value)).mul (peak_body hhelper rest)
    all_goals rintro _ _ _ _ ⟨⟩
  | .expressionStatement expression :: rest => by
    rw [bodyPaths, bodyMost]
    · exact (peak_stmt hhelper (.expressionStatement expression)).mul (peak_body hhelper rest)
    all_goals rintro _ _ _ _ ⟨⟩
  | .ifStatement condition thenBody (some elseBody) :: rest => by
    rw [bodyPaths, bodyMost]
    · exact (peak_stmt hhelper (.ifStatement condition thenBody (some elseBody))).mul
        (peak_body hhelper rest)
    all_goals rintro _ _ _ _ ⟨⟩
  | .forStatement name type init condition update body :: rest => by
    rw [bodyPaths, bodyMost]
    · exact (peak_stmt hhelper (.forStatement name type init condition update body)).mul
        (peak_body hhelper rest)
    all_goals rintro _ _ _ _ ⟨⟩
  | .returnStatement value :: rest => by
    rw [bodyPaths, bodyMost]
    · exact (peak_stmt hhelper (.returnStatement value)).mul (peak_body hhelper rest)
    all_goals rintro _ _ _ _ ⟨⟩
  | .variableDecl name type init :: rest => by
    rw [bodyPaths, bodyMost]
    · exact (peak_stmt hhelper (.variableDecl name type init)).mul (peak_body hhelper rest)
    all_goals rintro _ _ _ _ ⟨⟩

end

end Peaks

/-! ## What the walk sees -/

/-- The walk over the text saw `names`, the greatest number of counted calls is `most`, and
`hides` tells of a counted call the walk did not see. -/
structure Seen (P : String → Bool) (names : List String) (most : Nat) (hides : Bool) : Prop where
  hidden : hides = true → most ≠ 0
  clear : hides = false → (∀ name ∈ names, P name = false) → most = 0

namespace Seen

variable {P : String → Bool} {names names' : List String} {most most' : Nat} {hides hides' : Bool}

theorem nil : Seen P [] 0 false := ⟨nofun, fun _ _ => rfl⟩

theorem singleton (name : String) : Seen P [name] (if P name then 1 else 0) false where
  hidden := nofun
  clear _ hnames := by rw [hnames name (List.mem_singleton_self name)]; rfl

/-- The operand of `++` and `--`. -/
theorem unseen (most : Nat) : Seen P [] most (most != 0) where
  hidden h := by simpa using h
  clear h _ := by simpa using h

theorem of_subset (h : Seen P names most hides) (hsub : names ⊆ names') :
    Seen P names' most hides :=
  ⟨h.hidden, fun hhides hnames => h.clear hhides fun name hname => hnames name (hsub hname)⟩

theorem append (h : Seen P names most hides) (h' : Seen P names' most' hides') :
    Seen P (names ++ names') (most + most') (hides || hides') where
  hidden hor := by
    rcases (Bool.or_eq_true _ _).mp hor with hl | hr
    · have := h.hidden hl
      omega
    · have := h'.hidden hr
      omega
  clear hor hnames := by
    obtain ⟨hl, hr⟩ := Bool.or_eq_false_iff.mp hor
    rw [h.clear hl fun name hname => hnames name (List.mem_append_left _ hname),
      h'.clear hr fun name hname => hnames name (List.mem_append_right _ hname)]

theorem choice (h : Seen P names most hides) (h' : Seen P names' most' hides') :
    Seen P (names ++ names') (max most most') (hides || hides') where
  hidden hor := by
    have hsum := (h.append h').hidden hor
    omega
  clear hor hnames := by
    have hsum := (h.append h').clear hor hnames
    omega

theorem mul (h : Seen P names most hides) (count : Nat) :
    Seen P names (count * most) (count != 0 && hides) where
  hidden hand := by
    obtain ⟨hcount, hhides⟩ := (Bool.and_eq_true _ _).mp hand
    exact Nat.mul_ne_zero (by simpa using hcount) (h.hidden hhides)
  clear hand hnames := by
    rcases Bool.and_eq_false_iff.mp hand with hcount | hhides
    · have hzero : count = 0 := by simpa using hcount
      rw [hzero, Nat.zero_mul]
    · rw [h.clear hhides hnames, Nat.mul_zero]

end Seen

section Sees

variable {P : String → Bool} {walk : String → List String} {most : String → Nat}
  {hides : String → Bool}

theorem seen_call (hhelper : ∀ name, Seen P (walk name) (most name) (hides name))
    (callee : Expression) :
    Seen P ((calleeName callee).toList.flatMap fun name => name :: walk name)
      (callMost P most callee) (callHides hides callee) := by
  unfold callMost callHides
  cases calleeName callee with
  | none => exact .nil
  | some name => exact ((Seen.singleton name).append (hhelper name)).of_subset (by simp)

mutual

theorem seen_expr (hhelper : ∀ name, Seen P (walk name) (most name) (hides name)) :
    ∀ e : Expression, Seen P (walkExpr walk e) (exprMost P most e) (exprHides P most hides e)
  | .callExpr callee args _ => by
    rw [walkExpr, exprMost, exprHides]
    have hargs := (seen_exprs hhelper args).append (seen_expr hhelper callee)
    refine (hargs.append (seen_call hhelper callee)).of_subset ?_
    intro name
    simp only [List.mem_append]
    tauto
  | .binaryExpr _ left right => by
    rw [walkExpr, exprMost, exprHides]
    exact (seen_expr hhelper left).append (seen_expr hhelper right)
  | .unaryExpr _ operand => by
    rw [walkExpr, exprMost, exprHides]
    exact seen_expr hhelper operand
  | .ternaryExpr condition consequent alternate => by
    rw [walkExpr, exprMost, exprHides, List.append_assoc, Bool.or_assoc]
    exact (seen_expr hhelper condition).append
      ((seen_expr hhelper consequent).choice (seen_expr hhelper alternate))
  | .indexAccess object index => by
    rw [walkExpr, exprMost, exprHides]
    exact (seen_expr hhelper object).append (seen_expr hhelper index)
  | .memberExpr object _ => by
    rw [walkExpr, exprMost, exprHides]
    exact seen_expr hhelper object
  | .incrementExpr operand _ | .decrementExpr operand _ => by
    rw [walkExpr, exprMost, exprHides]
    exact .unseen _
  | .arrayLiteral elements => by
    rw [walkExpr, exprMost, exprHides]
    exact seen_exprs hhelper elements
  | .bigintLiteral _ | .boolLiteral _ | .bytestringLiteral _ | .identifier _
  | .propertyAccess _ => by
    rw [walkExpr, exprMost, exprHides]
    exact .nil

theorem seen_exprs (hhelper : ∀ name, Seen P (walk name) (most name) (hides name)) :
    ∀ es : List Expression,
      Seen P (walkExprs walk es) (exprsMost P most es) (exprsHide P most hides es)
  | [] => by
    rw [walkExprs, exprsMost, exprsHide]
    exact .nil
  | e :: rest => by
    rw [walkExprs, exprsMost, exprsHide]
    exact (seen_expr hhelper e).append (seen_exprs hhelper rest)

end

mutual

theorem seen_stmt (hhelper : ∀ name, Seen P (walk name) (most name) (hides name)) :
    ∀ stmt : Statement,
      Seen P (walkStmt walk stmt) (stmtMost P most stmt) (stmtHides P most hides stmt)
  | .assignment target value => by
    rw [walkStmt, stmtMost, stmtHides]
    refine ((seen_expr hhelper value).append (seen_expr hhelper target)).of_subset ?_
    exact (List.perm_append_comm).subset
  | .expressionStatement expression => by
    rw [walkStmt, stmtMost, stmtHides]
    exact seen_expr hhelper expression
  | .ifStatement condition thenBody (some elseBody) => by
    rw [walkStmt, stmtMost, stmtHides, List.append_assoc, Bool.or_assoc]
    exact (seen_expr hhelper condition).append
      ((seen_body hhelper thenBody).choice (seen_body hhelper elseBody))
  | .ifStatement condition thenBody none => by
    rw [walkStmt, stmtMost, stmtHides, List.append_assoc, Bool.or_assoc]
    exact (seen_expr hhelper condition).append ((seen_body hhelper thenBody).choice .nil)
  | .forStatement _ _ init condition update body => by
    rw [walkStmt, stmtMost, stmtHides]
    refine ((seen_body hhelper body).mul _).of_subset ?_
    exact List.subset_append_right _ _
  | .returnStatement (some value) => by
    rw [walkStmt, stmtMost, stmtHides]
    exact seen_expr hhelper value
  | .returnStatement none => by
    rw [walkStmt, stmtMost, stmtHides]
    exact .nil
  | .variableDecl _ _ init => by
    rw [walkStmt, stmtMost, stmtHides]
    exact seen_expr hhelper init

theorem seen_body (hhelper : ∀ name, Seen P (walk name) (most name) (hides name)) :
    ∀ body : List Statement,
      Seen P (walkBody walk body) (bodyMost P most body) (bodyHides P most hides body)
  | [] => by
    rw [walkBody, bodyMost, bodyHides]
    exact .nil
  | .ifStatement condition thenBody none :: next :: more => by
    have hrest := seen_body hhelper (next :: more)
    rw [walkBody, bodyMost, bodyHides]
    by_cases hreturn : branchEndsWithReturn thenBody = true
    · rw [if_pos hreturn, walkStmt, stmtHides, List.append_nil, Bool.or_false, List.append_assoc,
        Bool.or_assoc]
      exact (seen_expr hhelper condition).append ((seen_body hhelper thenBody).choice hrest)
    · rw [if_neg hreturn]
      exact (seen_stmt hhelper (.ifStatement condition thenBody none)).append hrest
  | [.ifStatement condition thenBody none] => by
    rw [walkBody, bodyMost, bodyHides]
    · exact (seen_stmt hhelper (.ifStatement condition thenBody none)).append (seen_body hhelper [])
    all_goals rintro _ _ _ _ _ ⟨⟩
  | .assignment target value :: rest => by
    rw [walkBody, bodyMost, bodyHides]
    · exact (seen_stmt hhelper (.assignment target value)).append (seen_body hhelper rest)
    all_goals rintro _ _ _ _ ⟨⟩
  | .expressionStatement expression :: rest => by
    rw [walkBody, bodyMost, bodyHides]
    · exact (seen_stmt hhelper (.expressionStatement expression)).append (seen_body hhelper rest)
    all_goals rintro _ _ _ _ ⟨⟩
  | .ifStatement condition thenBody (some elseBody) :: rest => by
    rw [walkBody, bodyMost, bodyHides]
    · exact (seen_stmt hhelper (.ifStatement condition thenBody (some elseBody))).append
        (seen_body hhelper rest)
    all_goals rintro _ _ _ _ ⟨⟩
  | .forStatement name type init condition update body :: rest => by
    rw [walkBody, bodyMost, bodyHides]
    · exact (seen_stmt hhelper (.forStatement name type init condition update body)).append
        (seen_body hhelper rest)
    all_goals rintro _ _ _ _ ⟨⟩
  | .returnStatement value :: rest => by
    rw [walkBody, bodyMost, bodyHides]
    · exact (seen_stmt hhelper (.returnStatement value)).append (seen_body hhelper rest)
    all_goals rintro _ _ _ _ ⟨⟩
  | .variableDecl name type init :: rest => by
    rw [walkBody, bodyMost, bodyHides]
    · exact (seen_stmt hhelper (.variableDecl name type init)).append (seen_body hhelper rest)
    all_goals rintro _ _ _ _ ⟨⟩

end

end Sees

/-! ## Calls of private methods -/

section Helpers

variable {α β : Type} (contract : ContractNode)

/-- What a call of a private method contributes, from what a body contributes, down to a
depth of calls.  A call of a method that is under way contributes nothing: its body cannot
be put in its place. -/
def closeHelpers (nothing : α) (ofBody : (String → α) → List Statement → α) :
    Nat → List String → String → α
  | 0, _, _ => nothing
  | depth + 1, visiting, name =>
      if name ∈ visiting then nothing
      else
        match privateMethodsByName contract name with
        | none => nothing
        | some m => ofBody (closeHelpers nothing ofBody depth (name :: visiting)) m.body

/-- What holds between the contributions of nothing and is kept by bodies holds between the
contributions of calls. -/
theorem closeHelpers_rel {R : α → β → Prop} {nothing : α} {nothing' : β}
    {ofBody : (String → α) → List Statement → α} {ofBody' : (String → β) → List Statement → β}
    (hnothing : R nothing nothing')
    (hbody : ∀ f g, (∀ name, R (f name) (g name)) → ∀ body, R (ofBody f body) (ofBody' g body))
    (depth : Nat) (visiting : List String) (name : String) :
    R (closeHelpers contract nothing ofBody depth visiting name)
      (closeHelpers contract nothing' ofBody' depth visiting name) := by
  induction depth generalizing visiting name with
  | zero => exact hnothing
  | succ depth ih =>
    rw [closeHelpers, closeHelpers]
    by_cases hvisiting : name ∈ visiting
    · rw [if_pos hvisiting, if_pos hvisiting]
      exact hnothing
    · rw [if_neg hvisiting, if_neg hvisiting]
      cases privateMethodsByName contract name with
      | none => exact hnothing
      | some m => exact hbody _ _ (ih (name :: visiting)) m.body

end Helpers

section Methods

variable (contract : ContractNode) (P : String → Bool)

/-- The greatest number of counted calls, and whether the walk misses one. -/
structure CallCount where
  most : Nat
  hides : Bool
  deriving DecidableEq, Repr

def countBody (helper : String → CallCount) (body : List Statement) : CallCount where
  most := bodyMost P (fun name => (helper name).most) body
  hides := bodyHides P (fun name => (helper name).most) (fun name => (helper name).hides) body

/-- The calls seen in the method and in those it calls.  The methods under way are
different, so no chain of calls is longer than the list of methods. -/
def walkMethod (m : MethodNode) : List String :=
  walkBody (closeHelpers contract [] walkBody contract.methods.length []) m.body

/-- The calls of the executions of a method, those of the methods it calls included. -/
def methodPaths (m : MethodNode) : Language String :=
  bodyPaths (closeHelpers contract 1 bodyPaths contract.methods.length []) m.body

def countMethod (m : MethodNode) : CallCount :=
  countBody P (closeHelpers contract ⟨0, false⟩ (countBody P) contract.methods.length []) m.body

theorem peak_method (m : MethodNode) :
    Peak P (methodPaths contract m) (countMethod contract P m).most :=
  peak_body (closeHelpers_rel contract (R := fun l (c : CallCount) => Peak P l c.most) .one
    (fun _ _ hhelper body => peak_body hhelper body) contract.methods.length []) m.body

theorem seen_method (m : MethodNode) :
    Seen P (walkMethod contract m) (countMethod contract P m).most
      (countMethod contract P m).hides :=
  seen_body (closeHelpers_rel contract (R := fun l (c : CallCount) => Seen P l c.most c.hides) .nil
    (fun _ _ hhelper body => seen_body hhelper body) contract.methods.length []) m.body

/-- Where the walk sees no counted call, a path makes one exactly if the walk misses one. -/
theorem countMethod_most_eq_zero_iff {m : MethodNode}
    (hwalk : ∀ name ∈ walkMethod contract m, P name = false) :
    (countMethod contract P m).most = 0 ↔ (countMethod contract P m).hides = false := by
  have hseen := seen_method contract P m
  constructor
  · intro hmost
    by_contra hhides
    exact hseen.hidden (by simpa using hhides) hmost
  · exact fun hhides => hseen.clear hhides hwalk

/-- No path makes a counted call. -/
theorem forall_paths_iff {m : MethodNode} :
    (∀ path ∈ methodPaths contract m, ∀ name ∈ path, P name = false) ↔
      (countMethod contract P m).most = 0 := by
  rw [← Nat.le_zero, ← (peak_method contract P m).forall_le_iff]
  simp only [Nat.le_zero, List.countP_eq_zero, Bool.not_eq_true]

end Methods

end Runar.Validate
