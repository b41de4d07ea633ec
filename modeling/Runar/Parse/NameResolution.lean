/-
  Parse/NameResolution.lean --- which bare names become accesses to properties.

  WHAT THIS FILE IS FOR.  The walk over a method keeps one mutable set of local names.
  The statements of the method share it, those of an inner block have a copy each,
  and the header of a loop writes to the set around it.  So the set is not the scope:
  a variable of an inner block is forgotten by the next statement, a loop variable
  stays after its loop.  Here is where that shows, name by name.
-/
import Runar.Parse.Scopes

set_option autoImplicit false

namespace Runar.Parse.Solidity

open Ast

/-! ## Where a name is met -/

/-- The expression has the name in an array literal. -/
def InArray (p : String) (e : Expression) : Prop := ⟨.identifier p, true⟩ ∈ exprMarks false e

/-- The expression has the name outside array literals. -/
def Plain (p : String) (e : Expression) : Prop := ⟨.identifier p, false⟩ ∈ exprMarks false e

instance (p : String) (e : Expression) : Decidable (InArray p e) :=
  inferInstanceAs (Decidable (_ ∈ _))

instance (p : String) (e : Expression) : Decidable (Plain p e) :=
  inferInstanceAs (Decidable (_ ∈ _))

mutual

/-- The name is used outside array literals, and not under the header of a loop that
declares it. -/
def Exposed (p : String) : Statement → Prop
  | .variableDecl _ _ init => Plain p init
  | .assignment target value => Plain p target ∨ Plain p value
  | .expressionStatement expression => Plain p expression
  | .ifStatement condition thenBody elseBody =>
      Plain p condition ∨ BodyExposed p thenBody ∨
        (match elseBody with
          | some elseBody => BodyExposed p elseBody
          | none => False)
  | .forStatement name _ init condition update body =>
      Plain p init ∨
        name ≠ p ∧ (Plain p condition ∨ Exposed p update ∨ BodyExposed p body)
  | .returnStatement value =>
      match value with
      | some value => Plain p value
      | none => False

def BodyExposed (p : String) : List Statement → Prop
  | [] => False
  | stmt :: rest => Exposed p stmt ∨ BodyExposed p rest

end

mutual

/-- The name is used where no declaration inside has it in scope. -/
def Free (p : String) : Statement → Prop
  | .variableDecl _ _ init => Plain p init ∨ InArray p init
  | .assignment target value =>
      (Plain p target ∨ InArray p target) ∨ Plain p value ∨ InArray p value
  | .expressionStatement expression => Plain p expression ∨ InArray p expression
  | .ifStatement condition thenBody elseBody =>
      (Plain p condition ∨ InArray p condition) ∨ BodyFree p thenBody ∨
        (match elseBody with
          | some elseBody => BodyFree p elseBody
          | none => False)
  | .forStatement name _ init condition update body =>
      (Plain p init ∨ InArray p init) ∨
        name ≠ p ∧ ((Plain p condition ∨ InArray p condition) ∨ Free p update ∨ BodyFree p body)
  | .returnStatement value =>
      match value with
      | some value => Plain p value ∨ InArray p value
      | none => False

def BodyFree (p : String) : List Statement → Prop
  | [] => False
  | stmt :: rest => Free p stmt ∨ p ∉ declared stmt ∧ BodyFree p rest

end

/-! ## Names the walk reads as they are meant -/

mutual

/-- Of a name that is not yet declared: it stands in no array literal, and once an inner
block has declared it the later statements of the block do not use it. -/
def Kept (p : String) : Statement → Prop
  | .variableDecl _ _ init => ¬ InArray p init
  | .assignment target value => ¬ InArray p target ∧ ¬ InArray p value
  | .expressionStatement expression => ¬ InArray p expression
  | .ifStatement condition thenBody elseBody =>
      ¬ InArray p condition ∧ BodyKept p thenBody ∧
        (match elseBody with
          | some elseBody => BodyKept p elseBody
          | none => True)
  | .forStatement name _ init condition update body =>
      ¬ InArray p init ∧ (name ≠ p → ¬ InArray p condition ∧ Kept p update ∧ BodyKept p body)
  | .returnStatement value =>
      match value with
      | some value => ¬ InArray p value
      | none => True

def BodyKept (p : String) : List Statement → Prop
  | [] => True
  | stmt :: rest =>
      Kept p stmt ∧ (p ∈ declared stmt → ¬ BodyExposed p rest) ∧
        (p ∉ declared stmt → BodyKept p rest)

end

/-- The variable of a loop. -/
def loopVariable : Statement → List String
  | .forStatement name _ _ _ _ _ => [name]
  | _ => []

/-- Of the body of a method: a declaration of the name among its own statements settles
it, a loop there that declares the name is followed by no use of the property. -/
def MethodKept (p : String) : List Statement → Prop
  | [] => True
  | stmt :: rest =>
      Kept p stmt ∧ (p ∈ loopVariable stmt → ¬ BodyFree p rest) ∧
        (p ∉ declared stmt → p ∉ loopVariable stmt → MethodKept p rest)

/-! ## The walk, beside the scopes -/

/-- A use, with the local names in scope there and those the walk has in its set. -/
structure Visit where
  leaf : Leaf
  boxed : Bool
  scope : List String
  seen : List String

namespace Visit

def use (v : Visit) : Use := ⟨v.leaf, v.boxed, v.scope⟩

/-- What the walk makes of the use. -/
def resolved (propNames : List String) (v : Visit) : Use :=
  let mark := (Mark.mk v.leaf v.boxed).map fun name =>
    if name ∈ propNames ∧ name ∉ v.seen then .property name else .identifier name
  ⟨mark.leaf, mark.boxed, v.scope⟩

/-- If the use is of the name, the walk takes it for a local one just when it is. -/
def Right (p : String) (v : Visit) : Prop :=
  v.leaf = .identifier p → (v.boxed = false ∧ p ∉ v.seen ↔ p ∉ v.scope)

end Visit

def exprVisits (scope seen : List String) (e : Expression) : List Visit :=
  (exprMarks false e).map fun mark => ⟨mark.leaf, mark.boxed, scope, seen⟩

/-- The set after a statement. -/
def seenAfter (seen : List String) : Statement → List String
  | .variableDecl name _ _ => name :: seen
  | .forStatement name _ _ _ update _ => seenAfter (name :: seen) update
  | _ => seen

mutual

def stmtVisits (scope seen : List String) : Statement → List Visit
  | .variableDecl _ _ init => exprVisits scope seen init
  | .assignment target value => exprVisits scope seen target ++ exprVisits scope seen value
  | .expressionStatement expression => exprVisits scope seen expression
  | .ifStatement condition thenBody elseBody =>
      exprVisits scope seen condition ++ bodyVisits scope seen thenBody ++
        (match elseBody with
          | some elseBody => bodyVisits scope seen elseBody
          | none => [])
  | .forStatement name _ init condition update body =>
      exprVisits scope seen init ++ exprVisits (name :: scope) (name :: seen) condition ++
        stmtVisits (name :: scope) (name :: seen) update ++
        bodyVisits (name :: scope) (seenAfter (name :: seen) update) body
  | .returnStatement value =>
      match value with
      | some value => exprVisits scope seen value
      | none => []

/-- An inner block: what a statement adds to its copy is lost. -/
def bodyVisits (scope seen : List String) : List Statement → List Visit
  | [] => []
  | stmt :: rest => stmtVisits scope seen stmt ++ bodyVisits (declared stmt ++ scope) seen rest

end

/-- The body of a method. -/
def methodVisits (scope seen : List String) : List Statement → List Visit
  | [] => []
  | stmt :: rest =>
      stmtVisits scope seen stmt ++
        methodVisits (declared stmt ++ scope) (seenAfter seen stmt) rest

/-! ### The visits are the uses -/

theorem map_use_exprVisits (scope seen : List String) (e : Expression) :
    (exprVisits scope seen e).map Visit.use = exprUses scope e := by
  rw [exprVisits, List.map_map]
  rfl

theorem map_resolved_exprVisits (propNames scope seen : List String) (e : Expression) :
    (exprVisits scope seen e).map (Visit.resolved propNames) =
      exprUses scope (resolveExpr propNames seen e) := by
  rw [exprVisits, List.map_map, exprUses, resolveExpr, exprMarks_mapIdentifiers, List.map_map]
  rfl

mutual

theorem map_use_stmtVisits (scope seen : List String) (stmt : Statement) :
    (stmtVisits scope seen stmt).map Visit.use = stmtUses scope stmt := by
  cases stmt with
  | variableDecl _ _ init => exact map_use_exprVisits scope seen init
  | assignment target value =>
      rw [stmtVisits, stmtUses, List.map_append, map_use_exprVisits, map_use_exprVisits]
  | expressionStatement expression => exact map_use_exprVisits scope seen expression
  | ifStatement condition thenBody elseBody =>
      cases elseBody with
      | none =>
          rw [stmtVisits, stmtUses, List.map_append, List.map_append, map_use_exprVisits,
            map_use_bodyVisits scope seen thenBody, List.map_nil]
      | some elseBody =>
          rw [stmtVisits, stmtUses, List.map_append, List.map_append, map_use_exprVisits,
            map_use_bodyVisits scope seen thenBody, map_use_bodyVisits scope seen elseBody]
  | forStatement name _ init condition update body =>
      rw [stmtVisits, stmtUses, List.map_append, List.map_append, List.map_append,
        map_use_exprVisits, map_use_exprVisits,
        map_use_stmtVisits (name :: scope) (name :: seen) update,
        map_use_bodyVisits (name :: scope) (seenAfter (name :: seen) update) body]
  | returnStatement value =>
      cases value with
      | none => rfl
      | some value => exact map_use_exprVisits scope seen value

theorem map_use_bodyVisits (scope seen : List String) (body : List Statement) :
    (bodyVisits scope seen body).map Visit.use = bodyUses scope body := by
  cases body with
  | nil => rfl
  | cons stmt rest =>
      rw [bodyVisits, bodyUses, List.map_append, map_use_stmtVisits scope seen stmt,
        map_use_bodyVisits (declared stmt ++ scope) seen rest]

end

theorem map_use_methodVisits (scope seen : List String) (body : List Statement) :
    (methodVisits scope seen body).map Visit.use = bodyUses scope body := by
  induction body generalizing scope seen with
  | nil => rfl
  | cons stmt rest ih =>
      rw [methodVisits, bodyUses, List.map_append, map_use_stmtVisits, ih]

/-! ### What the walk makes of them -/

theorem resolvePropertyAccess_snd (propNames : List String) (stmt : Statement)
    (seen : List String) :
    (resolvePropertyAccess propNames stmt seen).2 = seenAfter seen stmt := by
  cases stmt with
  | forStatement name _ _ _ update _ =>
      exact resolvePropertyAccess_snd propNames update (name :: seen)
  | variableDecl _ _ _ | assignment _ _ | expressionStatement _ | ifStatement _ _ _
  | returnStatement _ => rfl

theorem declared_resolve (propNames : List String) (stmt : Statement) (seen : List String) :
    declared (resolvePropertyAccess propNames stmt seen).1 = declared stmt := by
  cases stmt <;> rfl

mutual

theorem map_resolved_stmtVisits (propNames scope seen : List String) (stmt : Statement) :
    (stmtVisits scope seen stmt).map (Visit.resolved propNames) =
      stmtUses scope (resolvePropertyAccess propNames stmt seen).1 := by
  cases stmt with
  | variableDecl _ _ init => exact map_resolved_exprVisits propNames scope seen init
  | assignment target value =>
      rw [stmtVisits, resolvePropertyAccess, stmtUses, List.map_append,
        map_resolved_exprVisits, map_resolved_exprVisits]
  | expressionStatement expression => exact map_resolved_exprVisits propNames scope seen expression
  | ifStatement condition thenBody elseBody =>
      cases elseBody with
      | none =>
          rw [stmtVisits, resolvePropertyAccess, stmtUses, List.map_append, List.map_append,
            map_resolved_exprVisits, map_resolved_bodyVisits propNames scope seen thenBody,
            List.map_nil]
      | some elseBody =>
          rw [stmtVisits, resolvePropertyAccess, stmtUses, List.map_append, List.map_append,
            map_resolved_exprVisits, map_resolved_bodyVisits propNames scope seen thenBody,
            map_resolved_bodyVisits propNames scope seen elseBody]
  | forStatement name _ init condition update body =>
      rw [stmtVisits, resolvePropertyAccess, stmtUses, List.map_append, List.map_append,
        List.map_append, map_resolved_exprVisits, map_resolved_exprVisits,
        map_resolved_stmtVisits propNames (name :: scope) (name :: seen) update,
        map_resolved_bodyVisits propNames (name :: scope) _ body, resolvePropertyAccess_snd]
  | returnStatement value =>
      cases value with
      | none => rfl
      | some value => exact map_resolved_exprVisits propNames scope seen value

theorem map_resolved_bodyVisits (propNames scope seen : List String) (body : List Statement) :
    (bodyVisits scope seen body).map (Visit.resolved propNames) =
      bodyUses scope (resolveCopies propNames body seen) := by
  cases body with
  | nil => rfl
  | cons stmt rest =>
      rw [bodyVisits, resolveCopies, bodyUses, List.map_append,
        map_resolved_stmtVisits propNames scope seen stmt,
        map_resolved_bodyVisits propNames (declared stmt ++ scope) seen rest, declared_resolve]

end

theorem map_resolved_methodVisits (propNames scope seen : List String) (body : List Statement) :
    (methodVisits scope seen body).map (Visit.resolved propNames) =
      bodyUses scope (resolveBody propNames body seen) := by
  induction body generalizing scope seen with
  | nil => rfl
  | cons stmt rest ih =>
      rw [methodVisits, resolveBody, bodyUses, List.map_append, map_resolved_stmtVisits, ih,
        declared_resolve, resolvePropertyAccess_snd]

/-! ## When the walk is right -/

/-- Every visit of the list is right about the name. -/
def AllRight (p : String) (visits : List Visit) : Prop := ∀ v ∈ visits, v.Right p

theorem allRight_append (p : String) (visits more : List Visit) :
    AllRight p (visits ++ more) ↔ AllRight p visits ∧ AllRight p more :=
  List.forall_mem_append

theorem allRight_nil (p : String) : AllRight p [] ↔ True :=
  ⟨fun _ => trivial, fun _ _ h => (List.not_mem_nil h).elim⟩

theorem allRight_exprVisits (p : String) (scope seen : List String) (e : Expression) :
    AllRight p (exprVisits scope seen e) ↔
      (Plain p e → (p ∉ seen ↔ p ∉ scope)) ∧ (InArray p e → p ∈ scope) := by
  rw [AllRight, exprVisits, List.forall_mem_map]
  constructor
  · intro h
    refine ⟨fun hplain => ?_, fun harray => ?_⟩
    · simpa using h _ hplain rfl
    · simpa using h _ harray rfl
  · rintro ⟨hplain, harray⟩ ⟨leaf, boxed⟩ hmark hleaf
    obtain rfl : leaf = .identifier p := hleaf
    cases boxed with
    | false => simpa using hplain hmark
    | true => simpa using harray hmark

section States

variable {p : String} {scope seen : List String}

/-! ### A declaration is in scope and the walk has met it -/

theorem known_expr (hscope : p ∈ scope) (hseen : p ∈ seen) (e : Expression) :
    AllRight p (exprVisits scope seen e) := by
  rw [allRight_exprVisits]
  exact ⟨fun _ => ⟨fun h => (h hseen).elim, fun h => (h hscope).elim⟩, fun _ => hscope⟩

theorem mem_seenAfter {seen : List String} (hseen : p ∈ seen) (stmt : Statement) :
    p ∈ seenAfter seen stmt := by
  cases stmt with
  | variableDecl _ _ _ => exact List.mem_cons_of_mem _ hseen
  | forStatement _ _ _ _ update _ => exact mem_seenAfter (List.mem_cons_of_mem _ hseen) update
  | assignment _ _ | expressionStatement _ | ifStatement _ _ _ | returnStatement _ => exact hseen

end States

mutual

theorem known_stmt {p : String} {scope seen : List String} (hscope : p ∈ scope) (hseen : p ∈ seen)
    (stmt : Statement) : AllRight p (stmtVisits scope seen stmt) := by
  cases stmt with
  | variableDecl _ _ init => exact known_expr hscope hseen init
  | assignment target value =>
      rw [stmtVisits, allRight_append]
      exact ⟨known_expr hscope hseen target, known_expr hscope hseen value⟩
  | expressionStatement expression => exact known_expr hscope hseen expression
  | ifStatement condition thenBody elseBody =>
      have hthen := known_body hscope hseen thenBody
      cases elseBody with
      | none =>
          rw [stmtVisits, allRight_append, allRight_append]
          exact ⟨⟨known_expr hscope hseen condition, hthen⟩, (allRight_nil p).mpr trivial⟩
      | some elseBody =>
          rw [stmtVisits, allRight_append, allRight_append]
          exact ⟨⟨known_expr hscope hseen condition, hthen⟩, known_body hscope hseen elseBody⟩
  | forStatement name _ init condition update body =>
      rw [stmtVisits, allRight_append, allRight_append, allRight_append]
      have hscope' : p ∈ name :: scope := List.mem_cons_of_mem _ hscope
      have hseen' : p ∈ name :: seen := List.mem_cons_of_mem _ hseen
      exact ⟨⟨⟨known_expr hscope hseen init, known_expr hscope' hseen' condition⟩,
        known_stmt hscope' hseen' update⟩, known_body hscope' (mem_seenAfter hseen' update) body⟩
  | returnStatement value =>
      cases value with
      | none => exact (allRight_nil p).mpr trivial
      | some value => exact known_expr hscope hseen value

theorem known_body {p : String} {scope seen : List String} (hscope : p ∈ scope) (hseen : p ∈ seen)
    (body : List Statement) : AllRight p (bodyVisits scope seen body) := by
  cases body with
  | nil => exact (allRight_nil p).mpr trivial
  | cons stmt rest =>
      rw [bodyVisits, allRight_append]
      exact ⟨known_stmt hscope hseen stmt,
        known_body (List.mem_append_right _ hscope) hseen rest⟩

end

theorem known_method {p : String} {scope seen : List String} (hscope : p ∈ scope)
    (hseen : p ∈ seen) (body : List Statement) : AllRight p (methodVisits scope seen body) := by
  induction body generalizing scope seen with
  | nil => exact (allRight_nil p).mpr trivial
  | cons stmt rest ih =>
      rw [methodVisits, allRight_append]
      exact ⟨known_stmt hscope hseen stmt,
        ih (List.mem_append_right _ hscope) (mem_seenAfter hseen stmt)⟩

/-! ### A declaration is in scope and the walk has lost it -/

theorem lost_expr {p : String} {scope seen : List String} (hscope : p ∈ scope) (hseen : p ∉ seen)
    (e : Expression) : AllRight p (exprVisits scope seen e) ↔ ¬ Plain p e := by
  rw [allRight_exprVisits]
  constructor
  · rintro ⟨h, -⟩ hplain
    exact (h hplain).mp hseen hscope
  · intro h
    exact ⟨fun hplain => (h hplain).elim, fun _ => hscope⟩

theorem notMem_header {p name : String} {names : List String} (h : p ∉ names) (hne : name ≠ p) :
    p ∉ name :: names := by
  simp only [List.mem_cons, not_or]
  exact ⟨fun heq => hne heq.symm, h⟩

mutual

theorem lost_stmt {p : String} {scope seen : List String} (hscope : p ∈ scope) (hseen : p ∉ seen)
    (stmt : Statement) (hsteps : StepsAreExpressions stmt) :
    AllRight p (stmtVisits scope seen stmt) ↔ ¬ Exposed p stmt := by
  cases stmt with
  | variableDecl _ _ init => exact lost_expr hscope hseen init
  | assignment target value =>
      rw [stmtVisits, allRight_append, lost_expr hscope hseen, lost_expr hscope hseen, Exposed,
        not_or]
  | expressionStatement expression => exact lost_expr hscope hseen expression
  | ifStatement condition thenBody elseBody =>
      cases elseBody with
      | none =>
          rw [StepsAreExpressions] at hsteps
          have hthen := lost_body hscope hseen thenBody hsteps.1
          rw [stmtVisits, allRight_append, allRight_append, lost_expr hscope hseen, hthen,
            allRight_nil, Exposed, or_false, not_or, and_true]
      | some elseBody =>
          rw [StepsAreExpressions] at hsteps
          have hthen := lost_body hscope hseen thenBody hsteps.1
          rw [stmtVisits, allRight_append, allRight_append, lost_expr hscope hseen, hthen,
            lost_body hscope hseen elseBody hsteps.2, Exposed, not_or, not_or, and_assoc]
  | forStatement name _ init condition update body =>
      obtain ⟨⟨e, rfl⟩, hbody⟩ := hsteps
      rw [stmtVisits, allRight_append, allRight_append, allRight_append, lost_expr hscope hseen,
        Exposed, not_or]
      have hscope' : p ∈ name :: scope := List.mem_cons_of_mem _ hscope
      by_cases hname : name = p
      · subst hname
        have hseen' : name ∈ name :: seen := List.mem_cons_self
        simp only [known_expr hscope' hseen' condition,
          known_stmt hscope' hseen' (.expressionStatement e),
          known_body hscope' (mem_seenAfter hseen' (.expressionStatement e)) body, and_true, ne_eq,
          not_true_eq_false, false_and, not_false_eq_true]
      · have hseen' := notMem_header hseen hname
        have hbody' : AllRight p (bodyVisits (name :: scope)
            (seenAfter (name :: seen) (.expressionStatement e)) body) ↔ ¬ BodyExposed p body :=
          lost_body hscope' hseen' body hbody
        rw [lost_expr hscope' hseen', stmtVisits, lost_expr hscope' hseen', hbody', Exposed]
        simp only [ne_eq, hname, not_false_eq_true, true_and, not_or, and_assoc]
  | returnStatement value =>
      cases value with
      | none => simp only [stmtVisits, allRight_nil, Exposed, not_false_eq_true]
      | some value => exact lost_expr hscope hseen value

theorem lost_body {p : String} {scope seen : List String} (hscope : p ∈ scope) (hseen : p ∉ seen)
    (body : List Statement) (hsteps : BodySteps body) :
    AllRight p (bodyVisits scope seen body) ↔ ¬ BodyExposed p body := by
  cases body with
  | nil => simp only [bodyVisits, allRight_nil, BodyExposed, not_false_eq_true]
  | cons stmt rest =>
      rw [bodyVisits, allRight_append, lost_stmt hscope hseen stmt hsteps.1,
        lost_body (List.mem_append_right _ hscope) hseen rest hsteps.2, BodyExposed, not_or]

end

/-! ### No declaration is in scope and the walk still has one -/

theorem leaked_expr {p : String} {scope seen : List String} (hscope : p ∉ scope) (hseen : p ∈ seen)
    (e : Expression) :
    AllRight p (exprVisits scope seen e) ↔ ¬ (Plain p e ∨ InArray p e) := by
  rw [allRight_exprVisits, not_or]
  constructor
  · rintro ⟨hplain, harray⟩
    exact ⟨fun h => (hplain h).mpr hscope hseen, fun h => hscope (harray h)⟩
  · rintro ⟨hplain, harray⟩
    exact ⟨fun h => (hplain h).elim, fun h => (harray h).elim⟩

mutual

theorem leaked_stmt {p : String} {scope seen : List String} (hscope : p ∉ scope) (hseen : p ∈ seen)
    (stmt : Statement) (hsteps : StepsAreExpressions stmt) :
    AllRight p (stmtVisits scope seen stmt) ↔ ¬ Free p stmt := by
  cases stmt with
  | variableDecl _ _ init => exact leaked_expr hscope hseen init
  | assignment target value =>
      rw [stmtVisits, allRight_append, leaked_expr hscope hseen, leaked_expr hscope hseen, Free,
        ← not_or]
  | expressionStatement expression => exact leaked_expr hscope hseen expression
  | ifStatement condition thenBody elseBody =>
      cases elseBody with
      | none =>
          rw [StepsAreExpressions] at hsteps
          have hthen := leaked_body hscope hseen thenBody hsteps.1
          rw [stmtVisits, allRight_append, allRight_append, leaked_expr hscope hseen, hthen,
            allRight_nil, Free, or_false, and_true, ← not_or]
      | some elseBody =>
          rw [StepsAreExpressions] at hsteps
          have hthen := leaked_body hscope hseen thenBody hsteps.1
          rw [stmtVisits, allRight_append, allRight_append, leaked_expr hscope hseen, hthen,
            leaked_body hscope hseen elseBody hsteps.2, Free, and_assoc, ← not_or, ← not_or]
  | forStatement name _ init condition update body =>
      obtain ⟨⟨e, rfl⟩, hbody⟩ := hsteps
      rw [stmtVisits, allRight_append, allRight_append, allRight_append, leaked_expr hscope hseen,
        Free]
      have hseen' : p ∈ name :: seen := List.mem_cons_of_mem _ hseen
      by_cases hname : name = p
      · subst hname
        have hscope' : name ∈ name :: scope := List.mem_cons_self
        simp only [known_expr hscope' hseen' condition,
          known_stmt hscope' hseen' (.expressionStatement e),
          known_body hscope' (mem_seenAfter hseen' (.expressionStatement e)) body, and_true, ne_eq,
          not_true_eq_false, false_and, or_false]
      · have hscope' := notMem_header hscope hname
        have hbody' : AllRight p (bodyVisits (name :: scope)
            (seenAfter (name :: seen) (.expressionStatement e)) body) ↔ ¬ BodyFree p body :=
          leaked_body hscope' hseen' body hbody
        rw [leaked_expr hscope' hseen', stmtVisits, leaked_expr hscope' hseen', hbody', Free]
        simp only [ne_eq, hname, not_false_eq_true, true_and, not_or, and_assoc]
  | returnStatement value =>
      cases value with
      | none => simp only [stmtVisits, allRight_nil, Free, not_false_eq_true]
      | some value => exact leaked_expr hscope hseen value

theorem leaked_body {p : String} {scope seen : List String} (hscope : p ∉ scope) (hseen : p ∈ seen)
    (body : List Statement) (hsteps : BodySteps body) :
    AllRight p (bodyVisits scope seen body) ↔ ¬ BodyFree p body := by
  cases body with
  | nil => simp only [bodyVisits, allRight_nil, BodyFree, not_false_eq_true]
  | cons stmt rest =>
      rw [bodyVisits, allRight_append, leaked_stmt hscope hseen stmt hsteps.1, BodyFree, not_or]
      by_cases hdecl : p ∈ declared stmt
      · simp only [known_body (List.mem_append_left scope hdecl) hseen rest, hdecl,
          not_true_eq_false, false_and, not_false_eq_true]
      · have hscope' : p ∉ declared stmt ++ scope := by simp [hdecl, hscope]
        simp only [leaked_body hscope' hseen rest hsteps.2, hdecl, not_false_eq_true, true_and]

end

theorem leaked_method {p : String} {scope seen : List String} (hscope : p ∉ scope)
    (hseen : p ∈ seen) (body : List Statement) (hsteps : BodySteps body) :
    AllRight p (methodVisits scope seen body) ↔ ¬ BodyFree p body := by
  induction body generalizing scope seen with
  | nil => simp only [methodVisits, allRight_nil, BodyFree, not_false_eq_true]
  | cons stmt rest ih =>
      rw [methodVisits, allRight_append, leaked_stmt hscope hseen stmt hsteps.1, BodyFree, not_or]
      have hseen' := mem_seenAfter hseen stmt
      by_cases hdecl : p ∈ declared stmt
      · simp only [known_method (List.mem_append_left scope hdecl) hseen' rest, hdecl,
          not_true_eq_false, false_and, not_false_eq_true]
      · have hscope' : p ∉ declared stmt ++ scope := by simp [hdecl, hscope]
        simp only [ih hscope' hseen' hsteps.2, hdecl, not_false_eq_true, true_and]

/-! ### No declaration is in scope and the walk has met none -/

theorem fresh_expr {p : String} {scope seen : List String} (hscope : p ∉ scope) (hseen : p ∉ seen)
    (e : Expression) : AllRight p (exprVisits scope seen e) ↔ ¬ InArray p e := by
  rw [allRight_exprVisits]
  constructor
  · rintro ⟨-, h⟩ harray
    exact hscope (h harray)
  · intro h
    exact ⟨fun _ => ⟨fun _ => hscope, fun _ => hseen⟩, fun harray => (h harray).elim⟩

mutual

theorem fresh_stmt {p : String} {scope seen : List String} (hscope : p ∉ scope) (hseen : p ∉ seen)
    (stmt : Statement) (hsteps : StepsAreExpressions stmt) :
    AllRight p (stmtVisits scope seen stmt) ↔ Kept p stmt := by
  cases stmt with
  | variableDecl _ _ init => exact fresh_expr hscope hseen init
  | assignment target value =>
      rw [stmtVisits, allRight_append, fresh_expr hscope hseen, fresh_expr hscope hseen, Kept]
  | expressionStatement expression => exact fresh_expr hscope hseen expression
  | ifStatement condition thenBody elseBody =>
      cases elseBody with
      | none =>
          rw [StepsAreExpressions] at hsteps
          have hthen := fresh_body hscope hseen thenBody hsteps.1
          rw [stmtVisits, allRight_append, allRight_append, fresh_expr hscope hseen, hthen,
            allRight_nil, Kept, and_assoc]
      | some elseBody =>
          rw [StepsAreExpressions] at hsteps
          have hthen := fresh_body hscope hseen thenBody hsteps.1
          rw [stmtVisits, allRight_append, allRight_append, fresh_expr hscope hseen, hthen,
            fresh_body hscope hseen elseBody hsteps.2, Kept, and_assoc]
  | forStatement name _ init condition update body =>
      obtain ⟨⟨e, rfl⟩, hbody⟩ := hsteps
      rw [stmtVisits, allRight_append, allRight_append, allRight_append, fresh_expr hscope hseen,
        Kept]
      by_cases hname : name = p
      · subst hname
        have hscope' : name ∈ name :: scope := List.mem_cons_self
        have hseen' : name ∈ name :: seen := List.mem_cons_self
        simp only [known_expr hscope' hseen' condition,
          known_stmt hscope' hseen' (.expressionStatement e),
          known_body hscope' (mem_seenAfter hseen' (.expressionStatement e)) body, and_true, ne_eq,
          not_true_eq_false, IsEmpty.forall_iff]
      · have hscope' := notMem_header hscope hname
        have hseen' := notMem_header hseen hname
        have hbody' : AllRight p (bodyVisits (name :: scope)
            (seenAfter (name :: seen) (.expressionStatement e)) body) ↔ BodyKept p body :=
          fresh_body hscope' hseen' body hbody
        rw [fresh_expr hscope' hseen', stmtVisits, fresh_expr hscope' hseen', hbody', Kept]
        simp only [ne_eq, hname, not_false_eq_true, forall_const, and_assoc]
  | returnStatement value =>
      cases value with
      | none => simp only [stmtVisits, allRight_nil, Kept]
      | some value => exact fresh_expr hscope hseen value

theorem fresh_body {p : String} {scope seen : List String} (hscope : p ∉ scope) (hseen : p ∉ seen)
    (body : List Statement) (hsteps : BodySteps body) :
    AllRight p (bodyVisits scope seen body) ↔ BodyKept p body := by
  cases body with
  | nil => simp only [bodyVisits, allRight_nil, BodyKept]
  | cons stmt rest =>
      rw [bodyVisits, allRight_append, fresh_stmt hscope hseen stmt hsteps.1, BodyKept]
      by_cases hdecl : p ∈ declared stmt
      · -- the scope has the name from here on, the set of the block does not
        simp only [lost_body (List.mem_append_left scope hdecl) hseen rest hsteps.2, hdecl,
          forall_const, not_true_eq_false, IsEmpty.forall_iff, and_true]
      · have hscope' : p ∉ declared stmt ++ scope := by simp [hdecl, hscope]
        simp only [fresh_body hscope' hseen rest hsteps.2, hdecl, not_false_eq_true, forall_const,
          IsEmpty.forall_iff, true_and]

end

theorem seenAfter_eq (seen : List String) (stmt : Statement) (hsteps : StepsAreExpressions stmt) :
    seenAfter seen stmt = declared stmt ++ loopVariable stmt ++ seen := by
  cases stmt with
  | forStatement name _ init condition update body =>
      obtain ⟨⟨e, rfl⟩, -⟩ := hsteps
      rfl
  | variableDecl _ _ _ | assignment _ _ | expressionStatement _ | ifStatement _ _ _
  | returnStatement _ => rfl

theorem notMem_declared_of_loopVariable {p : String} {stmt : Statement}
    (h : p ∈ loopVariable stmt) : p ∉ declared stmt := by
  cases stmt with
  | forStatement _ _ _ _ _ _ => exact List.not_mem_nil
  | variableDecl _ _ _ | assignment _ _ | expressionStatement _ | ifStatement _ _ _
  | returnStatement _ => exact (List.not_mem_nil h).elim

/-- The walk over a method is right about a name that is no parameter just when the body
keeps it. -/
theorem fresh_method {p : String} {scope seen : List String} (hscope : p ∉ scope)
    (hseen : p ∉ seen) (body : List Statement) (hsteps : BodySteps body) :
    AllRight p (methodVisits scope seen body) ↔ MethodKept p body := by
  induction body generalizing scope seen with
  | nil => simp only [methodVisits, allRight_nil, MethodKept]
  | cons stmt rest ih =>
      rw [methodVisits, allRight_append, fresh_stmt hscope hseen stmt hsteps.1, MethodKept,
        seenAfter_eq seen stmt hsteps.1]
      by_cases hloop : p ∈ loopVariable stmt
      · have hdecl := notMem_declared_of_loopVariable hloop
        have hscope' : p ∉ declared stmt ++ scope := by simp [hdecl, hscope]
        have hseen' : p ∈ declared stmt ++ loopVariable stmt ++ seen := by simp [hloop]
        simp only [leaked_method hscope' hseen' rest hsteps.2, hloop, hdecl, forall_const,
          not_true_eq_false, IsEmpty.forall_iff, imp_true_iff, and_true]
      · by_cases hdecl : p ∈ declared stmt
        · have hseen' : p ∈ declared stmt ++ loopVariable stmt ++ seen := by simp [hdecl]
          simp only [known_method (List.mem_append_left scope hdecl) hseen' rest, hloop, hdecl,
            not_true_eq_false, IsEmpty.forall_iff, and_true]
        · have hscope' : p ∉ declared stmt ++ scope := by simp [hdecl, hscope]
          have hseen' : p ∉ declared stmt ++ loopVariable stmt ++ seen := by
            simp [hdecl, hloop, hseen]
          simp only [ih hscope' hseen' hsteps.2, hloop, hdecl, not_false_eq_true, forall_const,
            IsEmpty.forall_iff, true_and]

/-! ## Methods -/

/-- Each use of a bare name is made an access to a property if and only if the name is one
of a property and no parameter, local or loop variable of that name is in scope. -/
def LexicalNames (propNames : List String) (m m' : MethodNode) : Prop :=
  List.Forall₂
    (fun use use' => ∀ name, use.leaf = .identifier name → ∀ p,
      use'.leaf = .property p ↔ p = name ∧ p ∈ propNames ∧ name ∉ use.scope)
    (bodyUses (m.params.map (·.name)) m.body) (bodyUses (m.params.map (·.name)) m'.body)

/-- For one use. -/
theorem resolved_leaf_iff (propNames : List String) (v : Visit) :
    (∀ name, v.leaf = .identifier name → ∀ p,
      (v.resolved propNames).leaf = .property p ↔ p = name ∧ p ∈ propNames ∧ name ∉ v.scope) ↔
    ∀ p ∈ propNames, v.Right p := by
  obtain ⟨leaf, boxed, scope, seen⟩ := v
  cases leaf with
  | property name =>
      exact ⟨fun _ _ _ h => (nomatch h), fun _ _ h => (nomatch h)⟩
  | identifier name =>
      have hleaf (p : String) :
          (Visit.resolved propNames ⟨.identifier name, boxed, scope, seen⟩).leaf = .property p ↔
            p = name ∧ p ∈ propNames ∧ boxed = false ∧ name ∉ seen := by
        cases boxed with
        | true => simp [Visit.resolved, Mark.map]
        | false =>
            by_cases h : name ∈ propNames ∧ name ∉ seen
            · simp only [Visit.resolved, Mark.map, if_pos h, Leaf.property.injEq]
              exact ⟨fun hp => hp ▸ ⟨rfl, h.1, trivial, h.2⟩, fun hp => hp.1.symm⟩
            · simp only [Visit.resolved, Mark.map, if_neg h, reduceCtorEq, false_iff]
              rintro ⟨rfl, hprop, -, hseen⟩
              exact h ⟨hprop, hseen⟩
      constructor
      · intro h p hp heq
        obtain rfl : name = p := by simpa using heq
        have := (hleaf name).symm.trans (h name rfl name)
        simpa [hp] using this
      · intro h name' heq p
        obtain rfl : name = name' := by simpa using heq
        rw [hleaf p]
        refine and_congr_right ?_
        rintro rfl
        exact and_congr_right fun hp => h p hp rfl

/-- A method is read as written just when its body keeps every property name that is no
parameter. -/
theorem lexicalNames_iff (propNames : List String) (m : MethodNode) (hsteps : BodySteps m.body) :
    LexicalNames propNames m (MethodNode.resolve propNames m) ↔
      ∀ p ∈ propNames, p ∉ m.params.map (·.name) → MethodKept p m.body := by
  have hbody : (MethodNode.resolve propNames m).body =
      resolveBody propNames m.body (m.params.map (·.name)) := rfl
  rw [LexicalNames, hbody, ← map_resolved_methodVisits,
    ← map_use_methodVisits (m.params.map (·.name)) (m.params.map (·.name)) m.body,
    List.forall₂_map_left_iff, List.forall₂_map_right_iff, List.forall₂_same]
  have hvisits : (∀ v ∈ methodVisits (m.params.map (·.name)) (m.params.map (·.name)) m.body,
      ∀ p ∈ propNames, v.Right p) ↔ ∀ p ∈ propNames,
        AllRight p (methodVisits (m.params.map (·.name)) (m.params.map (·.name)) m.body) :=
    ⟨fun h p hp v hv => h v hv p hp, fun h v hv p hp => h p hp v hv⟩
  calc _ ↔ ∀ v ∈ methodVisits (m.params.map (·.name)) (m.params.map (·.name)) m.body,
          ∀ p ∈ propNames, v.Right p :=
        forall_congr' fun v => imp_congr_right fun _ => resolved_leaf_iff propNames v
    _ ↔ _ := hvisits
    _ ↔ _ := by
        refine forall_congr' fun p => imp_congr_right fun _ => ?_
        by_cases hp : p ∈ m.params.map (·.name)
        · exact ⟨fun _ h => (h hp).elim, fun _ => known_method hp hp m.body⟩
        · rw [fresh_method hp hp m.body hsteps]
          exact ⟨fun h _ => h, fun h => h hp⟩

end Runar.Parse.Solidity
