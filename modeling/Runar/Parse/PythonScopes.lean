/-
  Parse/PythonScopes.lean --- the names of a Python contract.

  WHAT THIS FILE IS FOR.  A contract as the Python parser reads it, as far as names go: what each
  method binds, uses and calls, and what the parser writes for it.  Bindings and uses stay
  together, and different names apart, exactly where no two names of a scope are spelled the same
  way, none is spelled like a builtin that is called, and none that is used is misnamed.

  LEFT OUT: types and operators, decorators, and what is in a literal (`bytes.fromhex(…)` is one).
-/
import Runar.Parse.PythonNames
import Runar.Typecheck.Types

set_option autoImplicit false

namespace Runar.Parse.Python

/-! ## Contracts -/

inductive Expr where
  | literal
  /-- A name, or `self`. -/
  | ident (raw : Name)
  | array (elements : List Expr)
  | unary (operand : Expr)
  /-- Also an access to an element. -/
  | binary (left right : Expr)
  | ternary (condition consequent alternate : Expr)
  | member (object : Expr) (raw : Name)
  | call (callee : Expr) (args : List Expr)

inductive Stmt where
  /-- `assert expr`. -/
  | assert (condition : Expr)
  | ifElse (condition : Expr) (thenBranch elseBranch : List Stmt)
  /-- `for raw in range(start, end)`. -/
  | forRange (raw : Name) (start finish : Expr) (body : List Stmt)
  | ret (value : Option Expr)
  /-- `super().__init__(…)`. -/
  | super (args : List Expr)
  /-- `raw: Type = init`, or `raw = init`. -/
  | declare (raw : Name) (init : Option Expr)
  | assign (target value : Expr)
  | expr (expression : Expr)

structure Method where
  raw : Name
  params : List Name
  body : List Stmt

structure Contract where
  properties : List Name
  methods : List Method

/-! ## What stands for a name -/

def self : Name := "self".toList

def init : Name := "__init__".toList

/-- What `parsePrimary` writes for a name. -/
def identName (raw : Name) : AstName :=
  if raw = self then .text "this".toList else mapBuiltinName raw

/-- What `parsePostfix` writes behind a point. -/
def memberName (raw : Name) : AstName := .text (snakeToCamel raw)

/-- What `parseProperty` writes. -/
def propertyName (raw : Name) : AstName := .text (snakeToCamel raw)

/-- What `parseMethodDef` writes. -/
def methodName (raw : Name) : AstName :=
  if raw = init then .text "constructor".toList else .text (snakeToCamel raw)

/-- A name that a scope binds: by `parseParams`, or by `parseIdentStatement` and
`parseForStatement`. -/
inductive Binder where
  | param (raw : Name)
  | declared (raw : Name)
  deriving DecidableEq

def Binder.raw : Binder → Name
  | .param raw => raw
  | .declared raw => raw

/-- What the parser writes for a bound name; `self` is no parameter of the tree, where it is
`this`. -/
def Binder.name : Binder → AstName
  | .param raw => if raw = self then .text "this".toList else .text (snakeToCamel raw)
  | .declared raw => .text (snakeToCamel raw)

/-! ## What a method binds and uses -/

/-- A name in a body. -/
inductive Occurrence where
  | binds (raw : Name)
  | uses (raw : Name)
  | calls (raw : Name)
  /-- `self.raw`. -/
  | selfMember (raw : Name)
  deriving DecidableEq

mutual

def Expr.occurrences : Expr → List Occurrence
  | .literal => []
  | .ident raw => [.uses raw]
  | .array elements => occurrencesAll elements
  | .unary operand => operand.occurrences
  | .binary left right => left.occurrences ++ right.occurrences
  | .ternary condition consequent alternate =>
      consequent.occurrences ++ condition.occurrences ++ alternate.occurrences
  | .member (.ident object) raw =>
      .uses object :: (if object = self then [.selfMember raw] else [])
  | .member object _ => object.occurrences
  | .call (.ident func) args => .uses func :: .calls func :: occurrencesAll args
  | .call callee args => callee.occurrences ++ occurrencesAll args

def occurrencesAll : List Expr → List Occurrence
  | [] => []
  | e :: rest => e.occurrences ++ occurrencesAll rest

end

mutual

def Stmt.occurrences : Stmt → List Occurrence
  | .assert condition => .calls "assert".toList :: condition.occurrences
  | .ifElse condition thenBranch elseBranch =>
      condition.occurrences ++ blockOccurrences thenBranch ++ blockOccurrences elseBranch
  | .forRange raw start finish body =>
      .binds raw :: (start.occurrences ++ finish.occurrences ++ blockOccurrences body)
  | .ret value => (value.map Expr.occurrences).getD []
  | .super args => .calls "super".toList :: occurrencesAll args
  | .declare raw value => .binds raw :: (value.map Expr.occurrences).getD []
  | .assign target value => target.occurrences ++ value.occurrences
  | .expr expression => expression.occurrences

def blockOccurrences : List Stmt → List Occurrence
  | [] => []
  | s :: rest => s.occurrences ++ blockOccurrences rest

end

namespace Method

/-- A name in Python is bound in the whole method. -/
def binders (m : Method) : List Binder :=
  m.params.map .param ++ (blockOccurrences m.body).filterMap fun
    | .binds raw => some (.declared raw)
    | _ => none

def Uses (m : Method) (raw : Name) : Prop := .uses raw ∈ blockOccurrences m.body

def Calls (m : Method) (raw : Name) : Prop := .calls raw ∈ blockOccurrences m.body

def UsesMember (m : Method) (raw : Name) : Prop := .selfMember raw ∈ blockOccurrences m.body

end Method

/-- What a bound name is written like: `self` is written `this`. -/
def Binder.written : Binder → Name
  | .param raw => if raw = self then "this".toList else raw
  | .declared raw => raw

/-- What a method's name is written like. -/
def methodWritten (raw : Name) : Name := if raw = init then "constructor".toList else raw

/-- A bound name that is used as another: `self` as a variable of a loop is one. -/
def Binder.IsMisnamed : Binder → Prop
  | .param raw => Misnamed raw
  | .declared raw => Misnamed raw ∨ raw = self

/-- The builtins of the tree. -/
def IsBuiltin (text : Name) : Prop := text ∈ Typecheck.builtinFunctions.map (·.1.toList)

/-! ## Hygiene -/

/-- Within the scope of a method: different names stay apart, none becomes a builtin that is
called, and a use becomes what its binding becomes. -/
structure Method.Hygienic (m : Method) : Prop where
  apart : ∀ a ∈ m.binders, ∀ b ∈ m.binders, a.raw ≠ b.raw → a.name ≠ b.name
  noBuiltin : ∀ a ∈ m.binders, ∀ func, m.Calls func → ∀ builtin, IsBuiltin builtin →
    identName func = .text builtin → a.name ≠ .text builtin
  sameUse : ∀ a ∈ m.binders, m.Uses a.raw → identName a.raw = a.name

/-- Bindings and uses stay together, and different names apart. -/
structure Contract.Hygienic (c : Contract) : Prop where
  scopes : ∀ m ∈ c.methods, m.Hygienic
  propertiesApart : ∀ p ∈ c.properties, ∀ q ∈ c.properties, p ≠ q →
    propertyName p ≠ propertyName q
  methodsApart : ∀ m ∈ c.methods, ∀ n ∈ c.methods, m.raw ≠ n.raw →
    methodName m.raw ≠ methodName n.raw
  sameProperty : ∀ m ∈ c.methods, ∀ raw, m.UsesMember raw → raw ∈ c.properties →
    memberName raw = propertyName raw
  sameMethod : ∀ m ∈ c.methods, ∀ n ∈ c.methods, m.UsesMember n.raw →
    memberName n.raw = methodName n.raw

/-- In a method: no two names are spelled the same way, none is spelled like a builtin that is
called, and none that is used is misnamed. -/
structure Method.WellNamed (m : Method) : Prop where
  apart : ∀ a ∈ m.binders, ∀ b ∈ m.binders, a.raw ≠ b.raw → key a.written ≠ key b.written
  noBuiltin : ∀ a ∈ m.binders, ∀ func, m.Calls func → ∀ builtin, IsBuiltin builtin →
    StandsFor func builtin → textKey builtin ≠ some (key a.written)
  used : ∀ a ∈ m.binders, m.Uses a.raw → ¬ a.IsMisnamed

/-- Every method is well named, no two properties and no two methods are spelled the same way, and
`self.__init__` is not used where there is an `__init__`. -/
structure Contract.WellNamed (c : Contract) : Prop where
  scopes : ∀ m ∈ c.methods, m.WellNamed
  properties : ∀ p ∈ c.properties, ∀ q ∈ c.properties, p ≠ q → key p ≠ key q
  methods : ∀ m ∈ c.methods, ∀ n ∈ c.methods, m.raw ≠ n.raw →
    key (methodWritten m.raw) ≠ key (methodWritten n.raw)
  constructor : ∀ m ∈ c.methods, ∀ n ∈ c.methods, m.UsesMember n.raw → n.raw ≠ init

theorem text_ne_iff (m n : Name) :
    AstName.text (snakeToCamel m) ≠ .text (snakeToCamel n) ↔ key m ≠ key n := by
  rw [Ne, AstName.text.injEq, snakeToCamel_eq_iff]

theorem Binder.name_eq (a : Binder) : a.name = .text (snakeToCamel a.written) := by
  cases a with
  | param raw =>
    show (if raw = self then .text "this".toList else .text (snakeToCamel raw)) =
      AstName.text (snakeToCamel (if raw = self then "this".toList else raw))
    split <;> rfl
  | declared raw => rfl

theorem methodName_eq (raw : Name) : methodName raw = .text (snakeToCamel (methodWritten raw)) := by
  unfold methodName methodWritten
  split <;> rfl

theorem isBuiltin_toList {text : String} :
    IsBuiltin text.toList ↔ text ∈ Typecheck.builtinFunctions.map (·.1) := by
  rw [← List.mem_map_of_injective (fun _ _ => String.toList_inj.mp), List.map_map]
  rfl

theorem self_not_builtin : ¬ IsBuiltin self ∧ ¬ IsBuiltin "this".toList := by
  -- over the texts themselves, which are quicker to compare than their characters
  rw [self, isBuiltin_toList, isBuiltin_toList]
  decide +kernel

theorem not_misnamed_self : ¬ Misnamed self := by
  rw [self, misnamed_toList]
  decide +kernel

/-- The builtin that a called name stands for. -/
theorem identName_eq_iff {builtin : Name} (func : Name) (h : IsBuiltin builtin) :
    identName func = .text builtin ↔ StandsFor func builtin := by
  unfold identName
  split
  · next hself =>
    subst hself
    constructor
    · intro hthis
      exact absurd (AstName.text.inj hthis ▸ h) self_not_builtin.2
    · intro hstands
      rw [← mapBuiltinName_eq_text_iff, mapBuiltinName_of_regular not_misnamed_self] at hstands
      have hself : builtin = self := (AstName.text.inj hstands).symm
      exact absurd (hself ▸ h) self_not_builtin.1
  · exact mapBuiltinName_eq_text_iff func builtin

/-- A bound name is used as itself exactly where it is not misnamed. -/
theorem Binder.identName_eq_name_iff (a : Binder) : identName a.raw = a.name ↔ ¬ a.IsMisnamed := by
  cases a with
  | param raw =>
    show identName raw = (if raw = self then .text "this".toList else .text (snakeToCamel raw)) ↔
      ¬ Misnamed raw
    unfold identName
    split
    · next hself => exact iff_of_true rfl (hself ▸ not_misnamed_self)
    · exact mapBuiltinName_eq_iff raw
  | declared raw =>
    show identName raw = .text (snakeToCamel raw) ↔ ¬ (Misnamed raw ∨ raw = self)
    unfold identName
    split
    · next hself =>
      subst hself
      exact iff_of_false (by decide) (fun h => h (.inr rfl))
    · next hself => rw [or_iff_left hself, mapBuiltinName_eq_iff]

theorem Method.wellNamed_iff (m : Method) : m.Hygienic ↔ m.WellNamed := by
  constructor
  · rintro ⟨hapart, hbuiltin, hused⟩
    refine ⟨fun a ha b hb hne => ?_, fun a ha func hcalls builtin his hstands => ?_,
      fun a ha huses => ?_⟩
    · have hnames := hapart a ha b hb hne
      rwa [a.name_eq, b.name_eq, text_ne_iff] at hnames
    · have hname := hbuiltin a ha func hcalls builtin his ((identName_eq_iff func his).mpr hstands)
      rwa [a.name_eq, Ne, AstName.text.injEq, snakeToCamel_eq_text_iff] at hname
    · exact a.identName_eq_name_iff.mp (hused a ha huses)
  · rintro ⟨hapart, hbuiltin, hused⟩
    refine ⟨fun a ha b hb hne => ?_, fun a ha func hcalls builtin his hident => ?_,
      fun a ha huses => ?_⟩
    · rw [a.name_eq, b.name_eq, text_ne_iff]
      exact hapart a ha b hb hne
    · rw [a.name_eq, Ne, AstName.text.injEq, snakeToCamel_eq_text_iff]
      exact hbuiltin a ha func hcalls builtin his ((identName_eq_iff func his).mp hident)
    · exact a.identName_eq_name_iff.mpr (hused a ha huses)

theorem memberName_eq_methodName_iff (raw : Name) :
    memberName raw = methodName raw ↔ raw ≠ init := by
  unfold memberName methodName
  split
  · next hinit =>
    subst hinit
    exact iff_of_false (by decide) (fun h => h rfl)
  · next hinit => exact iff_of_true rfl hinit

/-- The conversion of names is hygienic exactly on the contracts that are well named. -/
theorem Contract.hygienic_iff (c : Contract) : c.Hygienic ↔ c.WellNamed := by
  constructor
  · intro h
    refine ⟨fun m hm => m.wellNamed_iff.mp (h.scopes m hm), fun p hp q hq hne => ?_,
      fun m hm n hn hne => ?_, fun m hm n hn huses => ?_⟩
    · exact (text_ne_iff p q).mp (h.propertiesApart p hp q hq hne)
    · have hnames := h.methodsApart m hm n hn hne
      rwa [methodName_eq, methodName_eq, text_ne_iff] at hnames
    · exact (memberName_eq_methodName_iff n.raw).mp (h.sameMethod m hm n hn huses)
  · intro h
    refine ⟨fun m hm => m.wellNamed_iff.mpr (h.scopes m hm), fun p hp q hq hne => ?_,
      fun m hm n hn hne => ?_, fun _ _ _ _ _ => rfl, fun m hm n hn huses => ?_⟩
    · exact (text_ne_iff p q).mpr (h.properties p hp q hq hne)
    · rw [methodName_eq, methodName_eq, text_ne_iff]
      exact h.methods m hm n hn hne
    · exact (memberName_eq_methodName_iff n.raw).mpr (h.constructor m hm n hn huses)

/-- `def unlock(self, foo_bar, fooBar): assert foo_bar == fooBar`. -/
def twoSpellings : Contract where
  properties := []
  methods :=
    [{ raw := "unlock".toList
       params := [self, "foo_bar".toList, "fooBar".toList]
       body := [.assert (.binary (.ident "foo_bar".toList) (.ident "fooBar".toList))] }]

/-- Both parameters become `fooBar`. -/
theorem twoSpellings_not_hygienic : ¬ twoSpellings.Hygienic := by
  intro h
  have hmethod := h.scopes _ List.mem_cons_self
  exact hmethod.apart (.param "foo_bar".toList) (by decide) (.param "fooBar".toList) (by decide)
    (by decide) (by decide)

end Runar.Parse.Python
