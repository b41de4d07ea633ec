/-
  Parse/ParamStripping.lean --- names in a contract that is accepted as Solidity.

  WHAT THIS FILE IS FOR.  A constructor loses the leading underscore of its parameters
  and its body is renamed without regard to scopes.  A use keeps its parameter unless
  a local variable, a property or an array literal is in the way.  With the methods
  this says exactly when the names of a contract are resolved lexically.
-/
import Runar.Parse.NameResolution
import Mathlib.Data.List.Zip

set_option autoImplicit false

namespace Runar.Parse.Solidity

open Ast

/-! ## The underscore -/

theorem stripUnderscore_append (name : String) : stripUnderscore ("_" ++ name) = name := by
  have h : ("_" ++ name).toList = '_' :: name.toList := by rw [String.toList_append]; rfl
  rw [stripUnderscore, h]
  exact String.ofList_toList

theorem underscore_or (name : String) :
    (∃ q, name = "_" ++ q) ∨ stripUnderscore name = name ∧ ∀ q, name ≠ "_" ++ q := by
  by_cases h : ∃ q, name = "_" ++ q
  · exact .inl h
  · push Not at h
    refine .inr ⟨?_, h⟩
    unfold stripUnderscore
    split
    · next rest hrest =>
        refine absurd ?_ (h (String.ofList rest))
        rw [← String.toList_inj, hrest, String.toList_append, String.toList_ofList,
          String.toList_ofList]
        rfl
    · rfl

theorem append_ne_self (q : String) : "_" ++ q ≠ q := by
  intro h
  have := congrArg String.length h
  rw [String.length_append] at this
  exact absurd this (by have : "_".length = 1 := rfl; omega)

theorem append_inj {q q' : String} (h : "_" ++ q = "_" ++ q') : q = q' := by
  have := congrArg stripUnderscore h
  rwa [stripUnderscore_append, stripUnderscore_append] at this

/-! ## The map -/

theorem lookup_renameMap {params : List String} {name target : String} :
    (renameMap params).lookup name = some target → name = "_" ++ target ∧ target ∈ params := by
  intro h
  obtain ⟨before, after, heq, -⟩ := List.lookup_eq_some_iff.mp h
  have hmem : (name, target) ∈ renameMap params := by rw [heq]; simp
  obtain ⟨q, hq, hpair⟩ := List.mem_map.mp hmem
  obtain ⟨rfl, rfl⟩ := Prod.mk.inj hpair
  exact ⟨rfl, hq⟩

theorem renamed_append {params : List String} {q : String} (hq : q ∈ params) (hne : q ≠ "") :
    renamed (renameMap params) ("_" ++ q) = q := by
  have hsome : ((renameMap params).lookup ("_" ++ q)).isSome := by
    rw [List.lookup_isSome_iff]
    exact ⟨("_" ++ q, q), List.mem_map.mpr ⟨q, hq, rfl⟩, beq_self_eq_true _⟩
  obtain ⟨target, htarget⟩ := Option.isSome_iff_exists.mp hsome
  obtain rfl := append_inj (lookup_renameMap htarget).1
  rw [renamed, htarget]
  exact if_neg hne

theorem renamed_of_not {params : List String} {name : String}
    (h : ∀ q ∈ params, q ≠ "" → name ≠ "_" ++ q) : renamed (renameMap params) name = name := by
  unfold renamed
  split
  · next target htarget =>
      obtain ⟨rfl, hmem⟩ := lookup_renameMap htarget
      by_cases hempty : target = ""
      · exact if_pos hempty
      · exact absurd rfl (h target hmem hempty)
  · rfl

/-! ## Uses of the constructor -/

/-- The uses of a statement of the constructor.  A property that is assigned by its bare
name is meant, whatever parameter has that name. -/
def topUses (claimed scope : List String) : Statement → List Use
  | .assignment (.identifier name) value =>
      ⟨.identifier name, false, claimed ++ scope⟩ :: exprUses scope value
  | stmt => stmtUses scope stmt

def constructorUses (claimed scope : List String) : List Statement → List Use
  | [] => []
  | stmt :: rest =>
      topUses claimed scope stmt ++ constructorUses claimed (declared stmt ++ scope) rest

/-- The parameter a use is bound to. -/
def boundTo (params : List String) (use : Use) : Option Nat :=
  match use.leaf with
  | .identifier name => if name ∈ use.scope then none else params.idxOf? name
  | .property _ => none

/-- What a walk of the parser makes of a use. -/
def Use.map (f : String → Leaf) (use : Use) : Use :=
  let mark := (Mark.mk use.leaf use.boxed).map f
  ⟨mark.leaf, mark.boxed, use.scope⟩

theorem exprUses_mapIdentifiers (f : String → Leaf) (scope : List String) (e : Expression) :
    exprUses scope (mapIdentifiers f e) = (exprUses scope e).map (Use.map f) := by
  rw [exprUses, exprMarks_mapIdentifiers, exprUses, List.map_map, List.map_map]
  rfl

theorem exprUses_renameExpr (map : List (String × String)) (scope : List String)
    (e : Expression) : exprUses scope (renameExpr map e) =
      (exprUses scope e).map (Use.map fun name => .identifier (renamed map name)) :=
  exprUses_mapIdentifiers _ scope e

theorem declared_rename (map : List (String × String)) (stmt : Statement) :
    declared (renameIdentifiers map stmt) = declared stmt := by
  cases stmt <;> rfl

mutual

theorem stmtUses_rename (map : List (String × String)) (scope : List String) (stmt : Statement) :
    stmtUses scope (renameIdentifiers map stmt) =
      (stmtUses scope stmt).map (Use.map fun name => .identifier (renamed map name)) := by
  cases stmt with
  | variableDecl _ _ init => exact exprUses_renameExpr map scope init
  | assignment target value =>
      rw [renameIdentifiers, stmtUses, stmtUses, List.map_append, exprUses_renameExpr,
        exprUses_renameExpr]
  | expressionStatement expression => exact exprUses_renameExpr map scope expression
  | ifStatement condition thenBody elseBody =>
      cases elseBody with
      | none =>
          rw [renameIdentifiers, stmtUses, stmtUses, List.map_append, List.map_append,
            exprUses_renameExpr, bodyUses_rename map scope thenBody, List.map_nil]
      | some elseBody =>
          rw [renameIdentifiers, stmtUses, stmtUses, List.map_append, List.map_append,
            exprUses_renameExpr, bodyUses_rename map scope thenBody,
            bodyUses_rename map scope elseBody]
  | forStatement name _ init condition update body =>
      rw [renameIdentifiers, stmtUses, stmtUses, List.map_append, List.map_append,
        List.map_append, exprUses_renameExpr, exprUses_renameExpr,
        stmtUses_rename map (name :: scope) update, bodyUses_rename map (name :: scope) body]
  | returnStatement value =>
      cases value with
      | none => rfl
      | some value => exact exprUses_renameExpr map scope value

theorem bodyUses_rename (map : List (String × String)) (scope : List String)
    (body : List Statement) :
    bodyUses scope (renameAll map body) =
      (bodyUses scope body).map (Use.map fun name => .identifier (renamed map name)) := by
  cases body with
  | nil => rfl
  | cons stmt rest =>
      rw [renameAll, bodyUses, bodyUses, List.map_append, declared_rename,
        stmtUses_rename map scope stmt, bodyUses_rename map (declared stmt ++ scope) rest]

end

theorem topUses_rename (map : List (String × String)) (claimed scope : List String)
    (stmt : Statement) :
    topUses claimed scope (renameIdentifiers map stmt) =
      (topUses claimed scope stmt).map (Use.map fun name => .identifier (renamed map name)) := by
  cases stmt with
  | assignment target value =>
      cases target with
      | identifier name =>
          rw [renameIdentifiers, topUses, List.map_cons, ← exprUses_renameExpr]
          rfl
      | _ => exact stmtUses_rename map scope (.assignment _ value)
  | _ => exact stmtUses_rename map scope _

/-- An assigned name that has become an access to a property was one of a property. -/
theorem topUses_propertyTarget (params claimed scope : List String) (stmt : Statement) :
    (topUses claimed scope (propertyTarget claimed stmt)).map (boundTo params) =
      (topUses claimed scope stmt).map (boundTo params) := by
  cases stmt with
  | assignment target value =>
      cases target with
      | identifier name =>
          by_cases h : name ∈ claimed
          · have hbound : boundTo params ⟨.identifier name, false, claimed ++ scope⟩ = none :=
              if_pos (List.mem_append_left scope h)
            have huses : topUses claimed scope (.assignment (.propertyAccess name) value) =
                ⟨.property name, false, scope⟩ :: exprUses scope value := rfl
            rw [propertyTarget, if_pos h, huses, topUses, List.map_cons, List.map_cons, hbound]
            rfl
          · rw [propertyTarget, if_neg h]
      | _ => rfl
  | _ => rfl

theorem declared_propertyTarget (claimed : List String) (stmt : Statement) :
    declared (propertyTarget claimed stmt) = declared stmt := by
  cases stmt with
  | assignment target value =>
      cases target with
      | identifier name => rw [propertyTarget]; split <;> rfl
      | _ => rfl
  | _ => rfl

/-! ## Bindings of the constructor -/

/-- Different parameters stay different, and each use in the body is bound to the parameter
it was bound to before. -/
def KeepsBindings (propNames : List String) (written : List ParamNode) (body : List Statement)
    (node : MethodNode) : Prop :=
  (∀ p ∈ (written.map (·.name)).zip (node.params.map (·.name)),
      ∀ q ∈ (written.map (·.name)).zip (node.params.map (·.name)), p.2 = q.2 → p.1 = q.1) ∧
    (constructorUses propNames [] node.body.tail).map (boundTo (node.params.map (·.name))) =
      (constructorUses propNames [] body).map (boundTo (written.map (·.name)))

/-- No parameter is another with an underscore before it. -/
def StaysApart (names : List String) : Prop :=
  ∀ name ∈ names, "_" ++ name ∈ names → ∃ q, name = "_" ++ q

/-- A use keeps its parameter.  One of `_q` stands outside array literals, where neither
a local variable nor a property has the name `q`.  One that is of no parameter does not
take the name of one, nor has it. -/
def KeepsParam (names : List String) (use : Use) : Prop :=
  match use.leaf with
  | .property _ => True
  | .identifier name =>
      if name ∈ names ∧ name ∉ use.scope then
        ∀ q, name = "_" ++ q → use.boxed = false ∧ q ≠ "" ∧ q ∉ use.scope
      else
        (∀ q ∈ names.map stripUnderscore, q ≠ "" → name = "_" ++ q → use.boxed = false →
          q ∈ use.scope) ∧
        (name ∈ names.map stripUnderscore → name ∉ use.scope → use.boxed = false ∧
          ∃ q ∈ names.map stripUnderscore, q ≠ "" ∧ name = "_" ++ q)

section Bindings

variable {names : List String}

/-- Stripping is injective on the parameters just when they stay apart. -/
theorem staysApart_iff (names : List String) :
    (∀ a ∈ names, ∀ b ∈ names, stripUnderscore a = stripUnderscore b → a = b) ↔
      StaysApart names := by
  constructor
  · intro hinj name hname hunder
    rcases underscore_or name with h | ⟨hstay, -⟩
    · exact h
    · have heq := hinj _ hunder _ hname ((stripUnderscore_append name).trans hstay.symm)
      exact (append_ne_self name heq).elim
  · intro h a ha b hb heq
    rcases underscore_or a with ⟨q, rfl⟩ | ⟨hstay, hno⟩ <;>
      rcases underscore_or b with ⟨q', rfl⟩ | ⟨hstay', hno'⟩
    · rw [stripUnderscore_append, stripUnderscore_append] at heq
      rw [heq]
    · rw [stripUnderscore_append, hstay'] at heq
      obtain ⟨r, hr⟩ := h b hb (heq ▸ ha)
      exact (hno' r hr).elim
    · rw [stripUnderscore_append, hstay] at heq
      obtain ⟨r, hr⟩ := h a ha (heq ▸ hb)
      exact (hno r hr).elim
    · rwa [hstay, hstay'] at heq

/-- The place of a parameter among the stripped ones. -/
theorem idxOf?_strip
    (hinj : ∀ a ∈ names, ∀ b ∈ names, stripUnderscore a = stripUnderscore b → a = b)
    {name : String} (hname : name ∈ names) :
    (names.map stripUnderscore).idxOf? (stripUnderscore name) = names.idxOf? name := by
  obtain ⟨i, hi⟩ := Option.isSome_iff_exists.mp (List.isSome_idxOf?.mpr hname)
  obtain ⟨hlt, hget, hfirst⟩ := List.idxOf?_eq_some_iff.mp hi
  rw [hi, List.idxOf?_eq_some_iff]
  refine ⟨by rwa [List.length_map], by rw [List.getElem_map, hget], fun j hj heq => ?_⟩
  rw [List.getElem_map] at heq
  exact hfirst j hj (hinj _ (List.getElem_mem _) _ hname heq)

/-- A parameter that keeps its underscore is found elsewhere or not at all. -/
theorem idxOf?_unstripped {q : String} (hname : "_" ++ q ∈ names) :
    (names.map stripUnderscore).idxOf? ("_" ++ q) ≠ names.idxOf? ("_" ++ q) := by
  obtain ⟨i, hi⟩ := Option.isSome_iff_exists.mp (List.isSome_idxOf?.mpr hname)
  obtain ⟨hlt, hget, -⟩ := List.idxOf?_eq_some_iff.mp hi
  rw [hi]
  intro h
  obtain ⟨_, hstripped, -⟩ := List.idxOf?_eq_some_iff.mp h
  rw [List.getElem_map, hget, stripUnderscore_append] at hstripped
  exact append_ne_self q hstripped.symm

theorem idxOf?_of_mem {name : String} {l : List String} (h : name ∈ l) : l.idxOf? name ≠ none :=
  fun hnone => (List.idxOf?_eq_none_iff.mp hnone) h

theorem boundTo_identifier (params : List String) (name : String) (boxed : Bool)
    (scope : List String) :
    boundTo params ⟨.identifier name, boxed, scope⟩ =
      if name ∈ scope then none else params.idxOf? name := rfl

theorem boundTo_eq_none_iff (params : List String) (name : String) (boxed : Bool)
    (scope : List String) :
    boundTo params ⟨.identifier name, boxed, scope⟩ = none ↔ name ∈ scope ∨ name ∉ params := by
  rw [boundTo_identifier]
  by_cases h : name ∈ scope
  · rw [if_pos h]
    exact ⟨fun _ => .inl h, fun _ => rfl⟩
  · rw [if_neg h, List.idxOf?_eq_none_iff]
    exact ⟨.inr, fun h' => h'.resolve_left h⟩

/-- What the renaming makes of a use of a name. -/
def renamedUse (names : List String) (use : Use) : Use :=
  use.map fun name => .identifier (renamed (renameMap (names.map stripUnderscore)) name)

theorem renamedUse_boxed (names : List String) (name : String) (scope : List String) :
    renamedUse names ⟨.identifier name, true, scope⟩ = ⟨.identifier name, true, scope⟩ := rfl

theorem renamedUse_plain (names : List String) (name : String) (scope : List String) :
    renamedUse names ⟨.identifier name, false, scope⟩ =
      ⟨.identifier (renamed (renameMap (names.map stripUnderscore)) name), false, scope⟩ := rfl

/-- Of a use of a parameter. -/
theorem boundTo_renamed_param
    (hinj : ∀ a ∈ names, ∀ b ∈ names, stripUnderscore a = stripUnderscore b → a = b)
    {name : String} {boxed : Bool} {scope : List String} (hname : name ∈ names)
    (hscope : name ∉ scope) :
    boundTo (names.map stripUnderscore) (renamedUse names ⟨.identifier name, boxed, scope⟩) =
        boundTo names ⟨.identifier name, boxed, scope⟩ ↔
      ∀ q, name = "_" ++ q → boxed = false ∧ q ≠ "" ∧ q ∉ scope := by
  have hbefore : boundTo names ⟨.identifier name, boxed, scope⟩ = names.idxOf? name :=
    if_neg hscope
  rw [hbefore]
  rcases underscore_or name with ⟨q, rfl⟩ | ⟨hstay, hno⟩
  · have hq : q ∈ names.map stripUnderscore :=
      List.mem_map.mpr ⟨_, hname, stripUnderscore_append q⟩
    have hgoal : (∀ r, "_" ++ q = "_" ++ r → boxed = false ∧ r ≠ "" ∧ r ∉ scope) ↔
        boxed = false ∧ q ≠ "" ∧ q ∉ scope :=
      ⟨fun h => h q rfl, fun h r hr => append_inj hr ▸ h⟩
    rw [hgoal]
    cases boxed with
    | true =>
        rw [renamedUse_boxed, boundTo_identifier, if_neg hscope]
        exact ⟨fun h => (idxOf?_unstripped hname h).elim, fun h => (nomatch h.1)⟩
    | false =>
        rw [renamedUse_plain]
        by_cases hempty : q = ""
        · -- the empty name counts as no entry of the map
          subst hempty
          have hsame : renamed (renameMap (names.map stripUnderscore)) ("_" ++ "") = "_" ++ "" :=
            renamed_of_not fun r _ hne heq => hne (append_inj heq).symm
          rw [hsame, boundTo_identifier, if_neg hscope]
          exact ⟨fun h => (idxOf?_unstripped hname h).elim, fun h => (h.2.1 rfl).elim⟩
        · rw [renamed_append hq hempty, boundTo_identifier]
          by_cases hcapture : q ∈ scope
          · rw [if_pos hcapture]
            exact ⟨fun h => (idxOf?_of_mem hname h.symm).elim, fun h => (h.2.2 hcapture).elim⟩
          · have hplace := idxOf?_strip hinj hname
            rw [stripUnderscore_append] at hplace
            rw [if_neg hcapture]
            exact ⟨fun _ => ⟨rfl, hempty, hcapture⟩, fun _ => hplace⟩
  · have hsame : renamedUse names ⟨.identifier name, boxed, scope⟩ =
        ⟨.identifier name, boxed, scope⟩ := by
      cases boxed with
      | true => rfl
      | false => rw [renamedUse_plain, renamed_of_not fun r _ _ => hno r]
    have hplace := idxOf?_strip hinj hname
    rw [hstay] at hplace
    rw [hsame, boundTo_identifier, if_neg hscope]
    exact ⟨fun _ q hq => (hno q hq).elim, fun _ => hplace⟩

/-- Of a use that is of no parameter. -/
theorem boundTo_renamed_other {name : String} {boxed : Bool} {scope : List String}
    (hother : ¬ (name ∈ names ∧ name ∉ scope)) :
    boundTo (names.map stripUnderscore) (renamedUse names ⟨.identifier name, boxed, scope⟩) =
        boundTo names ⟨.identifier name, boxed, scope⟩ ↔
      (∀ q ∈ names.map stripUnderscore, q ≠ "" → name = "_" ++ q → boxed = false → q ∈ scope) ∧
      (name ∈ names.map stripUnderscore → name ∉ scope → boxed = false ∧
        ∃ q ∈ names.map stripUnderscore, q ≠ "" ∧ name = "_" ++ q) := by
  have hbefore : boundTo names ⟨.identifier name, boxed, scope⟩ = none := by
    rw [boundTo_eq_none_iff]
    tauto
  rw [hbefore]
  by_cases hmapped : boxed = false ∧ ∃ q ∈ names.map stripUnderscore, q ≠ "" ∧ name = "_" ++ q
  · obtain ⟨rfl, q, hq, hne, rfl⟩ := hmapped
    rw [renamedUse_plain, renamed_append hq hne, boundTo_eq_none_iff]
    constructor
    · intro h
      have hcapture : q ∈ scope := h.resolve_right fun hnot => hnot hq
      exact ⟨fun r _ _ heq _ => append_inj heq ▸ hcapture, fun _ _ => ⟨rfl, q, hq, hne, rfl⟩⟩
    · rintro ⟨h, -⟩
      exact .inl (h q hq hne rfl rfl)
  · have hsame : renamedUse names ⟨.identifier name, boxed, scope⟩ =
        ⟨.identifier name, boxed, scope⟩ := by
      cases boxed with
      | true => rfl
      | false =>
          rw [renamedUse_plain,
            renamed_of_not fun q hq hne heq => hmapped ⟨rfl, q, hq, hne, heq⟩]
    rw [hsame, boundTo_eq_none_iff]
    constructor
    · intro h
      exact ⟨fun q hq hne heq hboxed => (hmapped ⟨hboxed, q, hq, hne, heq⟩).elim,
        fun hname hscope => (h.elim hscope fun hnot => hnot hname).elim⟩
    · rintro ⟨-, h⟩
      by_cases hscope : name ∈ scope
      · exact .inl hscope
      · exact .inr fun hname => hmapped (h hname hscope)

theorem boundTo_renamed_iff (hapart : StaysApart names) (use : Use) :
    boundTo (names.map stripUnderscore) (renamedUse names use) = boundTo names use ↔
      KeepsParam names use := by
  obtain ⟨leaf, boxed, scope⟩ := use
  cases leaf with
  | property name => cases boxed <;> exact ⟨fun _ => trivial, fun _ => rfl⟩
  | identifier name =>
      unfold KeepsParam
      by_cases h : name ∈ names ∧ name ∉ scope
      · simp only [if_pos h]
        exact boundTo_renamed_param ((staysApart_iff names).mpr hapart) h.1 h.2
      · simp only [if_neg h]
        exact boundTo_renamed_other h

end Bindings

/-! ### The whole body -/

/-- The constructor's statements after the call of `super`. -/
theorem tail_parseConstructor (properties : List PropertyNode) (written : List ParamNode)
    (body : List Statement) :
    (parseConstructor properties written body).body.tail =
      body.map fun stmt => propertyTarget (properties.map (·.name))
        (if (renameMap ((written.map (·.name)).map stripUnderscore)).length > 0 then
          renameIdentifiers (renameMap ((written.map (·.name)).map stripUnderscore)) stmt
        else stmt) := by
  have hmap : (written.map fun p => { p with name := stripUnderscore p.name }).map (·.name) =
      (written.map (·.name)).map stripUnderscore := by
    rw [List.map_map, List.map_map]
    rfl
  rw [← hmap]
  rfl

theorem params_parseConstructor (properties : List PropertyNode) (written : List ParamNode)
    (body : List Statement) :
    (parseConstructor properties written body).params.map (·.name) =
      (written.map (·.name)).map stripUnderscore := by
  rw [List.map_map]
  exact List.map_map ..

/-- Without parameters there is nothing to rename. -/
theorem renamedUse_nil (use : Use) : renamedUse [] use = use := by
  obtain ⟨leaf, boxed, scope⟩ := use
  cases leaf <;> cases boxed <;> rfl

theorem constructorUses_fixed (names claimed scope : List String) (body : List Statement) :
    (constructorUses claimed scope (body.map fun stmt => propertyTarget claimed
        (if (renameMap (names.map stripUnderscore)).length > 0 then
          renameIdentifiers (renameMap (names.map stripUnderscore)) stmt
        else stmt))).map (boundTo (names.map stripUnderscore)) =
      (constructorUses claimed scope body).map fun use =>
        boundTo (names.map stripUnderscore) (renamedUse names use) := by
  induction body generalizing scope with
  | nil => rfl
  | cons stmt rest ih =>
      rw [List.map_cons, constructorUses, constructorUses, List.map_append, List.map_append,
        topUses_propertyTarget, declared_propertyTarget, ih]
      split
      · rw [topUses_rename, declared_rename, List.map_map]
        rfl
      · next hnil =>
          have hnames : names = [] := by simpa [renameMap] using hnil
          subst hnames
          simp only [renamedUse_nil]

/-- Stripping keeps the bindings just when the parameters stay apart and each use keeps its
own. -/
theorem keepsBindings_iff (properties : List PropertyNode) (written : List ParamNode)
    (body : List Statement) :
    KeepsBindings (properties.map (·.name)) written body
        (parseConstructor properties written body) ↔
      StaysApart (written.map (·.name)) ∧
        ∀ use ∈ constructorUses (properties.map (·.name)) [] body,
          KeepsParam (written.map (·.name)) use := by
  rw [KeepsBindings, tail_parseConstructor, params_parseConstructor, constructorUses_fixed]
  generalize written.map (·.name) = names
  have hpairs : (∀ p ∈ names.zip (names.map stripUnderscore),
      ∀ q ∈ names.zip (names.map stripUnderscore), p.2 = q.2 → p.1 = q.1) ↔ StaysApart names := by
    rw [← List.map_prod_left_eq_zip, List.forall_mem_map]
    simp only [List.forall_mem_map]
    exact staysApart_iff names
  rw [hpairs]
  refine and_congr_right fun hapart => ?_
  rw [List.map_inj_left]
  exact forall_congr' fun use => imp_congr_right fun _ => boundTo_renamed_iff hapart use

/-! ## Contracts -/

def Member.Steps : Member → Prop
  | .property _ => True
  | .function node => BodySteps node.body
  | .constructor _ body => BodySteps body

/-- A contract as the parser reads it, member by member. -/
structure Source where
  parentClass : ParentClass
  members : List Member
  /-- the step of a loop is read as an expression -/
  steps : ∀ m ∈ members, m.Steps

def propertiesOf (members : List Member) : List PropertyNode :=
  members.filterMap fun
    | .property node => some node
    | _ => none

def functionsOf (members : List Member) : List MethodNode :=
  members.filterMap fun
    | .function node => some node
    | _ => none

def Member.isConstructor : Member → Bool
  | .constructor _ _ => true
  | _ => false

/-- The names of a contract are resolved lexically: the bare names of its methods, and
those of the constructor that counts, which is the last one. -/
def Source.NamesLexical (s : Source) : Prop :=
  List.Forall₂ (LexicalNames ((propertiesOf s.members).map (·.name))) (functionsOf s.members)
      (parse s.parentClass s.members).methods ∧
    ∀ before written body after, s.members = before ++ .constructor written body :: after →
      (∀ m ∈ after, m.isConstructor = false) →
      KeepsBindings ((propertiesOf before).map (·.name)) written body
        (parse s.parentClass s.members).constructor

/-- What the members before have left, and what these add. -/
theorem foldl_member (c : Collected) (members : List Member) :
    (members.foldl Collected.member c).properties = c.properties ++ propertiesOf members ∧
      (members.foldl Collected.member c).methods = c.methods ++ functionsOf members := by
  induction members generalizing c with
  | nil => exact ⟨(List.append_nil _).symm, (List.append_nil _).symm⟩
  | cons m rest ih =>
      obtain ⟨hproperties, hmethods⟩ := ih (c.member m)
      rw [List.foldl_cons, hproperties, hmethods]
      cases m with
      | property node => exact ⟨List.append_assoc _ [node] _, rfl⟩
      | function node => exact ⟨rfl, List.append_assoc _ [node] _⟩
      | constructor written body => exact ⟨rfl, rfl⟩

theorem foldl_no_constructor (c : Collected) (members : List Member)
    (hnone : ∀ m ∈ members, m.isConstructor = false) :
    (members.foldl Collected.member c).constructorNode = c.constructorNode := by
  induction members generalizing c with
  | nil => rfl
  | cons m rest ih =>
      rw [List.foldl_cons, ih _ fun m' hm' => hnone m' (List.mem_cons_of_mem _ hm')]
      cases m with
      | property node => rfl
      | function node => rfl
      | constructor written body => exact (nomatch hnone _ List.mem_cons_self)

theorem methods_parse (parentClass : ParentClass) (members : List Member) :
    (parse parentClass members).methods =
      (functionsOf members).map (MethodNode.resolve ((propertiesOf members).map (·.name))) := by
  obtain ⟨hproperties, hmethods⟩ := foldl_member ⟨[], [], none⟩ members
  rw [List.nil_append] at hproperties hmethods
  rw [← hproperties, ← hmethods]
  rfl

theorem constructor_parse (parentClass : ParentClass) (before after : List Member)
    (written : List ParamNode) (body : List Statement)
    (hlast : ∀ m ∈ after, m.isConstructor = false) :
    (parse parentClass (before ++ .constructor written body :: after)).constructor =
      parseConstructor (propertiesOf before) written body := by
  obtain ⟨hproperties, -⟩ := foldl_member ⟨[], [], none⟩ before
  rw [List.nil_append] at hproperties
  have hnode : ((before ++ .constructor written body :: after).foldl Collected.member
      ⟨[], [], none⟩).constructorNode =
        some (parseConstructor (propertiesOf before) written body) := by
    rw [List.foldl_append, List.foldl_cons, foldl_no_constructor _ _ hlast, ← hproperties]
    rfl
  rw [parse, hnode]
  rfl

/-- The names of a contract are resolved lexically just when each method keeps every
property name that is none of its parameters, and in the constructor the parameters stay
apart and each use keeps its own. -/
theorem names_lexical_iff (s : Source) :
    s.NamesLexical ↔
      (∀ m ∈ functionsOf s.members, ∀ p ∈ (propertiesOf s.members).map (·.name),
        p ∉ m.params.map (·.name) → MethodKept p m.body) ∧
      ∀ before written body after, s.members = before ++ .constructor written body :: after →
        (∀ m ∈ after, m.isConstructor = false) →
        StaysApart (written.map (·.name)) ∧
          ∀ use ∈ constructorUses ((propertiesOf before).map (·.name)) [] body,
            KeepsParam (written.map (·.name)) use := by
  refine and_congr ?_ ?_
  · rw [methods_parse, List.forall₂_map_right_iff, List.forall₂_same]
    refine forall_congr' fun m => forall_congr' fun hm => lexicalNames_iff _ m ?_
    obtain ⟨member, hmember, heq⟩ := List.mem_filterMap.mp hm
    cases member with
    | function node =>
        obtain rfl : node = m := by simpa using heq
        exact s.steps _ hmember
    | property node => exact (nomatch heq)
    | constructor written body => exact (nomatch heq)
  · refine forall_congr' fun before => forall_congr' fun written => forall_congr' fun body =>
      forall_congr' fun after => forall_congr' fun heq => forall_congr' fun hlast => ?_
    rw [heq, constructor_parse s.parentClass before after written body hlast]
    exact keepsBindings_iff (propertiesOf before) written body

/-- A local variable of a block is taken for the property of its name: in
`if (true) { let bigint count = 1; count = 2; }` the property is written. -/
theorem not_names_lexical : ¬ ∀ s : Source, s.NamesLexical := by
  intro hall
  let block : List Statement :=
    [.variableDecl "count" (some (.primitive .bigint)) (.bigintLiteral 1),
      .assignment (.identifier "count") (.bigintLiteral 2)]
  let bump : MethodNode :=
    { name := "bump", params := [], body := [.ifStatement (.boolLiteral true) block none],
      visibility := .isPublic, sighashType := none }
  let counter : Source :=
    { parentClass := .statefulSmartContract,
      members := [.property ⟨"count", .primitive .bigint, false, none, false⟩, .function bump],
      steps := by
        intro m hm
        rcases List.mem_cons.mp hm with rfl | hm
        · trivial
        · obtain rfl := List.mem_singleton.mp hm
          exact ⟨⟨⟨trivial, trivial, trivial⟩, trivial⟩, trivial⟩ }
  have hmethods :
      List.Forall₂ (LexicalNames ["count"]) [bump] [MethodNode.resolve ["count"] bump] :=
    (hall counter).1
  have hbump : LexicalNames ["count"] bump (MethodNode.resolve ["count"] bump) := by
    cases hmethods with
    | cons h _ => exact h
  have huses : List.Forall₂
      (fun use use' => ∀ name, use.leaf = Leaf.identifier name → ∀ p,
        use'.leaf = Leaf.property p ↔ p = name ∧ p ∈ ["count"] ∧ name ∉ use.scope)
      [Use.mk (.identifier "count") false ["count"]] [Use.mk (.property "count") false ["count"]] :=
    hbump
  cases huses with
  | cons h _ => exact ((h "count" rfl "count").mp rfl).2.2 List.mem_cons_self

end Runar.Parse.Solidity
