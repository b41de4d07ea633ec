/-
  Artifact/StateFields.lean --- the state fields a compiled contract declares.

  WHAT THIS FILE IS FOR.  The compiler expands an array property into one scalar
  property for each element, and lowers those.  The artifact shows the array again:
  `extractStateFields` collects the mutable properties and regroups the runs that
  one array was expanded into.  Whatever the grouping, the fields still list the
  mutable properties in declaration order, which is what this file proves.
-/
import Runar.Anf.Syntax
import Runar.Logic.Nested

set_option autoImplicit false

namespace Runar.Artifact

/-! ## Properties -/

/-- One level of the array an element was expanded from. -/
structure ChainEntry where
  base : String
  index : Nat
  length : Nat
  deriving DecidableEq, Repr

/-- A property of the expanded contract.  `syntheticArrayChain` marks an element,
the innermost array last. -/
structure PropertyNode where
  name : String
  type : PrimitiveType
  readonly : Bool
  initializer : Option ConstValue
  syntheticArrayChain : List ChainEntry

/-- Lower a property. -/
def lowerProperty (prop : PropertyNode) : ANFProperty :=
  { name := prop.name, type := prop.type, isReadonly := prop.readonly,
    initialValue := prop.initializer }

def lowerProperties (properties : List PropertyNode) : List ANFProperty :=
  properties.map lowerProperty

/-! ## Fields -/

/-- The type an artifact shows. -/
inductive FieldType where
  | primitive (type : PrimitiveType)
  | fixedArray (elementType : FieldType) (length : Nat)
  deriving DecidableEq, Repr

/-- The scalar type under every array layer. -/
def unwrapFixedArrayLeaf : FieldType → PrimitiveType
  | .primitive type => type
  | .fixedArray elementType _ => unwrapFixedArrayLeaf elementType

/-- A field is a scalar, or an array with the names of its scalars in order. -/
inductive FieldShape where
  | scalar (type : PrimitiveType)
  | fixedArray (elementType : FieldType) (length : Nat) (syntheticNames : List String)
  deriving Repr

def FieldShape.type : FieldShape → FieldType
  | scalar type => .primitive type
  | fixedArray elementType length _ => .fixedArray elementType length

/-- A state field of the artifact. -/
structure StateField where
  name : String
  shape : FieldShape
  index : Nat
  deriving Repr

/-- An initial value: a constant, or the values of an array. -/
abbrev InitialValue : Type := Logic.Nested ConstValue

/-- An entry while arrays are regrouped. -/
structure RegroupEntry where
  name : String
  shape : FieldShape
  chain : List ChainEntry
  index : Nat
  initialValue : Option InitialValue := none
  deriving Repr

/-- The names of the scalars of a field. -/
def syntheticNamesOf (name : String) : FieldShape → List String
  | .scalar _ => [name]
  | .fixedArray _ _ syntheticNames => syntheticNames

/-! ## Regrouping -/

/-- Whether an entry is element `k` of the array a run started with. -/
def extendsRun (marker : ChainEntry) (type : FieldType) (k : Nat) (next : RegroupEntry) : Bool :=
  match next.chain.getLast? with
  | none => false
  | some m =>
      m.base == marker.base && m.length == marker.length && m.index == k && next.shape.type == type

/-- The entries that continue a run from element `k`, and the ones after it. -/
def takeRun (marker : ChainEntry) (type : FieldType) (k : Nat) :
    List RegroupEntry → List RegroupEntry × List RegroupEntry
  | [] => ([], [])
  | next :: rest =>
      if k < marker.length && extendsRun marker type k next then
        let (run, after) := takeRun marker type (k + 1) rest
        (next :: run, after)
      else ([], next :: rest)

/-- The entry that stands for a whole run. -/
def collapse (marker : ChainEntry) (entry : RegroupEntry) (run : List RegroupEntry) :
    RegroupEntry :=
  { name := marker.base
    shape := .fixedArray entry.shape.type marker.length
      ((entry :: run).flatMap fun e => syntheticNamesOf e.name e.shape)
    chain := entry.chain.dropLast
    index := entry.index
    initialValue := ((entry :: run).mapM RegroupEntry.initialValue).map Logic.Nested.node }

theorem length_takeRun_le (marker : ChainEntry) (type : FieldType) (k : Nat)
    (entries : List RegroupEntry) :
    (takeRun marker type k entries).2.length ≤ entries.length := by
  induction entries generalizing k with
  | nil => exact Nat.le_refl 0
  | cons next rest ih =>
      unfold takeRun
      split
      · exact Nat.le_succ_of_le (ih (k + 1))
      · exact Nat.le_refl _

/-- One pass: collapse every maximal run of the innermost arrays. -/
def regroupOnePass : List RegroupEntry → List RegroupEntry × Bool
  | [] => ([], false)
  | entry :: rest =>
      match entry.chain.getLast? with
      | none =>
          let (out, changed) := regroupOnePass rest
          (entry :: out, changed)
      | some marker =>
          if marker.index ≠ 0 then
            let (out, changed) := regroupOnePass rest
            (entry :: out, changed)
          else
            if (takeRun marker entry.shape.type 1 rest).1.length + 1 ≠ marker.length then
              let (out, changed) := regroupOnePass rest
              (entry :: out, changed)
            else
              let out := (regroupOnePass (takeRun marker entry.shape.type 1 rest).2).1
              (collapse marker entry (takeRun marker entry.shape.type 1 rest).1 :: out, true)
  termination_by entries => entries.length
  decreasing_by
    all_goals simp only [List.length_cons]
    · omega
    · omega
    · omega
    · exact Nat.lt_succ_of_le (length_takeRun_le _ _ _ _)

/-- What the artifact assembler can throw. -/
inductive AssemblerError where
  /-- `regroupSyntheticRuns: exceeded iteration cap (pathological chain nesting?)` -/
  | iterationCap
  deriving Repr

/-- Regroup until a pass changes nothing. -/
def regroupLoop : Nat → List RegroupEntry → Except AssemblerError (List RegroupEntry)
  | 0, _ => .error .iterationCap
  | iterations + 1, entries =>
      if (regroupOnePass entries).2 then regroupLoop iterations (regroupOnePass entries).1
      else .ok (regroupOnePass entries).1

def regroupSyntheticRuns (entries : List RegroupEntry) :
    Except AssemblerError (List RegroupEntry) :=
  regroupLoop 1024 entries

/-- The entries of the mutable properties, from the one at position `i` on, without their
initial values. -/
def flatEntries (i : Nat) : List PropertyNode → List RegroupEntry
  | [] => []
  | prop :: rest =>
      if prop.readonly then flatEntries (i + 1) rest
      else
        { name := prop.name, shape := .scalar prop.type, chain := prop.syntheticArrayChain,
          index := i } :: flatEntries (i + 1) rest

/-- The order of serialization. -/
def fieldOrder (a b : StateField) : Bool := a.index ≤ b.index

/-- The state fields of the artifact, in serialization order. -/
def extractStateFields (properties : List PropertyNode) :
    Except AssemblerError (List StateField) := do
  let regrouped ← regroupSyntheticRuns (flatEntries 0 properties)
  .ok ((regrouped.map fun e => { name := e.name, shape := e.shape, index := e.index }).mergeSort
    fieldOrder)

/-! ## What the fields list -/

/-- The scalars of a field: a name and a type for each. -/
def leavesOf (name : String) (shape : FieldShape) : List (String × PrimitiveType) :=
  (syntheticNamesOf name shape).map fun n => (n, unwrapFixedArrayLeaf shape.type)

def entryLeaves (entries : List RegroupEntry) : List (String × PrimitiveType) :=
  entries.flatMap fun e => leavesOf e.name e.shape

def fieldLeaves (fields : List StateField) : List (String × PrimitiveType) :=
  fields.flatMap fun f => leavesOf f.name f.shape

/-- The scalars the compiled code serializes: the mutable properties. -/
def stateLeaves (properties : List ANFProperty) : List (String × PrimitiveType) :=
  (properties.filter fun p => !p.isReadonly).map fun p => (p.name, p.type)

/-- The indices of some entries. -/
def indices (entries : List RegroupEntry) : List Nat := entries.map (·.index)

theorem entryLeaves_cons (entry : RegroupEntry) (entries : List RegroupEntry) :
    entryLeaves (entry :: entries) = leavesOf entry.name entry.shape ++ entryLeaves entries :=
  List.flatMap_cons

theorem entryLeaves_append (xs ys : List RegroupEntry) :
    entryLeaves (xs ++ ys) = entryLeaves xs ++ entryLeaves ys :=
  List.flatMap_append

/-- A run is a front of the entries, of one type. -/
theorem takeRun_spec (marker : ChainEntry) (type : FieldType) (k : Nat)
    (entries : List RegroupEntry) :
    (takeRun marker type k entries).1 ++ (takeRun marker type k entries).2 = entries ∧
      ∀ e ∈ (takeRun marker type k entries).1, e.shape.type = type := by
  induction entries generalizing k with
  | nil => exact ⟨rfl, fun e he => by cases he⟩
  | cons next rest ih =>
      unfold takeRun
      split
      case isTrue h =>
        obtain ⟨happ, htype⟩ := ih (k + 1)
        refine ⟨congrArg (next :: ·) happ, ?_⟩
        intro e he
        rcases List.mem_cons.mp he with rfl | he
        · rw [Bool.and_eq_true] at h
          have hext := h.2
          unfold extendsRun at hext
          split at hext
          · cases hext
          · rw [Bool.and_eq_true] at hext
            exact eq_of_beq hext.2
        · exact htype e he
      case isFalse => exact ⟨rfl, fun e he => by cases he⟩

/-- Collapsing a run of one type keeps its scalars. -/
theorem leavesOf_collapse (marker : ChainEntry) (entry : RegroupEntry)
    {run : List RegroupEntry} (htype : ∀ e ∈ run, e.shape.type = entry.shape.type) :
    leavesOf (collapse marker entry run).name (collapse marker entry run).shape =
      entryLeaves (entry :: run) := by
  have hall : ∀ e ∈ entry :: run, e.shape.type = entry.shape.type := by
    intro e he
    rcases List.mem_cons.mp he with rfl | he
    · rfl
    · exact htype e he
  unfold leavesOf entryLeaves collapse
  rw [syntheticNamesOf, List.map_flatMap]
  refine List.flatMap_congr ?_
  intro e he
  unfold leavesOf
  rw [hall e he]
  rfl

/-- One pass keeps the scalars. -/
theorem entryLeaves_regroupOnePass (entries : List RegroupEntry) :
    entryLeaves (regroupOnePass entries).1 = entryLeaves entries := by
  fun_induction regroupOnePass entries with
  | case1 => rfl
  | case2 entry rest _ out changed hrec ih
  | case3 entry rest _ _ _ out changed hrec ih
  | case4 entry rest _ _ _ _ out changed hrec ih =>
      rw [hrec] at ih
      rw [entryLeaves_cons, entryLeaves_cons, ih]
  | case5 entry rest marker _ _ _ out ih =>
      obtain ⟨happ, htype⟩ := takeRun_spec marker entry.shape.type 1 rest
      show entryLeaves (collapse marker entry (takeRun marker entry.shape.type 1 rest).1 ::
        (regroupOnePass (takeRun marker entry.shape.type 1 rest).2).1) = _
      rw [entryLeaves_cons, leavesOf_collapse marker entry htype, ih, ← entryLeaves_append,
        List.cons_append, happ]

/-- One pass only drops indices. -/
theorem indices_regroupOnePass (entries : List RegroupEntry) :
    (indices (regroupOnePass entries).1).Sublist (indices entries) := by
  fun_induction regroupOnePass entries with
  | case1 => exact List.Sublist.refl _
  | case2 entry rest _ out changed hrec ih
  | case3 entry rest _ _ _ out changed hrec ih
  | case4 entry rest _ _ _ _ out changed hrec ih =>
      rw [hrec] at ih
      exact ih.cons_cons entry.index
  | case5 entry rest marker _ _ _ out ih =>
      obtain ⟨happ, _⟩ := takeRun_spec marker entry.shape.type 1 rest
      refine List.Sublist.cons_cons entry.index (ih.trans ?_)
      have hafter : (takeRun marker entry.shape.type 1 rest).2.Sublist rest := by
        have hright := List.sublist_append_right (takeRun marker entry.shape.type 1 rest).1
          (takeRun marker entry.shape.type 1 rest).2
        rwa [happ] at hright
      exact hafter.map _

/-- Regrouping keeps the scalars, and only drops indices. -/
theorem regroupLoop_spec {iterations : Nat} {entries out : List RegroupEntry}
    (h : regroupLoop iterations entries = .ok out) :
    entryLeaves out = entryLeaves entries ∧ (indices out).Sublist (indices entries) := by
  induction iterations generalizing entries with
  | zero => cases h
  | succ iterations ih =>
      unfold regroupLoop at h
      split at h
      · obtain ⟨hleaves, hindices⟩ := ih h
        exact ⟨hleaves.trans (entryLeaves_regroupOnePass entries),
          hindices.trans (indices_regroupOnePass entries)⟩
      · cases h
        exact ⟨entryLeaves_regroupOnePass entries, indices_regroupOnePass entries⟩

/-- The entries start from the mutable properties. -/
theorem entryLeaves_flatEntries (i : Nat) (properties : List PropertyNode) :
    entryLeaves (flatEntries i properties) = stateLeaves (lowerProperties properties) := by
  induction properties generalizing i with
  | nil => rfl
  | cons prop rest ih =>
      rw [flatEntries]
      cases hro : prop.readonly with
      | true =>
          rw [if_pos rfl, ih (i + 1)]
          simp [stateLeaves, lowerProperties, lowerProperty, hro]
      | false =>
          rw [if_neg Bool.false_ne_true, entryLeaves_cons, ih (i + 1)]
          simp [stateLeaves, lowerProperties, lowerProperty, hro, leavesOf, syntheticNamesOf,
            FieldShape.type, unwrapFixedArrayLeaf]

theorem le_of_mem_indices_flatEntries {i j : Nat} {properties : List PropertyNode}
    (h : j ∈ indices (flatEntries i properties)) : i ≤ j := by
  induction properties generalizing i with
  | nil => cases h
  | cons prop rest ih =>
      unfold flatEntries at h
      split at h
      · exact Nat.le_of_succ_le (ih h)
      · rcases List.mem_cons.mp h with rfl | h
        · exact Nat.le_refl _
        · exact Nat.le_of_succ_le (ih h)

/-- Declaration order is the order of the indices. -/
theorem pairwise_indices_flatEntries (i : Nat) (properties : List PropertyNode) :
    (indices (flatEntries i properties)).Pairwise (· < ·) := by
  induction properties generalizing i with
  | nil => exact List.Pairwise.nil
  | cons prop rest ih =>
      unfold flatEntries
      split
      · exact ih (i + 1)
      · exact List.pairwise_cons.mpr ⟨fun j hj => le_of_mem_indices_flatEntries hj, ih (i + 1)⟩

/-- The field an entry ends up as. -/
def toField (entry : RegroupEntry) : StateField :=
  { name := entry.name, shape := entry.shape, index := entry.index }

theorem pairwise_toField {entries : List RegroupEntry} (h : (indices entries).Pairwise (· < ·)) :
    (entries.map toField).Pairwise fun a b => fieldOrder a b := by
  rw [indices, List.pairwise_map] at h
  rw [List.pairwise_map]
  exact h.imp fun hab => decide_eq_true (Nat.le_of_lt hab)

/-- The state fields are sorted, and their scalars are the mutable properties in
declaration order. -/
theorem extractStateFields_spec {properties : List PropertyNode} {fields : List StateField}
    (h : extractStateFields properties = .ok fields) :
    fieldLeaves fields = stateLeaves (lowerProperties properties) ∧
      fields.Pairwise fun a b => fieldOrder a b := by
  unfold extractStateFields at h
  cases hregroup : regroupSyntheticRuns (flatEntries 0 properties) with
  | error e =>
      rw [hregroup] at h
      cases h
  | ok regrouped =>
      rw [hregroup] at h
      cases h
      obtain ⟨hleaves, hindices⟩ := regroupLoop_spec hregroup
      have hsorted := pairwise_toField ((pairwise_indices_flatEntries 0 properties).sublist hindices)
      show fieldLeaves ((regrouped.map toField).mergeSort fieldOrder) = _ ∧
        ((regrouped.map toField).mergeSort fieldOrder).Pairwise _
      rw [List.mergeSort_of_pairwise hsorted]
      refine ⟨?_, hsorted⟩
      rw [← entryLeaves_flatEntries 0 properties, ← hleaves]
      exact List.flatMap_map toField (fun f => leavesOf f.name f.shape) regrouped

/-- Without array elements there is nothing to regroup. -/
theorem regroupOnePass_of_no_chain {entries : List RegroupEntry}
    (h : ∀ e ∈ entries, e.chain = []) : regroupOnePass entries = (entries, false) := by
  induction entries with
  | nil => simp [regroupOnePass]
  | cons entry entries ih =>
      have hentry := h entry List.mem_cons_self
      simp [regroupOnePass, hentry, ih fun e he => h e (List.mem_cons_of_mem entry he)]

theorem chain_flatEntries {i : Nat} {properties : List PropertyNode}
    (h : ∀ p ∈ properties, p.syntheticArrayChain = []) :
    ∀ e ∈ flatEntries i properties, e.chain = [] := by
  induction properties generalizing i with
  | nil =>
      intro e he
      cases he
  | cons prop rest ih =>
      have hrest := ih (i := i + 1) fun p hp => h p (List.mem_cons_of_mem prop hp)
      unfold flatEntries
      split
      · exact hrest
      · intro e he
        rcases List.mem_cons.mp he with rfl | he
        · exact h prop List.mem_cons_self
        · exact hrest e he

/-- The fields of a contract without arrays are its mutable properties. -/
theorem extractStateFields_of_scalars {properties : List PropertyNode}
    (h : ∀ p ∈ properties, p.syntheticArrayChain = []) :
    extractStateFields properties = .ok ((flatEntries 0 properties).map toField) := by
  have hpass := regroupOnePass_of_no_chain (chain_flatEntries (i := 0) h)
  have hloop : regroupSyntheticRuns (flatEntries 0 properties) =
      .ok (flatEntries 0 properties) := by
    unfold regroupSyntheticRuns regroupLoop
    rw [hpass]
    rfl
  have hsorted := pairwise_toField (pairwise_indices_flatEntries 0 properties)
  unfold extractStateFields
  rw [hloop]
  exact congrArg Except.ok (List.mergeSort_of_pairwise hsorted)

end Runar.Artifact
