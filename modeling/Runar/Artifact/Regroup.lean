/-
  Artifact/Regroup.lean --- arrays in the artifact.

  WHAT THIS FILE IS FOR.  The compiler lowers an array property as a scalar for each element,
  and the artifact shows the array again: pass by pass, the elements of every innermost array
  are put together, by the marks the expansion left on them.  This file shows that what comes
  out is one field for each property of the source, and says when its initial value is the
  source's: that is looked up by name.
-/
import Runar.Artifact.Expand

set_option autoImplicit false

namespace Runar.Artifact

open Ast (Expression TypeNode)
open Logic Nested

/-! ## Initial values -/

/-- The initial value of the first property of a name. -/
def initialValueOf (anf : List ANFProperty) (name : String) : Option ConstValue :=
  (anf.find? (·.name == name)).bind (·.initialValue)

/-- The entries of the mutable properties, with their initial values. -/
def initialEntries (anf : List ANFProperty) (properties : List PropertyNode) :
    List RegroupEntry :=
  (flatEntries 0 properties).map fun entry =>
    { entry with initialValue := (initialValueOf anf entry.name).map .leaf }

/-- The value of a literal of a type. -/
def literalValue : TypeNode → Option Expression → Option InitialValue
  | .primitive _, init => (init.bind extractLiteralValue).map .leaf
  | .fixedArray element _, some (.arrayLiteral elements) =>
      (elements.mapM fun e => literalValue element (some e)).map .node
  | _, _ => none

/-! ## Types -/

def primitiveName : PrimitiveType → String
  | .bigint => "bigint"
  | .boolean => "boolean"
  | .ByteString => "ByteString"
  | .PubKey => "PubKey"
  | .Sig => "Sig"
  | .Sha256 => "Sha256"
  | .Ripemd160 => "Ripemd160"
  | .Addr => "Addr"
  | .SigHashPreimage => "SigHashPreimage"
  | .RabinSig => "RabinSig"
  | .RabinPubKey => "RabinPubKey"
  | .Point => "Point"
  | .P256Point => "P256Point"
  | .P384Point => "P384Point"

/-- The text of a type of the source. -/
def typeToString : TypeNode → String
  | .primitive type => primitiveName type
  | .fixedArray element length =>
      "FixedArray<" ++ typeToString element ++ ", " ++ toString length ++ ">"
  | .void => "void"
  | .custom name => name

/-- The text of a type of the artifact. -/
def FieldType.toString : FieldType → String
  | .primitive type => primitiveName type
  | .fixedArray elementType length =>
      "FixedArray<" ++ elementType.toString ++ ", " ++ ToString.toString length ++ ">"

/-- The lengths of an array type, outermost first, and its scalar type. -/
def dimsOf : TypeNode → Option (List Nat × PrimitiveType)
  | .primitive type => some ([], type)
  | .fixedArray element length => (dimsOf element).map fun (dims, type) => (length :: dims, type)
  | .void | .custom _ => none

/-- The array type of some lengths. -/
def arrayType (type : PrimitiveType) : List Nat → FieldType
  | [] => .primitive type
  | n :: dims => .fixedArray (arrayType type dims) n

theorem toString_arrayType {node : TypeNode} {dims : List Nat} {type : PrimitiveType}
    (h : dimsOf node = some (dims, type)) :
    FieldType.toString (arrayType type dims) = typeToString node := by
  induction node generalizing dims with
  | primitive type =>
    cases h
    rfl
  | fixedArray element length ih =>
    obtain ⟨⟨rest, type'⟩, hrest, heq⟩ := Option.map_eq_some_iff.mp h
    cases heq
    show "FixedArray<" ++ FieldType.toString (arrayType type rest) ++ ", " ++ toString length ++
      ">" = "FixedArray<" ++ typeToString element ++ ", " ++ toString length ++ ">"
    rw [ih hrest]
  | void => exact nomatch h
  | custom name => exact nomatch h

/-! ## The elements of a property -/

/-- The name of the element at a place. -/
def elementName (name : String) : List Nat → String
  | [] => name
  | i :: path => elementName (name ++ "__" ++ toString i) path

/-- The marks of the element at a place. -/
def elementChain (name : String) : List Nat → List Nat → List ChainEntry
  | n :: dims, i :: path =>
      { base := name, index := i, length := n } ::
        elementChain (name ++ "__" ++ toString i) dims path
  | _, _ => []

/-- The element of an initializer. -/
def initAt (init : Option Expression) (i : Nat) : Option Expression :=
  match init with
  | some (.arrayLiteral elements) => elements[i]?
  | _ => none

/-- The constant an initializer has at a place. -/
def literalAt (init : Option Expression) : List Nat → Option ConstValue
  | [] => init.bind extractLiteralValue
  | i :: path => literalAt (initAt init i) path

theorem elementName_concat (name : String) (path : List Nat) (i : Nat) :
    elementName name (path ++ [i]) = elementName name path ++ "__" ++ toString i := by
  induction path generalizing name with
  | nil => rfl
  | cons j path ih => exact ih _

theorem elementChain_concat (name : String) {dims path : List Nat} {n : Nat} (rest : List Nat)
    (h : path.length = dims.length) (i : Nat) :
    elementChain name (dims ++ n :: rest) (path ++ [i]) =
      elementChain name (dims ++ n :: rest) path ++
        [{ base := elementName name path, index := i, length := n }] := by
  induction path generalizing name dims with
  | nil =>
    obtain rfl := List.eq_nil_of_length_eq_zero h.symm
    simp [elementChain, elementName]
  | cons j path ih =>
    cases dims with
    | nil => exact nomatch h
    | cons m dims =>
      rw [List.cons_append, List.cons_append, elementChain, elementChain, List.cons_append,
        ih _ (Nat.succ.inj h), elementName]

/-- The scalars an array property is expanded into. -/
def scalarsOf (readonly : Bool) (type : PrimitiveType) (name : String) (chain : List ChainEntry)
    (dims : List Nat) (init : Option Expression) : List PropertyNode :=
  (paths dims).map fun path =>
    { name := elementName name path, type, readonly, initializer := literalAt init path,
      syntheticArrayChain := chain ++ elementChain name dims path }

theorem scalarsOf_cons (readonly : Bool) (type : PrimitiveType) (name : String)
    (chain : List ChainEntry) (n : Nat) (dims : List Nat) (init : Option Expression) :
    scalarsOf readonly type name chain (n :: dims) init =
      (List.range n).flatMap fun i => scalarsOf readonly type (name ++ "__" ++ toString i)
        (chain ++ [{ base := name, index := i, length := n }]) dims (initAt init i) := by
  rw [scalarsOf, paths, List.map_flatMap]
  refine List.flatMap_congr fun i _ => ?_
  rw [List.map_map, scalarsOf]
  refine List.map_congr_left fun path _ => ?_
  rw [Function.comp_apply, elementName, elementChain, literalAt, List.append_assoc,
    List.singleton_append]

theorem arrayElements_eq {name : String} {length : Nat} {init : Option Expression}
    {elements : List (Option Expression)} (h : arrayElements name length init = .ok elements) :
    elements = (List.range length).map (initAt init) := by
  cases init with
  | none =>
    cases h
    exact (List.eq_replicate_iff.mpr ⟨by simp, by simp [initAt]⟩).symm
  | some e =>
    cases e with
    | arrayLiteral es =>
      rw [arrayElements] at h
      split at h
      · next hlength =>
        cases h
        refine List.ext_getElem (by simp [hlength]) fun i hi _ => ?_
        rw [List.getElem_map, List.getElem_map, List.getElem_range, initAt,
          List.getElem?_eq_getElem (by simpa using hi)]
      · exact nomatch h
    | _ => exact nomatch h

/-- An array is expanded element by element. -/
theorem expandType_fixedArray {readonly : Bool} {element : TypeNode} {length : Nat} {name : String}
    {chain : List ChainEntry} {init : Option Expression} {props : List PropertyNode}
    (h : expandType readonly name chain (.fixedArray element length) init = .ok props) :
    0 < length ∧ arrayElements name length init = .ok ((List.range length).map (initAt init)) ∧
      ∃ slots, props = slots.flatten ∧
        List.Forall₂ (fun i slot => expandType readonly (name ++ "__" ++ toString i)
          (chain ++ [{ base := name, index := i, length := length }]) element (initAt init i) =
            .ok slot) (List.range length) slots := by
  rw [expandType] at h
  by_cases hlength : length = 0
  · rw [if_pos hlength] at h
    exact nomatch h
  rw [if_neg hlength] at h
  cases helements : arrayElements name length init with
  | error e =>
    rw [helements] at h
    exact nomatch h
  | ok elements =>
    rw [helements] at h
    obtain rfl := arrayElements_eq helements
    have hzip : ((List.range length).map (initAt init)).zipIdx =
        (List.range length).map fun i => (initAt init i, i) := by
      refine List.ext_getElem (by simp) fun i _ _ => ?_
      simp
    change ((((List.range length).map (initAt init)).zipIdx.mapM fun slot =>
      expandType readonly (name ++ "__" ++ toString slot.2)
        (chain ++ [{ base := name, index := slot.2, length := length }]) element slot.1) >>=
      fun slots => .ok slots.flatten) = .ok props at h
    rw [hzip] at h
    cases hslots : ((List.range length).map fun i => (initAt init i, i)).mapM fun slot =>
        expandType readonly (name ++ "__" ++ toString slot.2)
          (chain ++ [{ base := name, index := slot.2, length := length }]) element slot.1 with
    | error e =>
      rw [hslots] at h
      exact nomatch h
    | ok slots =>
      rw [hslots] at h
      cases h
      exact ⟨Nat.pos_of_ne_zero hlength, rfl, slots, rfl,
        List.forall₂_map_left_iff.mp (forall₂_of_mapM_ok hslots)⟩

/-- What an expansion gives. -/
theorem expandType_ok {readonly : Bool} {node : TypeNode} {name : String}
    {chain : List ChainEntry} {init : Option Expression} {props : List PropertyNode}
    (h : expandType readonly name chain node init = .ok props) :
    ∃ dims type, dimsOf node = some (dims, type) ∧ (∀ n ∈ dims, 0 < n) ∧
      props = scalarsOf readonly type name chain dims init := by
  induction node generalizing name chain init props with
  | primitive type =>
    rw [expandType] at h
    cases h
    refine ⟨[], type, rfl, fun _ h => (by cases h), ?_⟩
    rw [scalarsOf, paths, List.map_singleton, elementChain, List.append_nil]
    · rfl
    · simp
  | void =>
    rw [expandType] at h
    cases h
  | custom other =>
    rw [expandType] at h
    cases h
  | fixedArray element length ih =>
    obtain ⟨hlength, -, slots, rfl, hslots⟩ := expandType_fixedArray h
    -- the lengths inside are those of the first element
    obtain ⟨first, -, hfirst⟩ := exists_of_forall₂ hslots (List.mem_range.mpr hlength)
    obtain ⟨dims, type, hdims, hpos, -⟩ := ih hfirst
    refine ⟨length :: dims, type, by rw [dimsOf, hdims]; rfl, ?_, ?_⟩
    · intro n hn
      rcases List.mem_cons.mp hn with rfl | hn
      · exact hlength
      · exact hpos n hn
    · rw [scalarsOf_cons, List.flatMap_def]
      refine congrArg List.flatten (eq_map_of_forall₂ hslots fun i _ slot hslot => ?_)
      obtain ⟨dims', type', hdims', -, rfl⟩ := ih hslot
      cases hdims.symm.trans hdims'
      rfl

theorem literalAt_none (path : List Nat) : literalAt none path = none := by
  induction path with
  | nil => rfl
  | cons i path ih => exact ih

theorem literalValue_none (node : TypeNode) : literalValue node none = none := by
  cases node <;> rfl

/-- The value of an initializer that was expanded, element by element. -/
theorem literalValue_eq {readonly : Bool} {node : TypeNode} {name : String}
    {chain : List ChainEntry} {init : Option Expression} {props : List PropertyNode}
    (h : expandType readonly name chain node init = .ok props) {dims : List Nat}
    {type : PrimitiveType} (hdims : dimsOf node = some (dims, type)) :
    literalValue node init = build dims (literalAt init) := by
  induction node generalizing name chain init props dims with
  | primitive type =>
    cases hdims
    rfl
  | void => cases hdims
  | custom other => cases hdims
  | fixedArray element length ih =>
    obtain ⟨⟨rest, type'⟩, hrest, heq⟩ := Option.map_eq_some_iff.mp hdims
    cases heq
    obtain ⟨hlength, helements, slots, -, hslots⟩ := expandType_fixedArray h
    have hslot : ∀ i ∈ List.range length,
        literalValue element (initAt init i) = build rest (literalAt (initAt init i)) := by
      intro i hi
      obtain ⟨slot, -, hslot⟩ := exists_of_forall₂ hslots hi
      exact ih hslot hrest
    have hbuild : build (length :: rest) (literalAt init) =
        (((List.range length).map (initAt init)).mapM (literalValue element)).map .node := by
      rw [build, mapM_map]
      exact congrArg _ (mapM_congr fun i hi => (hslot i hi).symm)
    rw [hbuild]
    cases init with
    | none =>
      rw [literalValue_none, mapM_map]
      have hnone : ((List.range length).mapM fun i => literalValue element (initAt none i)) =
          none :=
        mapM_eq_none_iff.mpr ⟨0, List.mem_range.mpr hlength, literalValue_none element⟩
      rw [hnone]
      rfl
    | some e =>
      cases e with
      | arrayLiteral es =>
        rw [arrayElements] at helements
        split at helements
        · rw [← Except.ok.inj helements, mapM_map, literalValue]
        · cases helements
      | _ => cases helements

/-! ## One pass -/

/-- The shape of an array of some lengths. -/
def shapeOf (type : PrimitiveType) (name : String) : List Nat → FieldShape
  | [] => .scalar type
  | n :: dims => .fixedArray (arrayType type dims) n ((paths (n :: dims)).map (elementName name))

theorem type_shapeOf (type : PrimitiveType) (name : String) (dims : List Nat) :
    (shapeOf type name dims).type = arrayType type dims := by
  cases dims <;> rfl

theorem syntheticNamesOf_shapeOf (type : PrimitiveType) (name : String) (dims : List Nat) :
    syntheticNamesOf name (shapeOf type name dims) = (paths dims).map (elementName name) := by
  cases dims <;> rfl

/-- A mutable property of the source, with the position of its first scalar. -/
structure SourceArray where
  name : String
  dims : List Nat
  type : PrimitiveType
  start : Nat

namespace SourceArray

variable (find : String → Option ConstValue)

/-- The entry of the element at a place, put together from its own elements. -/
def entryAt (a : SourceArray) (path : List Nat) : RegroupEntry where
  name := elementName a.name path
  shape := shapeOf a.type (elementName a.name path) (a.dims.drop path.length)
  chain := elementChain a.name a.dims path
  index := a.start + offset a.dims path
  initialValue := build (a.dims.drop path.length)
    fun rest => find (elementName (elementName a.name path) rest)

/-- The entries after some passes. -/
def level (k : Nat) (a : SourceArray) : List RegroupEntry :=
  (paths (a.dims.take (a.dims.length - k))).map (a.entryAt find)

end SourceArray

open SourceArray

theorem takeRun_run {marker : ChainEntry} {type : FieldType} {run : List RegroupEntry}
    (rest : List RegroupEntry) {k : Nat} (hlength : k + run.length = marker.length)
    (h : ∀ j (hj : j < run.length), extendsRun marker type (k + j) run[j] = true) :
    takeRun marker type k (run ++ rest) = (run, rest) := by
  induction run generalizing k with
  | nil =>
    cases rest with
    | nil => rfl
    | cons next rest =>
      have hk : ¬ k < marker.length := by
        rw [← hlength]
        exact Nat.lt_irrefl k
      rw [List.nil_append, takeRun, decide_eq_false hk]
      rfl
  | cons next run ih =>
    have hk : k < marker.length := by
      rw [← hlength, List.length_cons]
      omega
    have hnext : extendsRun marker type k next = true := h 0 (Nat.succ_pos _)
    rw [List.cons_append, takeRun, decide_eq_true hk, hnext, Bool.and_self, if_pos rfl,
      ih (by rw [← hlength, List.length_cons]; omega) fun j hj => ?_]
    have hj' := h (j + 1) (Nat.succ_lt_succ hj)
    rwa [List.getElem_cons_succ, show k + (j + 1) = k + 1 + j by omega] at hj'

/-- A whole run is put together. -/
theorem regroupOnePass_run {entry : RegroupEntry} {marker : ChainEntry}
    {run rest : List RegroupEntry} (hmarker : entry.chain.getLast? = some marker)
    (hindex : marker.index = 0) (hlength : run.length + 1 = marker.length)
    (h : ∀ j (hj : j < run.length), extendsRun marker entry.shape.type (1 + j) run[j] = true) :
    regroupOnePass (entry :: (run ++ rest)) =
      (collapse marker entry run :: (regroupOnePass rest).1, true) := by
  have htake : takeRun marker entry.shape.type 1 (run ++ rest) = (run, rest) :=
    takeRun_run rest (by omega) h
  rw [regroupOnePass, hmarker]
  dsimp only
  rw [if_neg (not_not_intro hindex), htake, if_neg (not_not_intro hlength)]

/-- An entry without marks stays. -/
theorem regroupOnePass_unmarked {entry : RegroupEntry} (rest : List RegroupEntry)
    (h : entry.chain = []) :
    regroupOnePass (entry :: rest) =
      (entry :: (regroupOnePass rest).1, (regroupOnePass rest).2) := by
  rw [regroupOnePass, h]
  rfl

section Pass

variable {find : String → Option ConstValue} {a : SourceArray} {outer inner : List Nat} {n : Nat}

/-- The elements of an element. -/
def elementsAt (find : String → Option ConstValue) (a : SourceArray) (n : Nat) (path : List Nat) :
    List RegroupEntry :=
  (List.range n).map fun i => a.entryAt find (path ++ [i])

theorem drop_element (hdims : a.dims = outer ++ n :: inner) {path : List Nat}
    (hpath : path.length = outer.length) (i : Nat) : a.dims.drop (path ++ [i]).length = inner := by
  rw [hdims, List.length_append, hpath, List.length_singleton, ← List.drop_drop, List.drop_left]
  rfl

theorem type_element (hdims : a.dims = outer ++ n :: inner) {path : List Nat}
    (hpath : path.length = outer.length) (i : Nat) :
    (a.entryAt find (path ++ [i])).shape.type = arrayType a.type inner := by
  rw [entryAt, type_shapeOf, drop_element hdims hpath]

/-- The last mark of an element. -/
theorem chain_element (hdims : a.dims = outer ++ n :: inner) {path : List Nat}
    (hpath : path.length = outer.length) (i : Nat) :
    (a.entryAt find (path ++ [i])).chain = elementChain a.name a.dims path ++
      [{ base := elementName a.name path, index := i, length := n }] := by
  rw [entryAt, hdims, elementChain_concat a.name inner hpath]

/-- What the element at a place is put together as. -/
theorem collapse_elementsAt (hdims : a.dims = outer ++ n :: inner) {path : List Nat}
    (hpath : path.length = outer.length) (run : List RegroupEntry)
    (hrun : a.entryAt find (path ++ [0]) :: run = elementsAt find a n path) :
    collapse { base := elementName a.name path, index := 0, length := n }
      (a.entryAt find (path ++ [0])) run = a.entryAt find path := by
  have hdrop : a.dims.drop path.length = n :: inner := by
    rw [hdims, hpath, List.drop_left]
  have hname : ∀ i rest, elementName (elementName a.name (path ++ [i])) rest =
      elementName (elementName a.name path) (i :: rest) := by
    intro i rest
    rw [elementName_concat]
    rfl
  have hnames : ((elementsAt find a n path).flatMap fun e => syntheticNamesOf e.name e.shape) =
      (paths (n :: inner)).map (elementName (elementName a.name path)) := by
    rw [elementsAt, List.flatMap_map, paths, List.map_flatMap]
    refine List.flatMap_congr fun i _ => ?_
    rw [entryAt, syntheticNamesOf_shapeOf, drop_element hdims hpath, List.map_map]
    exact List.map_congr_left fun rest _ => hname i rest
  have hchain : (a.entryAt find (path ++ [0])).chain.dropLast =
      elementChain a.name a.dims path := by
    rw [chain_element hdims hpath, List.dropLast_concat]
  have hvalue : ((elementsAt find a n path).mapM RegroupEntry.initialValue).map .node =
      build (n :: inner) fun rest => find (elementName (elementName a.name path) rest) := by
    rw [elementsAt, mapM_map, build]
    refine congrArg _ (mapM_congr fun i _ => ?_)
    rw [entryAt, drop_element hdims hpath]
    exact build_congr fun rest _ => congrArg find (hname i rest)
  rw [collapse, hrun, type_element hdims hpath, hnames, hchain, hvalue, entryAt, entryAt, hdrop,
    offset_concat_zero]
  rfl

theorem extendsRun_element (hdims : a.dims = outer ++ n :: inner) {path : List Nat}
    (hpath : path.length = outer.length) (i : Nat) :
    extendsRun { base := elementName a.name path, index := 0, length := n }
      (arrayType a.type inner) i (a.entryAt find (path ++ [i])) = true := by
  rw [extendsRun, chain_element hdims hpath, List.getLast?_concat, type_element hdims hpath]
  simp

/-- The elements of one element are put together. -/
theorem regroupOnePass_elementsAt (hdims : a.dims = outer ++ n :: inner) (hn : 0 < n)
    {path : List Nat} (hpath : path.length = outer.length) (rest : List RegroupEntry) :
    regroupOnePass (elementsAt find a n path ++ rest) =
      (a.entryAt find path :: (regroupOnePass rest).1, true) := by
  obtain ⟨m, rfl⟩ := Nat.exists_eq_succ_of_ne_zero (Nat.ne_of_gt hn)
  have hrun : elementsAt find a (m + 1) path = a.entryAt find (path ++ [0]) ::
      (List.range m).map fun i => a.entryAt find (path ++ [i + 1]) := by
    rw [elementsAt, List.range_succ_eq_map, List.map_cons, List.map_map]
    rfl
  have hmarker : (a.entryAt find (path ++ [0])).chain.getLast? =
      some { base := elementName a.name path, index := 0, length := m + 1 } := by
    rw [chain_element hdims hpath, List.getLast?_concat]
  rw [hrun, List.cons_append, regroupOnePass_run hmarker rfl (by simp) fun j hj => ?_,
    collapse_elementsAt hdims hpath _ hrun.symm]
  rw [List.getElem_map, List.getElem_range, type_element hdims hpath, Nat.add_comm 1 j]
  exact extendsRun_element hdims hpath (j + 1)

/-- The elements of some elements are put together. -/
theorem regroupOnePass_flatMap (hdims : a.dims = outer ++ n :: inner) (hn : 0 < n)
    {places : List (List Nat)} (hplaces : ∀ path ∈ places, path.length = outer.length)
    (rest : List RegroupEntry) :
    regroupOnePass (places.flatMap (elementsAt find a n) ++ rest) =
      (places.map (a.entryAt find) ++ (regroupOnePass rest).1,
        !places.isEmpty || (regroupOnePass rest).2) := by
  induction places with
  | nil => rfl
  | cons path places ih =>
    rw [List.flatMap_cons, List.append_assoc,
      regroupOnePass_elementsAt hdims hn (hplaces path List.mem_cons_self),
      ih fun path' hpath' => hplaces path' (.tail _ hpath')]
    rfl

/-- A pass takes a property one level up. -/
theorem regroupOnePass_level (hpos : ∀ n ∈ a.dims, 0 < n) (k : Nat) (rest : List RegroupEntry) :
    regroupOnePass (a.level find k ++ rest) =
      (a.level find (k + 1) ++ (regroupOnePass rest).1,
        decide (k < a.dims.length) || (regroupOnePass rest).2) := by
  by_cases hk : k < a.dims.length
  · obtain ⟨m, hm⟩ : ∃ m, a.dims.length - k = m + 1 :=
      Nat.exists_eq_succ_of_ne_zero (Nat.sub_ne_zero_of_lt hk)
    have hmlt : m < a.dims.length := by omega
    have hdims : a.dims = a.dims.take m ++ a.dims[m] :: a.dims.drop (m + 1) := by
      rw [List.getElem_cons_drop, List.take_append_drop]
    have hlevel : a.level find k =
        (paths (a.dims.take m)).flatMap (elementsAt find a a.dims[m]) := by
      rw [level, hm, List.take_succ_eq_append_getElem hmlt, paths_concat, List.map_flatMap]
      refine List.flatMap_congr fun path _ => ?_
      rw [List.map_map]
      rfl
    have hnext : a.level find (k + 1) = (paths (a.dims.take m)).map (a.entryAt find) := by
      rw [level, show a.dims.length - (k + 1) = m by omega]
    have hplaces : ¬ (paths (a.dims.take m)).isEmpty = true := by
      rw [List.isEmpty_iff]
      exact paths_ne_nil fun n hn => hpos n (List.mem_of_mem_take hn)
    rw [hlevel, hnext, regroupOnePass_flatMap hdims (hpos _ (List.getElem_mem hmlt))
      (fun path hpath => length_of_mem_paths hpath), decide_eq_true hk,
      Bool.eq_false_iff.mpr hplaces]
    rfl
  · have hlevel : ∀ j, k ≤ j → a.level find j = [a.entryAt find []] := by
      intro j hj
      rw [level, show a.dims.length - j = 0 by omega]
      rfl
    have hchain : (a.entryAt find []).chain = [] := by
      rw [entryAt]
      cases a.dims <;> simp [elementChain]
    rw [hlevel k (Nat.le_refl k), hlevel (k + 1) (Nat.le_succ k), List.singleton_append,
      regroupOnePass_unmarked rest hchain, decide_eq_false hk, Bool.false_or,
      List.singleton_append]

end Pass

/-! ## All passes -/

section Passes

variable {find : String → Option ConstValue} {arrays : List SourceArray}

/-- A pass takes every property one level up. -/
theorem regroupOnePass_levels (hpos : ∀ a ∈ arrays, ∀ n ∈ a.dims, 0 < n) (k : Nat) :
    regroupOnePass (arrays.flatMap (level find k)) =
      (arrays.flatMap (level find (k + 1)), arrays.any fun a => decide (k < a.dims.length)) := by
  induction arrays with
  | nil =>
    rw [List.flatMap_nil, regroupOnePass]
    rfl
  | cons a arrays ih =>
    rw [List.flatMap_cons, regroupOnePass_level (hpos a List.mem_cons_self),
      ih fun a' ha' => hpos a' (.tail _ ha')]
    rfl

theorem level_of_le {a : SourceArray} {k : Nat} (h : a.dims.length ≤ k) :
    a.level find k = [a.entryAt find []] := by
  rw [level, Nat.sub_eq_zero_of_le h]
  rfl

variable (find) in
/-- The passes end with one entry for each property, where there are enough of them. -/
theorem regroupLoop_levels (hpos : ∀ a ∈ arrays, ∀ n ∈ a.dims, 0 < n) {iterations k : Nat}
    (hchanged : iterations = 0 → ∃ a ∈ arrays, k ≤ a.dims.length) :
    ((∀ a ∈ arrays, a.dims.length < k + iterations) →
        regroupLoop iterations (arrays.flatMap (level find k)) =
          .ok (arrays.map (entryAt find · []))) ∧
      ((∃ a ∈ arrays, k + iterations ≤ a.dims.length) →
        regroupLoop iterations (arrays.flatMap (level find k)) = .error .iterationCap) := by
  induction iterations generalizing k with
  | zero =>
    obtain ⟨a, ha, hk⟩ := hchanged rfl
    exact ⟨fun hall => absurd (hall a ha) (Nat.not_lt.mpr hk), fun _ => rfl⟩
  | succ iterations ih =>
    rw [regroupLoop, regroupOnePass_levels hpos]
    dsimp only
    by_cases hany : (arrays.any fun a => decide (k < a.dims.length)) = true
    · rw [if_pos hany, show k + (iterations + 1) = k + 1 + iterations by omega]
      obtain ⟨a, ha, hk⟩ := List.any_eq_true.mp hany
      exact ih fun _ => ⟨a, ha, of_decide_eq_true hk⟩
    · rw [if_neg hany]
      have hle : ∀ a ∈ arrays, a.dims.length ≤ k := by
        intro a ha
        by_contra hlt
        exact hany (List.any_eq_true.mpr ⟨a, ha, decide_eq_true (Nat.lt_of_not_le hlt)⟩)
      refine ⟨fun _ => ?_, fun ⟨a, ha, hk⟩ => ?_⟩
      · refine congrArg Except.ok ?_
        rw [← List.flatMap_pure_eq_map]
        exact List.flatMap_congr fun a ha => level_of_le (Nat.le_succ_of_le (hle a ha))
      · have := hle a ha
        omega

end Passes

/-! ## From the source to the artifact -/

/-- The mutable properties of a contract. -/
def sourceArrays : Nat → List Ast.PropertyNode → List SourceArray
  | _, [] => []
  | i, prop :: rest =>
      match dimsOf prop.type with
      | none => sourceArrays i rest
      | some (dims, type) =>
          if prop.readonly then sourceArrays (i + dims.prod) rest
          else { name := prop.name, dims, type, start := i } :: sourceArrays (i + dims.prod) rest

theorem flatEntries_append (xs ys : List PropertyNode) (i : Nat) :
    flatEntries i (xs ++ ys) = flatEntries i xs ++ flatEntries (i + xs.length) ys := by
  induction xs generalizing i with
  | nil => rfl
  | cons x xs ih =>
    rw [List.cons_append, flatEntries, flatEntries, ih, List.length_cons,
      show i + 1 + xs.length = i + (xs.length + 1) by omega]
    split
    · rfl
    · rfl

theorem flatEntries_readonly {xs : List PropertyNode} (h : ∀ x ∈ xs, x.readonly = true) (i : Nat) :
    flatEntries i xs = [] := by
  induction xs generalizing i with
  | nil => rfl
  | cons x xs ih =>
    rw [flatEntries, if_pos (h x List.mem_cons_self), ih fun y hy => h y (.tail _ hy)]

/-- Mutable properties in a row have entries in a row. -/
theorem flatEntries_map {β : Type} {f : β → PropertyNode} {position : β → Nat} {xs : List β}
    {i : Nat} (hmutable : ∀ x ∈ xs, (f x).readonly = false)
    (hposition : xs.map position = List.range' i xs.length) :
    flatEntries i (xs.map f) = xs.map fun x =>
      { name := (f x).name, shape := .scalar (f x).type, chain := (f x).syntheticArrayChain,
        index := position x } := by
  induction xs generalizing i with
  | nil => rfl
  | cons x xs ih =>
    rw [List.map_cons, List.length_cons, List.range'_succ] at hposition
    obtain ⟨hx, hrest⟩ := List.cons.inj hposition
    rw [List.map_cons, flatEntries, if_neg (by rw [hmutable x List.mem_cons_self]; simp),
      ih (fun y hy => hmutable y (.tail _ hy)) hrest, List.map_cons, hx]

/-- The entries of the expanded properties are the innermost elements. -/
theorem initialEntries_eq {anf : List ANFProperty} {props : List Ast.PropertyNode}
    {slots : List (List PropertyNode)} {i : Nat}
    (h : List.Forall₂ (fun prop slot =>
      expandType prop.readonly prop.name [] prop.type prop.initializer = .ok slot) props slots) :
    ((flatEntries i slots.flatten).map fun entry =>
        { entry with initialValue := (initialValueOf anf entry.name).map .leaf }) =
      (sourceArrays i props).flatMap (level (initialValueOf anf) 0) := by
  induction h generalizing i with
  | nil => rfl
  | @cons prop slot props slots hslot _ ih =>
    obtain ⟨dims, type, hdims, -, rfl⟩ := expandType_ok hslot
    have hlength : (scalarsOf prop.readonly type prop.name [] dims prop.initializer).length =
        dims.prod := by
      rw [scalarsOf, List.length_map, length_paths]
    rw [List.flatten_cons, flatEntries_append, List.map_append, ih, hlength, sourceArrays, hdims]
    dsimp only
    cases hreadonly : prop.readonly with
    | true =>
      rw [if_pos rfl, flatEntries_readonly fun x hx => ?_]
      · rfl
      · obtain ⟨path, -, rfl⟩ := List.mem_map.mp hx
        rfl
    | false =>
      rw [if_neg Bool.false_ne_true, List.flatMap_cons]
      refine congrArg (· ++ _) ?_
      have hposition : (paths dims).map (fun path => i + offset dims path) =
          List.range' i (paths dims).length := by
        rw [map_offset_paths, length_paths]
      rw [scalarsOf, flatEntries_map (fun _ _ => rfl) hposition, List.map_map, level,
        Nat.sub_zero, List.take_length]
      refine List.map_congr_left fun path hpath => ?_
      rw [Function.comp_apply, entryAt, length_of_mem_paths hpath, List.drop_length]
      rfl

/-- The levels of a type. -/
def depth : TypeNode → Nat
  | .fixedArray element _ => depth element + 1
  | _ => 0

/-- The scalars of a property in row-major order: the name and the constant of each. -/
def sourceScalars (name : String) : TypeNode → Option Expression → List (String × Option ConstValue)
  | .primitive _, init => [(name, init.bind extractLiteralValue)]
  | .fixedArray element length, init =>
      (List.range length).flatMap fun i =>
        sourceScalars (name ++ "__" ++ toString i) element (initAt init i)
  | .void, _ | .custom _, _ => []

/-- A field shows a property of the source. -/
structure Shows (entry : RegroupEntry) (prop : Ast.PropertyNode) : Prop where
  name : entry.name = prop.name
  type : FieldType.toString entry.shape.type = typeToString prop.type
  shape : ∃ dims type, dimsOf prop.type = some (dims, type) ∧
    entry.shape = shapeOf type prop.name dims
  names : syntheticNamesOf entry.name entry.shape =
    (sourceScalars prop.name prop.type prop.initializer).map (·.1)
  complete : entry.chain = []
  value : 0 < depth prop.type → entry.initialValue = literalValue prop.type prop.initializer

/-- Regrouping gives one field for each mutable property of the source. -/
def RegroupsSource (props : List Ast.PropertyNode) (expanded : List PropertyNode) : Prop :=
  ∃ entries, regroupSyntheticRuns (initialEntries (lowerProperties expanded) expanded) =
      .ok entries ∧
    List.Forall₂ Shows entries (props.filter fun prop => !prop.readonly)

/-- The first properties with the names of an array's scalars have the values of these, or one
of them and one of these has none. -/
def FindsOwn (anf : List ANFProperty) (prop : Ast.PropertyNode) : Prop :=
  (∀ scalar ∈ sourceScalars prop.name prop.type prop.initializer,
      initialValueOf anf scalar.1 = scalar.2) ∨
    (∃ scalar ∈ sourceScalars prop.name prop.type prop.initializer,
        initialValueOf anf scalar.1 = none) ∧
      ∃ scalar ∈ sourceScalars prop.name prop.type prop.initializer, scalar.2 = none

theorem depth_eq {node : TypeNode} {dims : List Nat} {type : PrimitiveType}
    (h : dimsOf node = some (dims, type)) : depth node = dims.length := by
  induction node generalizing dims with
  | primitive type =>
    cases h
    rfl
  | fixedArray element length ih =>
    obtain ⟨⟨rest, type'⟩, hrest, heq⟩ := Option.map_eq_some_iff.mp h
    cases heq
    rw [depth, ih hrest, List.length_cons]
  | void => exact nomatch h
  | custom name => exact nomatch h

theorem sourceScalars_eq {node : TypeNode} {dims : List Nat} {type : PrimitiveType}
    (h : dimsOf node = some (dims, type)) (name : String) (init : Option Expression) :
    sourceScalars name node init =
      (paths dims).map fun path => (elementName name path, literalAt init path) := by
  induction node generalizing dims name init with
  | primitive type =>
    cases h
    rfl
  | fixedArray element length ih =>
    obtain ⟨⟨rest, type'⟩, hrest, heq⟩ := Option.map_eq_some_iff.mp h
    cases heq
    rw [sourceScalars, paths, List.map_flatMap]
    refine List.flatMap_congr fun i _ => ?_
    rw [ih hrest, List.map_map]
    rfl
  | void => cases h
  | custom name => cases h

/-- The last entry of an array shows the source exactly where its values are found. -/
theorem shows_iff {anf : List ANFProperty} {prop : Ast.PropertyNode} {slot : List PropertyNode}
    (h : expandType prop.readonly prop.name [] prop.type prop.initializer = .ok slot)
    {dims : List Nat} {type : PrimitiveType} (hdims : dimsOf prop.type = some (dims, type))
    (i : Nat) :
    Shows (entryAt (initialValueOf anf) { name := prop.name, dims, type, start := i } []) prop ↔
      (0 < depth prop.type → FindsOwn anf prop) := by
  have hshape : (entryAt (initialValueOf anf)
      { name := prop.name, dims, type, start := i } []).shape = shapeOf type prop.name dims := rfl
  have hvalue : (entryAt (initialValueOf anf)
      { name := prop.name, dims, type, start := i } []).initialValue =
        literalValue prop.type prop.initializer ↔ FindsOwn anf prop := by
    rw [literalValue_eq h hdims, FindsOwn, sourceScalars_eq hdims]
    refine build_eq_iff.trans ?_
    rw [List.forall_mem_map]
    simp only [List.mem_map, exists_exists_and_eq_and]
    rfl
  constructor
  · exact fun hshows hdepth => hvalue.mp (hshows.value hdepth)
  · intro hfinds
    refine ⟨rfl, ?_, ⟨dims, type, hdims, hshape⟩, ?_, ?_, fun hdepth => hvalue.mpr (hfinds hdepth)⟩
    · rw [hshape, type_shapeOf, toString_arrayType hdims]
    · rw [sourceScalars_eq hdims, List.map_map]
      exact syntheticNamesOf_shapeOf type prop.name dims
    · rw [entryAt]
      cases dims <;> simp [elementChain]

section Sources

variable {props : List Ast.PropertyNode} {slots : List (List PropertyNode)}

theorem sourceArrays_cons {prop : Ast.PropertyNode} {slot : List PropertyNode}
    (h : expandType prop.readonly prop.name [] prop.type prop.initializer = .ok slot)
    (rest : List Ast.PropertyNode) (i : Nat) :
    ∃ dims type, dimsOf prop.type = some (dims, type) ∧ (∀ n ∈ dims, 0 < n) ∧
      sourceArrays i (prop :: rest) =
        if prop.readonly then sourceArrays (i + dims.prod) rest
        else { name := prop.name, dims, type, start := i } ::
          sourceArrays (i + dims.prod) rest := by
  obtain ⟨dims, type, hdims, hpos, -⟩ := expandType_ok h
  refine ⟨dims, type, hdims, hpos, ?_⟩
  rw [sourceArrays, hdims]

theorem dims_pos (h : List.Forall₂ (fun prop slot =>
      expandType prop.readonly prop.name [] prop.type prop.initializer = .ok slot) props slots)
    (i : Nat) : ∀ a ∈ sourceArrays i props, ∀ n ∈ a.dims, 0 < n := by
  induction h generalizing i with
  | nil => exact fun a ha => nomatch ha
  | @cons prop slot props slots hslot _ ih =>
    obtain ⟨dims, type, -, hpos, hcons⟩ := sourceArrays_cons hslot props i
    rw [hcons]
    split
    · exact ih _
    · exact List.forall_mem_cons.mpr ⟨hpos, ih _⟩

theorem forall_dims_iff (h : List.Forall₂ (fun prop slot =>
      expandType prop.readonly prop.name [] prop.type prop.initializer = .ok slot) props slots)
    (i bound : Nat) : (∀ a ∈ sourceArrays i props, a.dims.length < bound) ↔
      ∀ prop ∈ props, prop.readonly = false → depth prop.type < bound := by
  induction h generalizing i with
  | nil => exact ⟨fun _ _ h => (nomatch h), fun _ _ h => (nomatch h)⟩
  | @cons prop slot props slots hslot _ ih =>
    obtain ⟨dims, type, hdims, -, hcons⟩ := sourceArrays_cons hslot props i
    rw [hcons, List.forall_mem_cons, depth_eq hdims]
    cases prop.readonly with
    | true =>
      rw [if_pos rfl, ih]
      exact ⟨fun h => ⟨fun h' => (nomatch h'), h⟩, fun h => h.2⟩
    | false =>
      rw [if_neg Bool.false_ne_true, List.forall_mem_cons, ih]
      exact ⟨fun h => ⟨fun _ => h.1, h.2⟩, fun h => ⟨h.1 rfl, h.2⟩⟩

theorem forall₂_shows_iff (anf : List ANFProperty) (h : List.Forall₂ (fun prop slot =>
      expandType prop.readonly prop.name [] prop.type prop.initializer = .ok slot) props slots)
    (i : Nat) :
    List.Forall₂ Shows ((sourceArrays i props).map (entryAt (initialValueOf anf) · []))
        (props.filter fun prop => !prop.readonly) ↔
      ∀ prop ∈ props, prop.readonly = false → 0 < depth prop.type → FindsOwn anf prop := by
  induction h generalizing i with
  | nil => exact ⟨fun _ _ h => (nomatch h), fun _ => .nil⟩
  | @cons prop slot props slots hslot _ ih =>
    obtain ⟨dims, type, hdims, -, hcons⟩ := sourceArrays_cons hslot props i
    rw [hcons, List.forall_mem_cons]
    cases hreadonly : prop.readonly with
    | true =>
      rw [if_pos rfl, List.filter_cons_of_neg (by rw [hreadonly]; simp), ih]
      exact ⟨fun h => ⟨fun h' => (nomatch h'), h⟩, fun h => h.2⟩
    | false =>
      rw [if_neg Bool.false_ne_true, List.filter_cons_of_pos (by rw [hreadonly]; rfl),
        List.map_cons, List.forall₂_cons, ih, shows_iff hslot hdims]
      exact ⟨fun h => ⟨fun _ => h.1, h.2⟩, fun h => ⟨h.1 rfl, h.2⟩⟩

end Sources

/-- Regrouping gives back the properties of the source exactly where every array is nested less
than 1024 deep and finds its own initial values. -/
theorem regroupsSource_iff {props : List Ast.PropertyNode} {expanded : List PropertyNode}
    (h : expandProperties props = .ok expanded) :
    RegroupsSource props expanded ↔ ∀ prop ∈ props, prop.readonly = false →
      depth prop.type < 1024 ∧
        (0 < depth prop.type → FindsOwn (lowerProperties expanded) prop) := by
  unfold expandProperties at h
  cases hslots : props.mapM fun prop =>
      expandType prop.readonly prop.name [] prop.type prop.initializer with
  | error e =>
    rw [hslots] at h
    exact nomatch h
  | ok slots =>
    rw [hslots] at h
    cases h
    have hall := forall₂_of_mapM_ok hslots
    have hentries : initialEntries (lowerProperties slots.flatten) slots.flatten =
        (sourceArrays 0 props).flatMap
          (level (initialValueOf (lowerProperties slots.flatten)) 0) := initialEntries_eq hall
    obtain ⟨hends, hcap⟩ := regroupLoop_levels
      (initialValueOf (lowerProperties slots.flatten)) (dims_pos hall 0)
      (show 1024 = 0 → _ from fun h => nomatch h)
    rw [Nat.zero_add] at hends hcap
    have hshows := forall₂_shows_iff (lowerProperties slots.flatten) hall 0
    have hdepth := forall_dims_iff hall 0 1024
    unfold RegroupsSource regroupSyntheticRuns
    rw [hentries]
    constructor
    · rintro ⟨entries, hloop, hentries⟩ prop hprop hreadonly
      have hshallow : ∀ a ∈ sourceArrays 0 props, a.dims.length < 1024 := by
        by_contra hdeep
        push Not at hdeep
        rw [hcap hdeep] at hloop
        exact nomatch hloop
      rw [hends hshallow] at hloop
      cases hloop
      exact ⟨hdepth.mp hshallow prop hprop hreadonly, hshows.mp hentries prop hprop hreadonly⟩
    · intro hprops
      refine ⟨_, hends (hdepth.mpr fun prop hprop hreadonly => (hprops prop hprop hreadonly).1),
        hshows.mpr fun prop hprop hreadonly => (hprops prop hprop hreadonly).2⟩

/-- `grid: FixedArray<FixedArray<bigint, 2>, 1> = [[1n, 2n]]` -/
def grid : List Ast.PropertyNode :=
  [⟨"grid", .fixedArray (.fixedArray (.primitive .bigint) 2) 1, false,
    some (.arrayLiteral [.arrayLiteral [.bigintLiteral 1, .bigintLiteral 2]]), false⟩]

def gridScalars : List PropertyNode :=
  [⟨"grid__0__0", .bigint, false, some (.bigint 1), [⟨"grid", 0, 1⟩, ⟨"grid__0", 0, 2⟩]⟩,
   ⟨"grid__0__1", .bigint, false, some (.bigint 2), [⟨"grid", 0, 1⟩, ⟨"grid__0", 1, 2⟩]⟩]

theorem grid_regroups : RegroupsSource grid gridScalars := by
  have h : expandProperties grid = .ok gridScalars := rfl
  refine (regroupsSource_iff h).mpr fun prop hprop _ => ?_
  obtain rfl := List.mem_singleton.mp hprop
  exact ⟨by decide, fun _ => .inl (by decide)⟩

/-- `a__0: bigint = 7n; a: FixedArray<bigint, 2> = [1n, 2n]` -/
def lookalike : List Ast.PropertyNode :=
  [⟨"a__0", .primitive .bigint, false, some (.bigintLiteral 7), false⟩,
   ⟨"a", .fixedArray (.primitive .bigint) 2, false,
    some (.arrayLiteral [.bigintLiteral 1, .bigintLiteral 2]), false⟩]

def lookalikeScalars : List PropertyNode :=
  [⟨"a__0", .bigint, false, some (.bigint 7), []⟩,
   ⟨"a__0", .bigint, false, some (.bigint 1), [⟨"a", 0, 2⟩]⟩,
   ⟨"a__1", .bigint, false, some (.bigint 2), [⟨"a", 1, 2⟩]⟩]

/-- The array gets the value of the property that is named like its first element. -/
theorem lookalike_not_regroups : expandProperties lookalike = .ok lookalikeScalars ∧
    ¬ RegroupsSource lookalike lookalikeScalars := by
  refine ⟨rfl, ?_⟩
  rintro ⟨entries, hloop, hshows⟩
  have hentries : initialEntries (lowerProperties lookalikeScalars) lookalikeScalars =
      [⟨"a__0", .scalar .bigint, [], 0, some (.leaf (.bigint 7))⟩,
       ⟨"a__0", .scalar .bigint, [⟨"a", 0, 2⟩], 1, some (.leaf (.bigint 7))⟩,
       ⟨"a__1", .scalar .bigint, [⟨"a", 1, 2⟩], 2, some (.leaf (.bigint 2))⟩] := rfl
  have hpass : regroupSyntheticRuns (initialEntries (lowerProperties lookalikeScalars)
      lookalikeScalars) = .ok
        [⟨"a__0", .scalar .bigint, [], 0, some (.leaf (.bigint 7))⟩,
         ⟨"a", .fixedArray (.primitive .bigint) 2 ["a__0", "a__1"], [], 1,
          some (.node [.leaf (.bigint 7), .leaf (.bigint 2)])⟩] := by
    rw [hentries, regroupSyntheticRuns, regroupLoop]
    simp [regroupLoop, regroupOnePass, takeRun, extendsRun, collapse, FieldShape.type,
      syntheticNamesOf]
  rw [hpass] at hloop
  cases hloop
  cases hshows with
  | cons _ hrest =>
    cases hrest with
    | cons harray _ =>
      exact absurd (harray.value (by decide)) (by simp [literalValue, extractLiteralValue])

end Runar.Artifact
