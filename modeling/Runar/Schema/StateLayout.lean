/-
  Schema/StateLayout.lean --- where each state field stands in a script.

  WHAT THIS FILE IS FOR.  The compiler annotates the state fields of an artifact with their
  places: from the start of the state section for the fields behind fixed widths only, from
  the end of the script for the fields from which on all widths are fixed.  Here the places
  are compared with what `serializeState` writes.

  LEFT OUT: the type names `int` and `bool`, which the compiler does not emit.  A field comes
  without annotations of its own.
-/
import Runar.Sdk.StateRoundTrip

set_option autoImplicit false

namespace Runar.Schema

open Script Artifact
open Sdk.Codec

/-! ## The annotations -/

/-- How a field is written: in a word of fixed width, or framed. -/
inductive FieldEncoding where
  | fixed (encoding : StateFieldEncoding)
  | pushdata
  deriving DecidableEq, Repr

structure AnnotatedField where
  field : StateField
  encoding : FieldEncoding
  byteLength : Option Nat
  byteOffset : Option Nat := none
  tailOffset : Option Int := none

/-- The encoding of a field, and its width if that is fixed. -/
def annotateField (field : StateField) : AnnotatedField :=
  match field.shape with
  | .fixedArray elementType length syntheticNames =>
      match stateFieldWidths (unwrapFixedArrayLeaf (.fixedArray elementType length)) with
      | some (size, encoding) =>
          ⟨field, .fixed encoding, some (size * syntheticNames.length), none, none⟩
      | none => ⟨field, .pushdata, none, none, none⟩
  | .scalar type =>
      match stateFieldWidths type with
      | some (size, encoding) => ⟨field, .fixed encoding, some size, none, none⟩
      | none => ⟨field, .pushdata, none, none, none⟩

/-- The forward pass: offsets while the fields before have fixed widths. -/
def setByteOffsets : Nat → Bool → List AnnotatedField → List AnnotatedField
  | _, _, [] => []
  | offset, frontFixed, f :: fs =>
      let placed := if frontFixed then { f with byteOffset := some offset } else f
      match f.byteLength with
      | none => placed :: setByteOffsets offset false fs
      | some byteLength => placed :: setByteOffsets (offset + byteLength) frontFixed fs

/-- The backward pass, over the fields from the last on: it breaks off at a field without a
fixed width. -/
def setTailOffsets : Nat → List AnnotatedField → List AnnotatedField
  | _, [] => []
  | fromEnd, f :: fs =>
      match f.byteLength with
      | none => f :: fs
      | some byteLength =>
          { f with tailOffset := some (-((fromEnd + byteLength : Nat) : Int)) } ::
            setTailOffsets (fromEnd + byteLength) fs

/-- The fields in the order of their indices, with their places. -/
def annotateStateFieldLayout (fields : List StateField) : List AnnotatedField :=
  let out := setByteOffsets 0 true ((fields.mergeSort fieldOrder).map annotateField)
  (setTailOffsets 0 out.reverse).reverse

/-! ## Widths -/

/-- The sum of some widths, if all of them are fixed. -/
def totalWidth : List (Option Nat) → Option Nat
  | [] => some 0
  | width :: widths => width.bind fun n => (totalWidth widths).map (n + ·)

theorem totalWidth_isSome {widths : List (Option Nat)} :
    (totalWidth widths).isSome ↔ ∀ width ∈ widths, width.isSome := by
  induction widths with
  | nil => exact ⟨fun _ _ h => (nomatch h), fun _ => rfl⟩
  | cons width widths ih =>
    rw [List.forall_mem_cons, ← ih, totalWidth]
    cases width with
    | none => exact ⟨fun h => (nomatch h), fun h => (nomatch h.1)⟩
    | some n => cases totalWidth widths <;> simp

theorem totalWidth_append (xs ys : List (Option Nat)) :
    totalWidth (xs ++ ys) = (totalWidth xs).bind fun n => (totalWidth ys).map (n + ·) := by
  induction xs with
  | nil => cases h : totalWidth ys <;> simp [totalWidth, h]
  | cons x xs ih =>
    rw [List.cons_append, totalWidth, ih, totalWidth]
    cases x with
    | none => rfl
    | some n =>
      cases totalWidth xs with
      | none => rfl
      | some m => cases totalWidth ys <;> simp [Nat.add_assoc]

theorem totalWidth_reverse (widths : List (Option Nat)) :
    totalWidth widths.reverse = totalWidth widths := by
  induction widths with
  | nil => rfl
  | cons width widths ih =>
    rw [List.reverse_cons, totalWidth_append, ih]
    cases width <;> cases h : totalWidth widths <;> simp [totalWidth, h, Nat.add_comm]

/-- The widths of some fields. -/
def widths (fs : List AnnotatedField) : List (Option Nat) := fs.map (·.byteLength)

theorem widths_cons (f : AnnotatedField) (fs : List AnnotatedField) :
    widths (f :: fs) = f.byteLength :: widths fs := rfl

/-! ## The passes -/

/-- The forward pass gives a field the widths before it, if all of them are fixed. -/
theorem setByteOffsets_getElem? (offset : Nat) (frontFixed : Bool) (fs : List AnnotatedField)
    (i : Nat) :
    (setByteOffsets offset frontFixed fs)[i]? = fs[i]?.map fun f =>
      { f with byteOffset := ((if frontFixed then totalWidth (widths (fs.take i)) else none).map
          (offset + ·)).or f.byteOffset } := by
  induction fs generalizing offset frontFixed i with
  | nil => rfl
  | cons f fs ih =>
    obtain ⟨field, encoding, width, byteOffset, tailOffset⟩ := f
    cases i with
    | zero => cases width <;> cases frontFixed <;> simp [setByteOffsets, totalWidth, widths]
    | succ i =>
      rw [List.getElem?_cons_succ, List.take_succ_cons, widths_cons, totalWidth]
      cases width with
      | none =>
        show (setByteOffsets offset false fs)[i]? = _
        rw [ih]
        cases frontFixed <;> rfl
      | some n =>
        show (setByteOffsets (offset + n) frontFixed fs)[i]? = _
        rw [ih]
        cases frontFixed
        · rfl
        · cases totalWidth (widths (fs.take i)) <;> simp [Nat.add_assoc]

/-- The backward pass gives a field its width and those it has gone over. -/
theorem setTailOffsets_getElem? (fromEnd : Nat) (fs : List AnnotatedField) (i : Nat) :
    (setTailOffsets fromEnd fs)[i]? = fs[i]?.map fun f =>
      { f with tailOffset := ((totalWidth (widths (fs.take (i + 1)))).map fun n =>
          -((fromEnd + n : Nat) : Int)).or f.tailOffset } := by
  induction fs generalizing fromEnd i with
  | nil => rfl
  | cons f fs ih =>
    obtain ⟨field, encoding, width, byteOffset, tailOffset⟩ := f
    rw [List.take_succ_cons, widths_cons, totalWidth]
    cases width with
    | none =>
      show (_ :: fs)[i]? = _
      cases h : (⟨field, encoding, none, byteOffset, tailOffset⟩ ::
        fs : List AnnotatedField)[i]? with
      | none => rfl
      | some f => rfl
    | some n =>
      cases i with
      | zero => simp [setTailOffsets, totalWidth, widths]
      | succ i =>
        show (setTailOffsets (fromEnd + n) fs)[i]? = _
        rw [ih, List.getElem?_cons_succ]
        cases totalWidth (widths (fs.take (i + 1))) <;> simp [Nat.add_assoc]

theorem length_setTailOffsets (fromEnd : Nat) (fs : List AnnotatedField) :
    (setTailOffsets fromEnd fs).length = fs.length := by
  induction fs generalizing fromEnd with
  | nil => rfl
  | cons f fs ih =>
    rw [setTailOffsets]
    cases f.byteLength with
    | none => rfl
    | some n => exact congrArg (· + 1) (ih _)

/-- The width of a field, if that is fixed. -/
def fieldWidth (field : StateField) : Option Nat := (annotateField field).byteLength

theorem annotateField_bare (field : StateField) : (annotateField field).byteOffset = none ∧
    (annotateField field).tailOffset = none := by
  unfold annotateField
  split <;> split <;> exact ⟨rfl, rfl⟩

/-- A field is placed by the widths before it and by those from it on. -/
theorem annotateStateFieldLayout_getElem? (fields : List StateField) (i : Nat) :
    (annotateStateFieldLayout fields)[i]? = (fields.mergeSort fieldOrder)[i]?.map fun field =>
      { annotateField field with
        byteOffset := totalWidth (((fields.mergeSort fieldOrder).take i).map fieldWidth)
        tailOffset := (totalWidth (((fields.mergeSort fieldOrder).drop i).map fieldWidth)).map
          fun (n : Nat) => -(n : Int) } := by
  have hbytes (j : Nat) := setByteOffsets_getElem? 0 true
    ((fields.mergeSort fieldOrder).map annotateField) j
  have hwidths : widths (setByteOffsets 0 true ((fields.mergeSort fieldOrder).map annotateField)) =
      (fields.mergeSort fieldOrder).map fieldWidth := by
    refine List.ext_getElem? fun j => ?_
    rw [widths, List.getElem?_map, hbytes, List.getElem?_map, List.getElem?_map]
    cases (fields.mergeSort fieldOrder)[j]? <;> rfl
  have hlength : (setByteOffsets 0 true ((fields.mergeSort fieldOrder).map annotateField)).length =
      (fields.mergeSort fieldOrder).length := by
    have h := congrArg List.length hwidths
    rwa [widths, List.length_map, List.length_map] at h
  rw [annotateStateFieldLayout]
  dsimp only
  generalize hout : setByteOffsets 0 true ((fields.mergeSort fieldOrder).map annotateField) = out
    at hbytes hwidths hlength
  have hsame : (setTailOffsets 0 out.reverse).length = out.length := by
    rw [length_setTailOffsets, List.length_reverse]
  by_cases hi : i < out.length
  swap
  · rw [List.getElem?_eq_none (by rw [List.length_reverse]; omega),
      List.getElem?_eq_none (by omega)]
    rfl
  have hfront : out.length - 1 - i + 1 = out.length - i := by omega
  have hback : out.length - 1 - (out.length - 1 - i) = i := by omega
  have htaken : out.reverse.take (out.length - i) = (out.drop i).reverse := by
    rw [List.take_reverse, Nat.sub_sub_self hi.le]
  have hbefore : widths (((fields.mergeSort fieldOrder).map annotateField).take i) =
      ((fields.mergeSort fieldOrder).take i).map fieldWidth := by
    rw [← List.map_take, widths, List.map_map]
    rfl
  have hafter : (out.drop i).map (·.byteLength) =
      ((fields.mergeSort fieldOrder).drop i).map fieldWidth := by
    rw [List.map_drop, List.map_drop]
    exact congrArg (List.drop i) hwidths
  rw [List.getElem?_reverse (by omega), hsame, setTailOffsets_getElem?,
    List.getElem?_reverse (by omega), hfront, hback, htaken, widths, List.map_reverse,
    totalWidth_reverse, hafter, hbytes, hbefore, List.getElem?_map]
  cases (fields.mergeSort fieldOrder)[i]? with
  | none => rfl
  | some field =>
    obtain ⟨hbyteOffset, htailOffset⟩ := annotateField_bare field
    simp only [Option.map_some, hbyteOffset, htailOffset, Option.or_none, if_true, Nat.zero_add,
      Option.map_id']

/-! ## The places in the text -/

/-- The text of a value of a fixed-size type of bytes has that size. -/
def HasWidth (type : PrimitiveType) (value : Sdk.JsValue) : Prop :=
  ∀ size, stateFieldWidths type = some (size, .raw) → (Sdk.jsText value).length = 2 * size

/-- The values of a record have the sizes of a field's type. -/
def HasWidths (values : Sdk.Record) (field : StateField) : Prop :=
  match field.shape with
  | .scalar type => HasWidth type (values.get field.name)
  | .fixedArray elementType length syntheticNames =>
      ∀ (i : Nat) (synthName : String), syntheticNames[i]? = some synthName →
        HasWidth (unwrapFixedArrayLeaf (.fixedArray elementType length))
          ((values synthName).getD
            (((flatFromArr (.fixedArray elementType length) (values.get field.name))[i]?).getD
              .undefined))

theorem ok_of_bind {ε α β : Type} {x : Except ε α} {f : α → Except ε β} {b : β}
    (h : (x >>= f) = .ok b) : ∃ a, x = .ok a ∧ f a = .ok b := by
  cases x with
  | error e => exact nomatch h
  | ok a => exact ⟨a, rfl, h⟩

/-- A value of a type of fixed width is written in that width. -/
theorem length_encodeStateValue {type : PrimitiveType} {size : Nat} {encoding : StateFieldEncoding}
    {value : Sdk.JsValue} {label : String} {text : HexText}
    (htype : stateFieldWidths type = some (size, encoding)) (hvalue : HasWidth type value)
    (h : encodeStateValue value type label = .ok text) : text.length = 2 * size := by
  have hraw (hencoding : encoding = .raw) (htext : text = Sdk.jsText value) :
      text.length = 2 * size := by
    subst hencoding htext
    exact hvalue size htype
  cases type <;> cases htype
  case bigint =>
    obtain ⟨n, -, hword⟩ := ok_of_bind h
    rw [Sdk.encodeNum2Bin_eq] at hword
    by_cases hfits : Fits 8 n
    · rw [if_pos hfits] at hword
      obtain rfl := Except.ok.inj hword
      rw [length_toHex, length_signedBytes]
    · rw [if_neg hfits] at hword
      exact nomatch hword
  case boolean =>
    obtain rfl := Except.ok.inj h
    cases truthy value <;> rfl
  all_goals exact hraw rfl (Except.ok.inj h).symm

theorem length_encodeElements {values : Sdk.Record} {flat : List Sdk.JsValue} {type : PrimitiveType}
    {size : Nat} {encoding : StateFieldEncoding} {i : Nat} {names : List String} {text : HexText}
    (htype : stateFieldWidths type = some (size, encoding))
    (hvalues : ∀ j synthName, names[j]? = some synthName →
      HasWidth type ((values synthName).getD ((flat[i + j]?).getD .undefined)))
    (h : encodeElements values flat type i names = .ok text) :
    text.length = 2 * (size * names.length) := by
  induction names generalizing i text with
  | nil =>
    obtain rfl := Except.ok.inj h
    rfl
  | cons name names ih =>
    obtain ⟨first, hfirst, h⟩ := ok_of_bind h
    obtain ⟨rest, hrest, h⟩ := ok_of_bind h
    obtain rfl := Except.ok.inj h
    have hlength := length_encodeStateValue htype (hvalues 0 name rfl) hfirst
    have hlengths := ih (fun j synthName hname => by
      have hvalue := hvalues (j + 1) synthName hname
      rwa [show i + (j + 1) = i + 1 + j by omega] at hvalue) hrest
    rw [List.length_append, hlength, hlengths, List.length_cons, Nat.mul_succ]
    omega

/-- A field of fixed width is written in that width. -/
theorem length_encodeField {values : Sdk.Record} {field : StateField} {text : HexText} {width : Nat}
    (hvalues : HasWidths values field) (hwidth : fieldWidth field = some width)
    (h : encodeField values field = .ok text) : text.length = 2 * width := by
  obtain ⟨name, shape, index⟩ := field
  unfold HasWidths at hvalues
  unfold encodeField at h
  rw [fieldWidth, annotateField] at hwidth
  cases shape with
  | scalar type =>
    dsimp only at h hwidth hvalues
    cases htype : stateFieldWidths type with
    | none =>
      rw [htype] at hwidth
      exact nomatch hwidth
    | some entry =>
      obtain ⟨size, encoding⟩ := entry
      rw [htype] at hwidth
      obtain rfl := Option.some.inj hwidth
      exact length_encodeStateValue htype hvalues h
  | fixedArray elementType length syntheticNames =>
    dsimp only at h hwidth hvalues
    cases htype : stateFieldWidths (unwrapFixedArrayLeaf (.fixedArray elementType length)) with
    | none =>
      rw [htype] at hwidth
      exact nomatch hwidth
    | some entry =>
      obtain ⟨size, encoding⟩ := entry
      rw [htype] at hwidth
      obtain rfl := Option.some.inj hwidth
      refine length_encodeElements htype (fun j synthName hname => ?_) h
      rw [Nat.zero_add]
      exact hvalues j synthName hname

/-- Fields of fixed widths are written in their widths. -/
theorem length_encodeFields {values : Sdk.Record} {fields : List StateField} {text : HexText}
    {width : Nat} (hvalues : ∀ field ∈ fields, HasWidths values field)
    (hwidth : totalWidth (fields.map fieldWidth) = some width)
    (h : encodeFields values fields = .ok text) : text.length = 2 * width := by
  induction fields generalizing text width with
  | nil =>
    obtain rfl := Except.ok.inj h
    obtain rfl := Option.some.inj hwidth
    rfl
  | cons field fields ih =>
    obtain ⟨hfield, hfields⟩ := List.forall_mem_cons.mp hvalues
    obtain ⟨first, hfirst, h⟩ := ok_of_bind h
    obtain ⟨rest, hrest, h⟩ := ok_of_bind h
    obtain rfl := Except.ok.inj h
    rw [List.map_cons, totalWidth] at hwidth
    obtain ⟨n, hn, hwidth⟩ := Option.bind_eq_some_iff.mp hwidth
    obtain ⟨m, hm, rfl⟩ := Option.map_eq_some_iff.mp hwidth
    rw [List.length_append, length_encodeField hfield hn hfirst, ih hfields hm hrest]
    omega

/-- The text of a field stands between those of the fields before and after it. -/
theorem encodeFields_split {values : Sdk.Record} {fields : List StateField} {text : HexText}
    {i : Nat} {field : StateField} (h : encodeFields values fields = .ok text)
    (hfield : fields[i]? = some field) :
    ∃ before piece after, text = before ++ (piece ++ after) ∧
      encodeFields values (fields.take i) = .ok before ∧ encodeField values field = .ok piece ∧
      encodeFields values (fields.drop i) = .ok (piece ++ after) := by
  induction fields generalizing text i with
  | nil => exact nomatch hfield
  | cons first fields ih =>
    have hall := h
    obtain ⟨head, hhead, h⟩ := ok_of_bind h
    obtain ⟨rest, hrest, h⟩ := ok_of_bind h
    obtain rfl := Except.ok.inj h
    cases i with
    | zero =>
      obtain rfl := Option.some.inj hfield
      exact ⟨[], head, rest, rfl, rfl, hhead, hall⟩
    | succ i =>
      obtain ⟨before, piece, after, rfl, hbefore, hpiece, hafter⟩ := ih hrest hfield
      refine ⟨head ++ before, piece, after, (List.append_assoc ..).symm, ?_, hpiece, hafter⟩
      rw [List.take_succ_cons, encodeFields, hhead, ok_bind, hbefore]
      rfl

end Runar.Schema
