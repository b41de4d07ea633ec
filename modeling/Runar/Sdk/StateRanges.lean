/-
  Sdk/StateRanges.lean --- the parts of the state section that are read.

  WHAT THIS FILE IS FOR.  The reader of the state section takes every scalar at an offset
  and goes on by what it took.  The section may come from anyone, and its framed fields
  carry their lengths.  This file has the ranges the reader looks at, and when each value
  comes from bytes of its own.

  THE DIFFERENCE.  A length of four bytes is a signed word for the reader.  It looks at the
  ten characters of the header of such a push and goes on by less if the length is negative.
-/
import Runar.Logic.Tiling
import Runar.Sdk.OpReturn

set_option autoImplicit false

namespace Runar.Sdk.Codec

open Script Artifact Logic

/-! ## The scalars in a row -/

/-- The scalars of a field, with the names errors give them. -/
def scalarsOfField (field : StateField) : List (PrimitiveType × String) :=
  match field.shape with
  | .scalar type => [(type, field.name)]
  | .fixedArray elementType length syntheticNames =>
      (List.range syntheticNames.length).map fun i =>
        (unwrapFixedArrayLeaf (.fixedArray elementType length),
          field.name ++ "[" ++ toString i ++ "]")

def scalarsOf (fields : List StateField) : List (PrimitiveType × String) :=
  fields.flatMap scalarsOfField

/-- How many characters from an offset on are looked at for a scalar. -/
def readLength (hex : HexText) (offset : Int) (type : PrimitiveType) : Int :=
  match stateFieldWidths type with
  | some (size, _) => size * 2
  | none =>
      match byteAt hex offset 0 with
      | none => 2
      | some opcode =>
          if opcode ≤ 75 then 2 + opcode * 2
          else if opcode = 0x4c then 4 + (byteAt hex offset 2).getD 0 * 2
          else if opcode = 0x4d then
            6 + ((byteAt hex offset 2).getD 0 ||| (byteAt hex offset 4).getD 0 <<< 8 : Nat) * 2
          else if opcode = 0x4e then 10 + max 0 (pushLen4 hex offset) * 2
          else 2

/-- A scalar that was read. -/
structure ScalarRead where
  type : PrimitiveType
  value : JsValue
  span : Span

/-- Decode scalars one after the other: what was read, and the offset after the last. -/
def decodeScalars (hex : HexText) :
    List (PrimitiveType × String) → Int → Except String (List ScalarRead × Int)
  | [], offset => .ok ([], offset)
  | (type, label) :: rest, offset => do
      let (value, bytesRead) ← decodeStateValue hex offset type label
      let (reads, stop) ← decodeScalars hex rest (offset + bytesRead)
      .ok (⟨type, value, offset, offset + readLength hex offset type⟩ :: reads, stop)

/-- The record the values of the scalars make. -/
def groupFields : List StateField → List JsValue → Record → Record
  | [], _, result => result
  | field :: fields, values, result =>
      match field.shape with
      | .scalar _ =>
          groupFields fields (values.drop 1) (result.set field.name (values.headD .undefined))
      | .fixedArray elementType length syntheticNames =>
          groupFields fields (values.drop syntheticNames.length)
            (result.set field.name (.array (regroupNested (values.take syntheticNames.length)
              (parseFixedArrayDims (.fixedArray elementType length)) 0).1))

section Scalars

variable {hex : HexText}

theorem decodeScalars_append (xs ys : List (PrimitiveType × String)) (offset : Int) :
    decodeScalars hex (xs ++ ys) offset = (do
      let (reads, stop) ← decodeScalars hex xs offset
      let (more, stop) ← decodeScalars hex ys stop
      .ok (reads ++ more, stop)) := by
  induction xs generalizing offset with
  | nil =>
    rw [List.nil_append, decodeScalars, ok_bind]
    dsimp only
    cases decodeScalars hex ys offset <;> rfl
  | cons x xs ih =>
    obtain ⟨type, label⟩ := x
    rw [List.cons_append, decodeScalars, decodeScalars]
    cases decodeStateValue hex offset type label with
    | error e => rfl
    | ok read =>
      rw [ok_bind, ok_bind]
      dsimp only
      rw [ih]
      cases decodeScalars hex xs (offset + read.2) with
      | error e => rfl
      | ok first =>
        rw [ok_bind, ok_bind]
        dsimp only
        rw [ok_bind]
        dsimp only
        cases decodeScalars hex ys first.2 <;> rfl

theorem decodeScalars_cons {type : PrimitiveType} {label : String}
    {rest : List (PrimitiveType × String)} {offset stop : Int} {reads : List ScalarRead}
    (h : decodeScalars hex ((type, label) :: rest) offset = .ok (reads, stop)) :
    ∃ value bytesRead more, decodeStateValue hex offset type label = .ok (value, bytesRead) ∧
      decodeScalars hex rest (offset + bytesRead) = .ok (more, stop) ∧
      reads = ⟨type, value, offset, offset + readLength hex offset type⟩ :: more := by
  rw [decodeScalars] at h
  cases hread : decodeStateValue hex offset type label with
  | error e =>
    rw [hread] at h
    exact nomatch h
  | ok read =>
    rw [hread, ok_bind] at h
    dsimp only at h
    cases hrest : decodeScalars hex rest (offset + read.2) with
    | error e =>
      rw [hrest] at h
      exact nomatch h
    | ok more =>
      rw [hrest, ok_bind] at h
      cases h
      exact ⟨read.1, read.2, more.1, rfl, hrest, rfl⟩

theorem length_decodeScalars {scalars : List (PrimitiveType × String)} {offset stop : Int}
    {reads : List ScalarRead} (h : decodeScalars hex scalars offset = .ok (reads, stop)) :
    reads.length = scalars.length := by
  induction scalars generalizing offset reads with
  | nil =>
    cases h
    rfl
  | cons scalar scalars ih =>
    obtain ⟨_, _, more, -, hrest, rfl⟩ := decodeScalars_cons h
    rw [List.length_cons, List.length_cons, ih hrest]

theorem decodeElements_eq (leafType : PrimitiveType) (name : String) (count i : Nat)
    (offset : Int) :
    decodeElements hex leafType name count i offset =
      (decodeScalars hex ((List.range' i count).map fun i =>
        (leafType, name ++ "[" ++ toString i ++ "]")) offset).map
          fun result => (result.1.map (·.value), result.2) := by
  induction count generalizing i offset with
  | zero => rfl
  | succ count ih =>
    rw [decodeElements, List.range'_succ, List.map_cons, decodeScalars]
    cases decodeStateValue hex offset leafType (name ++ "[" ++ toString i ++ "]") with
    | error e => rfl
    | ok read =>
      rw [ok_bind, ok_bind]
      dsimp only
      rw [ih]
      cases decodeScalars hex _ (offset + read.2) <;> rfl

/-- The fields are decoded by decoding their scalars in a row. -/
theorem decodeFields_eq (fields : List StateField) (result : Record) (offset : Int) :
    decodeFields hex fields result offset =
      (decodeScalars hex (scalarsOf fields) offset).map fun read =>
        (groupFields fields (read.1.map (·.value)) result, read.2) := by
  induction fields generalizing result offset with
  | nil => rfl
  | cons field fields ih =>
    rw [decodeFields, scalarsOf, List.flatMap_cons, decodeScalars_append, decodeField,
      scalarsOfField]
    cases hshape : field.shape with
    | scalar type =>
      dsimp only
      rw [decodeScalars]
      cases decodeStateValue hex offset type field.name with
      | error e => rfl
      | ok read =>
        simp only [ok_bind, decodeScalars]
        rw [ih, scalarsOf]
        cases decodeScalars hex (fields.flatMap scalarsOfField) (offset + read.2) with
        | error e => rfl
        | ok rest =>
          simp only [Except.map, ok_bind]
          rw [groupFields, hshape]
          rfl
    | fixedArray elementType length syntheticNames =>
      dsimp only
      rw [decodeElements_eq, List.range_eq_range']
      cases hfirst : decodeScalars hex _ offset with
      | error e => rfl
      | ok first =>
        simp only [Except.map, ok_bind]
        rw [ih, scalarsOf]
        cases decodeScalars hex (fields.flatMap scalarsOfField) first.2 with
        | error e => rfl
        | ok rest =>
          simp only [Except.map, ok_bind]
          have hlength := length_decodeScalars hfirst
          rw [List.length_map, List.length_range', ← List.length_map (f := (·.value))] at hlength
          rw [groupFields, hshape, List.map_append]
          dsimp only
          rw [List.drop_left' hlength, List.take_left' hlength]

end Scalars

/-! ## What one scalar takes -/

/-- A framed scalar whose length of four bytes is negative as a signed word. -/
def NegativeLength (hex : HexText) (offset : Int) (type : PrimitiveType) : Prop :=
  stateFieldWidths type = none ∧ byteAt hex offset 0 = some 0x4e ∧ pushLen4 hex offset < 0

section Takes

variable {hex : HexText} {offset bytesRead : Int} {type : PrimitiveType} {label : String}
  {value : JsValue}

theorem payload_taken {start dataLen : Int} {what : String} {text : HexText}
    (h : payload hex offset label start dataLen what = .ok (text, bytesRead)) :
    bytesRead = start + dataLen := by
  unfold payload need at h
  split at h
  · exact nomatch h
  · cases h
    rfl

theorem of_need {β : Type} {chars : Int} {what : String} {next : Unit → Except String β} {b : β}
    (h : (need hex offset label chars what >>= next) = .ok b) : next () = .ok b := by
  unfold need at h
  split at h
  · exact nomatch h
  · exact h

/-- What a framed scalar takes is what is looked at, or less if its length is negative. -/
theorem decodePushData_taken {text : HexText} (hwidth : stateFieldWidths type = none)
    (h : decodePushData hex offset label = .ok (text, bytesRead)) :
    (¬ NegativeLength hex offset type → bytesRead = readLength hex offset type) ∧
      (NegativeLength hex offset type → bytesRead < readLength hex offset type) ∧
      0 ≤ readLength hex offset type := by
  unfold decodePushData at h
  have h := of_need h
  unfold readLength NegativeLength
  rw [hwidth]
  dsimp only
  cases hbyte : byteAt hex offset 0 with
  | none =>
    rw [hbyte] at h
    exact nomatch h
  | some opcode =>
    rw [hbyte] at h
    dsimp only at h ⊢
    by_cases hdirect : opcode ≤ 75
    · rw [if_pos hdirect] at h ⊢
      refine ⟨fun _ => payload_taken h, ?_, by omega⟩
      rintro ⟨-, hcode, -⟩
      cases hcode
      exact absurd hdirect (by decide)
    rw [if_neg hdirect] at h ⊢
    by_cases hone : opcode = 0x4c
    · rw [if_pos hone] at h ⊢
      have h := of_need h
      refine ⟨fun _ => ?_, ?_, by omega⟩
      · cases hlen : byteAt hex offset 2 with
        | none =>
          rw [hlen] at h
          exact nomatch h
        | some len =>
          rw [hlen] at h
          exact payload_taken h
      · rintro ⟨-, hcode, -⟩
        cases hcode
        exact absurd hone (by decide)
    rw [if_neg hone] at h ⊢
    by_cases htwo : opcode = 0x4d
    · rw [if_pos htwo] at h ⊢
      refine ⟨fun _ => payload_taken (of_need h), ?_, by omega⟩
      rintro ⟨-, hcode, -⟩
      cases hcode
      exact absurd htwo (by decide)
    rw [if_neg htwo] at h ⊢
    by_cases hfour : opcode = 0x4e
    · rw [if_pos hfour] at h ⊢
      have htaken : bytesRead = 10 + pushLen4 hex offset * 2 := payload_taken (of_need h)
      refine ⟨fun hno => ?_, ?_, by omega⟩
      · have hpos : ¬ pushLen4 hex offset < 0 := fun hneg => hno ⟨rfl, by rw [hfour], hneg⟩
        rw [htaken, max_eq_right (by omega)]
      · rintro ⟨-, -, hneg⟩
        rw [htaken, max_eq_left (by omega)]
        omega
    · rw [if_neg hfour] at h
      exact nomatch h

theorem decodeStateValue_taken
    (h : decodeStateValue hex offset type label = .ok (value, bytesRead)) :
    (¬ NegativeLength hex offset type → bytesRead = readLength hex offset type) ∧
      (NegativeLength hex offset type → bytesRead < readLength hex offset type) ∧
      0 ≤ readLength hex offset type := by
  unfold decodeStateValue at h
  cases hwidth : stateFieldWidths type with
  | none =>
    rw [hwidth] at h
    dsimp only at h
    cases hpush : decodePushData hex offset label with
    | error e =>
      rw [hpush] at h
      exact nomatch h
    | ok read =>
      rw [hpush] at h
      cases h
      exact decodePushData_taken hwidth hpush
  | some width =>
    obtain ⟨size, encoding⟩ := width
    rw [hwidth] at h
    dsimp only at h
    have htaken : bytesRead = size * 2 := by
      split at h
      · exact nomatch h
      cases encoding with
      | bool1 =>
        cases h
        rfl
      | num2binLe8 =>
        dsimp only at h
        cases hnum : decodeNum2Bin (slice hex offset (offset + size * 2)) with
        | error e =>
          rw [hnum] at h
          exact nomatch h
        | ok n =>
          rw [hnum] at h
          cases h
          rfl
      | raw =>
        cases h
        rfl
    have hlength : readLength hex offset type = size * 2 := by
      rw [readLength, hwidth]
    refine ⟨fun _ => by rw [htaken, hlength], ?_, by omega⟩
    rintro ⟨hnone, -⟩
    exact nomatch hwidth.symm.trans hnone

end Takes

/-! ## What the whole section takes -/

section Section

variable {hex : HexText}

/-- The ranges follow one another exactly if no length is negative. -/
theorem tiles_iff {scalars : List (PrimitiveType × String)} {offset stop : Int}
    {reads : List ScalarRead} (h : decodeScalars hex scalars offset = .ok (reads, stop)) :
    Tiles (reads.map (·.span)) offset stop ↔
      ∀ read ∈ reads, ¬ NegativeLength hex read.span.start read.type := by
  induction scalars generalizing offset reads with
  | nil =>
    cases h
    exact ⟨fun _ _ hmem => (nomatch hmem), fun _ => rfl⟩
  | cons scalar scalars ih =>
    obtain ⟨type, label⟩ := scalar
    obtain ⟨value, bytesRead, more, hread, hrest, rfl⟩ := decodeScalars_cons h
    obtain ⟨hwhole, hless, hpos⟩ := decodeStateValue_taken hread
    rw [List.map_cons, List.forall_mem_cons]
    by_cases hneg : NegativeLength hex offset type
    · -- the next range begins inside this one, or the last one passes the end
      have hlt := hless hneg
      constructor
      · rintro ⟨-, -, htiles⟩
        refine absurd ?_ (Int.ne_of_lt hlt)
        cases scalars with
        | nil =>
          cases hrest
          have hend : offset + readLength hex offset type = offset + bytesRead := htiles
          omega
        | cons next scalars =>
          obtain ⟨_, _, _, -, -, rfl⟩ := decodeScalars_cons hrest
          have hstart : offset + bytesRead = offset + readLength hex offset type := htiles.1
          omega
      · exact fun hno => absurd hneg hno.1
    · rw [hwhole hneg] at hrest
      constructor
      · rintro ⟨-, -, htiles⟩
        exact ⟨hneg, (ih hrest).mp htiles⟩
      · rintro ⟨-, hmore⟩
        exact ⟨rfl, Int.le_add_of_nonneg_right hpos, (ih hrest).mpr hmore⟩

/-- The section is accepted exactly if its scalars, decoded in a row, end at its end. -/
theorem deserializeState_eq_ok_iff {fields : List StateField} {record : Record} :
    deserializeState fields hex = .ok record ↔
      hex.length % 2 = 0 ∧
      ∃ reads, decodeScalars hex (scalarsOf (fields.mergeSort fieldOrder)) 0 =
          .ok (reads, hex.length) ∧
        record = groupFields (fields.mergeSort fieldOrder) (reads.map (·.value)) fun _ => none := by
  unfold deserializeState
  rw [decodeFields_eq]
  by_cases hodd : hex.length % 2 ≠ 0
  · rw [if_pos hodd]
    exact ⟨fun h => (nomatch h), fun h => absurd h.1 hodd⟩
  rw [if_neg hodd]
  refine ⟨fun h => ⟨not_not.mp hodd, ?_⟩, ?_⟩
  · cases hread : decodeScalars hex (scalarsOf (fields.mergeSort fieldOrder)) 0 with
    | error e =>
      rw [hread] at h
      exact nomatch h
    | ok read =>
      obtain ⟨reads, stop⟩ := read
      rw [hread] at h
      simp only [Except.map, ok_bind] at h
      split at h
      · exact nomatch h
      · rename_i hstop
        cases h
        exact ⟨reads, by rw [not_not.mp hstop], rfl⟩
  · rintro ⟨-, reads, hread, rfl⟩
    rw [hread]
    simp only [Except.map, ok_bind]
    rw [if_neg (not_not.mpr rfl)]

/-- Whenever the section is accepted, the ranges read for its scalars follow one another
from its start to its end, and the record is made of their values. -/
def ConsumesExactly (fields : List StateField) (hex : HexText) : Prop :=
  ∀ record, deserializeState fields hex = .ok record →
    ∃ reads, decodeScalars hex (scalarsOf (fields.mergeSort fieldOrder)) 0 =
        .ok (reads, hex.length) ∧
      record = groupFields (fields.mergeSort fieldOrder) (reads.map (·.value)) (fun _ => none) ∧
      Tiles (reads.map (·.span)) 0 hex.length

/-- An accepted section with a negative length is not consumed exactly. -/
theorem not_consumesExactly {fields : List StateField} {reads : List ScalarRead}
    {read : ScalarRead} (hwhole : hex.length % 2 = 0)
    (hread : decodeScalars hex (scalarsOf (fields.mergeSort fieldOrder)) 0 =
      .ok (reads, hex.length))
    (hmem : read ∈ reads) (hneg : NegativeLength hex read.span.start read.type) :
    ¬ ConsumesExactly fields hex := by
  intro h
  obtain ⟨reads', hread', -, htiles⟩ :=
    h _ (deserializeState_eq_ok_iff.mpr ⟨hwhole, reads, hread, rfl⟩)
  rw [hread] at hread'
  cases hread'
  exact (tiles_iff hread).mp htiles read hmem hneg

/-- The reader consumes a section exactly unless the lengths of its scalars, one of them
negative, add up to the length of the section. -/
theorem consumesExactly_iff (fields : List StateField) (hex : HexText) :
    ConsumesExactly fields hex ↔
      ¬ (hex.length % 2 = 0 ∧
        ∃ reads, decodeScalars hex (scalarsOf (fields.mergeSort fieldOrder)) 0 =
            .ok (reads, hex.length) ∧
          ∃ read ∈ reads, NegativeLength hex read.span.start read.type) := by
  constructor
  · rintro h ⟨hwhole, reads, hread, read, hmem, hneg⟩
    exact not_consumesExactly hwhole hread hmem hneg h
  · intro hno record hrecord
    obtain ⟨hwhole, reads, hread, rfl⟩ := deserializeState_eq_ok_iff.mp hrecord
    refine ⟨reads, hread, rfl, (tiles_iff hread).mpr fun read hmem hneg => ?_⟩
    exact hno ⟨hwhole, reads, hread, read, hmem, hneg⟩

/-- A push of `-1` bytes before a flag: the flag is read from the length of the push. -/
theorem not_consumesExactly_flag :
    ¬ ConsumesExactly
      [⟨"payload", .scalar .ByteString, 0⟩, ⟨"flag", .scalar .boolean, 1⟩]
      "4effffffff".toList := by
  have hsorted : List.mergeSort [(⟨"payload", .scalar .ByteString, 0⟩ : StateField),
      ⟨"flag", .scalar .boolean, 1⟩] fieldOrder =
      [⟨"payload", .scalar .ByteString, 0⟩, ⟨"flag", .scalar .boolean, 1⟩] :=
    List.mergeSort_of_pairwise (by decide)
  have hread : decodeScalars "4effffffff".toList (scalarsOf (List.mergeSort
      [⟨"payload", .scalar .ByteString, 0⟩, ⟨"flag", .scalar .boolean, 1⟩] fieldOrder)) 0 =
      .ok ([⟨.ByteString, .string [], 0, 10⟩, ⟨.boolean, .boolean true, 8, 10⟩],
        ("4effffffff".toList.length : Nat)) := by
    rw [hsorted]
    rfl
  exact not_consumesExactly (by decide) hread List.mem_cons_self ⟨rfl, by decide, by decide⟩

/-- Of a section that is consumed exactly, the ranges do not overlap and lie inside it. -/
theorem ConsumesExactly.disjoint {fields : List StateField} {record : Record}
    (h : ConsumesExactly fields hex) (hrecord : deserializeState fields hex = .ok record) :
    ∃ reads, decodeScalars hex (scalarsOf (fields.mergeSort fieldOrder)) 0 =
        .ok (reads, hex.length) ∧
      (reads.map (·.span)).Pairwise (fun a b => a.stop ≤ b.start) ∧
      ∀ span ∈ reads.map (·.span), 0 ≤ span.start ∧ span.stop ≤ (hex.length : Int) := by
  obtain ⟨reads, hread, -, htiles⟩ := h record hrecord
  exact ⟨reads, hread, htiles.pairwise, htiles.inside⟩

end Section

end Runar.Sdk.Codec
