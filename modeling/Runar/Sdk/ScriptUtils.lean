/-
  Sdk/ScriptUtils.lean --- reading the constructor's arguments off a script.

  WHAT THIS FILE IS FOR.  From a script on the chain the SDK recovers the arguments it
  was built with: it goes through the slots of the template by offset, reads the push
  that stands where each is, and moves the later slots by what the push is longer than
  the placeholder.  The same walk, with the text between the slots compared, tells
  whether a script is one of the artifact.

  NUMBERS.  An offset that is no number any more is `none`.
-/
import Runar.Sdk.Assembly
import Runar.Sdk.OpReturn

set_option autoImplicit false

namespace Runar.Sdk

open Script Artifact Codec

/-! ## Elements -/

/-- An element of a script: the data of a push, the length of the whole in characters, and
the opcode. -/
structure ScriptElement where
  dataHex : HexText
  totalHexChars : Option Int
  opcode : Option Nat
  deriving DecidableEq, Repr

def readScriptElement (hex : HexText) : Option Int → ScriptElement
  | none => ⟨[], some 2, none⟩
  | some offset =>
      match byteAt hex offset 0 with
      | none => ⟨[], some 2, none⟩
      | some opcode =>
          if opcode = 0x00 then ⟨[], some 2, some opcode⟩
          else if 0x01 ≤ opcode ∧ opcode ≤ 0x4b then
            let dataLen : Int := opcode * 2
            ⟨slice hex (offset + 2) (offset + 2 + dataLen), some (2 + dataLen), some opcode⟩
          else if opcode = 0x4c then
            match byteAt hex offset 2 with
            | none => ⟨[], none, some opcode⟩
            | some len =>
                let dataLen : Int := len * 2
                ⟨slice hex (offset + 4) (offset + 4 + dataLen), some (4 + dataLen), some opcode⟩
          else if opcode = 0x4d then
            let lo := (byteAt hex offset 2).getD 0
            let hi := (byteAt hex offset 4).getD 0
            let dataLen : Int := (lo ||| hi <<< 8 : Nat) * 2
            ⟨slice hex (offset + 6) (offset + 6 + dataLen), some (6 + dataLen), some opcode⟩
          else if opcode = 0x4e then
            let dataLen : Int := pushLen4 hex offset * 2
            ⟨slice hex (offset + 10) (offset + 10 + dataLen), some (10 + dataLen), some opcode⟩
          else ⟨[], some 2, some opcode⟩

/-- The steps are those of the state section's numbers. -/
def decodeScriptNumber (dataHex : HexText) : Except String Int := decodeNum2Bin dataHex

/-- The value of an element for a parameter of a type.  The case the source has for the
type name `bool` is no parameter's: the compiler writes `boolean`. -/
def interpretScriptElement (opcode : Option Nat) (dataHex : HexText) :
    FieldType → Except String JsValue
  | .primitive .bigint =>
      match opcode with
      | some opcode =>
          if opcode = 0x00 then .ok (.bigint 0)
          else if 0x51 ≤ opcode ∧ opcode ≤ 0x60 then .ok (.bigint (opcode - 0x50 : Nat))
          else if opcode = 0x4f then .ok (.bigint (-1))
          else (decodeScriptNumber dataHex).map .bigint
      | none => (decodeScriptNumber dataHex).map .bigint
  | _ =>
      match opcode with
      | some opcode =>
          if 0x51 ≤ opcode ∧ opcode ≤ 0x60 then .ok (.string (hexNumber (opcode - 0x50)))
          else if opcode = 0x4f then .ok (.string ['8', '1'])
          else .ok (.string dataHex)
      | none => .ok (.string dataHex)

/-! ## Arguments -/

/-- The code of a script: for a contract with state, what stands before its OP_RETURN.
The search for it is given some rounds. -/
def codeHexOf (fuel : Nat) (artifact : RunarArtifact) (scriptHex : HexText) : Option HexText :=
  if artifact.stateFields = [] then some scriptHex
  else
    (walkOpReturn scriptHex fuel 0).map fun opReturnPos =>
      if opReturnPos ≠ -1 then slice scriptHex 0 opReturnPos else scriptHex

/-- The walk over the slots: the values found, the parameters they are of, and how far the
next slot is moved, in bytes. -/
structure Extraction where
  result : Record
  assigned : List Nat
  cumulativeShift : Option Int

/-- One slot.  Every slot moves the later ones, the first of a parameter has its value. -/
def extractSlot (artifact : RunarArtifact) (codeHex : HexText) (st : Extraction)
    (slot : ConstructorSlot) : Except String Extraction := do
  let adjustedHexOffset : Option Int :=
    st.cumulativeShift.map fun shift => (slot.byteOffset + shift) * 2
  let elem := readScriptElement codeHex adjustedHexOffset
  let cumulativeShift :=
    st.cumulativeShift.bind fun shift => elem.totalHexChars.map fun chars => shift + (chars / 2 - 1)
  if slot.paramIndex ∈ st.assigned then .ok { st with cumulativeShift }
  else
    let assigned := slot.paramIndex :: st.assigned
    match artifact.constructorParams[slot.paramIndex]? with
    | none => .ok { st with assigned, cumulativeShift }
    | some param => do
        let value ← interpretScriptElement elem.opcode elem.dataHex param.type
        .ok { result := st.result.set param.name value, assigned, cumulativeShift }

def extractSlots (artifact : RunarArtifact) (codeHex : HexText) :
    List ConstructorSlot → Extraction → Except String Extraction
  | [], st => .ok st
  | slot :: rest, st => do
      let st ← extractSlot artifact codeHex st slot
      extractSlots artifact codeHex rest st

/-- The slots by ascending offset. -/
def slotsAscending (artifact : RunarArtifact) : List ConstructorSlot :=
  artifact.constructorSlots.mergeSort (·.byteOffset ≤ ·.byteOffset)

/-- The arguments by the names of their parameters. -/
def extractConstructorArgs (fuel : Nat) (artifact : RunarArtifact) (scriptHex : HexText) :
    Option (Except String Record) :=
  if artifact.constructorSlots = [] then some (.ok fun _ => none)
  else
    (codeHexOf fuel artifact scriptHex).map fun codeHex =>
      (extractSlots artifact codeHex (slotsAscending artifact) ⟨fun _ => none, [], some 0⟩).map
        (·.result)

/-! ## Matching -/

/-- `text.slice(start, start + length)` -/
def sliceAt (text : HexText) (length : Nat) : Option Int → HexText
  | some start => slice text start (start + length)
  | none => []

/-- `text.slice(start)` -/
def sliceFrom (text : HexText) : Option Int → HexText
  | some start => slice text start text.length
  | none => text

/-- The slots without those at an offset that was there before. -/
def distinctOffsets : List ConstructorSlot → List Nat → List ConstructorSlot
  | [], _ => []
  | slot :: rest, seenOffsets =>
      if slot.byteOffset ∈ seenOffsets then distinctOffsets rest seenOffsets
      else slot :: distinctOffsets rest (slot.byteOffset :: seenOffsets)

/-- The texts between the slots are those of the template, from a position of each on. -/
def matchSlots (template codeHex : HexText) : List ConstructorSlot → Nat → Option Int → Bool
  | [], templatePos, codePos => template.drop templatePos = sliceFrom codeHex codePos
  | slot :: rest, templatePos, codePos =>
      let slotHexOffset := slot.byteOffset * 2
      let templateSegment := slice template templatePos slotHexOffset
      if templateSegment ≠ sliceAt codeHex templateSegment.length codePos then false
      else
        let elemOffset : Option Int := codePos.map fun pos => pos + templateSegment.length
        let elem := readScriptElement codeHex elemOffset
        matchSlots template codeHex rest (slotHexOffset + 2)
          (elemOffset.bind fun offset => elem.totalHexChars.map (offset + ·))

/-- The script is one of the artifact. -/
def matchesArtifact (fuel : Nat) (artifact : RunarArtifact) (scriptHex : HexText) : Option Bool :=
  (codeHexOf fuel artifact scriptHex).map fun codeHex =>
    if artifact.constructorSlots = [] then codeHex = artifact.script
    else matchSlots artifact.script codeHex (distinctOffsets (slotsAscending artifact) []) 0 (some 0)

end Runar.Sdk
