/-
  Sdk/Envelope.lean --- reading an inscription from a script.

  WHAT THIS FILE IS FOR.  `ordinals/envelope.ts` builds the envelope of an inscription
  and finds one in a script: it walks the opcodes, and at an OP_FALSE looks for the
  envelope's opcodes and its two pushes.
-/
import Runar.Logic.Utf8
import Runar.Sdk.Assembly
import Runar.Sdk.OpReturn

set_option autoImplicit false

namespace Runar.Sdk

open Script Codec Logic

/-! ## Text -/

/-- The UTF-8 of a text, as hexadecimal digits. -/
def utf8ToHex (text : List ℕ) : HexText := (utf8Encode text).flatMap hexNumber

/-- A decoder leaves out a byte order mark at the start. -/
def dropMark : List ℕ → List ℕ
  | 0xfeff :: text => text
  | text => text

/-- The text of some bytes, as the digits of its UTF-8. -/
def hexToUtf8 (hex : HexText) : HexText :=
  utf8ToHex (dropMark (utf8Decode none ((textBytes hex).map (·.getD 0))))

/-! ## Pushes -/

/-- The data of a push, and how many characters the push takes, if that is a number. -/
structure PushRead where
  data : HexText
  bytesRead : Option Int

/-- The push with a header of `head` characters. -/
def pushOf (scriptHex : HexText) (offset head dataLen : Int) : Option PushRead :=
  if offset + head + dataLen > scriptHex.length then none
  else some ⟨slice scriptHex (offset + head) (offset + head + dataLen), some (head + dataLen)⟩

def readPushData (scriptHex : HexText) (offset : Int) : Option PushRead :=
  if offset + 2 > scriptHex.length then none
  else
    match byteAt scriptHex offset 0 with
    | none => none
    | some opcode =>
        if 0x01 ≤ opcode ∧ opcode ≤ 0x4b then pushOf scriptHex offset 2 (opcode * 2)
        else if opcode = 0x4c then
          if offset + 4 > scriptHex.length then none
          else
            match byteAt scriptHex offset 2 with
            | none => some ⟨[], none⟩
            | some len => pushOf scriptHex offset 4 (len * 2)
        else if opcode = 0x4d then
          if offset + 6 > scriptHex.length then none
          else
            let lo := (byteAt scriptHex offset 2).getD 0
            let hi := (byteAt scriptHex offset 4).getD 0
            pushOf scriptHex offset 6 ((lo ||| hi <<< 8 : Nat) * 2)
        else if opcode = 0x4e then
          if offset + 10 > scriptHex.length then none
          else pushOf scriptHex offset 10 (pushLen4 scriptHex offset * 2)
        else none

/-- How many characters an opcode takes with its data, if that is a number. -/
def opcodeSize (scriptHex : HexText) (offset : Int) : Option Int :=
  if offset + 2 > scriptHex.length then some 2
  else
    match byteAt scriptHex offset 0 with
    | none => some 2
    | some opcode =>
        if 0x01 ≤ opcode ∧ opcode ≤ 0x4b then some (2 + opcode * 2)
        else if opcode = 0x4c then
          if offset + 4 > scriptHex.length then some 2
          else (byteAt scriptHex offset 2).map fun (len : Nat) => (4 + len * 2 : Int)
        else if opcode = 0x4d then
          if offset + 6 > scriptHex.length then some 2
          else
            let lo := (byteAt scriptHex offset 2).getD 0
            let hi := (byteAt scriptHex offset 4).getD 0
            some (6 + (lo ||| hi <<< 8 : Nat) * 2)
        else if opcode = 0x4e then
          if offset + 10 > scriptHex.length then some 2
          else some (10 + pushLen4 scriptHex offset * 2)
        else some 2

/-! ## The search -/

/-- The place behind two characters that must stand at a place. -/
def expects (scriptHex : HexText) (text : HexText) (pos : Int) : Option Int :=
  if pos + 2 > scriptHex.length ∨ slice scriptHex pos (pos + 2) ≠ text then none else some (pos + 2)

/-- The place behind a push.  Where that is no number, the check that comes next fails. -/
def behindPush (scriptHex : HexText) (pos : Int) : Option Int := do
  let push ← readPushData scriptHex pos
  let bytesRead ← push.bytesRead
  some (pos + bytesRead)

/-- The end of the envelope that starts with the OP_FALSE at an offset, if one does. -/
def envelopeEnd (scriptHex : HexText) (offset : Int) : Option Int := do
  if offset + 12 ≤ scriptHex.length ∧
      slice scriptHex (offset + 2) (offset + 4) = ['6', '3'] ∧
      slice scriptHex (offset + 4) (offset + 12) = "036f7264".toList then
    let pos ← expects scriptHex ['5', '1'] (offset + 12)
    let pos ← behindPush scriptHex pos
    let pos ← expects scriptHex ['0', '0'] pos
    let pos ← behindPush scriptHex pos
    expects scriptHex ['6', '8'] pos
  else none

/-- Where an envelope starts and ends. -/
structure EnvelopeBounds where
  startHex : Int
  endHex : Int

/-- The loop, for some rounds at most.  From an offset that is no number it does not go on. -/
def findInscriptionEnvelope (scriptHex : HexText) :
    Nat → Option Int → Option (Option EnvelopeBounds)
  | 0, _ => none
  | _ + 1, none => some none
  | fuel + 1, some offset =>
      if offset + 2 ≤ scriptHex.length then
        match if byteAt scriptHex offset 0 = some 0x00 then envelopeEnd scriptHex offset
            else none with
        | some endHex => some (some ⟨offset, endHex⟩)
        -- where a check fails, the source goes on past the OP_FALSE, which is its size
        | none =>
            findInscriptionEnvelope scriptHex fuel
              ((opcodeSize scriptHex offset).map (offset + ·))
      else some none

/-- The inscription of an envelope. -/
def inscriptionOf (scriptHex : HexText) (bounds : EnvelopeBounds) : Option Inscription := do
  let envelopeHex := slice scriptHex bounds.startHex bounds.endHex
  let ctPush ← readPushData envelopeHex 14
  let bytesRead ← ctPush.bytesRead
  let dataPush ← readPushData envelopeHex (14 + bytesRead + 2)
  some ⟨hexToUtf8 ctPush.data, dataPush.data⟩

def parseInscriptionEnvelope (fuel : Nat) (scriptHex : HexText) : Option (Option Inscription) :=
  (findInscriptionEnvelope scriptHex fuel (some 0)).map fun bounds =>
    bounds.bind (inscriptionOf scriptHex)

/-- `parseInscriptionEnvelope` returns `result`. -/
def ParsesInscription (scriptHex : HexText) (result : Option Inscription) : Prop :=
  ∃ fuel, parseInscriptionEnvelope fuel scriptHex = some result

theorem findInscriptionEnvelope_add {scriptHex : HexText} {fuel : Nat} {offset : Option Int}
    {result : Option EnvelopeBounds}
    (h : findInscriptionEnvelope scriptHex fuel offset = some result) (more : Nat) :
    findInscriptionEnvelope scriptHex (fuel + more) offset = some result := by
  induction fuel generalizing offset with
  | zero => exact nomatch h
  | succ fuel ih =>
    rw [Nat.succ_add]
    cases offset with
    | none => exact h
    | some offset =>
      rw [findInscriptionEnvelope] at h ⊢
      split at h
      · rename_i hend
        rw [if_pos hend]
        split at h
        · exact h
        · exact ih h
      · rename_i hend
        rw [if_neg hend]
        exact h

theorem ParsesInscription.unique {scriptHex : HexText} {result result' : Option Inscription}
    (h : ParsesInscription scriptHex result) (h' : ParsesInscription scriptHex result') :
    result = result' := by
  obtain ⟨fuel, h⟩ := h
  obtain ⟨fuel', h'⟩ := h'
  rw [parseInscriptionEnvelope, Option.map_eq_some_iff] at h h'
  obtain ⟨bounds, hfind, rfl⟩ := h
  obtain ⟨bounds', hfind', rfl⟩ := h'
  have hsame := (findInscriptionEnvelope_add hfind fuel').symm.trans
    (Nat.add_comm fuel' fuel ▸ findInscriptionEnvelope_add hfind' fuel)
  rw [Option.some.inj hsame]

end Runar.Sdk
