/-
  Schema/CanonicalJson.lean --- canonical JSON.

  WHAT THIS FILE IS FOR.  Compilers are compared by the canonical texts of their programs: members
  in the order of their keys, no blanks, integers in full.  This file has the serialiser and the
  function that reads a text and writes it again.  A text determines the program.  But
  `JSON.parse` reads integers as doubles, so not every text comes back as it was.

  LEFT OUT: values with functions, and objects inside themselves, which no program has; the texts
  of the errors.
-/
import Runar.Logic.DoubleText
import Runar.Logic.JsonText
import Mathlib.Order.Defs.LinearOrder
import Mathlib.Data.List.Lex

set_option autoImplicit false

namespace Runar.Schema.Canonical

open Logic Logic.Json

/-! ## Values -/

inductive JsNumber where
  | bigint (value : Int)
  | number (value : Double)

/-- A value of JavaScript without functions. -/
inductive JsValue where
  | undefined
  | null
  | boolean (value : Bool)
  | numeric (value : JsNumber)
  | string (value : Units)
  | array (elements : List JsValue)
  | object (members : List (Units × JsValue))

def JsValue.isUndefined : JsValue → Bool
  | .undefined => true
  | _ => false

/-! ## Numbers -/

/-- The code units of an ASCII text. -/
def units (text : List Char) : Units := text.map fun c => c.toNat.toUInt16

/-- The characters of some code units. -/
def chars (text : Units) : List Char := text.map fun u => Char.ofNat u.toNat

/-- The text of a number; there is none for the infinite ones. -/
def serialiseNumber : Double → Option Units
  | .nonFinite => none
  | .negZero => some (units ['0'])
  | d => some (units d.stringify)

def serialiseNumeric : JsNumber → Option Units
  | .bigint n => some (units (intText n))
  | .number d => serialiseNumber d

/-! ## Strings -/

def MAX_IR_BYTES : Nat := 16 * 1024 * 1024
def MAX_NESTING : Nat := 512
def MAX_STRING_BYTES : Nat := 4 * 1024 * 1024

def isHighSurrogate (c : UInt16) : Bool := 0xd800 ≤ c && c ≤ 0xdbff
def isLowSurrogate (c : UInt16) : Bool := 0xdc00 ≤ c && c ≤ 0xdfff

/-- The number of bytes in UTF-8. -/
def byteLength : Units → Nat
  | [] => 0
  | [c] => if c < 0x80 then 1 else if c < 0x800 then 2 else 3
  | c :: d :: rest =>
      if c < 0x80 then 1 + byteLength (d :: rest)
      else if c < 0x800 then 2 + byteLength (d :: rest)
      else if isHighSurrogate c && isLowSurrogate d then 4 + byteLength rest
      else 3 + byteLength (d :: rest)

/-- No surrogate stands alone. -/
def wellFormed : Units → Bool
  | [] => true
  | [c] => !isHighSurrogate c && !isLowSurrogate c
  | c :: d :: rest =>
      if isHighSurrogate c then isLowSurrogate d && wellFormed rest
      else !isLowSurrogate c && wellFormed (d :: rest)

/-- A string the serialiser takes. -/
def fitsString (s : Units) : Bool := byteLength s ≤ MAX_STRING_BYTES && wellFormed s

def serialiseString (s : Units) : Option Units :=
  if fitsString s then some (stringText s) else none

/-! ## The serialiser -/

/-- The order of keys: by their code units. -/
def keyLe (a b : Units) : Bool := decide (a.map UInt16.toNat ≤ b.map UInt16.toNat)

mutual

/-- The text of a value; there is none where the source throws. -/
def serialise (depth : Nat) : JsValue → Option Units
  | .undefined => none
  | .null => some (word "null")
  | .boolean true => some (word "true")
  | .boolean false => some (word "false")
  | .numeric n => serialiseNumeric n
  | .string s => serialiseString s
  | .array es =>
      if MAX_NESTING ≤ depth then none
      else (serialiseArray (depth + 1) es).map fun parts =>
        openBracket :: (joinComma parts ++ [closeBracket])
  | .object ms =>
      if MAX_NESTING ≤ depth then none
      else (serialiseObject (depth + 1) ms).map fun parts =>
        openBrace :: (joinComma ((parts.mergeSort fun a b => keyLe a.1 b.1).map (·.2)) ++
          [closeBrace])

/-- The texts of the elements; an undefined one is written as null. -/
def serialiseArray (depth : Nat) : List JsValue → Option (List Units)
  | [] => some []
  | e :: es =>
      (if e.isUndefined then some (word "null") else serialise depth e).bind fun t =>
        (serialiseArray depth es).map (t :: ·)

/-- The texts of the members that are defined, beside their keys. -/
def serialiseObject (depth : Nat) : List (Units × JsValue) → Option (List (Units × Units))
  | [] => some []
  | (k, v) :: ms =>
      if v.isUndefined then serialiseObject depth ms
      else (serialiseString k).bind fun key => (serialise depth v).bind fun t =>
        (serialiseObject depth ms).map ((k, key ++ colon :: t) :: ·)

end

def canonicalJsonStringify (v : JsValue) : Option Units :=
  (serialise 0 v).bind fun t => if byteLength t ≤ MAX_IR_BYTES then some t else none

/-! ## Reading -/

mutual

/-- What `JSON.parse` makes of a value whose numbers are tokens.  No object of a canonical text
has a key twice. -/
def fromTokens : Json Units → Option JsValue
  | .null => some .null
  | .boolean b => some (.boolean b)
  | .number t => (readNumber (chars t)).map fun d => .numeric (.number d)
  | .string s => some (.string s)
  | .array es => (fromElements es).map .array
  | .object ms => (fromMembers ms).map .object

def fromElements : List (Json Units) → Option (List JsValue)
  | [] => some []
  | e :: es => (fromTokens e).bind fun e' => (fromElements es).map (e' :: ·)

def fromMembers : List (Units × Json Units) → Option (List (Units × JsValue))
  | [] => some []
  | (k, v) :: ms => (fromTokens v).bind fun v' => (fromMembers ms).map ((k, v') :: ·)

end

/-- `JSON.parse`. -/
def parse (text : Units) : Option JsValue := (Json.read text).bind fromTokens

/-- Read a text and write it again. -/
def canonicalise (text : Units) : Option Units := (parse text).bind canonicalJsonStringify

/-! ## The tree that is written -/

mutual

/-- The value a text is written for: the members in order, the numbers as tokens. -/
def treeOf (depth : Nat) : JsValue → Option (Json Units)
  | .undefined => none
  | .null => some .null
  | .boolean b => some (.boolean b)
  | .numeric n => (serialiseNumeric n).map .number
  | .string s => if fitsString s then some (.string s) else none
  | .array es =>
      if MAX_NESTING ≤ depth then none else (treeElements (depth + 1) es).map .array
  | .object ms =>
      if MAX_NESTING ≤ depth then none
      else (treeMembers (depth + 1) ms).map fun ms =>
        .object (ms.mergeSort fun a b => keyLe a.1 b.1)

def treeElements (depth : Nat) : List JsValue → Option (List (Json Units))
  | [] => some []
  | e :: es =>
      (if e.isUndefined then some .null else treeOf depth e).bind fun t =>
        (treeElements depth es).map (t :: ·)

def treeMembers (depth : Nat) : List (Units × JsValue) → Option (List (Units × Json Units))
  | [] => some []
  | (k, v) :: ms =>
      if v.isUndefined then treeMembers depth ms
      else if fitsString k then (treeOf depth v).bind fun t =>
        (treeMembers depth ms).map ((k, t) :: ·)
      else none

end

/-- The text of a member, beside its key. -/
def memberText (member : Units × Json Units) : Units × Units :=
  (member.1, stringText member.1 ++ colon :: render member.2)

theorem renderElements_eq (es : List (Json Units)) : renderElements es = es.map render := by
  induction es with
  | nil => rfl
  | cons e es ih => rw [renderElements, List.map_cons, ih]

theorem renderMembers_eq (ms : List (Units × Json Units)) :
    renderMembers ms = (ms.map memberText).map (·.2) := by
  induction ms with
  | nil => rfl
  | cons m ms ih =>
    rw [renderMembers, ih]
    rfl

/-- Sorting the members sorts their texts. -/
theorem renderMembers_mergeSort (ms : List (Units × Json Units)) :
    renderMembers (ms.mergeSort fun a b => keyLe a.1 b.1) =
      ((ms.map memberText).mergeSort fun a b => keyLe a.1 b.1).map (·.2) := by
  rw [renderMembers_eq, List.map_mergeSort (f := memberText) (s := fun a b => keyLe a.1 b.1)]
  exact fun a _ b _ => rfl

mutual

/-- The serialiser writes the tree. -/
theorem serialise_eq (depth : Nat) : ∀ v, serialise depth v = (treeOf depth v).map render
  | .undefined => rfl
  | .null => rfl
  | .boolean b => by cases b <;> rfl
  | .numeric n => by
      rw [serialise, treeOf, Option.map_map]
      cases serialiseNumeric n <;> rfl
  | .string s => by
      rw [serialise, treeOf, serialiseString]
      split <;> rfl
  | .array es => by
      rw [serialise, treeOf, serialiseArray_eq]
      split
      · rfl
      · cases treeElements (depth + 1) es with
        | none => rfl
        | some ts =>
          rw [Option.map_some, Option.map_some, Option.map_some, Option.map_some, render,
            renderElements_eq]
  | .object ms => by
      rw [serialise, treeOf, serialiseObject_eq]
      split
      · rfl
      · cases treeMembers (depth + 1) ms with
        | none => rfl
        | some ts =>
          rw [Option.map_some, Option.map_some, Option.map_some, Option.map_some, render,
            renderMembers_mergeSort]

theorem serialiseArray_eq (depth : Nat) :
    ∀ es, serialiseArray depth es = (treeElements depth es).map fun ts => ts.map render
  | [] => rfl
  | e :: es => by
      rw [serialiseArray, treeElements, serialiseArray_eq depth es, serialise_eq depth e]
      split
      · cases treeElements depth es <;> rfl
      · cases treeOf depth e with
        | none => rfl
        | some t => cases treeElements depth es <;> rfl

theorem serialiseObject_eq (depth : Nat) :
    ∀ ms, serialiseObject depth ms = (treeMembers depth ms).map fun ts => ts.map memberText
  | [] => rfl
  | (k, v) :: ms => by
      rw [serialiseObject, treeMembers, serialiseObject_eq depth ms, serialise_eq depth v,
        serialiseString]
      split
      · rfl
      · split
        · cases treeOf depth v with
          | none => rfl
          | some t => cases treeMembers depth ms <;> rfl
        · rfl

end

end Runar.Schema.Canonical
