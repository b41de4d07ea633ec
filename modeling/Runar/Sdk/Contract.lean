/-
  Sdk/Contract.lean --- the contract object of the SDK and the scripts it builds.

  WHAT THIS FILE IS FOR.  A `RunarContract` holds a compiled artifact, the arguments
  of the constructor, the state it tracks and the output it can spend.  This file has
  the object, its constructor, the encodings of arguments, and the code and locking
  scripts built from the artifact's template.

  VALUES.  Arguments and state values are what a caller passes, of any type; a number
  that is not a bigint is an integer here.
-/
import Runar.Sdk.State

set_option autoImplicit false

namespace Runar.Sdk

open Script Artifact

/-! ## Values of the caller -/

/-- A value a caller passes.  `emptySig` is the marker for a signature left empty. -/
inductive JsValue where
  | bigint (n : Int)
  | number (n : Int)
  | boolean (b : Bool)
  | string (text : HexText)
  | emptySig
  | null
  | undefined
  | array (elements : List JsValue)
  deriving Repr

/-- A record: what it holds under a key. -/
abbrev Record : Type := String → Option JsValue

/-- `{ ...left, ...right }`. -/
def Record.spread (left right : Record) : Record := fun key => (right key).or (left key)

/-- The record with one entry set. -/
def Record.set (record : Record) (key : String) (value : JsValue) : Record :=
  fun other => if other = key then some value else record other

/-- What a lookup gives, `undefined` for a missing key. -/
def Record.get (record : Record) (key : String) : JsValue := (record key).getD .undefined

mutual

/-- `String(value)`. -/
def jsText : JsValue → HexText
  | .bigint n | .number n => decimalText n
  | .boolean b => cond b "true".toList "false".toList
  | .string text => text
  | .emptySig => "Symbol(runar.sdk.emptySig)".toList
  | .null => "null".toList
  | .undefined => "undefined".toList
  | .array elements => jsJoin elements

/-- The elements of an array joined by commas, nothing for `null` and `undefined`. -/
def jsJoin : List JsValue → HexText
  | [] => []
  | [last] => jsElement last
  | first :: rest => jsElement first ++ [','] ++ jsJoin rest

def jsElement : JsValue → HexText
  | .null | .undefined => []
  | value => jsText value

end

/-! ## Pushes -/

/-- The value of a hexadecimal digit. -/
def hexDigit? (c : Char) : Option Nat :=
  if '0' ≤ c ∧ c ≤ '9' then some (c.toNat - '0'.toNat)
  else if 'a' ≤ c ∧ c ≤ 'f' then some (c.toNat - 'a'.toNat + 10)
  else if 'A' ≤ c ∧ c ≤ 'F' then some (c.toNat - 'A'.toNat + 10)
  else none

/-- `parseInt(text, 16)` of two characters: the digits before the first other
character. -/
def parseByte (high low : Char) : Option Nat :=
  match hexDigit? high, hexDigit? low with
  | some h, some l => some (16 * h + l)
  | some h, none => some h
  | none, _ => none

/-- The one-opcode push of a byte that has one. -/
def minimalPush (byte : Nat) : Option HexText :=
  if 0x01 ≤ byte ∧ byte ≤ 0x10 then some (hexNumber (0x50 + byte))
  else if byte = 0x81 then some ['4', 'f']
  else none

/-- Encode raw hex bytes as a push.  The lengths past one byte are those of the state
section's framing. -/
def encodePushData (dataHex : HexText) : HexText :=
  match dataHex with
  | [] => ['0', '0']
  | [high, low] => ((parseByte high low).bind minimalPush).getD (encodePushDataState dataHex)
  | _ => encodePushDataState dataHex

/-- The bytes of a positive number, least first. -/
def magnitudeBytes (absVal : Nat) : List Nat :=
  if absVal = 0 then [] else absVal % 256 :: magnitudeBytes (absVal / 256)
termination_by absVal

/-- Encode an integer as a minimally encoded push. -/
def encodeScriptNumber (n : Int) : HexText :=
  if n = 0 then ['0', '0']
  else if 1 ≤ n ∧ n ≤ 16 then Nat.toDigits 16 (0x50 + n.toNat)
  else if n = -1 then ['4', 'f']
  else
    let bytes := magnitudeBytes n.natAbs
    let bytes :=
      if 0x80 ≤ bytes.getLastD 0 then bytes ++ [if n < 0 then 0x80 else 0x00]
      else if n < 0 then bytes.modifyLast (· ||| 0x80)
      else bytes
    encodePushData (bytes.flatMap hexNumber)

/-- Encode an argument as a push. -/
def encodeArg : JsValue → HexText
  | .emptySig => ['0', '0']
  | .bigint n | .number n => encodeScriptNumber n
  | .boolean b => cond b ['5', '1'] ['0', '0']
  | .string text => encodePushData text
  | value => encodePushData (jsText value)

/-! ## Artifacts -/

/-- A parameter of a constructor or a method.  An array parameter has an array type. -/
structure ABIParam where
  name : String
  type : FieldType

/-- A method of the ABI. -/
structure ABIMethod where
  name : String
  params : List ABIParam
  isPublic : Bool
  usesCodePart : Option Bool
  sigHashType : Option Nat

/-- A placeholder that the argument `paramIndex` replaces. -/
structure ConstructorSlot where
  paramIndex : Nat
  byteOffset : Nat

/-- A placeholder that the position of a code separator replaces. -/
structure CodeSepIndexSlot where
  byteOffset : Nat
  codeSepIndex : Nat

/-- A state field with the value it starts from, if it has one. -/
structure InitialField extends StateField where
  initialValue : Option JsValue

/-- A compiled contract.  A list stands for an entry that may be missing: the SDK
treats a missing list as an empty one. -/
structure RunarArtifact where
  contractName : String
  parentClass : Option String
  constructorParams : List ABIParam
  methods : List ABIMethod
  script : HexText
  stateFields : List InitialField
  constructorSlots : List ConstructorSlot
  codeSepIndexSlots : List CodeSepIndexSlot
  codeSeparatorIndex : Option Nat
  codeSeparatorIndices : Option (List Nat)
  anf : Option ANFProgram

/-- The public methods, in order.  Their positions are the method selectors. -/
def RunarArtifact.publicMethods (artifact : RunarArtifact) : List ABIMethod :=
  artifact.methods.filter (·.isPublic)

/-! ## The object -/

/-- An output that can be spent. -/
structure UTXO where
  txid : String
  outputIndex : Nat
  satoshis : Int
  script : HexText

/-- An inscription. -/
structure Inscription where
  contentType : HexText
  data : HexText

/-- The contract object.  Providers and signers are held by reference; `none` is
`null`. -/
structure RunarContract where
  artifact : RunarArtifact
  constructorArgs : List JsValue
  state : Record
  codeScript : Option HexText
  inscription : Option Inscription
  currentUtxo : Option UTXO
  provider : Option Nat
  signer : Option Nat
  prevOutScripts : List (Nat × HexText)
  serialisedOutputs : Option HexText

/-- The argument that starts a field without an initial value: the constructor
parameter of its name, else the argument at its index. -/
def constructorArgFor (params : List ABIParam) (constructorArgs : List JsValue)
    (field : StateField) : Option JsValue :=
  let paramIdx := params.findIdx (·.name = field.name)
  if paramIdx < params.length ∧ paramIdx < constructorArgs.length then constructorArgs[paramIdx]?
  else constructorArgs[field.index]?

/-- The starting value of a field. -/
def initialFieldValue (params : List ABIParam) (constructorArgs : List JsValue)
    (field : InitialField) : Option JsValue :=
  field.initialValue.or (constructorArgFor params constructorArgs field.toStateField)

/-- The state of a new object. -/
def initialState (params : List ABIParam) (fields : List InitialField)
    (constructorArgs : List JsValue) : Record :=
  fields.foldl (fun state field =>
    match initialFieldValue params constructorArgs field with
    | some value => state.set field.name value
    | none => state) (fun _ => none)

/-- `new RunarContract(artifact, constructorArgs)`. -/
def newRunarContract (artifact : RunarArtifact) (constructorArgs : List JsValue) :
    Except String RunarContract :=
  let expected := artifact.constructorParams.length
  if constructorArgs.length ≠ expected then
    .error ("RunarContract: expected " ++ toString expected ++ " constructor args for " ++
      artifact.contractName ++ ", got " ++ toString constructorArgs.length)
  else
    .ok
      { artifact, constructorArgs,
        state := initialState artifact.constructorParams artifact.stateFields constructorArgs,
        codeScript := none, inscription := none, currentUtxo := none,
        provider := none, signer := none, prevOutScripts := [], serialisedOutputs := none }

/-! ## The code script -/

/-- The argument at an index, `undefined` past the end. -/
def argAt (constructorArgs : List JsValue) (i : Nat) : JsValue :=
  constructorArgs[i]?.getD .undefined

/-- How many bytes a push adds to the placeholder it replaces. -/
def growth (encoded : HexText) : Int := encoded.length / 2 - 1

/-- How far the constructor slots before an offset move it. -/
def constructorShift (slots : List ConstructorSlot) (constructorArgs : List JsValue)
    (offset : Nat) : Int :=
  ((slots.filter (·.byteOffset < offset)).map fun slot =>
    growth (encodeArg (argAt constructorArgs slot.paramIndex))).sum

/-- How far resolved code separator slots before an offset move it.  A slot is its
offset in the template and its adjusted value. -/
def codeSepShift (resolved : List (Nat × Int)) (offset : Nat) : Int :=
  ((resolved.filter (·.1 < offset)).map fun slot => growth (encodeScriptNumber slot.2)).sum

/-- Resolve the code separator slots, by ascending offset. -/
def resolvedCodeSepSlotValues (artifact : RunarArtifact) (constructorArgs : List JsValue) :
    List (Nat × Int) :=
  (artifact.codeSepIndexSlots.mergeSort (·.byteOffset ≤ ·.byteOffset)).foldl
    (fun result slot =>
      result ++ [(slot.byteOffset, slot.codeSepIndex +
        constructorShift artifact.constructorSlots constructorArgs slot.codeSepIndex +
        codeSepShift result slot.codeSepIndex)]) []

/-- Replace the placeholder at a byte offset. -/
def replacePlaceholder (script : HexText) (sub : Nat × HexText) : HexText :=
  script.take (2 * sub.1) ++ sub.2 ++ script.drop (2 * sub.1 + 2)

/-- The substitutions of a template, in the order they are collected. -/
def substitutions (artifact : RunarArtifact) (constructorArgs : List JsValue) :
    List (Nat × HexText) :=
  (artifact.constructorSlots.map fun slot =>
    (slot.byteOffset, encodeArg (argAt constructorArgs slot.paramIndex))) ++
  (resolvedCodeSepSlotValues artifact constructorArgs).map fun slot =>
    (slot.1, encodeScriptNumber slot.2)

/-- Build the code script: the template with its placeholders replaced, by descending
offset.  An old stateless artifact has no slots, and its arguments follow the code. -/
def buildCodeScript (artifact : RunarArtifact) (constructorArgs : List JsValue) : HexText :=
  if artifact.constructorSlots ≠ [] ∨ artifact.codeSepIndexSlots ≠ [] then
    ((substitutions artifact constructorArgs).mergeSort (·.1 ≥ ·.1)).foldl replacePlaceholder
      artifact.script
  else if artifact.stateFields = [] then
    artifact.script ++ constructorArgs.flatMap encodeArg
  else artifact.script

end Runar.Sdk
