/-
  Testing/MockPreimage.lean --- locking scripts for tests.

  WHAT THIS FILE IS FOR.  `mock-preimage.ts` builds the scripts of a stateful contract without the
  SDK: the state, the code with its slots filled, the continuation output, and the part of the
  script that is signed.  It writes what the SDK writes where the template has no slots for
  separators, the state has no flags and no arrays, its numbers fit, it is not empty, and the
  arguments before the separator are as long as their placeholders.

  LEFT OUT: the digests and the signature of the preimage, the overrides of its other fields.
-/
import Runar.Schema.StateLayout
import Runar.Script.CompactSize
import Runar.Sdk.Lossless

set_option autoImplicit false

namespace Runar.MockPreimage

open Script Artifact Sdk
open Sdk.Codec (toBigInt)

/-! ## The state -/

/-- As the SDK's, without its limit. -/
def encodeNum2Bin (n : Int) (width : Nat) : HexText :=
  let bytes := magnitudeLoop width n.natAbs
  let bytes := if n < 0 then bytes.modifyLast (· ||| 0x80) else bytes
  toHex bytes

/-- A flag of type `boolean` has no case of its own, nor has an array. -/
def encodeStateValue (value : JsValue) : FieldType → Except String HexText
  | .primitive .bigint => do
      let n ← toBigInt value
      .ok (encodeNum2Bin n 8)
  | .primitive .PubKey | .primitive .Addr | .primitive .Ripemd160 | .primitive .Sha256
  | .primitive .Point => .ok (jsText value)
  | _ => .ok (encodeText (jsText value))

def encodeFields (values : Record) : List StateField → Except String HexText
  | [] => .ok []
  | field :: fields => do
      let text ← encodeStateValue (values.get field.name) field.shape.type
      let rest ← encodeFields values fields
      .ok (text ++ rest)

def serializeState (fields : List StateField) (values : Record) : Except String HexText :=
  encodeFields values (fields.mergeSort fieldOrder)

/-! ## The code -/

/-- The argument for a slot, by the name of its parameter. -/
def slotValue (artifact : RunarArtifact) (constructorArgs : Record) (slot : ConstructorSlot) :
    Option JsValue :=
  match artifact.constructorParams[slot.paramIndex]? with
  | some param =>
      if param.name = "" then none
      else match constructorArgs param.name with
        | some .undefined => none
        | value => value
  | none => none

def fillSlot (artifact : RunarArtifact) (constructorArgs : Record) (script : HexText)
    (slot : ConstructorSlot) : HexText :=
  match slotValue artifact constructorArgs slot with
  | some value => replacePlaceholder script (slot.byteOffset, encodeArg value)
  | none => script

def buildCodePart (artifact : RunarArtifact) (constructorArgs : Record) : HexText :=
  (artifact.constructorSlots.mergeSort (·.byteOffset ≥ ·.byteOffset)).foldl
    (fillSlot artifact constructorArgs) artifact.script

/-! ## Scripts and outputs -/

/-- `artifact.stateFields`, without the initial values. -/
def fieldsOf (artifact : RunarArtifact) : List StateField :=
  artifact.stateFields.map (·.toStateField)

def buildLockingScript (artifact : RunarArtifact) (constructorArgs state : Record) :
    Except String HexText :=
  let codePart := buildCodePart artifact constructorArgs
  if artifact.stateFields = [] then .ok codePart
  else do
    let stateHex ← serializeState (fieldsOf artifact) state
    .ok (codePart ++ ['6', 'a'] ++ stateHex)

/-- A negative amount counts as zero. -/
def uint64LE (n : Int) : HexText := toHex (leBytes 8 n.toNat)

def uint32LE (n : Nat) : HexText := toHex (leBytes 4 n)

/-- The length of a script of so many characters; half a byte of a text of odd length counts. -/
def encodeVarint (chars : Nat) : Except String HexText :=
  let n := chars / 2
  if chars < 2 * 0xfd then .ok (padStart 2 '0' (halfText chars))
  else if chars ≤ 2 * 0xffff then
    .ok (['f', 'd'] ++ hexNumber (n % 256) ++ hexNumber (n / 256 % 256))
  else if chars ≤ 2 * 0xffffffff then .ok (['f', 'e'] ++ uint32LE n)
  else .error "Varint too large"

def buildContinuationOutput (codePart : HexText) (stateFields : List StateField)
    (newState : Record) (satoshis : Int) : Except String HexText := do
  let stateHex ← serializeState stateFields newState
  let script := codePart ++ ['6', 'a'] ++ stateHex
  let length ← encodeVarint script.length
  .ok (uint64LE satoshis ++ length ++ script)

/-- The separator of a method, where the template has it. -/
def codeSepIndex (artifact : RunarArtifact) (methodIndex : Nat) : Option Nat :=
  match artifact.codeSeparatorIndices with
  | some indices =>
      if methodIndex < indices.length then indices[methodIndex]? else artifact.codeSeparatorIndex
  | none => artifact.codeSeparatorIndex

/-- `scriptCode` of `buildStatefulPreimage`. -/
def scriptCode (artifact : RunarArtifact) (methodIndex : Nat) (lockingScript : HexText) : HexText :=
  match codeSepIndex artifact methodIndex with
  | some index => lockingScript.drop ((index + 1) * 2)
  | none => lockingScript

/-! ## Agreement -/

/-- A field that both write alike: no array, no flag but the empty text, and no number that does
not fit. -/
def Alike (values : Record) (field : StateField) : Prop :=
  ∃ type, field.shape = .scalar type ∧
    (type = .boolean → values.get field.name = .string []) ∧
    (type = .bigint → ∀ n, toBigInt (values.get field.name) = .ok n → -2 ^ 63 < n ∧ n < 2 ^ 63)

/-- A field with a text. -/
def Written (values : Record) (field : StateField) : Prop :=
  ∃ type, field.shape = .scalar type ∧
    (type ∈ [PrimitiveType.PubKey, .Addr, .Ripemd160, .Sha256, .Point] →
      jsText (values.get field.name) ≠ [])

/-- A stateful artifact and the arguments of its constructor. -/
structure Deployment where
  artifact : RunarArtifact
  args : List JsValue
  stateful : artifact.stateFields ≠ []
  distinct : (artifact.constructorParams.map (·.name)).Nodup
  /-- Every slot has a parameter with a name and an argument with a value. -/
  given : ∀ slot ∈ artifact.constructorSlots, ∃ param, ∃ arg : JsValue,
    artifact.constructorParams[slot.paramIndex]? = some param ∧ param.name ≠ "" ∧
      args[slot.paramIndex]? = some arg ∧ arg ≠ .undefined

namespace Deployment

variable (d : Deployment)

/-- The arguments by the names of the parameters. -/
def namedArgs : Record := fun name =>
  d.args[d.artifact.constructorParams.findIdx (·.name = name)]?

/-- The contract of the SDK with these arguments and a state. -/
def contract (state : Record) : RunarContract :=
  { artifact := d.artifact, constructorArgs := d.args, state, codeScript := none,
    inscription := none, currentUtxo := none, provider := none, signer := none,
    prevOutScripts := [], serialisedOutputs := none }

/-- The mock writes the SDK's locking script, the output of the SDK's contract with the new state,
and signs from the separator of the SDK. -/
structure Agrees (state newState : Record) (satoshis methodIndex : Nat) : Prop where
  lockingScript : ∀ tools, buildLockingScript d.artifact d.namedArgs state =
    getLockingScript (withCodec tools) (d.contract state)
  continuation : ∀ tools bytes, bytes.length < 2 ^ 32 →
    getLockingScript (withCodec tools) (d.contract newState) = .ok (toHex bytes) →
    buildContinuationOutput (buildCodePart d.artifact d.namedArgs) (fieldsOf d.artifact) newState
      satoshis = .ok (toHex (txOutput satoshis bytes))
  scriptCode : ∀ tools script, getLockingScript (withCodec tools) (d.contract state) = .ok script →
    scriptCode d.artifact methodIndex script =
      getSubscriptForSigning (d.contract state) script methodIndex

/-- The values of a state that both write. -/
structure Plain (values : Record) : Prop where
  alike : ∀ field ∈ d.artifact.stateFields, Alike values field.toStateField
  written : ∃ field ∈ d.artifact.stateFields, Written values field.toStateField

/-- What both implement. -/
structure Simple (state newState : Record) (methodIndex : Nat) : Prop where
  noSlots : d.artifact.codeSepIndexSlots = []
  state : d.Plain state
  newState : d.Plain newState
  /-- The arguments before the separator are as long as their placeholders. -/
  unmoved : ∀ index, codeSepIndex d.artifact methodIndex = some index →
    constructorShift d.artifact.constructorSlots d.args index = 0

end Deployment

/-! ## The state is the SDK's -/

theorem encodeNum2Bin_eq {n : Int} (label : String) (h : -2 ^ 63 < n ∧ n < 2 ^ 63) :
    Sdk.encodeNum2Bin n 8 label = .ok (encodeNum2Bin n 8) := by
  unfold Sdk.encodeNum2Bin encodeNum2Bin
  dsimp only
  rw [if_neg]
  rintro (hlarge | hsmall)
  · exact absurd h.2 (not_lt.mpr hlarge)
  · exact absurd h.1 (not_lt.mpr hsmall)

theorem two_le_length_padStart (text : HexText) : 2 ≤ (padStart 2 '0' text).length := by
  unfold padStart
  rw [List.length_append, List.length_replicate]
  omega

/-- A framed text is the text behind a length of a byte or more. -/
theorem encodePushDataState_eq (hex : HexText) :
    ∃ front, encodePushDataState hex = front ++ hex ∧ 2 ≤ front.length := by
  unfold encodePushDataState
  dsimp only
  split
  · exact ⟨_, rfl, two_le_length_padStart _⟩
  · split
    · exact ⟨_, rfl, by simp⟩
    · split <;> exact ⟨_, rfl, by simp⟩

/-- A framed flag is not one byte, unless it is empty. -/
theorem two_lt_length_encodeText {hex : HexText} (h : hex ≠ []) : 2 < (encodeText hex).length := by
  obtain ⟨front, htext, hfront⟩ := encodePushDataState_eq hex
  have hpos : 0 < hex.length := List.length_pos_iff.mpr h
  rw [encodeText, if_neg hpos.ne', htext, List.length_append]
  omega

/-- A flag is written alike only where it is given as the empty text. -/
theorem encodeStateValue_flag_iff (value : JsValue) (label : String) :
    Codec.encodeStateValue value .boolean label = encodeStateValue value (.primitive .boolean) ↔
      value = .string [] := by
  constructor
  · intro h
    have htext : cond (Codec.truthy value) ['0', '1'] ['0', '0'] = encodeText (jsText value) :=
      Except.ok.inj h
    have hempty : jsText value = [] := by
      by_contra hne
      have hlength := two_lt_length_encodeText hne
      rw [← htext] at hlength
      cases hflag : Codec.truthy value <;>
        rw [hflag] at hlength <;> exact absurd hlength (by decide)
    rw [hempty] at htext
    cases value with
    | string text =>
      rw [jsText] at hempty
      rw [hempty]
    | array _ => exact absurd (show ['0', '1'] = encodeText [] from htext) (by decide)
    | bigint n | number n =>
      rw [jsText] at hempty
      exact absurd hempty (decimalText_ne_nil n)
    | boolean b =>
      rw [jsText] at hempty
      cases b <;> exact absurd hempty (by decide)
    | _ =>
      rw [jsText] at hempty
      exact absurd hempty (by decide)
  · rintro rfl
    show Except.ok ['0', '0'] = Except.ok (encodeText (jsText (.string [])))
    rw [jsText]
    rfl

theorem encodeStateValue_bigint_iff (value : JsValue) (label : String) :
    Codec.encodeStateValue value .bigint label = encodeStateValue value (.primitive .bigint) ↔
      ∀ n, toBigInt value = .ok n → -2 ^ 63 < n ∧ n < 2 ^ 63 := by
  show ((do
    let n ← toBigInt value
    (Sdk.encodeNum2Bin n 8 label).mapError SerializeError.message) = (do
    let n ← toBigInt value
    .ok (encodeNum2Bin n 8))) ↔ _
  cases hn : toBigInt value with
  | error _ => exact iff_of_true rfl fun n hok => (nomatch hok)
  | ok n =>
    show (Sdk.encodeNum2Bin n 8 label).mapError SerializeError.message = .ok (encodeNum2Bin n 8) ↔ _
    constructor
    · rintro h m hm
      obtain rfl := Except.ok.inj hm
      by_contra hlarge
      rw [Sdk.encodeNum2Bin] at h
      dsimp only at h
      rw [if_pos (by omega)] at h
      exact nomatch h
    · intro h
      rw [encodeNum2Bin_eq label (h n rfl)]
      rfl

/-- Which values are written alike: numbers that fit, no flags but the empty text, and everything
of another type. -/
theorem encodeStateValue_eq_iff (value : JsValue) (type : PrimitiveType) (label : String) :
    Codec.encodeStateValue value type label = encodeStateValue value (.primitive type) ↔
      (type = .boolean → value = .string []) ∧
        (type = .bigint → ∀ n, toBigInt value = .ok n → -2 ^ 63 < n ∧ n < 2 ^ 63) := by
  cases type with
  | bigint =>
    rw [encodeStateValue_bigint_iff]
    exact ⟨fun h => ⟨fun htype => (nomatch htype), fun _ => h⟩, fun h => h.2 rfl⟩
  | boolean =>
    rw [encodeStateValue_flag_iff]
    exact ⟨fun h => ⟨fun _ => h, fun htype => (nomatch htype)⟩, fun h => h.1 rfl⟩
  | _ => exact iff_of_true rfl ⟨fun h => (nomatch h), fun h => (nomatch h)⟩


theorem encodeField_eq {values : Record} {field : StateField} (h : Alike values field) :
    Codec.encodeField values field =
      encodeStateValue (values.get field.name) field.shape.type := by
  obtain ⟨type, hshape, hflag, hfits⟩ := h
  unfold Codec.encodeField
  rw [hshape]
  exact (encodeStateValue_eq_iff _ type field.name).mpr ⟨hflag, hfits⟩

theorem encodeFields_eq {values : Record} {fields : List StateField}
    (h : ∀ field ∈ fields, Alike values field) :
    Codec.encodeFields values fields = encodeFields values fields := by
  induction fields with
  | nil => rfl
  | cons field fields ih =>
    obtain ⟨hfield, hfields⟩ := List.forall_mem_cons.mp h
    rw [Codec.encodeFields, encodeFields, encodeField_eq hfield, ih hfields]

theorem serializeState_eq {values : Record} {fields : List StateField}
    (h : ∀ field ∈ fields, Alike values field) :
    Codec.serializeState fields values = serializeState fields values :=
  encodeFields_eq fun field hfield => h field (List.mem_mergeSort.mp hfield)

theorem encodeText_ne_nil (hex : HexText) : encodeText hex ≠ [] := by
  unfold encodeText
  split
  · exact List.cons_ne_nil _ _
  · next hlength =>
    intro hnil
    have hempty : hex = [] := by
      unfold encodePushDataState at hnil
      dsimp only at hnil
      split at hnil
      · exact (List.append_eq_nil_iff.mp hnil).2
      · split at hnil
        · exact (List.append_eq_nil_iff.mp hnil).2
        · split at hnil <;> exact (List.append_eq_nil_iff.mp hnil).2
    exact hlength (congrArg List.length hempty)

theorem toHex_concat_ne_nil (bytes : Bytes) (b : UInt8) : toHex (bytes ++ [b]) ≠ [] := by
  intro hnil
  have hlength := congrArg List.length hnil
  rw [length_toHex, List.length_append] at hlength
  exact absurd hlength (by simp)

theorem encodeNum2Bin_ne_nil (n : Int) : encodeNum2Bin n 8 ≠ [] := by
  unfold encodeNum2Bin
  dsimp only
  rw [magnitudeLoop_eq, leBytes_concat]
  split
  · rw [List.modifyLast_concat]
    exact toHex_concat_ne_nil _ _
  · exact toHex_concat_ne_nil _ _

theorem encodeStateValue_ne_nil {type : PrimitiveType} {value : JsValue} {text : HexText}
    (hwritten : type ∈ [PrimitiveType.PubKey, .Addr, .Ripemd160, .Sha256, .Point] →
      jsText value ≠ [])
    (h : encodeStateValue value (.primitive type) = .ok text) : text ≠ [] := by
  cases type with
  | bigint =>
    obtain ⟨n, _, htext⟩ := Schema.ok_of_bind h
    exact Except.ok.inj htext ▸ encodeNum2Bin_ne_nil n
  | PubKey | Addr | Ripemd160 | Sha256 | Point =>
    exact Except.ok.inj h ▸ hwritten (by decide)
  | _ => exact Except.ok.inj h ▸ encodeText_ne_nil (jsText value)

theorem encodeFields_ne_nil {values : Record} {fields : List StateField} {text : HexText}
    (hwritten : ∃ field ∈ fields, Written values field)
    (h : encodeFields values fields = .ok text) : text ≠ [] := by
  induction fields generalizing text with
  | nil =>
    obtain ⟨_, hmem, _⟩ := hwritten
    exact absurd hmem List.not_mem_nil
  | cons field fields ih =>
    obtain ⟨first, hfirst, hrest⟩ := Schema.ok_of_bind h
    obtain ⟨rest, hfields, htext⟩ := Schema.ok_of_bind hrest
    rw [← Except.ok.inj htext]
    obtain ⟨other, hmem, hother⟩ := hwritten
    rcases List.mem_cons.mp hmem with rfl | hmem
    · obtain ⟨type, hshape, hvalue⟩ := hother
      rw [hshape] at hfirst
      exact List.append_ne_nil_of_left_ne_nil (encodeStateValue_ne_nil hvalue hfirst) _
    · exact List.append_ne_nil_of_right_ne_nil _ (ih ⟨other, hmem, hother⟩ hfields)

/-! ## The code is the SDK's -/

namespace Deployment

variable (d : Deployment)

/-- A parameter's argument has its name. -/
theorem namedArgs_eq {i : Nat} {param : ABIParam}
    (h : d.artifact.constructorParams[i]? = some param) : d.namedArgs param.name = d.args[i]? := by
  obtain ⟨hi, hparam⟩ := List.getElem?_eq_some_iff.mp h
  have hfirst : d.artifact.constructorParams.findIdx (·.name = param.name) = i := by
    rw [List.findIdx_eq hi]
    refine ⟨decide_eq_true (congrArg ABIParam.name hparam), fun j hj => decide_eq_false ?_⟩
    intro hname
    have hjlength : j < (d.artifact.constructorParams.map (·.name)).length := by
      rw [List.length_map]
      omega
    have hilength : i < (d.artifact.constructorParams.map (·.name)).length := by
      rw [List.length_map]
      exact hi
    have hsame : (d.artifact.constructorParams.map (·.name))[j] =
        (d.artifact.constructorParams.map (·.name))[i] := by
      rw [List.getElem_map, List.getElem_map, hname, hparam]
    have hindex := d.distinct.getElem_inj_iff.mp hsame
    omega
  unfold namedArgs
  rw [hfirst]

theorem slotValue_eq {slot : ConstructorSlot} (h : slot ∈ d.artifact.constructorSlots) :
    slotValue d.artifact d.namedArgs slot = some (argAt d.args slot.paramIndex) := by
  obtain ⟨param, arg, hparam, hname, harg, hvalue⟩ := d.given slot h
  have hnamed : d.namedArgs param.name = some arg := (d.namedArgs_eq hparam).trans harg
  unfold slotValue argAt
  rw [hparam, harg]
  show (if param.name = "" then none else match d.namedArgs param.name with
    | some .undefined => none
    | value => value) = some arg
  rw [if_neg hname, hnamed]
  cases arg with
  | undefined => exact absurd rfl hvalue
  | _ => rfl

theorem buildCodePart_eq (hslots : d.artifact.codeSepIndexSlots = []) :
    buildCodePart d.artifact d.namedArgs = buildCodeScript d.artifact d.args := by
  have hsubs : substitutions d.artifact d.args = d.artifact.constructorSlots.map fun slot =>
      (slot.byteOffset, encodeArg (argAt d.args slot.paramIndex)) := by
    unfold substitutions resolvedCodeSepSlotValues
    rw [hslots, List.mergeSort_nil, List.foldl_nil, List.map_nil, List.append_nil]
  have hfold : buildCodePart d.artifact d.namedArgs =
      ((substitutions d.artifact d.args).mergeSort (·.1 ≥ ·.1)).foldl replacePlaceholder
        d.artifact.script := by
    rw [hsubs, ← List.map_mergeSort (r := fun a b => decide (a.byteOffset ≥ b.byteOffset))
      fun _ _ _ _ => rfl, List.foldl_map]
    refine List.foldl_ext _ _ _ fun script slot hslot => ?_
    unfold fillSlot
    rw [d.slotValue_eq (List.mem_mergeSort.mp hslot)]
  unfold buildCodeScript
  by_cases hempty : d.artifact.constructorSlots = []
  · rw [if_neg (by rw [hempty, hslots]; simp), if_neg d.stateful, hfold, hsubs, hempty,
      List.map_nil, List.mergeSort_nil, List.foldl_nil]
  · rw [if_pos (.inl hempty), hfold]

/-! ## The scripts are the SDK's -/

theorem alike {values : Record} (h : d.Plain values) :
    ∀ field ∈ fieldsOf d.artifact, Alike values field := by
  intro field hfield
  obtain ⟨initial, hinitial, rfl⟩ := List.mem_map.mp hfield
  exact h.alike initial hinitial

theorem serializeState_eq_sdk {values : Record} (h : d.Plain values) :
    Codec.serializeState (fieldsOf d.artifact) values =
      serializeState (fieldsOf d.artifact) values :=
  serializeState_eq (d.alike h)

theorem serializeState_ne_nil {values : Record} {stateHex : HexText} (h : d.Plain values)
    (hstate : serializeState (fieldsOf d.artifact) values = .ok stateHex) : stateHex ≠ [] := by
  refine encodeFields_ne_nil ?_ hstate
  obtain ⟨field, hfield, hwritten⟩ := h.written
  exact ⟨field.toStateField, List.mem_mergeSort.mpr (List.mem_map_of_mem hfield), hwritten⟩

/-- The locking script of the SDK's contract: it has no envelope. -/
theorem getLockingScript_unfold (tools : Toolbox) (values : Record) :
    getLockingScript (withCodec tools) (d.contract values) = (do
      let stateHex ← Codec.serializeState (fieldsOf d.artifact) values
      .ok (if stateHex = [] then buildCodeScript d.artifact d.args
        else buildCodeScript d.artifact d.args ++ ['6', 'a'] ++ stateHex)) := by
  have hcode : buildCodeScript d.artifact d.args ++ envelopeOf (d.contract values) =
      buildCodeScript d.artifact d.args := List.append_nil _
  show (if d.artifact.stateFields = [] then
      .ok (buildCodeScript d.artifact d.args ++ envelopeOf (d.contract values))
    else do
      let stateHex ← Codec.serializeState (fieldsOf d.artifact) values
      .ok (if stateHex = [] then buildCodeScript d.artifact d.args ++ envelopeOf (d.contract values)
        else buildCodeScript d.artifact d.args ++ envelopeOf (d.contract values) ++ ['6', 'a'] ++
          stateHex)) = _
  rw [if_neg d.stateful, hcode]

/-- The locking script of the SDK, from the parts of the mock. -/
theorem getLockingScript_eq (tools : Toolbox) {values : Record}
    (hslots : d.artifact.codeSepIndexSlots = []) (h : d.Plain values) :
    getLockingScript (withCodec tools) (d.contract values) = (do
      let stateHex ← serializeState (fieldsOf d.artifact) values
      .ok (buildCodePart d.artifact d.namedArgs ++ ['6', 'a'] ++ stateHex)) := by
  rw [getLockingScript_unfold, d.serializeState_eq_sdk h, d.buildCodePart_eq hslots]
  cases hstate : serializeState (fieldsOf d.artifact) values with
  | error _ => rfl
  | ok stateHex =>
    show Except.ok (if stateHex = [] then _ else _) = _
    rw [if_neg (d.serializeState_ne_nil h hstate)]
    rfl

theorem buildLockingScript_eq (tools : Toolbox) {values : Record}
    (hslots : d.artifact.codeSepIndexSlots = []) (h : d.Plain values) :
    buildLockingScript d.artifact d.namedArgs values =
      getLockingScript (withCodec tools) (d.contract values) := by
  rw [d.getLockingScript_eq tools hslots h, buildLockingScript, if_neg d.stateful]

end Deployment

/-! ## Lengths -/

theorem encodeVarint_eq {n : Nat} (h : n < 2 ^ 32) :
    encodeVarint (2 * n) = .ok (toHex (compactSize n)) := by
  have hhalf : 2 * n / 2 = n := Nat.mul_div_cancel_left n (by decide)
  unfold encodeVarint compactSize
  dsimp only
  rw [hhalf]
  by_cases hbyte : n < 0xfd
  · rw [if_pos (by omega), if_pos hbyte]
    refine congrArg Except.ok ?_
    rw [halfText, hhalf, if_pos (Nat.mul_mod_right 2 n), List.append_nil, toHex_leBytes_succ,
      Nat.mod_eq_of_lt (by omega)]
    exact (List.append_nil _).symm
  · rw [if_neg (by omega), if_neg hbyte]
    by_cases hword : n ≤ 0xffff
    · rw [if_pos (by omega), if_pos hword]
      refine congrArg Except.ok ?_
      rw [toHex_cons, toHex_leBytes_succ, toHex_leBytes_succ, List.append_assoc]
      have hlast : hexNumber (n / 256 % 256) = hexNumber (n / 256 % 256) ++ toHex [] :=
        (List.append_nil _).symm
      exact congrArg (fun last => ['f', 'd'] ++ (hexNumber (n % 256) ++ last)) hlast
    · rw [if_neg (by omega), if_neg hword, if_pos (by omega), if_pos (by omega)]
      rfl

namespace Deployment

variable (d : Deployment)

theorem buildContinuationOutput_eq (tools : Toolbox) {values : Record} {bytes : Bytes}
    (satoshis : Nat) (hslots : d.artifact.codeSepIndexSlots = []) (h : d.Plain values)
    (hlength : bytes.length < 2 ^ 32)
    (hscript : getLockingScript (withCodec tools) (d.contract values) = .ok (toHex bytes)) :
    buildContinuationOutput (buildCodePart d.artifact d.namedArgs) (fieldsOf d.artifact) values
      satoshis = .ok (toHex (txOutput satoshis bytes)) := by
  rw [d.getLockingScript_eq tools hslots h] at hscript
  obtain ⟨stateHex, hstate, htext⟩ := Schema.ok_of_bind hscript
  unfold buildContinuationOutput
  rw [hstate]
  show (do
    let length ←
      encodeVarint (buildCodePart d.artifact d.namedArgs ++ ['6', 'a'] ++ stateHex).length
    .ok (uint64LE satoshis ++ length ++
      (buildCodePart d.artifact d.namedArgs ++ ['6', 'a'] ++ stateHex))) = _
  rw [Except.ok.inj htext, length_toHex, encodeVarint_eq hlength, txOutput, toHex_append,
    toHex_append]
  rfl

theorem adjustCodeSepOffset_eq (hslots : d.artifact.codeSepIndexSlots = []) (state : Record)
    (index : Nat) : adjustCodeSepOffset (d.contract state) index =
      index + constructorShift d.artifact.constructorSlots d.args index := by
  unfold adjustCodeSepOffset resolvedCodeSepSlotValues
  show (index : Int) + constructorShift d.artifact.constructorSlots d.args index +
    codeSepShift ((d.artifact.codeSepIndexSlots.mergeSort _).foldl _ []) index = _
  rw [hslots, List.mergeSort_nil]
  exact Int.add_zero _

/-- The SDK signs from the separator of the template, moved by the arguments before it. -/
theorem getSubscriptForSigning_eq_map (state : Record) (methodIndex : Nat) (script : HexText) :
    getSubscriptForSigning (d.contract state) script methodIndex =
      match (codeSepIndex d.artifact methodIndex).map (adjustCodeSepOffset (d.contract state)) with
      | some off => script.drop ((off + 1) * 2).toNat
      | none => script := rfl

/-- Where the script goes on behind the separator, the mock signs the same part of it exactly where
the arguments before the separator are as long as their placeholders. -/
theorem scriptCode_eq_iff (hslots : d.artifact.codeSepIndexSlots = []) (state : Record)
    {methodIndex index : Nat} {script : HexText}
    (hindex : codeSepIndex d.artifact methodIndex = some index)
    (hinside : (index + 1) * 2 < script.length) :
    MockPreimage.scriptCode d.artifact methodIndex script =
        getSubscriptForSigning (d.contract state) script methodIndex ↔
      constructorShift d.artifact.constructorSlots d.args index = 0 := by
  rw [MockPreimage.scriptCode, getSubscriptForSigning_eq_map, hindex, Option.map_some,
    d.adjustCodeSepOffset_eq hslots]
  dsimp only
  constructor
  · intro h
    have hlength := congrArg List.length h
    rw [List.length_drop, List.length_drop] at hlength
    omega
  · intro h
    rw [h, Int.add_zero]
    exact congrArg (script.drop ·) (by omega)

theorem scriptCode_eq {state newState : Record} {methodIndex : Nat}
    (h : d.Simple state newState methodIndex) (script : HexText) :
    MockPreimage.scriptCode d.artifact methodIndex script =
      getSubscriptForSigning (d.contract state) script methodIndex := by
  rw [MockPreimage.scriptCode, getSubscriptForSigning_eq_map]
  cases hindex : codeSepIndex d.artifact methodIndex with
  | none => rfl
  | some index =>
    rw [Option.map_some, d.adjustCodeSepOffset_eq h.noSlots, h.unmoved index hindex, Int.add_zero]
    exact congrArg (script.drop ·) (by omega)

end Deployment

/-! ## Runs -/

/-- A contract with one field. -/
def oneField (type : PrimitiveType) : Deployment where
  artifact :=
    { contractName := "Flag", parentClass := some "StatefulSmartContract", constructorParams := [],
      methods := [], script := "51".toList,
      stateFields := [{ name := "value", shape := .scalar type, index := 0, initialValue := none }],
      constructorSlots := [], codeSepIndexSlots := [], codeSeparatorIndex := none,
      codeSeparatorIndices := none, anf := none }
  args := []
  stateful := List.cons_ne_nil _ _
  distinct := List.nodup_nil
  given := fun _ h => absurd h List.not_mem_nil

/-- A state with the one value. -/
def holding (value : JsValue) : Record := fun name => if name = "value" then some value else none

theorem oneField_serializeState (type : PrimitiveType) (values : Record) :
    serializeState (fieldsOf (oneField type).artifact) values = (do
      let text ← encodeStateValue (values.get "value") (.primitive type)
      .ok (text ++ [])) := by
  unfold serializeState
  show encodeFields values ([_].mergeSort fieldOrder) = _
  rw [List.mergeSort_singleton]
  rfl

end Runar.MockPreimage
