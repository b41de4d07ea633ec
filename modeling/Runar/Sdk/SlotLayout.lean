/-
  Sdk/SlotLayout.lean --- where the arguments stand in a deployed script.

  WHAT THIS FILE IS FOR.  A verifier of a deployed contract wants to know where each
  constructor argument was written.  The SDK computes it from the artifact: the offset of
  every slot, moved by what was filled in before it, and how many of its bytes are the
  header of a push.  With the values cut out, what is left identifies the template.  This
  file has that computation, and settles when it is right.

  VALUES.  The computation classifies a push by the type of the argument and its first
  byte.  The encoder has learned to push one byte with one opcode; the classifier knows
  that of numbers only.
-/
import Runar.Sdk.PushText
import Runar.Artifact.EmitCorrect
import Runar.Logic.Nested

set_option autoImplicit false

namespace Runar.Sdk

open Script Logic

/-! ## Descriptors -/

inductive ResolvedSlotEncoding where
  | dataPush | scriptnumPush | opN | op0 | op1negate | bool
  deriving DecidableEq, Repr

/-- One constructor slot resolved against concrete arguments.  Lengths are in bytes. -/
structure ResolvedSlot where
  name : String
  paramIndex : Nat
  templateByteOffset : Nat
  byteOffset : Int
  byteLength : Int
  pushHeaderBytes : Nat
  valueByteOffset : Int
  valueByteLength : Int
  encoding : ResolvedSlotEncoding
  deriving DecidableEq

structure ResolvedSlotLayout where
  slots : List ResolvedSlot
  codeByteLength : Int
  deriving DecidableEq

/-- An artifact whose slots may carry the names of their parameters. -/
structure LayoutArtifact extends RunarArtifact where
  slotNames : List (Option String)

/-- The name a slot carries. -/
def LayoutArtifact.slotName (artifact : LayoutArtifact) (i : Nat) : Option String :=
  (artifact.slotNames[i]?).join

/-- The name of a constructor parameter. -/
def LayoutArtifact.paramName (artifact : LayoutArtifact) (paramIndex : Nat) : Option String :=
  (artifact.constructorParams[paramIndex]?).map (·.name)

/-- The first byte of a text, read as `parseInt` reads it. -/
def firstByte : HexText → Option Nat
  | high :: low :: _ => parseByte high low
  | [digit] => hexDigit? digit
  | [] => none

/-- The header of a push by its code byte. -/
def headerBytes (b0 : Option Nat) : Nat :=
  if b0.any (· ≤ 0x4b) then 1
  else if b0 = some 0x4c then 2
  else if b0 = some 0x4d then 3
  else 5

/-- Classify the encoded slot bytes. -/
def classifyEncoded (encodedHex : HexText) (argValue : JsValue) : ResolvedSlotEncoding × Nat :=
  let b0 := firstByte encodedHex
  match argValue with
  | .boolean _ => (.bool, 0)
  | .bigint _ | .number _ =>
      if b0 = some 0x00 then (.op0, 0)
      else if b0 = some 0x4f then (.op1negate, 0)
      else if b0.any fun b => 0x51 ≤ b && b ≤ 0x60 then (.opN, 0)
      else (.scriptnumPush, headerBytes b0)
  | _ => if b0 = some 0x00 then (.op0, 0) else (.dataPush, headerBytes b0)

/-! ## Substitutions -/

/-- What replaces a placeholder; a constructor slot with its place in the list and the name
it carries. -/
structure Substitution where
  templateByteOffset : Nat
  encodedHex : HexText
  slot : Option (ConstructorSlot × Option String)

/-- The template must have an OP_0 where a slot stands. -/
def assertPlaceholderByte (artifact : LayoutArtifact) (byteOffset : Nat)
    (slotKind slotLabel : String) : Except String Unit :=
  let byteHex := (artifact.script.drop (byteOffset * 2)).take 2
  if byteHex ≠ ['0', '0'] then
    .error ("resolveSlotLayout: " ++ slotKind ++ " " ++ slotLabel ++
      " expects an OP_0 placeholder (0x00) at byteOffset " ++ toString byteOffset ++
      " of the template script, found " ++
      (if byteHex = [] then "end-of-script" else "0x" ++ String.ofList byteHex) ++
      " — the descriptor does not match this artifact's script " ++
      "(corrupted or mismatched artifact JSON)")
  else .ok ()

/-- The substitution of a constructor slot. -/
def constructorSubstitution (artifact : LayoutArtifact) (constructorArgs : List JsValue)
    (slot : ConstructorSlot) (i : Nat) : Except String Substitution := do
  let abiParamName := artifact.paramName slot.paramIndex
  let name := artifact.slotName i
  if constructorArgs.length ≤ slot.paramIndex then
    .error ("resolveSlotLayout: constructor slot for paramIndex " ++
      toString slot.paramIndex ++ " ('" ++ (name.or abiParamName).getD "?" ++
      "') has no matching constructor arg (got " ++ toString constructorArgs.length ++ " args)")
  else if name.isSome ∧ name ≠ abiParamName then
    .error ("resolveSlotLayout: constructor slot at byteOffset " ++
      toString slot.byteOffset ++ " is named '" ++ name.getD "" ++
      "' but abi.constructor.params[" ++ toString slot.paramIndex ++ "] is " ++
      (match abiParamName with
        | none => "missing"
        | some n => "named '" ++ n ++ "'") ++ " — corrupted or mismatched descriptor")
  else do
    assertPlaceholderByte artifact slot.byteOffset "constructor slot"
      ("'" ++ (name.or abiParamName).getD ("param" ++ toString slot.paramIndex) ++ "'")
    .ok ⟨slot.byteOffset, encodeArg (argAt constructorArgs slot.paramIndex), some (slot, name)⟩

/-- The substitution of a resolved code separator slot. -/
def codeSepSubstitution (artifact : LayoutArtifact) (rs : Nat × Int) :
    Except String Substitution := do
  assertPlaceholderByte artifact rs.1 "codeSepIndex slot"
    ("(adjusted value " ++ toString rs.2 ++ ")")
  .ok ⟨rs.1, encodeScriptNumber rs.2, none⟩

/-- All template substitutions, by ascending offset. -/
def collectSubstitutions (artifact : LayoutArtifact) (constructorArgs : List JsValue) :
    Except String (List Substitution) := do
  let slots ← artifact.constructorSlots.zipIdx.mapM fun slot =>
    constructorSubstitution artifact constructorArgs slot.1 slot.2
  let seps ← (resolvedCodeSepSlotValues artifact.toRunarArtifact constructorArgs).mapM
    (codeSepSubstitution artifact)
  .ok ((slots ++ seps).mergeSort (·.templateByteOffset ≤ ·.templateByteOffset))

/-! ## The layout -/

/-- The descriptor of a constructor slot. -/
def resolvedSlot (artifact : LayoutArtifact) (constructorArgs : List JsValue) (shift : Int)
    (sub : Substitution) (slot : ConstructorSlot) (name : Option String) : ResolvedSlot :=
  let byteOffset := sub.templateByteOffset + shift
  let byteLength : Int := sub.encodedHex.length / 2
  let (encoding, pushHeaderBytes) :=
    classifyEncoded sub.encodedHex (argAt constructorArgs slot.paramIndex)
  { name := (name.or (artifact.paramName slot.paramIndex)).getD
      ("param" ++ toString slot.paramIndex)
    paramIndex := slot.paramIndex
    templateByteOffset := sub.templateByteOffset
    byteOffset, byteLength, pushHeaderBytes
    valueByteOffset := byteOffset + pushHeaderBytes
    valueByteLength := byteLength - pushHeaderBytes
    encoding }

/-- The loop over the substitutions: the descriptors, and how far the end moves. -/
def resolveSlots (artifact : LayoutArtifact) (constructorArgs : List JsValue) :
    Int → List Substitution → List ResolvedSlot × Int
  | shift, [] => ([], shift)
  | shift, sub :: subs =>
      -- each substitution replaces one byte
      let rest := resolveSlots artifact constructorArgs
        (shift + ((sub.encodedHex.length / 2 : Int) - 1)) subs
      match sub.slot with
      | none => rest
      | some (slot, name) =>
          (resolvedSlot artifact constructorArgs shift sub slot name :: rest.1, rest.2)

/-- Resolve the slots against concrete arguments. -/
def resolveSlotLayout (artifact : LayoutArtifact) (constructorArgs : List JsValue) :
    Except String ResolvedSlotLayout := do
  let subs ← collectSubstitutions artifact constructorArgs
  let resolved := resolveSlots artifact constructorArgs 0 subs
  .ok ⟨resolved.1, artifact.script.length / 2 + resolved.2⟩

/-- The template with all substitutions spliced in. -/
def buildResolvedCodeHex (artifact : LayoutArtifact) (constructorArgs : List JsValue) :
    Except String HexText := do
  let subs ← collectSubstitutions artifact constructorArgs
  -- descending, so that a splice leaves the offsets before it right
  .ok ((subs.mergeSort (·.templateByteOffset ≥ ·.templateByteOffset)).foldl
    (fun script sub => replacePlaceholder script (sub.templateByteOffset, sub.encodedHex))
    artifact.script)

/-- Cut out the value of a slot. -/
def exciseValue (template : HexText) (slot : ResolvedSlot) : HexText :=
  template.take (slot.valueByteOffset * 2).toNat ++
    template.drop ((slot.valueByteOffset + slot.valueByteLength) * 2).toNat

/-- The hash of the code with every slot's value cut out. -/
def computeTemplateHash (hash256hex : HexText → HexText) (artifact : LayoutArtifact)
    (constructorArgs : List JsValue) : Except String HexText := do
  let code ← buildResolvedCodeHex artifact constructorArgs
  let layout ← resolveSlotLayout artifact constructorArgs
  .ok (hash256hex ((layout.slots.mergeSort (·.valueByteOffset ≥ ·.valueByteOffset)).foldl
    exciseValue code))

/-! ## Heads and values -/

/-- The text an argument is pushed as data with, if it is. -/
def dataText : JsValue → Option HexText
  | .emptySig | .bigint _ | .number _ | .boolean _ => none
  | .string text => some text
  | value => some (jsText value)

/-- The header of a push of some bytes. -/
def pushHeader (len : Nat) : HexText :=
  if len ≤ 75 then hexNumber len
  else if len ≤ 0xff then ['4', 'c'] ++ hexNumber len
  else if len ≤ 0xffff then ['4', 'd'] ++ hexNumber (len % 256) ++ hexNumber (len / 256 % 256)
  else ['4', 'e'] ++ hexNumber (len % 256) ++ hexNumber (len / 256 % 256) ++
    hexNumber (len / 65536 % 256) ++ hexNumber (len / 16777216 % 256)

/-- A number with an opcode of its own. -/
def HasOpcode (n : Int) : Prop := n = 0 ∨ (1 ≤ n ∧ n ≤ 16) ∨ n = -1

instance (n : Int) : Decidable (HasOpcode n) := inferInstanceAs (Decidable (_ ∨ _))

/-- The header of a push of data. -/
def dataHead : Option HexText → HexText
  | some (c :: text) => pushHeader ((c :: text).length / 2)
  | _ => []

/-- The value of a push of data, the opcode of an empty one. -/
def dataValue : Option HexText → HexText
  | some (c :: text) => c :: text
  | _ => ['0', '0']

/-- The header of the push of an argument: none where one opcode is the value. -/
def headText (value : JsValue) : HexText :=
  match value with
  | .emptySig | .boolean _ => []
  | .bigint n | .number n => if HasOpcode n then [] else pushHeader (encodeNum n).length
  | value => dataHead (dataText value)

/-- The value of an argument: the bytes of its push, or its one opcode. -/
def valueText (value : JsValue) : HexText :=
  match value with
  | .emptySig => ['0', '0']
  | .boolean b => cond b ['5', '1'] ['0', '0']
  | .bigint n | .number n => if HasOpcode n then encodeScriptNumber n else toHex (encodeNum n)
  | value => dataValue (dataText value)

/-- A byte string of one byte that has an opcode of its own. -/
def IsOpcodeByte (value : JsValue) : Prop :=
  ∃ high low push, dataText value = some [high, low] ∧
    (parseByte high low).bind minimalPush = some push

/-- A byte string has two digits a byte. -/
def WholeBytes (value : JsValue) : Prop :=
  ∀ text, dataText value = some text → text.length % 2 = 0

section Values

theorem firstByte_hexNumber {k : Nat} (h : k < 256) (rest : HexText) :
    firstByte (hexNumber k ++ rest) = some k := by
  have hdigits : 16 * (k / 16) + k % 16 = k := Nat.div_add_mod k 16
  rw [hexNumber_of_lt h]
  simp only [List.cons_append, List.nil_append, firstByte, parseByte,
    hexDigit?_digitChar (show k / 16 < 16 by omega),
    hexDigit?_digitChar (show k % 16 < 16 by omega), hdigits]

/-- A framed push is its header and the data. -/
theorem encodePushDataState_eq {text : HexText} (h : text.length % 2 = 0) :
    encodePushDataState text = pushHeader (text.length / 2) ++ text := by
  obtain ⟨n, hn⟩ : ∃ n, text.length = 2 * n := ⟨text.length / 2, by omega⟩
  have hhalf : 2 * n / 2 = n := Nat.mul_div_cancel_left _ (by decide)
  unfold encodePushDataState pushHeader
  rw [hn, halfText_even, hhalf]
  simp only [show (2 * n ≤ 2 * 75) = (n ≤ 75) from propext (by omega),
    show (2 * n ≤ 2 * 0xff) = (n ≤ 0xff) from propext (by omega),
    show (2 * n ≤ 2 * 0xffff) = (n ≤ 0xffff) from propext (by omega)]
  split
  · rfl
  split
  · rfl
  split <;> rfl

theorem encodePushData_eq {text : HexText} (hne : text ≠ [])
    (hmin : ∀ high low, text = [high, low] → (parseByte high low).bind minimalPush = none) :
    encodePushData text = encodePushDataState text := by
  match text, hne, hmin with
  | [_], _, _ => rfl
  | [high, low], _, hmin =>
    rw [encodePushData, hmin high low rfl]
    rfl
  | _ :: _ :: _ :: _, _, _ => rfl

/-- The classifier finds the length of the header, and whether there is one. -/
theorem headerBytes_pushHeader (len : Nat) (rest : HexText) :
    2 * headerBytes (firstByte (pushHeader len ++ rest)) = (pushHeader len).length := by
  have hbyte : ∀ k < 256, (hexNumber k).length = 2 := fun k hk => length_hexNumber_of_lt hk
  unfold pushHeader
  split
  · rename_i h
    rw [firstByte_hexNumber (by omega), headerBytes, hbyte _ (by omega)]
    rw [if_pos]
    exact decide_eq_true (show len ≤ 0x4b from h)
  split
  · rename_i h
    rw [List.append_assoc, List.length_append, hbyte _ (by omega)]
    rfl
  split
  · rw [List.append_assoc, List.append_assoc, List.length_append, List.length_append,
      hbyte _ (Nat.mod_lt _ (by decide)), hbyte _ (Nat.mod_lt _ (by decide))]
    rfl
  · simp only [List.append_assoc, List.length_append, hbyte _ (Nat.mod_lt _ (by decide : 0 < 256))]
    rfl

theorem firstByte_pushHeader {len : Nat} (hpos : 0 < len) (rest : HexText) :
    ∃ b, firstByte (pushHeader len ++ rest) = some b ∧ 1 ≤ b ∧ b ≤ 0x4e := by
  unfold pushHeader
  split
  · exact ⟨len, firstByte_hexNumber (by omega) rest, hpos, by omega⟩
  split
  · exact ⟨0x4c, rfl, by decide, by decide⟩
  split
  · exact ⟨0x4d, rfl, by decide, by decide⟩
  · exact ⟨0x4e, rfl, by decide, by decide⟩

/-- What a header takes depends on what it is for. -/
theorem pushHeader_inj {m n : Nat}
    (h : (pushHeader m).length + 2 * m = (pushHeader n).length + 2 * n) : m = n := by
  have hlen : ∀ k, (k ≤ 75 ∧ (pushHeader k).length = 2) ∨
      (75 < k ∧ k ≤ 0xff ∧ (pushHeader k).length = 4) ∨
      (0xff < k ∧ k ≤ 0xffff ∧ (pushHeader k).length = 6) ∨
      (0xffff < k ∧ (pushHeader k).length = 10) := by
    intro k
    have hbyte : ∀ k < 256, (hexNumber k).length = 2 := fun k hk => length_hexNumber_of_lt hk
    have hmod : ∀ k, (hexNumber (k % 256)).length = 2 := fun k =>
      hbyte _ (Nat.mod_lt _ (by decide))
    unfold pushHeader
    split
    · rename_i h
      exact Or.inl ⟨h, hbyte _ (by omega)⟩
    split
    · rename_i h1 h2
      exact Or.inr (Or.inl ⟨by omega, h2, by rw [List.length_append, hbyte _ (by omega)]; rfl⟩)
    split
    · rename_i h1 h2 h3
      refine Or.inr (Or.inr (Or.inl ⟨by omega, h3, ?_⟩))
      simp only [List.length_append, hmod]
      rfl
    · rename_i h1 h2 h3
      refine Or.inr (Or.inr (Or.inr ⟨by omega, ?_⟩))
      simp only [List.length_append, hmod]
      rfl
  rcases hlen m with hm | hm | hm | hm <;> rcases hlen n with hn | hn | hn | hn <;> omega

/-- An encoded argument: one opcode, or a header and its bytes. -/
inductive Encoded (value : JsValue) : Prop where
  | opcode (head : headText value = []) (encoded : encodeArg value = valueText value)
      (two : (valueText value).length = 2)
      (header : (classifyEncoded (encodeArg value) value).2 = 0)
  | push (len : Nat) (pos : 0 < len) (head : headText value = pushHeader len)
      (bytes : (valueText value).length = 2 * len)
      (encoded : encodeArg value = pushHeader len ++ valueText value)
      (header : (classifyEncoded (encodeArg value) value).2 =
        headerBytes (firstByte (encodeArg value)))

theorem encodeScriptNumber_small {n : Int} (h : 1 ≤ n ∧ n ≤ 16) :
    encodeScriptNumber n = hexNumber (0x50 + n.toNat) := by
  have hzero : n ≠ 0 := by omega
  obtain ⟨k, rfl⟩ := Int.eq_ofNat_of_zero_le (by omega : 0 ≤ n)
  rw [encodeScriptNumber, if_neg hzero, if_pos h, Int.toNat_natCast]
  obtain ⟨h1, h2⟩ : 1 ≤ k ∧ k ≤ 16 := by omega
  interval_cases k <;> rfl

/-- A number without an opcode is pushed as its bytes. -/
theorem encodeScriptNumber_push {n : Int} (h : ¬ HasOpcode n) :
    0 < (encodeNum n).length ∧
      encodeScriptNumber n = pushHeader (encodeNum n).length ++ toHex (encodeNum n) := by
  obtain ⟨hzero, hsmall, hneg⟩ : n ≠ 0 ∧ ¬ (1 ≤ n ∧ n ≤ 16) ∧ n ≠ -1 := by
    unfold HasOpcode at h
    tauto
  have hlen : 0 < (encodeNum n).length := by
    rw [Nat.pos_iff_ne_zero]
    intro hnil
    have hdecode := decodeNum_encodeNum n
    rw [List.eq_nil_of_length_eq_zero hnil] at hdecode
    exact hzero hdecode.symm
  have hchars : (toHex (encodeNum n)).length = 2 * (encodeNum n).length := length_toHex _
  refine ⟨hlen, ?_⟩
  rw [encodeScriptNumber_eq_push hzero hsmall hneg, encodePushData_eq, encodePushDataState_eq]
  · rw [hchars, Nat.mul_div_cancel_left _ (by decide)]
  · rw [hchars]
    exact Nat.mul_mod_right 2 _
  · intro hnil
    rw [hnil, List.length_nil] at hchars
    omega
  · intro high low htext
    rw [htext] at hchars
    obtain ⟨b, hb⟩ := List.length_eq_one_iff.mp (show (encodeNum n).length = 1 by
      rw [List.length_cons, List.length_cons, List.length_nil] at hchars
      omega)
    have hdecode := decodeNum_encodeNum n
    rw [hb] at htext hdecode
    have hparse : parseByte high low = some b.toNat := by
      have hfirst := firstByte_hexNumber b.toNat_lt []
      rw [toHex_cons, toHex_nil] at htext
      rw [htext] at hfirst
      exact hfirst
    rw [hparse, Option.bind_some, minimalPush]
    have hall : ∀ b : Fin 256, (1 ≤ b.val ∧ b.val ≤ 16 →
          1 ≤ decodeNum [UInt8.ofNat b.val] ∧ decodeNum [UInt8.ofNat b.val] ≤ 16) ∧
        (b.val = 0x81 → decodeNum [UInt8.ofNat b.val] = -1) := by decide +kernel
    have hb' := hall ⟨b.toNat, b.toNat_lt⟩
    simp only [UInt8.ofNat_toNat, hdecode] at hb'
    rw [if_neg (fun hr => hsmall (hb'.1 hr)), if_neg (fun hm => hneg (hb'.2 hm))]

theorem encoded_number {n : Int} {value : JsValue} (hvalue : value = .bigint n ∨ value = .number n) :
    Encoded value := by
  have hencode : encodeArg value = encodeScriptNumber n := by
    rcases hvalue with rfl | rfl <;> rfl
  have hhead : headText value = if HasOpcode n then [] else pushHeader (encodeNum n).length := by
    rcases hvalue with rfl | rfl <;> rfl
  have htext : valueText value =
      if HasOpcode n then encodeScriptNumber n else toHex (encodeNum n) := by
    rcases hvalue with rfl | rfl <;> rfl
  have hclass : ∀ hex, classifyEncoded hex value =
      if firstByte hex = some 0x00 then (.op0, 0)
      else if firstByte hex = some 0x4f then (.op1negate, 0)
      else if (firstByte hex).any fun b => 0x51 ≤ b && b ≤ 0x60 then (.opN, 0)
      else (.scriptnumPush, headerBytes (firstByte hex)) := by
    intro hex
    rcases hvalue with rfl | rfl <;> rfl
  by_cases hop : HasOpcode n
  · rw [if_pos hop] at hhead htext
    refine .opcode hhead (hencode.trans htext.symm) ?_ ?_
    · rw [htext]
      rcases hop with rfl | hsmall | rfl
      · rfl
      · rw [encodeScriptNumber_small hsmall, length_hexNumber_of_lt (by omega)]
      · rfl
    · rw [hclass, hencode]
      rcases hop with rfl | hsmall | rfl
      · rfl
      · have hfirst := firstByte_hexNumber (show 0x50 + n.toNat < 256 by omega) []
        rw [List.append_nil, ← encodeScriptNumber_small hsmall] at hfirst
        rw [hfirst, if_neg, if_neg, if_pos]
        · show (decide (0x51 ≤ 0x50 + n.toNat) && decide (0x50 + n.toNat ≤ 0x60)) = true
          rw [decide_eq_true (by omega), decide_eq_true (by omega)]
          rfl
        · rw [Option.some.injEq]
          omega
        · rw [Option.some.injEq]
          omega
      · rfl
  · rw [if_neg hop] at hhead htext
    obtain ⟨hlen, hpush⟩ := encodeScriptNumber_push hop
    obtain ⟨b, hfirst, hone, hmax⟩ := firstByte_pushHeader hlen (toHex (encodeNum n))
    refine .push (encodeNum n).length hlen hhead ?_ ?_ ?_
    · rw [htext, length_toHex]
    · rw [hencode, hpush, htext]
    · rw [hclass, hencode, hpush, hfirst, if_neg, if_neg, if_neg]
      · show ¬ (decide (0x51 ≤ b) && decide (b ≤ 0x60)) = true
        rw [decide_eq_false (by omega)]
        exact Bool.false_ne_true
      · rw [Option.some.injEq]
        omega
      · rw [Option.some.injEq]
        omega

theorem encodeArg_data {value : JsValue} {text : HexText} (h : dataText value = some text) :
    encodeArg value = encodePushData text := by
  cases value <;> first | cases h; done | exact congrArg encodePushData (Option.some.inj h)

theorem classifyEncoded_data {value : JsValue} {text : HexText} (h : dataText value = some text)
    (hex : HexText) : classifyEncoded hex value =
      if firstByte hex = some 0x00 then (.op0, 0)
      else (.dataPush, headerBytes (firstByte hex)) := by
  cases value <;> first | cases h; done | rfl

theorem encoded_data {value : JsValue} {text : HexText} (hdata : dataText value = some text)
    (hwhole : text.length % 2 = 0)
    (hmin : ∀ high low, text = [high, low] → (parseByte high low).bind minimalPush = none) :
    Encoded value := by
  have hencode := encodeArg_data hdata
  have hclass := classifyEncoded_data hdata
  cases text with
  | nil =>
    have hhead : headText value = [] := by
      cases value <;> first | cases hdata; done | exact congrArg dataHead hdata
    have htext : valueText value = ['0', '0'] := by
      cases value <;> first | cases hdata; done | exact congrArg dataValue hdata
    refine .opcode hhead (hencode.trans htext.symm) (by rw [htext]; rfl) ?_
    rw [hclass, hencode]
    rfl
  | cons c text =>
    have hhead : headText value = pushHeader ((c :: text).length / 2) := by
      cases value <;> first | cases hdata; done | exact congrArg dataHead hdata
    have htext : valueText value = c :: text := by
      cases value <;> first | cases hdata; done | exact congrArg dataValue hdata
    have hpos : 0 < (c :: text).length / 2 := by
      rw [List.length_cons] at hwhole ⊢
      omega
    have hpush : encodeArg value = pushHeader ((c :: text).length / 2) ++ (c :: text) := by
      rw [hencode, encodePushData_eq (List.cons_ne_nil _ _) hmin, encodePushDataState_eq hwhole]
    obtain ⟨b, hfirst, hone, hmax⟩ := firstByte_pushHeader hpos (c :: text)
    refine .push _ hpos hhead ?_ ?_ ?_
    · rw [htext]
      omega
    · rw [hpush, htext]
    · rw [hclass, hpush, hfirst, if_neg]
      rw [Option.some.injEq]
      omega

/-- Every argument but a byte with an opcode of its own is classified as it is encoded. -/
theorem encoded_of_not_isOpcodeByte {value : JsValue} (hwhole : WholeBytes value)
    (h : ¬ IsOpcodeByte value) : Encoded value := by
  cases hdata : dataText value with
  | some text =>
    refine encoded_data hdata (hwhole text hdata) ?_
    rintro high low rfl
    cases hmin : (parseByte high low).bind minimalPush with
    | none => rfl
    | some push => exact absurd ⟨high, low, push, hdata, hmin⟩ h
  | none =>
    cases value with
    | emptySig => exact .opcode rfl rfl rfl rfl
    | boolean b => exact .opcode rfl (by cases b <;> rfl) (by cases b <;> rfl) rfl
    | bigint n => exact encoded_number (Or.inl rfl)
    | number n => exact encoded_number (Or.inr rfl)
    | _ => cases hdata

/-- A byte with an opcode of its own is given a header of five bytes. -/
theorem classifyEncoded_opcodeByte {value : JsValue} (h : IsOpcodeByte value) :
    (encodeArg value).length = 2 ∧ (classifyEncoded (encodeArg value) value).2 = 5 := by
  obtain ⟨high, low, push, hdata, hpush⟩ := h
  have hencode : encodeArg value = push := by
    rw [encodeArg_data hdata, encodePushData, hpush]
    rfl
  have hclass := classifyEncoded_data hdata
  obtain ⟨byte, -, hmin⟩ := Option.bind_eq_some_iff.mp hpush
  rw [hclass, hencode]
  unfold minimalPush at hmin
  split at hmin
  · rename_i hrange
    cases hmin
    have hfirst := firstByte_hexNumber (show 0x50 + byte < 256 by omega) []
    rw [List.append_nil] at hfirst
    refine ⟨length_hexNumber_of_lt (by omega), ?_⟩
    rw [hfirst, if_neg (by rw [Option.some.injEq]; omega)]
    show headerBytes (some (0x50 + byte)) = 5
    unfold headerBytes
    rw [if_neg, if_neg, if_neg]
    · rw [Option.some.injEq]
      omega
    · rw [Option.some.injEq]
      omega
    · show ¬ decide (0x50 + byte ≤ 0x4b) = true
      rw [decide_eq_false (by omega)]
      exact Bool.false_ne_true
  · split at hmin
    · cases hmin
      exact ⟨rfl, rfl⟩
    · cases hmin

end Values

/-! ## Cutting the code at the slots -/

/-- What stays of a substitution when the value of its slot is cut out. -/
def headOf (args : List JsValue) (sub : Substitution) : HexText :=
  match sub.slot with
  | none => sub.encodedHex
  | some (slot, _) => headText (argAt args slot.paramIndex)

/-- The value of a constructor slot. -/
def valueOf (args : List JsValue) (sub : Substitution) : Option HexText :=
  sub.slot.map fun slot => valueText (argAt args slot.1.paramIndex)

/-- The template from a position on, cut at the substitutions. -/
def cutsFrom (args : List JsValue) : Nat → HexText → List Substitution → List (Cut Char) × HexText
  | _, rest, [] => ([], rest)
  | pos, rest, sub :: subs =>
      let k := 2 * sub.templateByteOffset - pos
      let tail := cutsFrom args (2 * sub.templateByteOffset + 2) (rest.drop (k + 2)) subs
      (⟨rest.take k, headOf args sub, valueOf args sub⟩ :: tail.1, tail.2)

/-- A substitution is encoded as it is classified. -/
structure Fit (args : List JsValue) (sub : Substitution) : Prop where
  whole : sub.encodedHex.length % 2 = 0
  slot : ∀ slot name, sub.slot = some (slot, name) →
    sub.encodedHex = encodeArg (argAt args slot.paramIndex) ∧
      Encoded (argAt args slot.paramIndex)

/-- The substitutions stand at placeholders of the rest of a template, in order. -/
structure Aligned (pos : Nat) (rest : HexText) (subs : List Substitution) : Prop where
  sorted : subs.Pairwise fun a b => a.templateByteOffset < b.templateByteOffset
  after : ∀ sub ∈ subs, pos ≤ 2 * sub.templateByteOffset
  blank : ∀ sub ∈ subs, (rest.drop (2 * sub.templateByteOffset - pos)).take 2 = ['0', '0']

section Cuts

variable {args : List JsValue} {pos : Nat} {rest : HexText} {sub : Substitution}
  {subs : List Substitution}

theorem Encoded.split {value : JsValue} (h : Encoded value) :
    encodeArg value = headText value ++ valueText value ∧
      2 * (classifyEncoded (encodeArg value) value).2 = (headText value).length ∧
      (headText value).length % 2 = 0 ∧ (valueText value).length % 2 = 0 := by
  cases h with
  | opcode head encoded two header =>
    rw [header, head, encoded, two]
    exact ⟨rfl, rfl, rfl, rfl⟩
  | push len pos head bytes encoded header =>
    have hheader := headerBytes_pushHeader len (valueText value)
    rw [← encoded] at hheader
    rw [header, head, bytes, hheader]
    exact ⟨encoded, rfl, by omega, Nat.mul_mod_right 2 len⟩

/-- Arguments encoded in one length have one header. -/
theorem Encoded.headText_eq {v w : JsValue} (hv : Encoded v) (hw : Encoded w)
    (h : (encodeArg v).length = (encodeArg w).length) : headText v = headText w := by
  have hpushlen : ∀ len, 2 ≤ (pushHeader len).length := by
    intro len
    unfold pushHeader
    repeat' split
    · exact two_le_length_hexNumber len
    all_goals exact Nat.le_add_left 2 _
  cases hv with
  | opcode headv encodedv twov headerv =>
    cases hw with
    | opcode headw encodedw twow headerw => rw [headv, headw]
    | push len pos head bytes encoded header =>
      rw [encodedv, twov, encoded, List.length_append, bytes] at h
      have := hpushlen len
      omega
  | push len pos head bytes encoded header =>
    cases hw with
    | opcode headw encodedw twow headerw =>
      rw [encodedw, twow, encoded, List.length_append, bytes] at h
      have := hpushlen len
      omega
    | push len' pos' head' bytes' encoded' header' =>
      rw [encoded, encoded', List.length_append, List.length_append, bytes, bytes'] at h
      rw [head, head', pushHeader_inj h]

theorem Fit.fill_eq (h : Fit args sub) (lead : HexText) :
    (Cut.mk lead (headOf args sub) (valueOf args sub)).fill = sub.encodedHex := by
  obtain ⟨offset, hex, slot⟩ := sub
  cases slot with
  | none => exact List.append_nil hex
  | some slot =>
    obtain ⟨hencode, hencoded⟩ := h.slot slot.1 slot.2 rfl
    exact hencoded.split.1.symm.trans hencode.symm

theorem Aligned.tail (h : Aligned pos rest (sub :: subs)) :
    Aligned (2 * sub.templateByteOffset + 2)
      (rest.drop (2 * sub.templateByteOffset - pos + 2)) subs := by
  obtain ⟨hhead, hsorted⟩ := List.pairwise_cons.mp h.sorted
  have hpos := h.after sub List.mem_cons_self
  refine ⟨hsorted, fun other hmem => ?_, fun other hmem => ?_⟩
  · have := hhead other hmem
    omega
  · have hlt := hhead other hmem
    have hblank := h.blank other (List.mem_cons_of_mem _ hmem)
    have hoffset : 2 * sub.templateByteOffset - pos + 2 +
        (2 * other.templateByteOffset - (2 * sub.templateByteOffset + 2)) =
        2 * other.templateByteOffset - pos := by omega
    rw [List.drop_drop, hoffset]
    exact hblank

/-- The template before, at and after the first placeholder. -/
theorem Aligned.head (h : Aligned pos rest (sub :: subs)) :
    rest = rest.take (2 * sub.templateByteOffset - pos) ++ (['0', '0'] ++
        rest.drop (2 * sub.templateByteOffset - pos + 2)) ∧
      (rest.take (2 * sub.templateByteOffset - pos)).length =
        2 * sub.templateByteOffset - pos := by
  have hblank := h.blank sub List.mem_cons_self
  have hlen : 2 * sub.templateByteOffset - pos + 2 ≤ rest.length := by
    have := congrArg List.length hblank
    rw [List.length_take, List.length_drop, List.length_cons, List.length_singleton] at this
    omega
  refine ⟨?_, ?_⟩
  · rw [← hblank, ← List.drop_drop, List.take_append_drop, List.take_append_drop]
  · rw [List.length_take]
    omega

/-- The cuts are the template with its placeholders filled in. -/
theorem cuts_template (halign : Aligned pos rest subs) (hfit : ∀ sub ∈ subs, Fit args sub) :
    blanked Artifact.placeholder (cutSegments (cutsFrom args pos rest subs).1
        (cutsFrom args pos rest subs).2) = rest ∧
      holesFrom Artifact.placeholder pos (cutSegments (cutsFrom args pos rest subs).1
        (cutsFrom args pos rest subs).2) =
        subs.map fun sub => (2 * sub.templateByteOffset, sub.encodedHex) := by
  induction subs generalizing pos rest with
  | nil => exact ⟨List.append_nil rest, rfl⟩
  | cons sub subs ih =>
    obtain ⟨hblanked, hholes⟩ := ih halign.tail fun s hs => hfit s (List.mem_cons_of_mem _ hs)
    obtain ⟨hrest, hlen⟩ := halign.head
    have hpos := halign.after sub List.mem_cons_self
    have hoffset : pos + (2 * sub.templateByteOffset - pos) = 2 * sub.templateByteOffset := by
      omega
    rw [cutsFrom]
    dsimp only
    rw [cutSegments]
    constructor
    · rw [blanked, blanked, hblanked]
      exact hrest.symm
    · rw [holesFrom, holesFrom, hlen, hoffset, (hfit sub List.mem_cons_self).fill_eq]
      exact congrArg _ hholes

end Cuts

/-! ## The layout is that of the cuts -/

/-- A range of bytes of a text. -/
def byteRange (code : HexText) (offset length : Int) : HexText :=
  (code.drop (2 * offset).toNat).take (2 * length).toNat

/-- A descriptor describes where its argument was written. -/
structure SlotRight (code : HexText) (args : List JsValue) (slot : ResolvedSlot) : Prop where
  offset : 0 ≤ slot.byteOffset
  occupied : byteRange code slot.byteOffset slot.byteLength =
    encodeArg (argAt args slot.paramIndex)
  value : byteRange code slot.valueByteOffset slot.valueByteLength =
    valueText (argAt args slot.paramIndex)
  nonneg : 0 ≤ slot.valueByteLength
  inside : slot.byteOffset ≤ slot.valueByteOffset ∧
    slot.valueByteOffset + slot.valueByteLength = slot.byteOffset + slot.byteLength

/-- One range after another. -/
def Before (a b : ResolvedSlot) : Prop := a.byteOffset + a.byteLength ≤ b.byteOffset

/-- The range of a value, in digits. -/
def valueRange (slot : ResolvedSlot) : Nat × Nat :=
  ((2 * slot.valueByteOffset).toNat, (2 * slot.valueByteLength).toNat)

theorem byteRange_append {before text after : HexText} {offset length : Int}
    (hoffset : 2 * offset = before.length) (hlength : 2 * length = text.length) :
    byteRange (before ++ (text ++ after)) offset length = text := by
  rw [byteRange, hoffset, hlength, Int.toNat_natCast, Int.toNat_natCast]
  exact take_drop_append before text after

/-- What the loop over the substitutions computes of a code that is cut at them. -/
structure LayoutOf (args : List JsValue) (code : HexText) (start : Nat) (cuts : List (Cut Char))
    (slots : List ResolvedSlot) : Prop where
  right : ∀ slot ∈ slots, SlotRight code args slot ∧ (start : Int) ≤ 2 * slot.byteOffset
  apart : slots.Pairwise Before
  ranges : slots.map valueRange = valuesFrom start cuts

section Layout

variable {artifact : LayoutArtifact} {args : List JsValue}

/-- The descriptor of a substitution that is encoded as it is classified. -/
theorem slotRight_of_encoded (artifact : LayoutArtifact) {before : HexText} {shift : Int}
    {sub : Substitution} {slot : ConstructorSlot} (name : Option String) (after : HexText)
    (hencode : sub.encodedHex = encodeArg (argAt args slot.paramIndex))
    (hencoded : Encoded (argAt args slot.paramIndex))
    (hbefore : (before.length : Int) = 2 * (sub.templateByteOffset + shift)) :
    SlotRight (before ++ (sub.encodedHex ++ after)) args
        (resolvedSlot artifact args shift sub slot name) ∧
      (before.length : Int) = 2 * (resolvedSlot artifact args shift sub slot name).byteOffset ∧
      valueRange (resolvedSlot artifact args shift sub slot name) =
        (before.length + (headText (argAt args slot.paramIndex)).length,
          (valueText (argAt args slot.paramIndex)).length) := by
  obtain ⟨hsplit, hheader, hheadEven, hvalueEven⟩ := hencoded.split
  have hlen : sub.encodedHex.length = (headText (argAt args slot.paramIndex)).length +
      (valueText (argAt args slot.paramIndex)).length := by
    rw [hencode, hsplit, List.length_append]
  rw [← hencode] at hheader
  have hlength : (2 : Int) * (sub.encodedHex.length / 2) = sub.encodedHex.length := by omega
  have hvalueOffset : 2 * (sub.templateByteOffset + shift +
      ((classifyEncoded sub.encodedHex (argAt args slot.paramIndex)).2 : Int)) =
      before.length + (headText (argAt args slot.paramIndex)).length := by omega
  have hvalueLength : 2 * ((sub.encodedHex.length / 2 : Int) -
      ((classifyEncoded sub.encodedHex (argAt args slot.paramIndex)).2 : Int)) =
      (valueText (argAt args slot.paramIndex)).length := by omega
  refine ⟨⟨?_, ?_, ?_, ?_, ?_⟩, ?_, ?_⟩
  · show 0 ≤ (sub.templateByteOffset : Int) + shift
    omega
  · refine (byteRange_append hbefore.symm hlength).trans hencode
  · have htext : before ++ (sub.encodedHex ++ after) =
        (before ++ headText (argAt args slot.paramIndex)) ++
          (valueText (argAt args slot.paramIndex) ++ after) := by
      rw [hencode, hsplit]
      simp only [List.append_assoc]
    rw [htext]
    refine byteRange_append ?_ hvalueLength
    rw [List.length_append]
    push_cast
    exact hvalueOffset
  · show 0 ≤ (sub.encodedHex.length / 2 : Int) -
      ((classifyEncoded sub.encodedHex (argAt args slot.paramIndex)).2 : Int)
    omega
  · constructor
    · show (sub.templateByteOffset : Int) + shift ≤ sub.templateByteOffset + shift +
        ((classifyEncoded sub.encodedHex (argAt args slot.paramIndex)).2 : Int)
      omega
    · show (sub.templateByteOffset : Int) + shift +
        ((classifyEncoded sub.encodedHex (argAt args slot.paramIndex)).2 : Int) +
        ((sub.encodedHex.length / 2 : Int) -
          ((classifyEncoded sub.encodedHex (argAt args slot.paramIndex)).2 : Int)) =
        sub.templateByteOffset + shift + (sub.encodedHex.length / 2 : Int)
      omega
  · exact hbefore
  · show ((2 * (sub.templateByteOffset + shift +
      ((classifyEncoded sub.encodedHex (argAt args slot.paramIndex)).2 : Int))).toNat,
      (2 * ((sub.encodedHex.length / 2 : Int) -
        ((classifyEncoded sub.encodedHex (argAt args slot.paramIndex)).2 : Int))).toNat) = _
    rw [hvalueOffset, hvalueLength]
    rfl

/-- The loop finds the places of the cuts. -/
theorem layout_of_cuts {pos : Nat} {rest : HexText} {subs : List Substitution}
    (halign : Aligned pos rest subs) (hfit : ∀ sub ∈ subs, Fit args sub) (before : HexText)
    {shift : Int} (hbefore : (before.length : Int) = pos + 2 * shift) :
    LayoutOf args (before ++ cutFilled (cutsFrom args pos rest subs).1
        (cutsFrom args pos rest subs).2) before.length (cutsFrom args pos rest subs).1
        (resolveSlots artifact args shift subs).1 ∧
      (before.length + (cutFilled (cutsFrom args pos rest subs).1
        (cutsFrom args pos rest subs).2).length : Int) =
        pos + rest.length + 2 * (resolveSlots artifact args shift subs).2 := by
  induction subs generalizing pos rest before shift with
  | nil =>
    refine ⟨⟨fun slot h => absurd h List.not_mem_nil, List.Pairwise.nil, rfl⟩, ?_⟩
    show (before.length + rest.length : Int) = pos + rest.length + 2 * shift
    omega
  | cons sub subs ih =>
    have hsub := hfit sub List.mem_cons_self
    have hfill := hsub.fill_eq (rest.take (2 * sub.templateByteOffset - pos))
    have hwhole := hsub.whole
    have hpos := halign.after sub List.mem_cons_self
    obtain ⟨hrest, hlead⟩ := halign.head
    have hrestlen := congrArg List.length hrest
    simp only [List.length_append, hlead, List.length_cons, List.length_nil] at hrestlen
    -- the text up to the end of this substitution
    let lead := rest.take (2 * sub.templateByteOffset - pos)
    have hlen : (before ++ lead).length = before.length + (2 * sub.templateByteOffset - pos) := by
      rw [List.length_append, hlead]
    have hnext : ((before ++ lead ++ sub.encodedHex).length : Int) =
        (2 * sub.templateByteOffset + 2 : Nat) +
          2 * (shift + ((sub.encodedHex.length / 2 : Int) - 1)) := by
      rw [List.length_append, hlen]
      push_cast
      omega
    obtain ⟨hlayout, hend⟩ := ih halign.tail (fun s hs => hfit s (List.mem_cons_of_mem _ hs))
      (before ++ lead ++ sub.encodedHex) hnext
    have hcode : before ++ cutFilled (cutsFrom args pos rest (sub :: subs)).1
        (cutsFrom args pos rest (sub :: subs)).2 =
        (before ++ lead ++ sub.encodedHex) ++ cutFilled
          (cutsFrom args (2 * sub.templateByteOffset + 2)
            (rest.drop (2 * sub.templateByteOffset - pos + 2)) subs).1
          (cutsFrom args (2 * sub.templateByteOffset + 2)
            (rest.drop (2 * sub.templateByteOffset - pos + 2)) subs).2 := by
      rw [cutsFrom]
      dsimp only
      rw [cutFilled, hfill]
      simp only [List.append_assoc, lead]
    have hfilled : (cutFilled (cutsFrom args pos rest (sub :: subs)).1
        (cutsFrom args pos rest (sub :: subs)).2).length = lead.length + sub.encodedHex.length +
          (cutFilled (cutsFrom args (2 * sub.templateByteOffset + 2)
            (rest.drop (2 * sub.templateByteOffset - pos + 2)) subs).1
          (cutsFrom args (2 * sub.templateByteOffset + 2)
            (rest.drop (2 * sub.templateByteOffset - pos + 2)) subs).2).length := by
      have := congrArg List.length hcode
      simp only [List.length_append] at this
      omega
    have hleadlen : lead.length = 2 * sub.templateByteOffset - pos := hlead
    rw [hcode, hfilled, resolveSlots]
    simp only [List.length_append] at hend
    cases hslot : sub.slot with
    | none =>
      refine ⟨⟨fun slot h => ?_, hlayout.apart, ?_⟩, ?_⟩
      · obtain ⟨hright, hstart⟩ := hlayout.right slot h
        refine ⟨hright, ?_⟩
        simp only [List.length_append] at hstart
        omega
      · have hvalue : valueOf args sub = none := by rw [valueOf, hslot]; rfl
        rw [cutsFrom]
        dsimp only
        rw [valuesFrom, hfill, hvalue, Option.map_none, Option.toList_none, List.nil_append]
        refine hlayout.ranges.trans ?_
        simp only [List.length_append, lead]
      · rw [List.length_drop] at hend
        push_cast at hend ⊢
        omega
    | some slot =>
      obtain ⟨slot, name⟩ := slot
      obtain ⟨hencode, hencoded⟩ := hsub.slot slot name hslot
      have hoffset : ((before ++ lead).length : Int) = 2 * (sub.templateByteOffset + shift) := by
        rw [hlen]
        push_cast
        omega
      obtain ⟨hright, hstart, hrange⟩ := slotRight_of_encoded artifact name
        (cutFilled
          (cutsFrom args (2 * sub.templateByteOffset + 2)
            (rest.drop (2 * sub.templateByteOffset - pos + 2)) subs).1
          (cutsFrom args (2 * sub.templateByteOffset + 2)
            (rest.drop (2 * sub.templateByteOffset - pos + 2)) subs).2) hencode hencoded hoffset
      rw [← List.append_assoc] at hright
      dsimp only
      refine ⟨⟨fun other h => ?_, ?_, ?_⟩, ?_⟩
      · rcases List.mem_cons.mp h with rfl | h
        · refine ⟨hright, ?_⟩
          rw [← hstart, List.length_append]
          push_cast
          omega
        · obtain ⟨hother, hlater⟩ := hlayout.right other h
          refine ⟨hother, ?_⟩
          simp only [List.length_append] at hlater
          omega
      · refine List.Pairwise.cons (fun other h => ?_) hlayout.apart
        obtain ⟨-, hlater⟩ := hlayout.right other h
        rw [hnext] at hlater
        show (sub.templateByteOffset : Int) + shift + (sub.encodedHex.length / 2 : Int) ≤
          other.byteOffset
        push_cast at hlater
        omega
      · have hvalue : valueOf args sub = some (valueText (argAt args slot.paramIndex)) := by
          rw [valueOf, hslot]
          rfl
        have hhead : headOf args sub = headText (argAt args slot.paramIndex) := by
          rw [headOf, hslot]
        rw [cutsFrom]
        dsimp only
        rw [List.map_cons, hrange, hlayout.ranges, valuesFrom, hfill, hvalue, Option.map_some,
          Option.toList_some, hhead]
        simp only [List.length_append, lead, List.singleton_append]
      · rw [List.length_drop] at hend
        push_cast at hend ⊢
        omega

end Layout

/-! ## The substitutions of an artifact -/

section Collect

variable {ε α β γ : Type}

theorem exists_of_mem_right {R : α → β → Prop} {xs : List α} {ys : List β}
    (h : List.Forall₂ R xs ys) {y : β} (hy : y ∈ ys) : ∃ x ∈ xs, R x y := by
  induction h with
  | nil => exact absurd hy List.not_mem_nil
  | @cons x z xs ys hxz _ ih =>
    rcases List.mem_cons.mp hy with rfl | hy
    · exact ⟨x, List.mem_cons_self, hxz⟩
    · obtain ⟨x', hmem, hR⟩ := ih hy
      exact ⟨x', List.mem_cons_of_mem _ hmem, hR⟩

/-- Two lists of related things are the halves of one list of pairs. -/
theorem zip_of_forall₂ {R : α → β → Prop} {xs : List α} {ys : List β}
    (h : List.Forall₂ R xs ys) :
    ∃ pairs : List (α × β), pairs.map Prod.fst = xs ∧ pairs.map Prod.snd = ys ∧
      ∀ pair ∈ pairs, R pair.1 pair.2 := by
  induction h with
  | nil => exact ⟨[], rfl, rfl, fun pair h => absurd h List.not_mem_nil⟩
  | @cons x y xs ys hxy _ ih =>
    obtain ⟨pairs, hfst, hsnd, hall⟩ := ih
    refine ⟨(x, y) :: pairs, by rw [List.map_cons, hfst], by rw [List.map_cons, hsnd], ?_⟩
    intro pair hmem
    rcases List.mem_cons.mp hmem with rfl | hmem
    · exact hxy
    · exact hall pair hmem

theorem placeholder_of_assert {artifact : LayoutArtifact} {byteOffset : Nat}
    {kind label : String} (h : assertPlaceholderByte artifact byteOffset kind label = .ok ()) :
    (artifact.script.drop (2 * byteOffset)).take 2 = ['0', '0'] := by
  unfold assertPlaceholderByte at h
  dsimp only at h
  split at h
  · cases h
  · rename_i hblank
    rw [Nat.mul_comm]
    exact not_not.mp hblank

variable {artifact : LayoutArtifact} {args args' : List JsValue}

/-- The substitution of a constructor slot, at a placeholder. -/
def FromSlot (artifact : LayoutArtifact) (args : List JsValue) (slot : ConstructorSlot × Nat)
    (sub : Substitution) : Prop :=
  sub = ⟨slot.1.byteOffset, encodeArg (argAt args slot.1.paramIndex),
      some (slot.1, artifact.slotName slot.2)⟩ ∧
    (artifact.script.drop (2 * slot.1.byteOffset)).take 2 = ['0', '0']

/-- The substitution of a resolved code separator slot, at a placeholder. -/
def FromSep (artifact : LayoutArtifact) (rs : Nat × Int) (sub : Substitution) : Prop :=
  sub = ⟨rs.1, encodeScriptNumber rs.2, none⟩ ∧
    (artifact.script.drop (2 * rs.1)).take 2 = ['0', '0']

theorem constructorSubstitution_ok {slot : ConstructorSlot} {i : Nat} {sub : Substitution}
    (h : constructorSubstitution artifact args slot i = .ok sub) :
    FromSlot artifact args (slot, i) sub := by
  unfold constructorSubstitution at h
  dsimp only at h
  split at h
  · cases h
  split at h
  · cases h
  · cases hassert : assertPlaceholderByte artifact slot.byteOffset "constructor slot"
      ("'" ++ ((artifact.slotName i).or (artifact.paramName slot.paramIndex)).getD
        ("param" ++ toString slot.paramIndex) ++ "'") with
    | error e =>
      rw [hassert] at h
      cases h
    | ok u =>
      rw [hassert] at h
      cases h
      exact ⟨rfl, placeholder_of_assert hassert⟩

theorem codeSepSubstitution_ok {rs : Nat × Int} {sub : Substitution}
    (h : codeSepSubstitution artifact rs = .ok sub) : FromSep artifact rs sub := by
  unfold codeSepSubstitution at h
  cases hassert : assertPlaceholderByte artifact rs.1 "codeSepIndex slot"
    ("(adjusted value " ++ toString rs.2 ++ ")") with
  | error e =>
    rw [hassert] at h
    cases h
  | ok u =>
    rw [hassert] at h
    cases h
    exact ⟨rfl, placeholder_of_assert hassert⟩

/-- The substitutions as they are collected, before they are sorted. -/
structure Collected (artifact : LayoutArtifact) (args : List JsValue)
    (slots seps : List Substitution) : Prop where
  fromSlots : List.Forall₂ (FromSlot artifact args) artifact.constructorSlots.zipIdx slots
  fromSeps : List.Forall₂ (FromSep artifact)
    (resolvedCodeSepSlotValues artifact.toRunarArtifact args) seps

theorem collectSubstitutions_ok {subs : List Substitution}
    (h : collectSubstitutions artifact args = .ok subs) :
    ∃ slots seps : List Substitution, Collected artifact args slots seps ∧
      subs = (slots ++ seps).mergeSort (·.templateByteOffset ≤ ·.templateByteOffset) := by
  unfold collectSubstitutions at h
  cases hslots : artifact.constructorSlots.zipIdx.mapM fun slot =>
      constructorSubstitution artifact args slot.1 slot.2 with
  | error e =>
    rw [hslots] at h
    cases h
  | ok slots =>
    cases hseps : (resolvedCodeSepSlotValues artifact.toRunarArtifact args).mapM
        (codeSepSubstitution artifact) with
    | error e =>
      rw [hslots, ok_bind, hseps] at h
      cases h
    | ok seps =>
      rw [hslots, ok_bind, hseps] at h
      cases h
      exact ⟨slots, seps, ⟨(forall₂_of_mapM_ok hslots).imp fun _ _ => constructorSubstitution_ok,
        (forall₂_of_mapM_ok hseps).imp fun _ _ => codeSepSubstitution_ok⟩, rfl⟩

end Collect

end Runar.Sdk
