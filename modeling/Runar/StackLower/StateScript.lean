/-
  StackLower/StateScript.lean --- building the state section on chain.

  WHAT THIS FILE IS FOR.  A stateful method serialises the contract's mutable
  properties twice over: `get_state_script` for the state it commits to, and
  `add_output` for each output it creates.  This file lowers both and proves what
  the emitted code computes: the concatenation of the fields' encodings, and for an
  output the amount, the length and the code part around it.

  FIELDS.  A number takes eight bytes and a boolean one, through NUM2BIN; a
  ByteString takes a length prefix; every other type is already a byte string of
  its width.
-/
import Runar.StackLower.Context
import Runar.StackLower.PushData

set_option autoImplicit false

namespace Runar.StackLower

open Script

/-! ## Use analysis at one binding -/

/-- The index of the last binding that uses a name. -/
abbrev LastUses : Type := String → Option Nat

/-- Whether a name is not used after a binding. -/
def isLastUse (ref : String) (currentIndex : Nat) (lastUses : LastUses) : Bool :=
  match lastUses ref with
  | none => true
  | some last => last ≤ currentIndex

/-- An operand is consumed at its last use, unless the binding reads it twice. -/
def operandConsume (ref : String) (operands : List String) (bindingIndex : Nat)
    (lastUses : LastUses) : Bool :=
  isLastUse ref bindingIndex lastUses && operands.count ref ≤ 1

/-! ## Lowering -/

/-- The push of a constant. -/
def constPush : ConstValue → PushValue
  | .bytes value => .bytes value
  | .bigint value => .bigint value
  | .boolean value => .boolean value

namespace LoweringContext

def pushValue (ctx : LoweringContext) (value : ConstValue) : LoweringContext :=
  ctx.emitOp (.push (constPush value))

/-- Prepend the push-data prefix to the item on top.  The slots its code pushes and
pops in between cancel on every branch. -/
def emitPushDataEncode (ctx : LoweringContext) : Except LowerError LoweringContext := do
  let ctx ← (ctx.emitOps StackLower.emitPushDataEncode).popSlot
  .ok (ctx.pushSlot none)

/-- Pad the number on top to a width. -/
def emitNum2Bin (width : Int) (ctx : LoweringContext) : Except LowerError LoweringContext :=
  (((ctx.emitOp (.push (.bigint width))).pushSlot none).emitOp (.opcode .OP_NUM2BIN)).popSlot

/-- Convert the value of a state field on top to its bytes. -/
def convertField (type : PrimitiveType) (ctx : LoweringContext) :
    Except LowerError LoweringContext :=
  match type with
  | .bigint | .RabinSig | .RabinPubKey => ctx.emitNum2Bin 8
  | .boolean => ctx.emitNum2Bin 1
  | .ByteString => ctx.emitPushDataEncode
  | _ => .ok ctx

/-- Concatenate the two items on top. -/
def emitCat (ctx : LoweringContext) : Except LowerError LoweringContext := do
  let ctx ← ctx.popSlot
  let ctx ← ctx.popSlot
  .ok ((ctx.emitOp (.opcode .OP_CAT)).pushSlot none)

/-- Bring a state property to the top: its value on the stack, else its initial
value, else zero. -/
def loadStateProp (prop : ANFProperty) (ctx : LoweringContext) :
    Except LowerError LoweringContext :=
  if ctx.stackMap.has prop.name then ctx.bringToTop prop.name true
  else
    match prop.initialValue with
    | some value => .ok ((ctx.pushValue value).pushSlot none)
    | none => .ok ((ctx.emitOp (.push (.bigint 0))).pushSlot none)

/-- The loop of `lowerGetStateScript` over the mutable properties. -/
def serializeProps (first : Bool) (props : List ANFProperty) (ctx : LoweringContext) :
    Except LowerError LoweringContext :=
  match props with
  | [] => .ok ctx
  | prop :: rest => do
      let ctx ← ctx.loadStateProp prop
      let ctx ← ctx.convertField prop.type
      let ctx ← if first then .ok ctx else ctx.emitCat
      ctx.serializeProps false rest

/-- The mutable properties, in declaration order. -/
def stateProps (ctx : LoweringContext) : List ANFProperty :=
  ctx.properties.filter (fun p => !p.isReadonly)

def lowerGetStateScript (bindingName : String) (ctx : LoweringContext) :
    Except LowerError LoweringContext :=
  match ctx.stateProps with
  | [] => .ok ((ctx.emitOp (.push (.bytes []))).pushSlot (some bindingName))
  | prop :: rest => do
      let ctx ← ctx.serializeProps true (prop :: rest)
      let ctx ← ctx.popSlot
      .ok (ctx.pushSlot (some bindingName))

end LoweringContext

/-- The low bytes of the length on top, through a word with one more byte for the
sign. -/
def emitNumToLowBytes (nBytes : Int) : List StackOp :=
  [.push (.bigint (nBytes + 1)), .opcode .OP_NUM2BIN, .push (.bigint nBytes), .opcode .OP_SPLIT,
    .drop]

def emitPrefix (prefixByte : UInt8) : List StackOp :=
  [.push (.bytes [prefixByte]), .swap, .opcode .OP_CAT]

/-- The Bitcoin varint of the length on top: `[.., script, len]` to
`[.., script, varint_bytes]`. -/
def emitVarintEncoding : List StackOp :=
  [.dup, .push (.bigint 253), .opcode .OP_LESSTHAN, .opcode .OP_IF] ++
    emitNumToLowBytes 1 ++
    [.opcode .OP_ELSE, .dup, .push (.bigint 0x10000), .opcode .OP_LESSTHAN, .opcode .OP_IF] ++
    emitNumToLowBytes 2 ++ emitPrefix 0xfd ++
    [.opcode .OP_ELSE, .dup, .push (.bigint 0x100000000), .opcode .OP_LESSTHAN, .opcode .OP_IF] ++
    emitNumToLowBytes 4 ++ emitPrefix 0xfe ++
    [.opcode .OP_ELSE] ++
    emitNumToLowBytes 8 ++ emitPrefix 0xff ++
    [.opcode .OP_ENDIF, .opcode .OP_ENDIF, .opcode .OP_ENDIF]

namespace LoweringContext

/-- The loop of `lowerAddOutput` over the state values and the properties they are
for. -/
def serializeValues (operands : List String) (bindingIndex : Nat) (lastUses : LastUses)
    (values : List (String × ANFProperty)) (ctx : LoweringContext) :
    Except LowerError LoweringContext :=
  match values with
  | [] => .ok ctx
  | (valueRef, prop) :: rest => do
      let ctx ← ctx.bringToTop valueRef (operandConsume valueRef operands bindingIndex lastUses)
      let ctx ← ctx.convertField prop.type
      let ctx ← ctx.emitCat
      ctx.serializeValues operands bindingIndex lastUses rest

/-- Prepend the varint of its length to the script on top, and the amount to both. -/
def wrapOutput (satoshis : String) (operands : List String) (bindingIndex : Nat)
    (lastUses : LastUses) (ctx : LoweringContext) : Except LowerError LoweringContext := do
  let ctx := (ctx.emitOp (.opcode .OP_SIZE)).pushSlot none
  let ctx ← (ctx.emitOps emitVarintEncoding).popSlot
  let ctx := ctx.pushSlot none
  let ctx ← (ctx.emitOp .swap).swapSlots
  let ctx ← ctx.emitCat
  let ctx ← ctx.bringToTop satoshis (operandConsume satoshis operands bindingIndex lastUses)
  let ctx ← ctx.emitNum2Bin 8
  let ctx ← (ctx.emitOp .swap).swapSlots
  ctx.emitCat

def lowerAddOutput (bindingName satoshis : String) (stateValues : List String)
    (bindingIndex : Nat) (lastUses : LastUses) (ctx : LoweringContext) :
    Except LowerError LoweringContext := do
  let stateProps := ctx.stateProps
  let outputOperands := satoshis :: stateValues
  let ctx ← ctx.bringToTop "_codePart" false
  let ctx ← ((ctx.emitOp (.push (.bytes [0x6a]))).pushSlot none).emitCat
  let ctx ← ctx.serializeValues outputOperands bindingIndex lastUses (stateValues.zip stateProps)
  let ctx ← ctx.wrapOutput satoshis outputOperands bindingIndex lastUses
  let ctx ← ctx.popSlot
  .ok (ctx.pushSlot (some bindingName))

end LoweringContext

/-! ## What the code computes -/

/-- The bytes of a state field, from the item that holds its value. -/
def encodeField (type : PrimitiveType) (item : Bytes) : Except ScriptError Bytes :=
  match type with
  | .bigint | .RabinSig | .RabinPubKey => num2bin (decodeNum item) 8
  | .boolean => num2bin (decodeNum item) 1
  | .ByteString => pushDataEncoding item
  | _ => .ok item

/-- Append a field to the fields before it. -/
def appendField (acc : Bytes) (field : PrimitiveType × Bytes) : Except ScriptError Bytes := do
  let bytes ← encodeField field.1 field.2
  .ok (acc ++ bytes)

/-- The state section: the fields' encodings in order. -/
def stateSection (fields : List (PrimitiveType × Bytes)) : Except ScriptError Bytes :=
  fields.foldlM appendField []

/-- The varint of a length. -/
def varintEncoding (len : Nat) : Except ScriptError Bytes :=
  if len < 253 then .ok (leBytes 1 len)
  else if len < 0x10000 then .ok (0xfd :: leBytes 2 len)
  else if len < 0x100000000 then .ok (0xfe :: leBytes 4 len)
  else if len < 2 ^ 71 then .ok (0xff :: leBytes 8 len)
  else .error .impossibleEncoding

/-- A serialised output: the amount, the length of the script and the script. -/
def outputBytes (satoshis : Bytes) (script : Bytes) : Except ScriptError Bytes := do
  let varint ← varintEncoding script.length
  let amount ← num2bin (decodeNum satoshis) 8
  .ok (amount ++ (varint ++ script))

/-! ## One field -/

section Fields

variable (cfg : Config) (slots : Slots)

/-- The operations that convert a field. -/
def fieldOps : PrimitiveType → List StackOp
  | .bigint | .RabinSig | .RabinPubKey => [.push (.bigint 8), .opcode .OP_NUM2BIN]
  | .boolean => [.push (.bigint 1), .opcode .OP_NUM2BIN]
  | .ByteString => emitPushDataEncode
  | _ => []

theorem runsAs_emitPushDataEncode (s : Bytes) :
    RunsAs cfg slots emitPushDataEncode [s] ((pushDataEncoding s).map fun e => [e]) := by
  refine .of_denotes (denotes_emitPushDataEncode cfg slots) fun below alt => ?_
  have happly := encodeEffect_apply cfg s below alt
  refine happly.trans ?_
  cases pushDataEncoding s <;> rfl

theorem runsAs_num2bin (width : Nat) (item : Bytes) :
    RunsAs cfg slots [.push (.bigint width), .opcode .OP_NUM2BIN] [item]
      ((num2bin (decodeNum item) width).map fun b => [b]) := by
  refine .of_plain (by simp [emitOps_cons]; rfl) fun below alt => ?_
  simp only [emitOps_cons, emitOps_nil, emitStackOp_push, emitStackOp_opcode,
    PushValue.toBytes_bigint, List.singleton_append, plainRun, plainStep, opcodeStep,
    readNum_encodeNum, bind, Except.bind]
  cases num2bin (decodeNum item) width <;> rfl

/-- Converting a field gives its encoding. -/
theorem runsAs_fieldOps (type : PrimitiveType) (item : Bytes) :
    RunsAs cfg slots (fieldOps type) [item] ((encodeField type item).map fun b => [b]) := by
  cases type with
  | bigint | RabinSig | RabinPubKey => exact runsAs_num2bin cfg slots 8 item
  | boolean => exact runsAs_num2bin cfg slots 1 item
  | ByteString => exact runsAs_emitPushDataEncode cfg slots item
  | _ => exact .nil [item]

theorem emitNum2Bin_eq {ctx : LoweringContext} {name : Option String} {rest : StackMap}
    (width : Int) (h : ctx.stackMap = name :: rest) :
    ctx.emitNum2Bin width =
      .ok (ctx.after [.push (.bigint width), .opcode .OP_NUM2BIN] (name :: rest)) := by
  unfold LoweringContext.emitNum2Bin
  rw [LoweringContext.emitOp_eq_after, LoweringContext.pushSlot_eq_after,
    LoweringContext.emitOp_eq_after]
  simp only [LoweringContext.stackMap_after, LoweringContext.after_after, h]
  rw [LoweringContext.popSlot_cons _ (LoweringContext.stackMap_after _ _ _),
    LoweringContext.after_after]
  rfl

/-- The conversion keeps one slot for the field. -/
theorem convertField_eq {ctx : LoweringContext} {name : Option String} {rest : StackMap}
    (type : PrimitiveType) (h : ctx.stackMap = name :: rest) :
    ∃ name', ctx.convertField type = .ok (ctx.after (fieldOps type) (name' :: rest)) ∧
      (name' = name ∨ name' = none) := by
  cases type with
  | bigint | RabinSig | RabinPubKey | boolean => exact ⟨name, emitNum2Bin_eq _ h, .inl rfl⟩
  | ByteString =>
      refine ⟨none, ?_, .inr rfl⟩
      show ctx.emitPushDataEncode = _
      unfold LoweringContext.emitPushDataEncode
      rw [LoweringContext.emitOps_eq_after, h,
        LoweringContext.popSlot_cons _ (LoweringContext.stackMap_after _ _ _), ok_bind,
        LoweringContext.pushSlot_eq_after, LoweringContext.after_after,
        LoweringContext.after_after]
      simp [fieldOps]
  | _ =>
      refine ⟨name, ?_, .inl rfl⟩
      show Except.ok ctx = .ok (ctx.after [] (name :: rest))
      rw [← h]
      simp [LoweringContext.after]

theorem emitCat_eq {ctx : LoweringContext} {a b : Option String} {rest : StackMap}
    (h : ctx.stackMap = a :: b :: rest) :
    ctx.emitCat = .ok (ctx.after [.opcode .OP_CAT] (none :: rest)) := by
  unfold LoweringContext.emitCat
  rw [LoweringContext.popSlot_cons _ h, ok_bind,
    LoweringContext.popSlot_cons _ (LoweringContext.stackMap_after _ _ _), ok_bind,
    LoweringContext.emitOp_eq_after, LoweringContext.pushSlot_eq_after]
  simp

theorem runsAs_cat (b a : Bytes) :
    RunsAs cfg slots [.opcode .OP_CAT] [b, a] (.ok [a ++ b]) :=
  runsAs_opcode cfg slots rfl fun _ _ => rfl

/-- Two items joined. -/
def joined : List Bytes → Except ScriptError (List Bytes)
  | [b, a] => .ok [a ++ b]
  | _ => .error .invalidStackOperation

/-- Converting the field on top and appending it to the accumulated bytes below. -/
theorem runsAs_appendField (type : PrimitiveType) (item acc : Bytes) :
    RunsAs cfg slots (fieldOps type ++ [.opcode .OP_CAT]) [item, acc]
      ((appendField acc (type, item)).map fun b => [b]) := by
  have hfield := (runsAs_fieldOps cfg slots type item).frame [acc]
  have happ : RunsAs cfg slots (fieldOps type ++ [StackOp.opcode .OP_CAT]) [item, acc] _ :=
    RunsAs.append (f := joined) hfield ?_
  · have heq : ((appendField acc (type, item)).map fun b => [b]) =
        (((encodeField type item).map fun b => [b]).map (· ++ [acc]) >>= joined) := by
      unfold appendField
      cases encodeField type item <;> rfl
    rw [heq]
    exact happ
  · intro items hitems
    cases henc : encodeField type item with
    | error e => rw [henc] at hitems; cases hitems
    | ok b =>
        rw [henc] at hitems
        cases hitems
        exact runsAs_cat cfg slots b acc

end Fields

/-! ## The state script -/

/-- The item that stands for a state property: the one the map names, else the one
`loadStateProp` pushes. -/
def propItem (cells : List Cell) (prop : ANFProperty) : Bytes :=
  match lookup cells prop.name with
  | some item => item
  | none =>
      match prop.initialValue with
      | some value => (constPush value).toBytes
      | none => []

theorem has_slotsOf (cells : List Cell) (name : String) :
    (slotsOf cells).has name = (lookup cells name).isSome := by
  induction cells with
  | nil => rfl
  | cons c rest ih =>
      unfold StackMap.has at ih ⊢
      by_cases hc : c.1 = some name
      · simp [lookup, hc]
      · have hne : (some name == c.1) = false := by
          rw [beq_eq_false_iff_ne]
          exact fun h => hc h.symm
        rw [slotsOf_cons, List.contains_cons, hne, Bool.false_or, ih, lookup_cons_ne hc]

theorem takeCell_of_lookup_none {cells : List Cell} {name : String}
    (h : lookup cells name = none) (consume : Bool) : takeCell name consume cells = cells := by
  cases consume with
  | false => rfl
  | true =>
      refine List.eraseP_of_forall_not ?_
      intro c hc hname
      unfold lookup at h
      rw [Option.map_eq_none_iff, List.find?_eq_none] at h
      exact h c hc hname

section StateScript

variable (cfg : Config) (slots : Slots)

/-- Loading a state property leaves its item on top. -/
theorem loadStateProp_spec {ctx : LoweringContext} {cells : List Cell}
    (hmap : ctx.stackMap = slotsOf cells) (prop : ANFProperty) :
    ∃ ops name,
      ctx.loadStateProp prop =
        .ok (ctx.after ops (name :: slotsOf (takeCell prop.name true cells))) ∧
      RunsAs cfg slots ops (itemsOf cells)
        (.ok (propItem cells prop :: itemsOf (takeCell prop.name true cells))) ∧
      (name = some prop.name ∨ name = none) := by
  unfold LoweringContext.loadStateProp propItem
  rw [hmap, has_slotsOf]
  cases hlook : lookup cells prop.name with
  | some item =>
      obtain ⟨heq, hrun⟩ := bringToTop_spec cfg slots true hmap hlook
      exact ⟨_, some prop.name, heq, hrun, .inl rfl⟩
  | none =>
      rw [takeCell_of_lookup_none hlook]
      have hpush : ∀ value : PushValue,
          RunsAs cfg slots [.push value] (itemsOf cells) (.ok (value.toBytes :: itemsOf cells)) :=
        fun value => (runsAs_push cfg slots value).frame (itemsOf cells)
      cases hinit : prop.initialValue with
      | some value =>
          refine ⟨[.push (constPush value)], none, ?_, hpush (constPush value), .inr rfl⟩
          simp [LoweringContext.pushValue, LoweringContext.emitOp_eq_after,
            LoweringContext.pushSlot_eq_after, hmap]
      | none =>
          refine ⟨[.push (.bigint 0)], none, ?_, hpush (.bigint 0), .inr rfl⟩
          simp [LoweringContext.emitOp_eq_after, LoweringContext.pushSlot_eq_after, hmap]

/-- Converting the value on top and appending it to the bytes below. -/
theorem appendTop_spec {ctx : LoweringContext} {cells : List Cell} {name accName : Option String}
    (type : PrimitiveType) (item acc : Bytes)
    (hmap : ctx.stackMap = name :: accName :: slotsOf cells) :
    (do let ctx ← ctx.convertField type
        ctx.emitCat) =
      .ok (ctx.after (fieldOps type ++ [.opcode .OP_CAT]) (none :: slotsOf cells)) ∧
    RunsAs cfg slots (fieldOps type ++ [.opcode .OP_CAT]) (item :: acc :: itemsOf cells)
      ((appendField acc (type, item)).map (· :: itemsOf cells)) := by
  obtain ⟨name', hconv, _⟩ := convertField_eq type hmap
  constructor
  · rw [hconv, ok_bind, emitCat_eq rfl, LoweringContext.after_after]
  · have happ := (runsAs_appendField cfg slots type item acc).frame (itemsOf cells)
    have hmapmap : ((appendField acc (type, item)).map fun b => [b]).map (· ++ itemsOf cells) =
        (appendField acc (type, item)).map (· :: itemsOf cells) := by
      cases appendField acc (type, item) <;> rfl
    rwa [hmapmap] at happ

/-- One property after the first: load it, convert it, append it to the bytes so
far. -/
theorem serializeProp_spec {ctx : LoweringContext} {cells : List Cell} {accName : Option String}
    (acc : Bytes) (hmap : ctx.stackMap = accName :: slotsOf cells) {prop : ANFProperty}
    (hacc : accName ≠ some prop.name) :
    ∃ ops,
      (do let ctx ← ctx.loadStateProp prop
          let ctx ← ctx.convertField prop.type
          ctx.emitCat) =
        .ok (ctx.after ops (none :: slotsOf (takeCell prop.name true cells))) ∧
      RunsAs cfg slots ops (acc :: itemsOf cells)
        ((appendField acc (prop.type, propItem cells prop)).map
          (· :: itemsOf (takeCell prop.name true cells))) := by
  have hcells : ctx.stackMap = slotsOf ((accName, acc) :: cells) := hmap
  obtain ⟨ops, name, hload, hrun, _⟩ := loadStateProp_spec cfg slots hcells prop
  rw [takeCell_cons_ne hacc] at hload hrun
  have hitem : propItem ((accName, acc) :: cells) prop = propItem cells prop := by
    unfold propItem
    rw [lookup_cons_ne hacc]
  rw [hitem] at hrun
  obtain ⟨happ, hrun'⟩ := appendTop_spec cfg slots prop.type (propItem cells prop) acc
    (LoweringContext.stackMap_after ctx ops
      (name :: accName :: slotsOf (takeCell prop.name true cells)))
  refine ⟨ops ++ (fieldOps prop.type ++ [StackOp.opcode .OP_CAT]), ?_, hrun.append_ok hrun'⟩
  rw [hload, ok_bind]
  refine happ.trans ?_
  rw [LoweringContext.after_after]

theorem propItem_takeCell {cells : List Cell} {prop other : ANFProperty}
    (hne : other.name ≠ prop.name) :
    propItem (takeCell prop.name true cells) other = propItem cells other := by
  unfold propItem
  rw [lookup_takeCell hne]

/-- The fields of some properties, with the items that stand for them. -/
def fieldsOf (cells : List Cell) (props : List ANFProperty) : List (PrimitiveType × Bytes) :=
  props.map fun p => (p.type, propItem cells p)

/-- The loop after the first property: append the remaining fields. -/
theorem serializeProps_spec (props : List ANFProperty) {ctx : LoweringContext}
    {cells : List Cell} {accName : Option String} (acc : Bytes)
    (hmap : ctx.stackMap = accName :: slotsOf cells)
    (hacc : ∀ p ∈ props, accName ≠ some p.name) (hnodup : (props.map (·.name)).Nodup) :
    ∃ ops accName' rest,
      ctx.serializeProps false props = .ok (ctx.after ops (accName' :: slotsOf rest)) ∧
      RunsAs cfg slots ops (acc :: itemsOf cells)
        (((fieldsOf cells props).foldlM appendField acc).map (· :: itemsOf rest)) := by
  induction props generalizing ctx cells accName acc with
  | nil =>
      refine ⟨[], accName, cells, ?_, .nil _⟩
      rw [LoweringContext.serializeProps, ← hmap]
      simp [LoweringContext.after]
  | cons prop props ih =>
      rw [List.map_cons, List.nodup_cons] at hnodup
      obtain ⟨hfresh, hnodup⟩ := hnodup
      obtain ⟨ops₁, heq₁, hrun₁⟩ :=
        serializeProp_spec cfg slots acc hmap (hacc prop List.mem_cons_self)
      have hne : ∀ p ∈ props, p.name ≠ prop.name := by
        intro p hp hname
        exact hfresh (hname ▸ List.mem_map_of_mem hp)
      have hfields : fieldsOf (takeCell prop.name true cells) props = fieldsOf cells props := by
        refine List.map_congr_left fun p hp => ?_
        rw [propItem_takeCell (hne p hp)]
      obtain ⟨acc', hacc'⟩ : ∃ acc', ∀ b,
          appendField acc (prop.type, propItem cells prop) = .ok b → b = acc' := by
        cases appendField acc (prop.type, propItem cells prop) with
        | error e => exact ⟨[], fun b hb => by cases hb⟩
        | ok b => exact ⟨b, fun b' hb' => by cases hb'; rfl⟩
      obtain ⟨ops₂, accName', rest, heq₂, hrun₂⟩ :=
        ih acc' (LoweringContext.stackMap_after ctx ops₁
          (none :: slotsOf (takeCell prop.name true cells))) (fun p _ h => by cases h) hnodup
      refine ⟨ops₁ ++ ops₂, accName', rest, ?_, ?_⟩
      · have hstep : ctx.serializeProps false (prop :: props) =
            (do let ctx ← ctx.loadStateProp prop
                let ctx ← ctx.convertField prop.type
                ctx.emitCat) >>= fun ctx => ctx.serializeProps false props := by
          simp [LoweringContext.serializeProps]
        rw [hstep, heq₁, ok_bind, heq₂, LoweringContext.after_after]
      · rw [hfields] at hrun₂
        have happ : RunsAs cfg slots (ops₁ ++ ops₂) (acc :: itemsOf cells) _ := RunsAs.append
          (f := fun _ => ((fieldsOf cells props).foldlM appendField acc').map (· :: itemsOf rest))
          hrun₁ ?_
        · have hgoal : (((fieldsOf cells (prop :: props)).foldlM appendField acc).map
              (· :: itemsOf rest)) =
              ((appendField acc (prop.type, propItem cells prop)).map
                (· :: itemsOf (takeCell prop.name true cells)) >>= fun _ =>
                ((fieldsOf cells props).foldlM appendField acc').map (· :: itemsOf rest)) := by
            rw [fieldsOf, List.map_cons, List.foldlM_cons]
            cases happend : appendField acc (prop.type, propItem cells prop) with
            | error e => rfl
            | ok b =>
                rw [hacc' b happend]
                rfl
          rw [hgoal]
          exact happ
        · intro items hitems
          cases happend : appendField acc (prop.type, propItem cells prop) with
          | error e => rw [happend] at hitems; cases hitems
          | ok b =>
              rw [happend] at hitems
              cases hitems
              rw [hacc' b happend]
              exact hrun₂

/-- The first property is converted and not appended to anything. -/
theorem serializeFirst_spec {ctx : LoweringContext} {cells : List Cell}
    (hmap : ctx.stackMap = slotsOf cells) (prop : ANFProperty) :
    ∃ ops name,
      (do let ctx ← ctx.loadStateProp prop
          ctx.convertField prop.type) =
        .ok (ctx.after ops (name :: slotsOf (takeCell prop.name true cells))) ∧
      RunsAs cfg slots ops (itemsOf cells)
        ((appendField [] (prop.type, propItem cells prop)).map
          (· :: itemsOf (takeCell prop.name true cells))) ∧
      (name = some prop.name ∨ name = none) := by
  obtain ⟨ops, name, hload, hrun, hname⟩ := loadStateProp_spec cfg slots hmap prop
  obtain ⟨name', hconv, hname'⟩ := convertField_eq prop.type
    (LoweringContext.stackMap_after ctx ops (name :: slotsOf (takeCell prop.name true cells)))
  refine ⟨ops ++ fieldOps prop.type, name', ?_, ?_, ?_⟩
  · rw [hload, ok_bind, hconv, LoweringContext.after_after]
  · have hfield := (runsAs_fieldOps cfg slots prop.type (propItem cells prop)).frame
      (itemsOf (takeCell prop.name true cells))
    have hmapmap : (((encodeField prop.type (propItem cells prop)).map fun b => [b]).map
        (· ++ itemsOf (takeCell prop.name true cells))) =
          (appendField [] (prop.type, propItem cells prop)).map
            (· :: itemsOf (takeCell prop.name true cells)) := by
      unfold appendField
      cases encodeField prop.type (propItem cells prop) <;> rfl
    rw [hmapmap] at hfield
    exact hrun.append_ok hfield
  · rcases hname' with rfl | rfl
    · exact hname
    · exact .inr rfl

/-- The code of `get_state_script` leaves the state section on top of what it did
not consume. -/
theorem lowerGetStateScript_spec {ctx : LoweringContext} {cells : List Cell}
    (hmap : ctx.stackMap = slotsOf cells) (hnodup : (ctx.stateProps.map (·.name)).Nodup)
    (bindingName : String) :
    ∃ ops rest,
      ctx.lowerGetStateScript bindingName =
        .ok (ctx.after ops (some bindingName :: slotsOf rest)) ∧
      RunsAs cfg slots ops (itemsOf cells)
        ((stateSection (fieldsOf cells ctx.stateProps)).map (· :: itemsOf rest)) := by
  unfold LoweringContext.lowerGetStateScript
  cases hprops : ctx.stateProps with
  | nil =>
      refine ⟨[.push (.bytes [])], cells, ?_, ?_⟩
      · simp [LoweringContext.emitOp_eq_after, LoweringContext.pushSlot_eq_after, hmap]
      · exact (runsAs_push cfg slots (.bytes [])).frame (itemsOf cells)
  | cons prop props =>
      rw [hprops, List.map_cons, List.nodup_cons] at hnodup
      obtain ⟨hfresh, hnodup⟩ := hnodup
      have hne : ∀ p ∈ props, p.name ≠ prop.name := by
        intro p hp hname
        exact hfresh (hname ▸ List.mem_map_of_mem hp)
      obtain ⟨ops₁, name, heq₁, hrun₁, hname⟩ := serializeFirst_spec cfg slots hmap prop
      have hacc : ∀ p ∈ props, name ≠ some p.name := by
        intro p hp hp'
        rcases hname with rfl | rfl
        · exact hne p hp (Option.some.inj hp').symm
        · cases hp'
      have hfields : fieldsOf (takeCell prop.name true cells) props = fieldsOf cells props :=
        List.map_congr_left fun p hp => by rw [propItem_takeCell (hne p hp)]
      obtain ⟨acc, hacceq⟩ : ∃ acc, ∀ b,
          appendField [] (prop.type, propItem cells prop) = .ok b → b = acc := by
        cases appendField [] (prop.type, propItem cells prop) with
        | error e => exact ⟨[], fun b hb => by cases hb⟩
        | ok b => exact ⟨b, fun b' hb' => by cases hb'; rfl⟩
      obtain ⟨ops₂, accName, rest, heq₂, hrun₂⟩ := serializeProps_spec cfg slots props
        acc (LoweringContext.stackMap_after ctx ops₁
          (name :: slotsOf (takeCell prop.name true cells))) hacc hnodup
      rw [hfields] at hrun₂
      refine ⟨ops₁ ++ ops₂, rest, ?_, ?_⟩
      · have hstep : ctx.serializeProps true (prop :: props) =
            (do let ctx ← ctx.loadStateProp prop
                ctx.convertField prop.type) >>= fun ctx => ctx.serializeProps false props := by
          simp [LoweringContext.serializeProps]
        show (ctx.serializeProps true (prop :: props) >>= _) = _
        rw [hstep, heq₁, ok_bind, heq₂, ok_bind, LoweringContext.after_after,
          LoweringContext.popSlot_cons _ (LoweringContext.stackMap_after _ _ _), ok_bind,
          LoweringContext.pushSlot_eq_after]
        simp
      · have hsection : ((stateSection (fieldsOf cells (prop :: props))).map
            (· :: itemsOf rest)) =
            ((appendField [] (prop.type, propItem cells prop)).map
              (· :: itemsOf (takeCell prop.name true cells)) >>= fun _ =>
              ((fieldsOf cells props).foldlM appendField acc).map (· :: itemsOf rest)) := by
          rw [stateSection, fieldsOf, List.map_cons, List.foldlM_cons]
          cases happend : appendField [] (prop.type, propItem cells prop) with
          | error e => rfl
          | ok b =>
              rw [hacceq b happend]
              rfl
        rw [hsection]
        refine RunsAs.append hrun₁ ?_
        intro items hitems
        cases happend : appendField [] (prop.type, propItem cells prop) with
        | error e => rw [happend] at hitems; cases hitems
        | ok b =>
            rw [happend] at hitems
            cases hitems
            rw [hacceq b happend]
            exact hrun₂

end StateScript

/-! ## Outputs -/

section Outputs

variable (cfg : Config) (slots : Slots)

/-- Appending a marker byte in front of the item on top. -/
def prefixIs (marker : UInt8) : List Instr := [.push [marker], .op .OP_SWAP, .op .OP_CAT]

theorem plainRun_lowBytes_prefix {w v len : Nat} (h : v ≤ w) (marker : UInt8)
    (s alt : List Bytes) :
    plainRun cfg (lowBytes w v ++ prefixIs marker) ⟨encodeNum len :: s, alt⟩ =
      if Fits w len then .ok ⟨(marker :: leBytes v len) :: s, alt⟩
      else .error .impossibleEncoding := by
  rw [plainRun_append, plainRun_lowBytes cfg h]
  split <;> rfl

/-- The varint code as an effect: four arms behind three comparisons. -/
def varintEffect : Effect := fun st =>
  plainRun cfg (sizeTest 253) st >>=
    ifEffect (plainRun cfg (lowBytes 2 1))
      (fun st => plainRun cfg (sizeTest 65536) st >>=
        ifEffect (plainRun cfg (lowBytes 3 2 ++ prefixIs 0xfd))
          (fun st => plainRun cfg (sizeTest 4294967296) st >>=
            ifEffect (plainRun cfg (lowBytes 5 4 ++ prefixIs 0xfe))
              (plainRun cfg (lowBytes 9 8 ++ prefixIs 0xff))))

theorem denotes_emitVarintEncoding :
    Denotes cfg (emitOps slots emitVarintEncoding) (varintEffect cfg) := by
  have hemit : emitOps slots emitVarintEncoding =
      sizeTest 253 ++ (Instr.op .OP_IF :: (lowBytes 2 1 ++ Instr.op .OP_ELSE ::
        ((sizeTest 65536 ++ (Instr.op .OP_IF :: ((lowBytes 3 2 ++ prefixIs 0xfd) ++
          Instr.op .OP_ELSE ::
            ((sizeTest 4294967296 ++ (Instr.op .OP_IF :: ((lowBytes 5 4 ++ prefixIs 0xfe) ++
            Instr.op .OP_ELSE :: ((lowBytes 9 8 ++ prefixIs 0xff) ++ [Instr.op .OP_ENDIF])))) ++
          [Instr.op .OP_ENDIF])))) ++ [Instr.op .OP_ENDIF]))) := by
    simp [emitVarintEncoding, emitNumToLowBytes, emitPrefix, emitOps_cons, sizeTest, lowBytes,
      prefixIs]
  rw [hemit]
  refine .append (.plain rfl) (.ifElse (.plain rfl) (.append (.plain rfl)
    (.ifElse (.plain rfl) (.append (.plain rfl) (.ifElse ?_ ?_)))))
  · exact .plain rfl
  · exact .plain rfl

theorem varintEffect_apply (len : Nat) (r alt : List Bytes) :
    varintEffect cfg ⟨encodeNum len :: r, alt⟩ =
      (varintEncoding len).map fun b => ⟨b :: r, alt⟩ := by
  have hfits₂ : Fits 2 len ↔ len < 2 ^ 15 := fits_natCast_iff 1 len
  have hfits₃ : Fits 3 len ↔ len < 2 ^ 23 := fits_natCast_iff 2 len
  have hfits₅ : Fits 5 len ↔ len < 2 ^ 39 := fits_natCast_iff 4 len
  have hfits₉ : Fits 9 len ↔ len < 2 ^ 71 := fits_natCast_iff 8 len
  unfold varintEffect varintEncoding
  rw [plainRun_sizeTest]
  simp only [ok_bind, ifEffect, isTruthy_boolBytes, decide_eq_true_eq, plainRun_sizeTest]
  by_cases h₁ : len < 253
  · rw [if_pos h₁, if_pos h₁, plainRun_lowBytes cfg (by decide), if_pos (hfits₂.mpr (by omega))]
    rfl
  · rw [if_neg h₁, if_neg h₁]
    by_cases h₂ : len < 65536
    · rw [if_pos h₂, if_pos h₂, plainRun_lowBytes_prefix cfg (by decide),
        if_pos (hfits₃.mpr (by omega))]
      rfl
    · rw [if_neg h₂, if_neg h₂]
      by_cases h₄ : len < 4294967296
      · rw [if_pos h₄, if_pos h₄, plainRun_lowBytes_prefix cfg (by decide),
          if_pos (hfits₅.mpr (by omega))]
        rfl
      · rw [if_neg h₄, if_neg h₄, plainRun_lowBytes_prefix cfg (by decide)]
        by_cases h₉ : len < 2 ^ 71
        · rw [if_pos (hfits₉.mpr h₉), if_pos h₉]
          rfl
        · rw [if_neg (fun h => h₉ (hfits₉.mp h)), if_neg h₉]
          rfl

theorem runsAs_emitVarintEncoding (len : Nat) :
    RunsAs cfg slots emitVarintEncoding [encodeNum len]
      ((varintEncoding len).map fun b => [b]) := by
  refine .of_denotes (denotes_emitVarintEncoding cfg slots) fun below alt => ?_
  refine (varintEffect_apply cfg len below alt).trans ?_
  cases varintEncoding len <;> rfl

theorem runsAs_size (s : Bytes) :
    RunsAs cfg slots [.opcode .OP_SIZE] [s] (.ok [encodeNum s.length, s]) :=
  runsAs_opcode cfg slots rfl fun _ _ => rfl

/-- Prepend the item on top to the one below. -/
theorem runsAs_swap_cat (b a : Bytes) :
    RunsAs cfg slots [.swap, .opcode .OP_CAT] [b, a] (.ok [b ++ a]) :=
  RunsAs.append_ok (runsAs_swap cfg slots b a) (runsAs_cat cfg slots a b)

/-- The items of a list with its top one replaced by an outcome. -/
theorem map_cons_frame (r : Except ScriptError Bytes) (items : List Bytes) :
    (r.map fun b => [b]).map (· ++ items) = r.map (· :: items) := by
  cases r <;> rfl

/-- The last part of both output forms: the length in front of the script, and the
amount in front of both. -/
theorem wrapOutput_spec {ctx : LoweringContext} {cells : List Cell} {satoshis : String}
    {amount : Bytes} {name : Option String} (hmap : ctx.stackMap = name :: slotsOf cells)
    (hlook : lookup cells satoshis = some amount) (operands : List String) (bindingIndex : Nat)
    (lastUses : LastUses) (script : Bytes) :
    ∃ ops rest,
      ctx.wrapOutput satoshis operands bindingIndex lastUses =
        .ok (ctx.after ops (none :: slotsOf rest)) ∧
      RunsAs cfg slots ops (script :: itemsOf cells)
        ((outputBytes amount script).map (· :: itemsOf rest)) := by
  let consume := operandConsume satoshis operands bindingIndex lastUses
  let bringSatoshis := StackMap.bringOps (none :: slotsOf cells) satoshis consume
  -- the amount is found below the script, whatever the script is
  have hbring : ∀ (ctx' : LoweringContext) (x : Bytes), ctx'.stackMap = none :: slotsOf cells →
      ctx'.bringToTop satoshis consume = .ok (ctx'.after bringSatoshis
        (some satoshis :: none :: slotsOf (takeCell satoshis consume cells))) ∧
      RunsAs cfg slots bringSatoshis (x :: itemsOf cells)
        (.ok (amount :: x :: itemsOf (takeCell satoshis consume cells))) := by
    intro ctx' x hmap'
    have hcells : ctx'.stackMap = slotsOf ((none, x) :: cells) := hmap'
    have hspec := bringToTop_spec cfg slots consume hcells
      ((lookup_cons_none satoshis x cells).trans hlook)
    rw [takeCell_cons_ne (by simp), hmap'] at hspec
    exact hspec
  refine ⟨[StackOp.opcode .OP_SIZE] ++ (emitVarintEncoding ++ ([StackOp.swap, .opcode .OP_CAT] ++
    (bringSatoshis ++ ([StackOp.push (.bigint 8), .opcode .OP_NUM2BIN] ++
      [StackOp.swap, .opcode .OP_CAT])))),
    takeCell satoshis consume cells, ?_, ?_⟩
  · unfold LoweringContext.wrapOutput
    simp only [LoweringContext.emitOp_eq_after, LoweringContext.pushSlot_eq_after,
      LoweringContext.emitOps_eq_after, LoweringContext.stackMap_after,
      LoweringContext.after_after, hmap]
    rw [LoweringContext.popSlot_cons _ (LoweringContext.stackMap_after _ _ _), ok_bind]
    simp only [LoweringContext.stackMap_after, LoweringContext.after_after]
    rw [LoweringContext.swapSlots_cons _ (LoweringContext.stackMap_after _ _ _), ok_bind,
      emitCat_eq (LoweringContext.stackMap_after _ _ _), ok_bind,
      (hbring _ [] (LoweringContext.stackMap_after _ _ _)).1, ok_bind,
      emitNum2Bin_eq 8 (LoweringContext.stackMap_after _ _ _), ok_bind]
    simp only [LoweringContext.stackMap_after, LoweringContext.after_after]
    rw [LoweringContext.swapSlots_cons _ (LoweringContext.stackMap_after _ _ _), ok_bind,
      emitCat_eq (LoweringContext.stackMap_after _ _ _)]
    simp
  · have hsize := (runsAs_size cfg slots script).frame (itemsOf cells)
    have hvarint := (runsAs_emitVarintEncoding cfg slots script.length).frame
      (script :: itemsOf cells)
    rw [map_cons_frame] at hvarint
    refine hsize.append_ok ?_
    unfold outputBytes
    cases hlen : varintEncoding script.length with
    | error e =>
        rw [hlen] at hvarint
        exact hvarint.append_error
    | ok varint =>
        rw [hlen] at hvarint
        refine hvarint.append_ok ?_
        refine ((runsAs_swap_cat cfg slots varint script).frame (itemsOf cells)).append_ok ?_
        refine (hbring (ctx.after [] (none :: slotsOf cells)) (varint ++ script) rfl).2.append_ok ?_
        have hnum := (runsAs_num2bin cfg slots 8 amount).frame
          ((varint ++ script) :: itemsOf (takeCell satoshis consume cells))
        rw [map_cons_frame] at hnum
        rw [ok_bind]
        cases hamount : num2bin (decodeNum amount) (8 : Nat) with
        | error e =>
            rw [hamount] at hnum
            exact hnum.append_error
        | ok bytes =>
            rw [hamount] at hnum
            exact hnum.append_ok ((runsAs_swap_cat cfg slots bytes (varint ++ script)).frame _)

/-- The fields of some state values, with the items their references hold. -/
def valueFields (itemOf : String → Bytes) (values : List (String × ANFProperty)) :
    List (PrimitiveType × Bytes) :=
  values.map fun v => (v.2.type, itemOf v.1)

/-- A reference that is consumed is not read again among the operands left. -/
theorem not_mem_of_consume {ref : String} {remaining operands : List String}
    {bindingIndex : Nat} {lastUses : LastUses}
    (hcount : ∀ n, (ref :: remaining).count n ≤ operands.count n)
    (h : operandConsume ref operands bindingIndex lastUses = true) : ref ∉ remaining := by
  intro hmem
  unfold operandConsume at h
  rw [Bool.and_eq_true, decide_eq_true_eq] at h
  have hge := hcount ref
  have hpos : 0 < remaining.count ref := List.count_pos_iff.mpr hmem
  rw [List.count_cons_self] at hge
  omega

/-- Whether consumed or copied, a reference leaves the values of the others that
are still to be read. -/
theorem lookup_after_operand {cells : List Cell} {ref other : String}
    {remaining operands : List String} {bindingIndex : Nat} {lastUses : LastUses}
    (hcount : ∀ n, (ref :: remaining).count n ≤ operands.count n) (hmem : other ∈ remaining) :
    lookup (takeCell ref (operandConsume ref operands bindingIndex lastUses) cells) other =
      lookup cells other := by
  cases hconsume : operandConsume ref operands bindingIndex lastUses with
  | false => rfl
  | true =>
      refine lookup_takeCell ?_ true cells
      rintro rfl
      exact not_mem_of_consume hcount hconsume hmem

/-- The loop over the state values appends their fields. -/
theorem serializeValues_spec (operands : List String) (bindingIndex : Nat) (lastUses : LastUses)
    (itemOf : String → Bytes) (after : List String) (values : List (String × ANFProperty))
    {ctx : LoweringContext} {cells : List Cell} (acc : Bytes)
    (hmap : ctx.stackMap = none :: slotsOf cells)
    (hcount : ∀ n, (values.map Prod.fst ++ after).count n ≤ operands.count n)
    (hlook : ∀ n ∈ values.map Prod.fst ++ after, lookup cells n = some (itemOf n)) :
    ∃ ops rest,
      ctx.serializeValues operands bindingIndex lastUses values =
        .ok (ctx.after ops (none :: slotsOf rest)) ∧
      RunsAs cfg slots ops (acc :: itemsOf cells)
        (((valueFields itemOf values).foldlM appendField acc).map (· :: itemsOf rest)) ∧
      ∀ n ∈ after, lookup rest n = some (itemOf n) := by
  induction values generalizing ctx cells acc with
  | nil =>
      refine ⟨[], cells, ?_, .nil _, hlook⟩
      rw [LoweringContext.serializeValues, ← hmap]
      simp [LoweringContext.after]
  | cons value values ih =>
      obtain ⟨ref, prop⟩ := value
      rw [List.map_cons, List.cons_append] at hcount hlook
      let consume := operandConsume ref operands bindingIndex lastUses
      let cells' := takeCell ref consume cells
      have hcells : ctx.stackMap = slotsOf ((none, acc) :: cells) := hmap
      obtain ⟨hbring, hrunBring⟩ := bringToTop_spec cfg slots consume hcells
        ((lookup_cons_none ref acc cells).trans (hlook ref List.mem_cons_self))
      rw [takeCell_cons_ne (by simp)] at hbring hrunBring
      obtain ⟨happ, hrunApp⟩ := appendTop_spec cfg slots prop.type (itemOf ref) acc
        (LoweringContext.stackMap_after ctx (ctx.stackMap.bringOps ref consume)
          (some ref :: none :: slotsOf cells'))
      have hlook' : ∀ n ∈ values.map Prod.fst ++ after, lookup cells' n = some (itemOf n) := by
        intro n hn
        exact (lookup_after_operand hcount hn).trans (hlook n (List.mem_cons_of_mem ref hn))
      have hcount' : ∀ n, (values.map Prod.fst ++ after).count n ≤ operands.count n := by
        intro n
        exact Nat.le_trans (List.count_le_count_cons) (hcount n)
      obtain ⟨acc', hacc'⟩ : ∃ acc', ∀ b, appendField acc (prop.type, itemOf ref) = .ok b →
          b = acc' := by
        cases appendField acc (prop.type, itemOf ref) with
        | error e => exact ⟨[], fun b hb => by cases hb⟩
        | ok b => exact ⟨b, fun b' hb' => by cases hb'; rfl⟩
      obtain ⟨ops, rest, heq, hrun, hafter⟩ := ih acc'
        (LoweringContext.stackMap_after (ctx.after (ctx.stackMap.bringOps ref consume)
          (some ref :: none :: slotsOf cells')) (fieldOps prop.type ++ [StackOp.opcode .OP_CAT])
          (none :: slotsOf cells')) hcount' hlook'
      refine ⟨ctx.stackMap.bringOps ref consume ++
        ((fieldOps prop.type ++ [StackOp.opcode .OP_CAT]) ++
        ops), rest, ?_, ?_, hafter⟩
      · have hstep : ctx.serializeValues operands bindingIndex lastUses ((ref, prop) :: values) =
            ctx.bringToTop ref consume >>= fun c =>
              (do let c ← c.convertField prop.type
                  c.emitCat) >>= fun c =>
                c.serializeValues operands bindingIndex lastUses values := by
          simp [LoweringContext.serializeValues, consume]
        rw [hstep, hbring, ok_bind]
        show ((do let c ← LoweringContext.convertField prop.type (ctx.after
            (ctx.stackMap.bringOps ref consume) (some ref :: none :: slotsOf cells'))
                  c.emitCat) >>= _) = _
        rw [happ, ok_bind, heq]
        simp [LoweringContext.after_after]
      · refine hrunBring.append_ok ?_
        have hfold : ((valueFields itemOf ((ref, prop) :: values)).foldlM appendField acc).map
            (· :: itemsOf rest) =
            ((appendField acc (prop.type, itemOf ref)).map (· :: itemsOf cells') >>= fun _ =>
              ((valueFields itemOf values).foldlM appendField acc').map (· :: itemsOf rest)) := by
          rw [valueFields, List.map_cons, List.foldlM_cons]
          cases happend : appendField acc (prop.type, itemOf ref) with
          | error e => rfl
          | ok b =>
              rw [hacc' b happend]
              rfl
        show RunsAs cfg slots ((fieldOps prop.type ++ [StackOp.opcode .OP_CAT]) ++ ops)
          (itemOf ref :: acc :: itemsOf cells') _
        rw [hfold]
        refine hrunApp.append ?_
        intro items hitems
        cases happend : appendField acc (prop.type, itemOf ref) with
        | error e => rw [happend] at hitems; cases hitems
        | ok b =>
            rw [happend] at hitems
            cases hitems
            rw [hacc' b happend]
            exact hrun

/-- The bytes before the fields stay in front of them. -/
theorem foldlM_appendField (fields : List (PrimitiveType × Bytes)) (front : Bytes) :
    fields.foldlM appendField front = (stateSection fields).map (front ++ ·) := by
  have hgen : ∀ acc, fields.foldlM appendField (front ++ acc) =
      (fields.foldlM appendField acc).map (front ++ ·) := by
    induction fields with
    | nil =>
        intro acc
        rfl
    | cons field fields ih =>
        intro acc
        rw [List.foldlM_cons, List.foldlM_cons]
        unfold appendField
        cases encodeField field.1 field.2 with
        | error e => rfl
        | ok b =>
            rw [ok_bind, ok_bind, ok_bind, ok_bind, List.append_assoc]
            exact ih (acc ++ b)
  have h := hgen []
  rwa [List.append_nil] at h

theorem map_fst_zip_sublist {α β : Type} (xs : List α) (ys : List β) :
    ((xs.zip ys).map Prod.fst).Sublist xs := by
  induction xs generalizing ys with
  | nil => simp
  | cons x xs ih =>
      cases ys with
      | nil => simp
      | cons y ys => simpa using ih ys

/-- The code of `add_output` leaves the serialised output on top of what it did not
consume: the state section behind the code part and its separator. -/
theorem lowerAddOutput_spec {ctx : LoweringContext} {cells : List Cell} {codePart : Bytes}
    (itemOf : String → Bytes) (hmap : ctx.stackMap = slotsOf cells)
    (hcode : lookup cells "_codePart" = some codePart) (bindingName satoshis : String)
    (stateValues : List String) (bindingIndex : Nat) (lastUses : LastUses)
    (hlook : ∀ n ∈ satoshis :: stateValues, lookup cells n = some (itemOf n)) :
    ∃ ops rest,
      ctx.lowerAddOutput bindingName satoshis stateValues bindingIndex lastUses =
        .ok (ctx.after ops (some bindingName :: slotsOf rest)) ∧
      RunsAs cfg slots ops (itemsOf cells)
        ((stateSection (valueFields itemOf (stateValues.zip ctx.stateProps)) >>= fun state =>
          outputBytes (itemOf satoshis) (codePart ++ 0x6a :: state)).map (· :: itemsOf rest)) := by
  have hsub := map_fst_zip_sublist stateValues ctx.stateProps
  obtain ⟨hbring, hrunBring⟩ := bringToTop_spec cfg slots false hmap hcode
  rw [takeCell_false] at hbring hrunBring
  -- the fields are appended to the code part and its separator
  obtain ⟨opsV, restV, heqV, hrunV, hafter⟩ := serializeValues_spec cfg slots
    (satoshis :: stateValues) bindingIndex lastUses itemOf [satoshis]
    (stateValues.zip ctx.stateProps) (codePart ++ [0x6a])
    (LoweringContext.stackMap_after (ctx.after (ctx.stackMap.bringOps "_codePart" false)
      (some "_codePart" :: slotsOf cells)) [StackOp.push (.bytes [0x6a]), .opcode .OP_CAT]
      (none :: slotsOf cells))
    (by
      intro n
      have hle := hsub.count_le n
      rw [List.count_append, List.count_cons (l := stateValues), List.count_singleton]
      omega)
    (by
      intro n hn
      rw [List.mem_append, List.mem_singleton] at hn
      rcases hn with hn | rfl
      · exact hlook n (List.mem_cons_of_mem _ (hsub.subset hn))
      · exact hlook n List.mem_cons_self)
  rw [foldlM_appendField] at hrunV
  have hsat : lookup restV satoshis = some (itemOf satoshis) :=
    hafter satoshis List.mem_cons_self
  -- the script is wrapped whatever its bytes are
  obtain ⟨script, hscript⟩ : ∃ script, ∀ b,
      stateSection (valueFields itemOf (stateValues.zip ctx.stateProps)) = .ok b →
        codePart ++ 0x6a :: b = script := by
    cases stateSection (valueFields itemOf (stateValues.zip ctx.stateProps)) with
    | error e => exact ⟨[], fun b hb => by cases hb⟩
    | ok b => exact ⟨_, fun b' hb' => by cases hb'; rfl⟩
  obtain ⟨opsW, restW, heqW, hrunW⟩ := wrapOutput_spec cfg slots
    (LoweringContext.stackMap_after ((ctx.after (ctx.stackMap.bringOps "_codePart" false)
      (some "_codePart" :: slotsOf cells)).after [StackOp.push (.bytes [0x6a]), .opcode .OP_CAT]
      (none :: slotsOf cells)) opsV (none :: slotsOf restV)) hsat
    (satoshis :: stateValues) bindingIndex lastUses script
  refine ⟨ctx.stackMap.bringOps "_codePart" false ++
    ([StackOp.push (.bytes [0x6a]), .opcode .OP_CAT] ++
    (opsV ++ opsW)), restW, ?_, ?_⟩
  · unfold LoweringContext.lowerAddOutput
    rw [hbring, ok_bind]
    have hpushed : (((ctx.after (ctx.stackMap.bringOps "_codePart" false)
        (some "_codePart" :: slotsOf cells)).emitOp (.push (.bytes [0x6a]))).pushSlot none).stackMap =
          none :: some "_codePart" :: slotsOf cells := rfl
    have hcat := emitCat_eq hpushed
    rw [hcat, ok_bind]
    have hctx : (((ctx.after (ctx.stackMap.bringOps "_codePart" false)
        (some "_codePart" :: slotsOf cells)).emitOp (.push (.bytes [0x6a]))).pushSlot none).after
          [StackOp.opcode .OP_CAT] (none :: slotsOf cells) =
        (ctx.after (ctx.stackMap.bringOps "_codePart" false)
          (some "_codePart" :: slotsOf cells)).after [StackOp.push (.bytes [0x6a]), .opcode .OP_CAT]
          (none :: slotsOf cells) := by
      simp [LoweringContext.emitOp_eq_after, LoweringContext.pushSlot_eq_after]
    show (LoweringContext.serializeValues _ _ _ _ _ >>= _) = _
    rw [hctx, heqV, ok_bind, heqW, ok_bind,
      LoweringContext.popSlot_cons _ (LoweringContext.stackMap_after _ _ _), ok_bind,
      LoweringContext.pushSlot_eq_after]
    simp
  · refine hrunBring.append_ok ?_
    have hcat := ((runsAs_push cfg slots (.bytes [0x6a])).frame (codePart :: itemsOf cells)).append_ok
      ((runsAs_cat cfg slots [0x6a] codePart).frame (itemsOf cells))
    refine hcat.append_ok ?_
    have hall : ((stateSection (valueFields itemOf (stateValues.zip ctx.stateProps)) >>= fun state =>
        outputBytes (itemOf satoshis) (codePart ++ 0x6a :: state)).map (· :: itemsOf restW)) =
        (((stateSection (valueFields itemOf (stateValues.zip ctx.stateProps))).map
          (codePart ++ [0x6a] ++ ·)).map (· :: itemsOf restV) >>= fun _ =>
          (outputBytes (itemOf satoshis) script).map (· :: itemsOf restW)) := by
      cases hsec : stateSection (valueFields itemOf (stateValues.zip ctx.stateProps)) with
      | error e => rfl
      | ok b =>
          rw [ok_bind, hscript b hsec]
          rfl
    rw [hall]
    refine hrunV.append ?_
    intro items hitems
    cases hsec : stateSection (valueFields itemOf (stateValues.zip ctx.stateProps)) with
    | error e => rw [hsec] at hitems; cases hitems
    | ok b =>
        rw [hsec] at hitems
        cases hitems
        have hb : codePart ++ [0x6a] ++ b = script := by
          rw [← hscript b hsec]
          simp
        show RunsAs cfg slots opsW ((codePart ++ [0x6a] ++ b) :: itemsOf restV) _
        rw [hb]
        exact hrunW

end Outputs

end Runar.StackLower
