/-
  StackLower/Extractors.lean --- calls that read a field of the preimage.

  WHAT THIS FILE IS FOR.  The preimage of BIP-143 is a row of fields around one of
  variable length, the script code.  An extractor cuts its field out by splits: the
  fields before the script code are found from the front, those behind it from the
  back.  This file lowers the extractors and proves what each leaves.

  THE SIGN BIT.  A number field is an unsigned little-endian word, and OP_BIN2NUM
  reads it as a sign and a magnitude.  The two agree while the top bit of the word
  is clear, and on no other word (`extractor_returns_iff`).
-/
import Runar.StackLower.ByteSequences
import Runar.Script.CompactSize

set_option autoImplicit false

namespace Runar.StackLower

open Script

/-! ## The preimage -/

/-- The fields of a preimage. -/
structure Preimage where
  version : Nat
  hashPrevouts : Bytes
  hashSequence : Bytes
  txid : Bytes
  vout : Nat
  scriptCode : Bytes
  amount : Nat
  sequence : Nat
  hashOutputs : Bytes
  locktime : Nat
  sighashType : Nat
  version_lt : version < 2 ^ 32
  length_hashPrevouts : hashPrevouts.length = 32
  length_hashSequence : hashSequence.length = 32
  length_txid : txid.length = 32
  vout_lt : vout < 2 ^ 32
  length_scriptCode : scriptCode.length < 2 ^ 64
  amount_lt : amount < 2 ^ 64
  sequence_lt : sequence < 2 ^ 32
  length_hashOutputs : hashOutputs.length = 32
  locktime_lt : locktime < 2 ^ 32
  sighashType_lt : sighashType < 2 ^ 32

namespace Preimage

variable (p : Preimage)

def outpoint : Bytes := p.txid ++ leBytes 4 p.vout

/-- The script code with its length before it, as an output holds its script. -/
def scriptField : Bytes := compactSize p.scriptCode.length ++ p.scriptCode

/-- The fields before the script code. -/
def head : Bytes :=
  leBytes 4 p.version ++ p.hashPrevouts ++ p.hashSequence ++ p.outpoint

/-- The fields behind the script code. -/
def tail : Bytes :=
  leBytes 8 p.amount ++ leBytes 4 p.sequence ++ p.hashOutputs ++ leBytes 4 p.locktime ++
    leBytes 4 p.sighashType

/-- The serialized preimage. -/
def toBytes : Bytes := p.head ++ p.scriptField ++ p.tail

theorem length_outpoint : p.outpoint.length = 36 := by
  simp [outpoint, p.length_txid]

theorem length_head : p.head.length = 104 := by
  simp [head, p.length_hashPrevouts, p.length_hashSequence, p.length_outpoint]

theorem length_tail : p.tail.length = 52 := by
  simp [tail, p.length_hashOutputs]

end Preimage

/-! ## The emitted sequences -/

/-- Take the `width` bytes at an offset from the front. -/
def sliceFromStart (offset width : Nat) : List StackOp :=
  [.push (.bigint offset), .opcode .OP_SPLIT, .nip, .push (.bigint width), .opcode .OP_SPLIT,
    .drop]

/-- Drop all but the last `back` bytes. -/
def lastBytes (back : Nat) : List StackOp :=
  [.opcode .OP_SIZE, .push (.bigint back), .opcode .OP_SUB, .opcode .OP_SPLIT, .nip]

/-- Take the `width` bytes that begin `back` bytes before the end. -/
def sliceFromEnd (back width : Nat) : List StackOp :=
  lastBytes back ++ [.push (.bigint width), .opcode .OP_SPLIT, .drop]

/-- What an extractor emits once the preimage is on top. -/
def extractorOps : String → Option (List StackOp)
  | "extractVersion" =>
      some [.push (.bigint 4), .opcode .OP_SPLIT, .drop, .opcode .OP_BIN2NUM]
  | "extractHashPrevouts" => some (sliceFromStart 4 32)
  | "extractHashSequence" => some (sliceFromStart 36 32)
  | "extractOutpoint" => some (sliceFromStart 68 36)
  | "extractSigHashType" => some (lastBytes 4 ++ [.opcode .OP_BIN2NUM])
  | "extractLocktime" => some (sliceFromEnd 8 4 ++ [.opcode .OP_BIN2NUM])
  | "extractOutputHash" => some (sliceFromEnd 40 32)
  | "extractOutputs" => some (sliceFromEnd 40 32)
  | "extractAmount" => some (sliceFromEnd 52 8 ++ [.opcode .OP_BIN2NUM])
  | "extractSequence" => some (sliceFromEnd 44 4 ++ [.opcode .OP_BIN2NUM])
  | "extractScriptCode" =>
      some [.push (.bigint 104), .opcode .OP_SPLIT, .nip, .opcode .OP_SIZE, .push (.bigint 52),
        .opcode .OP_SUB, .opcode .OP_SPLIT, .drop]
  | "extractInputIndex" => some (sliceFromStart 100 4 ++ [.opcode .OP_BIN2NUM])
  | _ => none

namespace LoweringContext

/-- Lower the call of an extractor.  The slots of the intermediate pieces are pushed
and popped again in between. -/
def lowerExtractor (bindingName func : String) (args : List String) (bindingIndex : Nat)
    (lastUses : LastUses) (ctx : LoweringContext) : Except CallError LoweringContext :=
  match args with
  | [] => .error (.arity func 1)
  | arg :: _ => do
      let ctx ← (ctx.bringToTop arg (isLastUse arg bindingIndex lastUses)).mapError .lowering
      let ctx ← ctx.popOperands 1
      match extractorOps func with
      | none => .error (.unknownBuiltin func)
      | some ops => .ok ((ctx.emitOps ops).pushSlot (some bindingName))

theorem lowerExtractor_eq_lowerUnary (bindingName : String) {func : String} (args : List String)
    (bindingIndex : Nat) (lastUses : LastUses) (ctx : LoweringContext) {ops : List StackOp}
    (h : extractorOps func = some ops) :
    lowerExtractor bindingName func args bindingIndex lastUses ctx =
      lowerUnary bindingName args bindingIndex lastUses ctx func ops := by
  cases args with
  | nil => rfl
  | cons arg args => simp only [lowerExtractor, lowerUnary, h]

end LoweringContext

/-! ## What the sequences leave -/

section Sequences

variable (cfg : Config) (slots : Slots)

theorem runsAs_lastBytes {a b : Bytes} {n : Nat} (h : b.length = n) :
    RunsAs cfg slots (lastBytes n) [a ++ b] (.ok [b]) := by
  have hoffset := runsAs_offsetFromEnd cfg slots (a := a) h
  have hsplit := runsAs_split cfg slots (a := a) (b := b) rfl
  exact (hoffset.append_ok hsplit).append_ok (runsAs_nip cfg slots b a)

theorem runsAs_sliceFromStart {a b c : Bytes} {offset width : Nat} (ha : a.length = offset)
    (hb : b.length = width) :
    RunsAs cfg slots (sliceFromStart offset width) [a ++ (b ++ c)] (.ok [b]) :=
  (runsAs_dropFirst cfg slots ha).append_ok (runsAs_takeFirst cfg slots hb)

theorem runsAs_sliceFromEnd {a b c : Bytes} {back width : Nat} (hback : (b ++ c).length = back)
    (hb : b.length = width) :
    RunsAs cfg slots (sliceFromEnd back width) [a ++ (b ++ c)] (.ok [b]) :=
  (runsAs_lastBytes cfg slots hback).append_ok (runsAs_takeFirst cfg slots hb)

end Sequences

/-! ## The fields -/

/-- The extractors, by name. -/
inductive Extractor where
  | extractVersion | extractHashPrevouts | extractHashSequence | extractOutpoint
  | extractSigHashType | extractLocktime | extractOutputHash | extractOutputs
  | extractAmount | extractSequence | extractScriptCode | extractInputIndex
  deriving DecidableEq, Repr

namespace Extractor

def func : Extractor → String
  | extractVersion => "extractVersion"
  | extractHashPrevouts => "extractHashPrevouts"
  | extractHashSequence => "extractHashSequence"
  | extractOutpoint => "extractOutpoint"
  | extractSigHashType => "extractSigHashType"
  | extractLocktime => "extractLocktime"
  | extractOutputHash => "extractOutputHash"
  | extractOutputs => "extractOutputs"
  | extractAmount => "extractAmount"
  | extractSequence => "extractSequence"
  | extractScriptCode => "extractScriptCode"
  | extractInputIndex => "extractInputIndex"

end Extractor

/-- A field: a number in an unsigned word of so many bytes, or bytes. -/
inductive FieldValue where
  | number (width value : Nat)
  | bytes (value : Bytes)
  deriving DecidableEq, Repr

namespace FieldValue

/-- The field as the preimage holds it. -/
def serialized : FieldValue → Bytes
  | number width value => leBytes width value
  | bytes value => value

/-- The field as an item of the stack. -/
def item : FieldValue → Bytes
  | number _ value => encodeNum value
  | bytes value => value

/-- The field as OP_BIN2NUM reads it. -/
def read : FieldValue → Bytes
  | number width value => encodeNum (decodeNum (leBytes width value))
  | bytes value => value

/-- No number has the top bit of its word. -/
def TopBitClear : FieldValue → Prop
  | number width value => 2 * value < 256 ^ width
  | bytes _ => True

instance (field : FieldValue) : Decidable field.TopBitClear := by
  cases field <;> simp only [TopBitClear] <;> infer_instance

/-- A word is read as the number it holds while its top bit is clear. -/
theorem read_eq_item_iff {field : FieldValue}
    (h : ∀ width value, field = number width value → 0 < width ∧ value < 256 ^ width) :
    field.read = field.item ↔ field.TopBitClear := by
  cases field with
  | bytes value => simp [read, item, TopBitClear]
  | number width value =>
    obtain ⟨hwidth, hvalue⟩ := h width value rfl
    obtain ⟨w, rfl⟩ : ∃ w, width = w + 1 := ⟨width - 1, by omega⟩
    have hsign := two_mul_signBit w
    have hread := decodeNum_leBytes_eq_iff hvalue
    simp only [read, item, TopBitClear]
    constructor
    · intro heq
      have hlt := hread.mp (encodeNum_inj heq)
      omega
    · intro hclear
      rw [hread.mpr (by omega)]

end FieldValue

/-- The field that an extractor is named after. -/
def Preimage.field (p : Preimage) : Extractor → FieldValue
  | .extractVersion => .number 4 p.version
  | .extractHashPrevouts => .bytes p.hashPrevouts
  | .extractHashSequence => .bytes p.hashSequence
  | .extractOutpoint => .bytes p.outpoint
  | .extractSigHashType => .number 4 p.sighashType
  | .extractLocktime => .number 4 p.locktime
  | .extractOutputHash => .bytes p.hashOutputs
  | .extractOutputs => .bytes p.hashOutputs
  | .extractAmount => .number 8 p.amount
  | .extractSequence => .number 4 p.sequence
  | .extractScriptCode => .bytes p.scriptField
  | .extractInputIndex => .number 4 p.vout

theorem Preimage.field_in_range (p : Preimage) (extractor : Extractor) :
    ∀ width value, p.field extractor = .number width value →
      0 < width ∧ value < 256 ^ width := by
  intro width value h
  have := p.version_lt
  have := p.sighashType_lt
  have := p.locktime_lt
  have := p.amount_lt
  have := p.sequence_lt
  have := p.vout_lt
  cases extractor <;> cases h <;> exact ⟨by decide, by omega⟩

section Fields

variable (cfg : Config) (slots : Slots) (p : Preimage)

/-- A field at an offset from the front. -/
theorem extract_fromStart (field before behind : Bytes) {offset width : Nat}
    (hparts : p.toBytes = before ++ (field ++ behind)) (hoffset : before.length = offset)
    (hwidth : field.length = width) :
    RunsAs cfg slots (sliceFromStart offset width) [p.toBytes] (.ok [field]) := by
  rw [hparts]
  exact runsAs_sliceFromStart cfg slots hoffset hwidth

/-- A field at an offset from the end. -/
theorem extract_fromEnd (field before behind : Bytes) {back width : Nat}
    (hparts : p.toBytes = before ++ (field ++ behind)) (hback : (field ++ behind).length = back)
    (hwidth : field.length = width) :
    RunsAs cfg slots (sliceFromEnd back width) [p.toBytes] (.ok [field]) := by
  rw [hparts]
  exact runsAs_sliceFromEnd cfg slots hback hwidth

/-- The script code is what the fixed parts leave. -/
theorem extract_scriptCode :
    RunsAs cfg slots [.push (.bigint 104), .opcode .OP_SPLIT, .nip, .opcode .OP_SIZE,
      .push (.bigint 52), .opcode .OP_SUB, .opcode .OP_SPLIT, .drop] [p.toBytes]
      (.ok [p.scriptField]) := by
  have hparts : p.toBytes = p.head ++ (p.scriptField ++ p.tail) := List.append_assoc ..
  have hrest := runsAs_dropFirst cfg slots (b := p.scriptField ++ p.tail) p.length_head
  have hoffset := runsAs_offsetFromEnd cfg slots (a := p.scriptField) p.length_tail
  have hsplit := runsAs_split cfg slots (a := p.scriptField) (b := p.tail) rfl
  have hdrop := (runsAs_drop cfg slots p.tail).frame [p.scriptField]
  rw [hparts]
  exact (hrest.append_ok hoffset).append_ok (hsplit.append_ok hdrop)

/-- Every extractor cuts out its field, and reads a number as OP_BIN2NUM does. -/
theorem extractor_runsAs (extractor : Extractor) :
    ∃ ops, extractorOps extractor.func = some ops ∧
      RunsAs cfg slots ops [p.toBytes] (.ok [(p.field extractor).read]) := by
  have hbin := fun width value => runsAs_bin2num cfg slots (leBytes width value)
  have hprev := p.length_hashPrevouts
  have hseq := p.length_hashSequence
  have htx := p.length_txid
  have houts := p.length_hashOutputs
  cases extractor with
  | extractVersion =>
    have hparts : p.toBytes = leBytes 4 p.version ++ (p.hashPrevouts ++ (p.hashSequence ++
        (p.outpoint ++ (p.scriptField ++ p.tail)))) := by
      simp [Preimage.toBytes, Preimage.head]
    refine ⟨_, rfl, ?_⟩
    rw [hparts]
    exact (runsAs_takeFirst cfg slots (length_leBytes 4 p.version)).append_ok (hbin 4 p.version)
  | extractHashPrevouts =>
    refine ⟨_, rfl, extract_fromStart cfg slots p p.hashPrevouts (leBytes 4 p.version)
      (p.hashSequence ++ (p.outpoint ++ (p.scriptField ++ p.tail))) ?_ (by simp) hprev⟩
    simp [Preimage.toBytes, Preimage.head]
  | extractHashSequence =>
    refine ⟨_, rfl, extract_fromStart cfg slots p p.hashSequence
      (leBytes 4 p.version ++ p.hashPrevouts) (p.outpoint ++ (p.scriptField ++ p.tail)) ?_
      (by simp [hprev]) hseq⟩
    simp [Preimage.toBytes, Preimage.head]
  | extractOutpoint =>
    refine ⟨_, rfl, extract_fromStart cfg slots p p.outpoint
      (leBytes 4 p.version ++ p.hashPrevouts ++ p.hashSequence) (p.scriptField ++ p.tail) ?_
      (by simp [hprev, hseq]) p.length_outpoint⟩
    simp [Preimage.toBytes, Preimage.head]
  | extractInputIndex =>
    have hslice : RunsAs cfg slots (sliceFromStart 100 4) [p.toBytes] (.ok [leBytes 4 p.vout]) := by
      refine extract_fromStart cfg slots p _
        (leBytes 4 p.version ++ p.hashPrevouts ++ p.hashSequence ++ p.txid)
        (p.scriptField ++ p.tail) ?_ (by simp [hprev, hseq, htx]) (length_leBytes 4 p.vout)
      simp [Preimage.toBytes, Preimage.head, Preimage.outpoint]
    exact ⟨_, rfl, hslice.append_ok (hbin 4 p.vout)⟩
  | extractSigHashType =>
    have hparts : p.toBytes = (p.head ++ p.scriptField ++ leBytes 8 p.amount ++
        leBytes 4 p.sequence ++ p.hashOutputs ++ leBytes 4 p.locktime) ++
        leBytes 4 p.sighashType := by
      simp [Preimage.toBytes, Preimage.tail]
    refine ⟨_, rfl, ?_⟩
    rw [hparts]
    exact (runsAs_lastBytes cfg slots (length_leBytes 4 p.sighashType)).append_ok
      (hbin 4 p.sighashType)
  | extractLocktime =>
    have hslice : RunsAs cfg slots (sliceFromEnd 8 4) [p.toBytes] (.ok [leBytes 4 p.locktime]) := by
      refine extract_fromEnd cfg slots p _ (p.head ++ p.scriptField ++ leBytes 8 p.amount ++
        leBytes 4 p.sequence ++ p.hashOutputs) (leBytes 4 p.sighashType) ?_ (by simp)
        (length_leBytes 4 p.locktime)
      simp [Preimage.toBytes, Preimage.tail]
    exact ⟨_, rfl, hslice.append_ok (hbin 4 p.locktime)⟩
  | extractOutputHash | extractOutputs =>
    refine ⟨_, rfl, extract_fromEnd cfg slots p p.hashOutputs
      (p.head ++ p.scriptField ++ leBytes 8 p.amount ++ leBytes 4 p.sequence)
      (leBytes 4 p.locktime ++ leBytes 4 p.sighashType) ?_ (by simp [houts]) houts⟩
    simp [Preimage.toBytes, Preimage.tail]
  | extractAmount =>
    have hslice : RunsAs cfg slots (sliceFromEnd 52 8) [p.toBytes] (.ok [leBytes 8 p.amount]) := by
      refine extract_fromEnd cfg slots p _ (p.head ++ p.scriptField) (leBytes 4 p.sequence ++
        p.hashOutputs ++ leBytes 4 p.locktime ++ leBytes 4 p.sighashType) ?_ (by simp [houts])
        (length_leBytes 8 p.amount)
      simp [Preimage.toBytes, Preimage.tail]
    exact ⟨_, rfl, hslice.append_ok (hbin 8 p.amount)⟩
  | extractSequence =>
    have hslice : RunsAs cfg slots (sliceFromEnd 44 4) [p.toBytes]
        (.ok [leBytes 4 p.sequence]) := by
      refine extract_fromEnd cfg slots p _ (p.head ++ p.scriptField ++ leBytes 8 p.amount)
        (p.hashOutputs ++ leBytes 4 p.locktime ++ leBytes 4 p.sighashType) ?_ (by simp [houts])
        (length_leBytes 4 p.sequence)
      simp [Preimage.toBytes, Preimage.tail]
    exact ⟨_, rfl, hslice.append_ok (hbin 4 p.sequence)⟩
  | extractScriptCode => exact ⟨_, rfl, extract_scriptCode cfg slots p⟩

/-- The code that lowering an extractor's call emits, wherever the preimage is on the
stack, leaves the item in place of its operand. -/
def ExtractorLeaves (extractor : Extractor) (item : Bytes) : Prop :=
  ∀ (ctx : LoweringContext) (cells : List Cell) (bindingName arg : String) (bindingIndex : Nat)
    (lastUses : LastUses), ctx.stackMap = slotsOf cells → lookup cells arg = some p.toBytes →
    ∃ code,
      ctx.lowerExtractor bindingName extractor.func [arg] bindingIndex lastUses = .ok
        (ctx.after code (some bindingName ::
          slotsOf (takeOperands [arg] bindingIndex lastUses [arg] cells))) ∧
      RunsAs cfg slots code (itemsOf cells)
        (.ok (item :: itemsOf (takeOperands [arg] bindingIndex lastUses [arg] cells)))

theorem extractorLeaves_read (extractor : Extractor) :
    ExtractorLeaves cfg slots p extractor (p.field extractor).read := by
  intro ctx cells bindingName arg bindingIndex lastUses hmap hlook
  obtain ⟨ops, hops, hrun⟩ := extractor_runsAs cfg slots p extractor
  rw [LoweringContext.lowerExtractor_eq_lowerUnary bindingName [arg] bindingIndex lastUses ctx hops]
  exact @lowerUnary_spec cfg slots ctx cells (fun _ => p.toBytes) bindingName bindingIndex lastUses
    arg extractor.func ops (p.field extractor).read hmap hlook hrun

/-- A context with nothing on the stack but the preimage. -/
def preimageContext : LoweringContext := .holding [some "preimage"]

/-- Extracted items are determined by the extractor. -/
theorem ExtractorLeaves.unique {extractor : Extractor} {left right : Bytes}
    (h : ExtractorLeaves cfg slots p extractor left)
    (h' : ExtractorLeaves cfg slots p extractor right) : left = right := by
  obtain ⟨code, hlower, hrun⟩ := h preimageContext [(some "preimage", p.toBytes)] "field"
    "preimage" 0 (fun _ => none) rfl (lookup_cons_self ..)
  obtain ⟨code', hlower', hrun'⟩ := h' preimageContext [(some "preimage", p.toBytes)] "field"
    "preimage" 0 (fun _ => none) rfl (lookup_cons_self ..)
  have hcode := LoweringContext.after_ops_inj (Except.ok.inj (hlower.symm.trans hlower'))
  rw [← hcode] at hrun'
  exact (List.cons.inj (hrun.unique hrun')).1

/-- An extractor returns its field exactly where that is no number with the top bit of
its word set. -/
theorem extractor_returns_iff (extractor : Extractor) :
    ExtractorLeaves cfg slots p extractor (p.field extractor).item ↔
      (p.field extractor).TopBitClear := by
  have hread := extractorLeaves_read cfg slots p extractor
  have hiff := FieldValue.read_eq_item_iff (p.field_in_range extractor)
  constructor
  · intro h
    exact hiff.mp (hread.unique cfg slots p h)
  · intro hclear
    rw [← hiff.mpr hclear]
    exact hread

end Fields

/-- A preimage with the sequence number of an input that is final. -/
def finalPreimage : Preimage where
  version := 1
  hashPrevouts := List.replicate 32 0
  hashSequence := List.replicate 32 0
  txid := List.replicate 32 0
  vout := 0
  scriptCode := [0x51]
  amount := 1000
  sequence := 0xffffffff
  hashOutputs := List.replicate 32 0
  locktime := 0
  sighashType := 0x41
  version_lt := by decide
  length_hashPrevouts := List.length_replicate
  length_hashSequence := List.length_replicate
  length_txid := List.length_replicate
  vout_lt := by decide
  length_scriptCode := by decide
  amount_lt := by decide
  sequence_lt := by decide
  length_hashOutputs := List.length_replicate
  locktime_lt := by decide
  sighashType_lt := by decide

/-- The largest sequence number is read as a negative number. -/
theorem final_not_returned :
    ¬ ∀ (cfg : Config) (slots : Slots) (p : Preimage) (extractor : Extractor),
      ExtractorLeaves cfg slots p extractor (p.field extractor).item := by
  intro hall
  let cfg := Config.hashing id
  let slots : Slots := ⟨fun _ _ => [], []⟩
  have hread := extractorLeaves_read cfg slots finalPreimage .extractSequence
  have heq := hread.unique cfg slots finalPreimage (hall cfg slots finalPreimage .extractSequence)
  exact absurd heq (by decide)

end Runar.StackLower
