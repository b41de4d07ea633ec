/-
  StackLower/ByteBuiltins.lean --- calls of the builtins on byte strings.

  WHAT THIS FILE IS FOR.  `reverseBytes`, byte access, `substr`, `left`, `right`,
  `num2bin` and `bin2num` are lowered to splits and conversions, and the reference
  interpreter computes them on arrays.  This file has both sides and says exactly
  where they agree.

  WHERE THEY PART.  The reversal is unrolled for 520 bytes and drops what is behind
  them.  A byte is read as a signed number.  An array takes any bounds for a slice
  and cuts an encoding that does not fit, where the script stops.
-/
import Runar.StackLower.ByteSequences
import Runar.Interpreter.Value

set_option autoImplicit false

namespace Runar.StackLower

open Script
open Interpreter (Value)

/-! ## The reference -/

/-- A bound of a slice: a negative one counts from the end. -/
def relativeIndex (length : Nat) (i : Int) : Nat :=
  if i < 0 then (length + i).toNat else min i.toNat length

/-- `data.slice(start, stop)`. -/
def slice (data : Bytes) (start stop : Int) : Bytes :=
  (data.take (relativeIndex data.length stop)).drop (relativeIndex data.length start)

/-- Move the sign of an encoding to the last byte of a longer array. -/
def moveSign (encoded result : Bytes) : Bytes :=
  match encoded.getLast? with
  | some lastByte =>
      if encoded.length < result.length ∧ lastByte &&& 0x80 ≠ 0 then
        (result.set (encoded.length - 1) (lastByte &&& 0x7f)).set (result.length - 1) 0x80
      else result
  | none => result

/-- The encoding of a number, padded or cut to `byteLen` bytes. -/
def num2binArray (value : Int) (byteLen : Nat) : Bytes :=
  let encoded := encodeScriptNumber value
  moveSign encoded (encoded.take byteLen ++ List.replicate (byteLen - encoded.length) 0)

def decodeScriptNumberLocal (bytes : Bytes) : Int :=
  match bytes.getLast? with
  | none => 0
  | some lastByte =>
      if lastByte &&& 0x80 ≠ 0 then -((leNat bytes - 0x80 * 256 ^ (bytes.length - 1) : Nat) : Int)
      else leNat bytes

/-- A call of one of the builtins. -/
inductive ByteCall where
  | reverseBytes (data : Bytes)
  | indexAccess (data : Bytes) (index : Int)
  | substr (data : Bytes) (start length : Int)
  | left (data : Bytes) (length : Int)
  | right (data : Bytes) (length : Int)
  | num2bin (value byteLen : Int)
  | bin2num (data : Bytes)
  deriving DecidableEq, Repr

namespace ByteCall

/-- The value the reference interpreter computes. -/
def evaluate : ByteCall → Except String Value
  | reverseBytes data => .ok (.bytes data.reverse)
  | indexAccess data index =>
      if index < 0 then .error "Index out of bounds"
      else
        match data[index.toNat]? with
        | some byte => .ok (.num byte.toNat)
        | none => .error "Index out of bounds"
  | substr data start length => .ok (.bytes (slice data start (start + length)))
  | left data length => .ok (.bytes (slice data 0 length))
  | right data length => .ok (.bytes (slice data (data.length - length) data.length))
  | num2bin value byteLen =>
      -- no array has a negative length
      if byteLen < 0 then .error "Invalid typed array length"
      else .ok (.bytes (num2binArray value byteLen.toNat))
  | bin2num data => .ok (.num (decodeScriptNumberLocal data))

/-- The operands as items of the stack, in the order of the call. -/
def operands : ByteCall → List Bytes
  | reverseBytes data | bin2num data => [data]
  | indexAccess data index => [data, encodeNum index]
  | substr data start length => [data, encodeNum start, encodeNum length]
  | left data length | right data length => [data, encodeNum length]
  | num2bin value byteLen => [encodeNum value, encodeNum byteLen]

/-- The function of the compiled call. -/
def func : ByteCall → String
  | reverseBytes _ => "reverseBytes"
  | indexAccess _ _ => "__array_access"
  | substr _ _ _ => "substr"
  | left _ _ => "left"
  | right _ _ => "right"
  | num2bin _ _ => "num2bin"
  | bin2num _ => "bin2num"

end ByteCall

/-! ## Encodings of the reference -/

theorem leBytes_zero_value (w : Nat) : leBytes w 0 = List.replicate w 0 := by
  induction w with
  | zero => rfl
  | succ w ih => rw [leBytes_succ, List.replicate_succ, Nat.zero_div, ih]; rfl

/-- A word padded with zero bytes is the wider word of the same number. -/
theorem leBytes_pad {w m : Nat} (h : m < 256 ^ w) (k : Nat) :
    leBytes w m ++ List.replicate k 0 = leBytes (w + k) m := by
  rw [leBytes_append, Nat.div_eq_of_lt h, leBytes_zero_value]

theorem getLast_leBytes (w m : Nat) :
    (leBytes (w + 1) m).getLast? = some (m / 256 ^ w % 256).toUInt8 := by
  rw [leBytes_concat, List.getLast?_concat]

/-- A word whose sign bit is clear keeps its sign where it is. -/
theorem moveSign_of_nonneg {w m : Nat} (h : m < signBit (w + 1)) (result : Bytes) :
    moveSign (leBytes (w + 1) m) result = result := by
  have htop : m / 256 ^ w < 128 := by
    rw [Nat.div_lt_iff_lt_mul (by positivity)]
    exact h
  have hclear : ¬ (m / 256 ^ w % 256).toUInt8 &&& 0x80 ≠ 0 := by
    rw [and_signBit_ne_zero, toNat_toUInt8_mod, Nat.mod_eq_of_lt (by omega)]
    omega
  rw [moveSign, getLast_leBytes]
  exact if_neg fun hmove => hclear hmove.2

/-- The low seven bits and the sign of a top byte. -/
theorem topByte_split {t : Nat} (h : t < 128) :
    (t + 128).toUInt8 &&& 0x7f = t.toUInt8 ∧ (t + 128).toUInt8 &&& 0x80 ≠ 0 := by
  have hall : ∀ x : Fin 128, (x.val + 128).toUInt8 &&& 0x7f = x.val.toUInt8 ∧
      (x.val + 128).toUInt8 &&& 0x80 ≠ 0 := by decide
  exact hall ⟨t, h⟩

/-- The sign of a negative number moves to the top of the padded word. -/
theorem moveSign_of_neg {w m : Nat} (h : m < signBit (w + 1)) (k : Nat) :
    moveSign (leBytes (w + 1) (m + signBit (w + 1)))
        (leBytes (w + 1) (m + signBit (w + 1)) ++ List.replicate k 0) =
      leBytes (w + 1 + k) (m + signBit (w + 1 + k)) := by
  let t := m / 256 ^ w
  have hpos : 0 < 256 ^ w := by positivity
  have htop : t < 128 := by
    rw [Nat.div_lt_iff_lt_mul hpos]
    exact h
  have hlow : m < 256 ^ (w + 1) := by
    have := two_mul_signBit w
    omega
  have hencoded : leBytes (w + 1) (m + signBit (w + 1)) = leBytes w m ++ [(t + 128).toUInt8] := by
    have hdiv : (m + 128 * 256 ^ w) / 256 ^ w = t + 128 := Nat.add_mul_div_right m 128 hpos
    rw [leBytes_concat, signBit_succ, leBytes_add_mul_pow, hdiv, Nat.mod_eq_of_lt (by omega)]
  obtain ⟨hseven, hsign⟩ := topByte_split htop
  cases k with
  | zero =>
    rw [List.replicate_zero, List.append_nil, moveSign, getLast_leBytes]
    exact if_neg fun hmove => lt_irrefl _ hmove.1
  | succ k =>
    have hword : leBytes (w + 1 + k) m = leBytes w m ++ (t.toUInt8 :: List.replicate k 0) := by
      rw [← leBytes_pad hlow, leBytes_concat, Nat.mod_eq_of_lt (show t < 256 by omega),
        List.append_assoc]
      rfl
    have hresult : leBytes (w + 1 + (k + 1)) (m + signBit (w + 1 + (k + 1))) =
        leBytes w m ++ (t.toUInt8 :: (List.replicate k 0 ++ [0x80])) := by
      have hzero : m / 256 ^ (w + 1 + k) = 0 := by
        refine Nat.div_eq_of_lt (hlow.trans_le ?_)
        exact Nat.pow_le_pow_right (by decide) (by omega)
      have hdiv : (m + 128 * 256 ^ (w + 1 + k)) / 256 ^ (w + 1 + k) = 128 := by
        rw [Nat.add_mul_div_right m 128 (by positivity), hzero]
      show leBytes (w + 1 + k + 1) (m + 128 * 256 ^ (w + 1 + k)) = _
      rw [leBytes_concat, leBytes_add_mul_pow, hdiv, hword]
      simp
    rw [hresult, hencoded, moveSign, List.getLast?_concat]
    have hlt : (leBytes w m ++ [(t + 128).toUInt8]).length <
        (leBytes w m ++ [(t + 128).toUInt8] ++ List.replicate (k + 1) 0).length := by simp
    simp only [hlt, hsign, true_and, ne_eq, not_false_eq_true, if_true, hseven]
    simp [List.replicate_succ']

/-- The array of a number that fits is its representation in that width. -/
theorem num2binArray_eq {byteLen : Nat} {value : Int} (h : Fits byteLen value) :
    num2binArray value byteLen = signedBytes byteLen value := by
  have hwidth : numWidth value.natAbs ≤ byteLen := (numWidth_le_iff _ _).mpr h
  obtain ⟨k, rfl⟩ := Nat.exists_eq_add_of_le hwidth
  have hfits := fits_numWidth value
  rw [num2binArray, encodeScriptNumber_eq, length_encodeNum, Nat.add_sub_cancel_left,
    List.take_of_length_le (by rw [length_encodeNum]; omega), encodeNum]
  cases hw : numWidth value.natAbs with
  | zero =>
    rw [hw] at hfits
    rw [(fits_zero_iff value).mp hfits, Nat.zero_add]
    exact (leBytes_zero_value k).symm
  | succ w =>
    rw [hw] at hfits
    have hlt : value.natAbs < signBit (w + 1) := hfits
    unfold signedBytes signed
    by_cases hneg : value < 0
    · rw [if_pos hneg, if_pos hneg]
      exact moveSign_of_neg hlt k
    · simp only [if_neg hneg, Nat.add_zero]
      rw [moveSign_of_nonneg hlt]
      refine leBytes_pad ?_ k
      have := two_mul_signBit w
      omega

/-- The reference reads numbers as the machine does. -/
theorem decodeScriptNumberLocal_eq (bytes : Bytes) :
    decodeScriptNumberLocal bytes = decodeNum bytes := by
  induction bytes using List.reverseRecOn with
  | nil => rfl
  | append_singleton low byte _ =>
    have hlen : (low ++ [byte]).length = low.length + 1 := by simp
    have hval : leNat (low ++ [byte]) = leNat low + byte.toNat * 256 ^ low.length := by
      rw [leNat_append]
      simp [Nat.mul_comm]
    have hlow := leNat_lt low
    rw [decodeScriptNumberLocal, List.getLast?_concat, decodeNum_of_length hlen, hlen,
      Nat.add_sub_cancel, signBit_succ, hval]
    simp only [and_signBit_ne_zero]
    by_cases htop : 128 ≤ byte.toNat
    · have hge : 128 * 256 ^ low.length ≤ byte.toNat * 256 ^ low.length :=
        Nat.mul_le_mul_right _ htop
      rw [if_pos htop, if_neg (by omega)]
    · have hle : (byte.toNat + 1) * 256 ^ low.length ≤ 128 * 256 ^ low.length :=
        Nat.mul_le_mul_right _ (by omega)
      rw [Nat.succ_mul] at hle
      rw [if_neg htop, if_pos (by omega)]

/-! ## The lowering -/

def maxReverseBytes : Nat := 520

/-- One round of `reverseBytes`, on `result data`: move the first byte. -/
def reverseBytesRound (_ : Nat) : List StackOp :=
  [.dup, .opcode .OP_SIZE, .nip,
    .ifOp [.push (.bigint 1), .opcode .OP_SPLIT, .swap, .rot, .opcode .OP_CAT, .swap] []]

def reverseBytesOps : List StackOp :=
  [.push (.bigint 0), .swap] ++ (List.range maxReverseBytes).flatMap reverseBytesRound ++ [.drop]

def arrayAccessOps : List StackOp :=
  [.opcode .OP_SPLIT, .nip, .push (.bigint 1), .opcode .OP_SPLIT, .drop, .opcode .OP_BIN2NUM]

def rightOps : List StackOp :=
  [.swap, .opcode .OP_SIZE, .rot, .opcode .OP_SUB, .opcode .OP_SPLIT, .nip]

/-- The builtins on byte strings that the general call handles. -/
def byteOpcodes : String → Option (List Opcode)
  | "left" => some [.OP_SPLIT, .OP_DROP]
  | "num2bin" => some [.OP_NUM2BIN]
  | "bin2num" => some [.OP_BIN2NUM]
  | _ => none

namespace LoweringContext

section Calls

variable (bindingName : String) (args : List String) (bindingIndex : Nat) (lastUses : LastUses)
  (ctx : LoweringContext)

def lowerReverseBytes : Except CallError LoweringContext :=
  lowerUnary bindingName args bindingIndex lastUses ctx "reverseBytes" reverseBytesOps

def lowerArrayAccess : Except CallError LoweringContext :=
  lowerBinary bindingName args bindingIndex lastUses ctx "__array_access" arrayAccessOps

def lowerRight : Except CallError LoweringContext :=
  lowerBinary bindingName args bindingIndex lastUses ctx "right" rightOps

/-- Cut off what is before the start, then what is behind the length. -/
def lowerSubstr : Except CallError LoweringContext :=
  match args with
  | data :: start :: length :: _ => do
      let ctx ← ctx.bringOperands args bindingIndex lastUses [data, start]
      let ctx ← ctx.popOperands 2
      let ctx := (ctx.emitOps [.opcode .OP_SPLIT, .nip]).pushSlot none
      let ctx ← ctx.bringOperands args bindingIndex lastUses [length]
      let ctx ← ctx.popOperands 2
      .ok ((ctx.emitOps [.opcode .OP_SPLIT, .drop]).pushSlot (some bindingName))
  | _ => .error (.arity "substr" 3)

/-- The general call: every argument in order, then the opcodes of the table. -/
def lowerByteOpcodes (func : String) : Except CallError LoweringContext := do
  let ctx ← ctx.bringOperands args bindingIndex lastUses args
  let ctx ← ctx.popOperands args.length
  match byteOpcodes func with
  | none => .error (.unknownBuiltin func)
  | some codes => .ok ((ctx.emitOps (codes.map .opcode)).pushSlot (some bindingName))

/-- Lower a call of a builtin on byte strings. -/
def lowerByteCall (func : String) : Except CallError LoweringContext :=
  match func with
  | "reverseBytes" => lowerReverseBytes bindingName args bindingIndex lastUses ctx
  | "__array_access" => lowerArrayAccess bindingName args bindingIndex lastUses ctx
  | "substr" => lowerSubstr bindingName args bindingIndex lastUses ctx
  | "right" => lowerRight bindingName args bindingIndex lastUses ctx
  | _ => lowerByteOpcodes bindingName args bindingIndex lastUses ctx func

end Calls

end LoweringContext

/-! ## What the sequences leave -/

section Sequences

variable (cfg : Config) (slots : Slots)

/-- A round moves the next byte in front of those moved before, and does nothing once
there is none. -/
theorem runsAs_reverseBytesRound (data : Bytes) (i : Nat) :
    RunsAs cfg slots (reverseBytesRound i) [data.drop i, (data.take i).reverse]
      (.ok [data.drop (i + 1), (data.take (i + 1)).reverse]) := by
  let rest := data.drop i
  let done := (data.take i).reverse
  have htest : RunsAs cfg slots [.dup, .opcode .OP_SIZE, .nip] [rest, done]
      (.ok (encodeNum rest.length :: [rest, done])) := by
    refine .of_plain (by simp [emitOps_cons, emitStackOp]; decide) fun below alt => ?_
    simp [emitOps_cons, emitStackOp, plainRun, plainStep, opcodeStep, shuffle]
  refine htest.append_ok (.ifThen (by simp [emitOps_cons]; decide) ?_ ?_)
  · intro hflag
    have hlt : i < data.length := by
      have hne : ((rest.length : Int)) ≠ 0 := by simpa using hflag
      have : rest.length = data.length - i := List.length_drop
      omega
    have hrest : rest = [data[i]] ++ data.drop (i + 1) := List.drop_eq_getElem_cons hlt
    have hdone : (data.take (i + 1)).reverse = [data[i]] ++ done := by
      rw [List.take_succ_eq_append_getElem hlt, List.reverse_append, List.reverse_singleton]
    have hone := (runsAs_pushNum cfg slots 1).frame [rest, done]
    have hsplit : RunsAs cfg slots [.opcode .OP_SPLIT] [encodeNum 1, rest]
        (.ok [data.drop (i + 1), [data[i]]]) := by
      rw [hrest]
      exact runsAs_split cfg slots rfl
    have hmove : RunsAs cfg slots [.swap, .rot, .opcode .OP_CAT, .swap]
        [data.drop (i + 1), [data[i]], done] (.ok [data.drop (i + 1), [data[i]] ++ done]) :=
      ((runsAs_swap cfg slots (data.drop (i + 1)) [data[i]]).frame [done]).append_ok
        ((runsAs_rot cfg slots [data[i]] (data.drop (i + 1)) done).append_ok
          (((runsAs_cat cfg slots done [data[i]]).frame [data.drop (i + 1)]).append_ok
            (runsAs_swap cfg slots ([data[i]] ++ done) (data.drop (i + 1)))))
    rw [hdone]
    exact hone.append_ok ((hsplit.frame [done]).append_ok hmove)
  · intro hflag
    have hge : data.length ≤ i := by
      have hzero : (rest.length : Int) = 0 := by simpa using hflag
      have : rest.length = data.length - i := List.length_drop
      omega
    rw [List.take_of_length_le (show data.length ≤ i + 1 by omega),
      List.drop_of_length_le (show data.length ≤ i + 1 by omega)]
    simp only [rest, done, List.take_of_length_le hge, List.drop_of_length_le hge]

/-- `reverseBytes` reverses what its rounds reach and drops the rest. -/
theorem runsAs_reverseBytesOps (data : Bytes) :
    RunsAs cfg slots reverseBytesOps [data] (.ok [(data.take maxReverseBytes).reverse]) := by
  have hstart : RunsAs cfg slots [.push (.bigint 0), .swap] [data]
      (.ok [data.drop 0, (data.take 0).reverse]) := by
    have hpush := (runsAs_pushNum cfg slots 0).frame [data]
    exact hpush.append_ok (runsAs_swap cfg slots (encodeNum 0) data)
  let items : Nat → List Bytes := fun i => [data.drop i, (data.take i).reverse]
  have hround : ∀ i, RunsAs cfg slots (reverseBytesRound i) (items i) (.ok (items (i + 1))) :=
    runsAs_reverseBytesRound cfg slots data
  have hloop := RunsAs.rounds hround maxReverseBytes
  have hend := (runsAs_drop cfg slots (data.drop maxReverseBytes)).frame
    [(data.take maxReverseBytes).reverse]
  exact (hstart.append_ok hloop).append_ok hend

/-- Cut off what is before an offset, or stop. -/
theorem runsAs_splitNip (data : Bytes) (n : Int) :
    RunsAs cfg slots [.opcode .OP_SPLIT, .nip] [encodeNum n, data]
      (((splitAt data n).map Prod.snd).map fun item => [item]) := by
  have hsplit := runsAs_splitAt cfg slots data n
  cases hparts : splitAt data n with
  | error e =>
    rw [hparts] at hsplit
    exact hsplit.append_error
  | ok parts =>
    rw [hparts] at hsplit
    exact hsplit.append_ok (runsAs_nip cfg slots parts.2 parts.1)

/-- Cut off what is behind an offset, or stop. -/
theorem runsAs_splitDrop (data : Bytes) (n : Int) :
    RunsAs cfg slots [.opcode .OP_SPLIT, .drop] [encodeNum n, data]
      (((splitAt data n).map Prod.fst).map fun item => [item]) := by
  have hsplit := runsAs_splitAt cfg slots data n
  cases hparts : splitAt data n with
  | error e =>
    rw [hparts] at hsplit
    exact hsplit.append_error
  | ok parts =>
    rw [hparts] at hsplit
    exact hsplit.append_ok ((runsAs_drop cfg slots parts.2).frame [parts.1])

/-- The first byte behind an offset, as a signed number. -/
def accessItem (data : Bytes) (index : Int) : Except ScriptError Bytes := do
  let parts ← splitAt data index
  let first ← splitAt parts.2 1
  .ok (encodeNum (decodeNum first.1))

theorem runsAs_arrayAccessOps (data : Bytes) (index : Int) :
    RunsAs cfg slots arrayAccessOps [encodeNum index, data]
      ((accessItem data index).map fun item => [item]) := by
  have hskip := runsAs_splitNip cfg slots data index
  show RunsAs cfg slots ([StackOp.opcode .OP_SPLIT, .nip] ++
    [StackOp.push (.bigint 1), .opcode .OP_SPLIT, .drop, .opcode .OP_BIN2NUM]) _ _
  unfold accessItem
  cases hparts : splitAt data index with
  | error e =>
    rw [hparts] at hskip
    exact hskip.append_error
  | ok parts =>
    rw [hparts] at hskip
    refine hskip.append_ok ?_
    have hone := (runsAs_pushNum cfg slots 1).frame [parts.2]
    have hfirst := runsAs_splitDrop cfg slots parts.2 1
    rw [ok_bind]
    cases hbyte : splitAt parts.2 1 with
    | error e =>
      rw [hbyte] at hfirst
      have hstop : RunsAs cfg slots
          ([StackOp.opcode .OP_SPLIT, .drop] ++ [StackOp.opcode .OP_BIN2NUM])
          [encodeNum 1, parts.2] (.error e) := hfirst.append_error
      exact hone.append_ok hstop
    | ok first =>
      rw [hbyte] at hfirst
      exact hone.append_ok (hfirst.append_ok (runsAs_bin2num cfg slots first.1))

theorem runsAs_rightOps (data : Bytes) (length : Int) :
    RunsAs cfg slots rightOps [encodeNum length, data]
      (((splitAt data (data.length - length)).map Prod.snd).map fun item => [item]) := by
  have hswap := runsAs_swap cfg slots (encodeNum length) data
  have hsize := (runsAs_size cfg slots data).frame [encodeNum length]
  have hrot := runsAs_rot cfg slots (encodeNum data.length) data (encodeNum length)
  have hsub : RunsAs cfg slots [.opcode .OP_SUB] [encodeNum length, encodeNum data.length]
      (.ok [encodeNum (data.length - length)]) := runsAs_numOp2 cfg slots rfl rfl rfl
  exact hswap.append_ok (hsize.append_ok (hrot.append_ok ((hsub.frame [data]).append_ok
    (runsAs_splitNip cfg slots data (data.length - length)))))

/-- OP_NUM2BIN of a number, or a stop. -/
theorem runsAs_num2binOp (value byteLen : Int) :
    RunsAs cfg slots [.opcode .OP_NUM2BIN] [encodeNum byteLen, encodeNum value]
      ((Script.num2bin value byteLen).map fun item => [item]) := by
  refine runsAs_opcode cfg slots rfl fun below alt => ?_
  cases hbin : Script.num2bin value byteLen <;> simp [opcodeStep, hbin, Except.map]

end Sequences

/-! ## Lowered calls -/

section Lowered

variable (cfg : Config) (slots : Slots) {ctx : LoweringContext} {cells : List Cell}
  {itemOf : String → Bytes} (bindingName : String) (bindingIndex : Nat) (lastUses : LastUses)

/-- A builtin of the table replaces its operands by what its opcodes leave, or stops as
they do. -/
theorem lowerByteOpcodes_runs {args : List String} {func : String} {codes : List Opcode}
    {r : Except ScriptError Bytes} (hcodes : byteOpcodes func = some codes)
    (hmap : ctx.stackMap = slotsOf cells)
    (hlook : ∀ n ∈ args, lookup cells n = some (itemOf n))
    (hops : RunsAs cfg slots (codes.map .opcode) (itemsOf (operandCells itemOf args))
      (r.map fun item => [item])) :
    ∃ code,
      LoweringContext.lowerByteOpcodes bindingName args bindingIndex lastUses ctx func =
        .ok (ctx.after code (some bindingName ::
          slotsOf (takeOperands args bindingIndex lastUses args cells))) ∧
      RunsAs cfg slots code (itemsOf cells)
        (r.map fun item =>
          item :: itemsOf (takeOperands args bindingIndex lastUses args cells)) := by
  let rest := takeOperands args bindingIndex lastUses args cells
  have hmap' : ctx.stackMap = slotsOf ([] ++ cells) := hmap
  obtain ⟨code, hbring, hrun⟩ := bringOperands_spec cfg slots bindingIndex lastUses args hmap'
    (fun _ => le_rfl) (fun c hc => by cases hc) hlook
  have hresult := emitResult (operandCells itemOf args)
    (LoweringContext.stackMap_after ctx code (slotsOf (operandCells itemOf args ++ rest)))
    (codes.map .opcode) (some bindingName)
  have hlength : (operandCells itemOf args).length = args.length := by simp [operandCells]
  rw [LoweringContext.after_after, hlength] at hresult
  have hitems : itemsOf (operandCells itemOf args ++ ([] ++ rest)) =
      itemsOf (operandCells itemOf args) ++ itemsOf rest := by simp [itemsOf]
  rw [hitems] at hrun
  refine ⟨code ++ codes.map .opcode, ?_, hrun.append_ok (frameItem cfg slots hops _)⟩
  rw [LoweringContext.lowerByteOpcodes, hbring, ok_bind, hcodes]
  exact hresult

/-- `substr` cuts with its first two operands and then with the third. -/
theorem lowerSubstr_runs {a b c : String} {middle : Except ScriptError Bytes}
    {last : Bytes → Except ScriptError Bytes} (hmap : ctx.stackMap = slotsOf cells)
    (hlook : ∀ n ∈ [a, b, c], lookup cells n = some (itemOf n))
    (hfirst : RunsAs cfg slots [.opcode .OP_SPLIT, .nip] [itemOf b, itemOf a]
      (middle.map fun item => [item]))
    (hsecond : ∀ item, RunsAs cfg slots [.opcode .OP_SPLIT, .drop] [itemOf c, item]
      ((last item).map fun item => [item])) :
    ∃ code,
      LoweringContext.lowerSubstr bindingName [a, b, c] bindingIndex lastUses ctx =
        .ok (ctx.after code (some bindingName ::
          slotsOf (takeOperands [a, b, c] bindingIndex lastUses [a, b, c] cells))) ∧
      RunsAs cfg slots code (itemsOf cells) ((middle >>= last).map fun item =>
        item :: itemsOf (takeOperands [a, b, c] bindingIndex lastUses [a, b, c] cells)) := by
  let two := takeOperands [a, b, c] bindingIndex lastUses [a, b] cells
  let rest := takeOperands [a, b, c] bindingIndex lastUses [a, b, c] cells
  have hmap' : ctx.stackMap = slotsOf ([] ++ cells) := hmap
  have htwo : ∀ n, ([a, b] ++ [c]).count n ≤ [a, b, c].count n := fun _ => le_rfl
  have hleft : ∀ n, [a, b].count n ≤ [a, b, c].count n := fun n =>
    (List.sublist_append_left [a, b] [c]).count_le n
  have hright : ∀ n, [c].count n ≤ [a, b, c].count n := fun n =>
    (List.sublist_append_right [a, b] [c]).count_le n
  obtain ⟨code, hbring, hrun⟩ := bringOperands_spec cfg slots bindingIndex lastUses [a, b] hmap'
    hleft (fun c hc => by cases hc)
    fun n hn => hlook n (List.mem_append_left [c] hn)
  let ctxMiddle := ctx.after code (slotsOf (operandCells itemOf [a, b] ++ two))
  have hpop : ctxMiddle.popOperands 2 = .ok (ctxMiddle.after [] (slotsOf two)) :=
    popOperands_append (operandCells itemOf [a, b]) rfl
  let ctxTwo := ((ctxMiddle.after [] (slotsOf two)).emitOps [.opcode .OP_SPLIT, .nip]).pushSlot none
  have hafter : ctxTwo =
      ctx.after (code ++ [StackOp.opcode .OP_SPLIT, .nip]) (none :: slotsOf two) := by
    simp [ctxTwo, ctxMiddle, LoweringContext.emitOps_eq_after, LoweringContext.pushSlot_eq_after]
  have hlookTwo : ∀ n ∈ [c], lookup two n = some (itemOf n) := fun n hn => by
    rw [lookup_takeOperands htwo hn]
    exact hlook n (List.mem_append_right [a, b] hn)
  -- which item the first cut leaves does not matter for how the third operand is brought
  have hthird : ∀ item, ∃ code',
      ctxTwo.bringOperands [a, b, c] bindingIndex lastUses [c] = .ok (ctxTwo.after code'
        (slotsOf (operandCells itemOf [c] ++ ([(none, item)] ++ rest)))) ∧
      RunsAs cfg slots code' (item :: itemsOf two) (.ok (itemOf c :: item :: itemsOf rest)) := by
    intro item
    have hmapTwo : ctxTwo.stackMap = slotsOf ([(none, item)] ++ two) := rfl
    exact bringOperands_spec cfg slots bindingIndex lastUses [c] hmapTwo hright
      (fun d hd n _ hname => by rw [List.mem_singleton.mp hd] at hname; cases hname) hlookTwo
  obtain ⟨code', hbring', -⟩ := hthird []
  have hresult := emitResult (operandCells itemOf [c] ++ [(none, [])])
    (LoweringContext.stackMap_after ctxTwo code'
      (slotsOf (operandCells itemOf [c] ++ [(none, [])] ++ rest)))
    [StackOp.opcode .OP_SPLIT, .drop] (some bindingName)
  simp only [hafter, LoweringContext.after_after] at hresult
  refine ⟨code ++ [StackOp.opcode .OP_SPLIT, .nip] ++ code' ++ [StackOp.opcode .OP_SPLIT, .drop],
    ?_, ?_⟩
  · rw [LoweringContext.lowerSubstr, hbring, ok_bind]
    show (ctxMiddle.popOperands 2 >>= _) = _
    rw [hpop, ok_bind]
    show (ctxTwo.bringOperands _ _ _ [c] >>= _) = _
    rw [hbring', ok_bind, hafter, LoweringContext.after_after]
    exact hresult
  · have hcut := hrun.append_ok (frameItem cfg slots hfirst (itemsOf two))
    cases middle with
    | error e => exact (hcut.append_error).append_error
    | ok item =>
      obtain ⟨code'', hbring'', hrun''⟩ := hthird item
      have hcode := LoweringContext.after_ops_inj (Except.ok.inj (hbring'.symm.trans hbring''))
      rw [hcode]
      exact (hcut.append_ok hrun'').append_ok (frameItem cfg slots (hsecond item) _)

end Lowered

/-! ## Agreement -/

/-- A value of the reference as an item of the stack. -/
def valueItem : Value → Bytes
  | .bigint value scriptBytes => Interpreter.stackBytes value scriptBytes
  | .boolean value => boolBytes value
  | .bytes value => value
  | .array _ | .context | .void => []

/-- The same value on both sides, or none on either. -/
def Agrees : Except String Value → Except ScriptError Bytes → Prop
  | .ok value, .ok item => item = valueItem value
  | .error _, .error _ => True
  | _, _ => False

namespace ByteCall

/-- What the compiled call leaves. -/
def compiledItem : ByteCall → Except ScriptError Bytes
  | reverseBytes data => .ok (data.take maxReverseBytes).reverse
  | indexAccess data index => accessItem data index
  | substr data start length => do
      let rest ← (splitAt data start).map Prod.snd
      (splitAt rest length).map Prod.fst
  | left data length => (splitAt data length).map Prod.fst
  | right data length => (splitAt data (data.length - length)).map Prod.snd
  | num2bin value byteLen => Script.num2bin value byteLen
  | bin2num data => .ok (encodeNum (decodeNum data))

/-- The operands on which the two sides agree. -/
def WithinRange : ByteCall → Prop
  | reverseBytes data => data.length ≤ maxReverseBytes
  | indexAccess data index =>
      ∀ byte, 0 ≤ index → data[index.toNat]? = some byte → byte.toNat < 0x80
  | substr data start length => 0 ≤ start ∧ 0 ≤ length ∧ start + length ≤ data.length
  | left data length | right data length => 0 ≤ length ∧ length ≤ data.length
  | num2bin value byteLen => byteLen < 0 ∨ Fits byteLen.toNat value
  | bin2num _ => True

theorem reverseBytes_agrees_iff (data : Bytes) :
    Agrees (evaluate (reverseBytes data)) (compiledItem (reverseBytes data)) ↔
      WithinRange (reverseBytes data) := by
  show (data.take maxReverseBytes).reverse = data.reverse ↔ data.length ≤ maxReverseBytes
  rw [List.reverse_inj]
  constructor
  · intro h
    have hlen := congrArg List.length h
    rw [List.length_take] at hlen
    omega
  · exact List.take_of_length_le

/-- A byte is a number of its own value while it is below 0x80. -/
theorem decodeNum_byte_iff (byte : UInt8) :
    decodeNum [byte] = byte.toNat ↔ byte.toNat < 0x80 := by
  have hval : leNat [byte] = byte.toNat := by simp
  have hsign : signBit (0 + 1) = 128 := rfl
  rw [decodeNum_of_length (w := 0) rfl, hval, hsign]
  split <;> omega

theorem indexAccess_agrees_iff (data : Bytes) (index : Int) :
    Agrees (evaluate (indexAccess data index)) (compiledItem (indexAccess data index)) ↔
      WithinRange (indexAccess data index) := by
  simp only [evaluate, compiledItem, accessItem, WithinRange]
  by_cases hneg : index < 0
  · have hout : splitAt data index = .error .splitRange := if_neg (by omega)
    rw [if_pos hneg, hout]
    exact ⟨fun _ _ hnonneg => absurd hneg (by omega), fun _ => trivial⟩
  · rw [if_neg hneg]
    obtain ⟨i, rfl⟩ : ∃ i : Nat, index = i := ⟨index.toNat, by omega⟩
    rw [Int.toNat_natCast]
    cases hget : data[i]? with
    | none =>
      -- behind the last byte a split stops at once, or leaves nothing for the next one
      have hstop : ∃ e, (do
          let parts ← splitAt data i
          let first ← splitAt parts.2 1
          Except.ok (encodeNum (decodeNum first.1))) = .error e := by
        have hge : data.length ≤ i := List.getElem?_eq_none_iff.mp hget
        by_cases hlen : (i : Int) ≤ data.length
        · have hcut : splitAt data i = .ok (data.take i, data.drop i) := if_pos (by omega)
          have hnil : data.drop i = [] := List.drop_of_length_le hge
          rw [hcut, ok_bind, hnil]
          exact ⟨_, rfl⟩
        · have hcut : splitAt data i = .error .splitRange := if_neg (by omega)
          rw [hcut]
          exact ⟨_, rfl⟩
      obtain ⟨e, he⟩ := hstop
      rw [he]
      exact ⟨fun _ _ _ hbyte => (nomatch hbyte), fun _ => trivial⟩
    | some byte =>
      obtain ⟨hlt, hbyte⟩ := List.getElem?_eq_some_iff.mp hget
      have hcut : splitAt data i = .ok (data.take i, data.drop i) := if_pos (by omega)
      have hrest : data.drop i = [byte] ++ data.drop (i + 1) := by
        rw [← hbyte]
        exact List.drop_eq_getElem_cons hlt
      have hone : splitAt (data.drop i) 1 = .ok ([byte], data.drop (i + 1)) := by
        rw [hrest]
        exact splitAt_append [byte] (data.drop (i + 1))
      rw [hcut, ok_bind, hone, ok_bind]
      show encodeNum (decodeNum [byte]) = encodeNum byte.toNat ↔ _
      constructor
      · intro h other _ hother
        cases hother
        exact (decodeNum_byte_iff byte).mp (encodeNum_inj h)
      · intro h
        rw [(decodeNum_byte_iff byte).mpr (h byte (by omega) rfl)]

/-- Two bounds inside the array cut out what lies between them. -/
theorem slice_of_bounds (data : Bytes) (start stop : Nat) (h : start ≤ stop)
    (hlen : stop ≤ data.length) :
    slice data start stop = (data.drop start).take (stop - start) := by
  have hstart : relativeIndex data.length start = start := by
    rw [relativeIndex, if_neg (by omega), Int.toNat_natCast, min_eq_left (h.trans hlen)]
  have hstop : relativeIndex data.length stop = stop := by
    rw [relativeIndex, if_neg (by omega), Int.toNat_natCast, min_eq_left hlen]
  rw [slice, hstart, hstop, List.drop_take]

/-- A cut that the machine makes is the slice, and where it makes none the two part. -/
theorem substr_agrees_iff (data : Bytes) (start length : Int) :
    Agrees (evaluate (substr data start length)) (compiledItem (substr data start length)) ↔
      WithinRange (substr data start length) := by
  simp only [evaluate, compiledItem, WithinRange]
  by_cases hstart : 0 ≤ start ∧ start ≤ data.length
  · have hcut : splitAt data start = .ok (data.take start.toNat, data.drop start.toNat) :=
      if_pos hstart
    have hrest : (data.drop start.toNat).length = data.length - start.toNat := List.length_drop
    rw [hcut, map_ok, ok_bind]
    by_cases hlength : 0 ≤ length ∧ length ≤ ((data.drop start.toNat).length : Int)
    · have hpiece : splitAt (data.drop start.toNat) length =
          .ok ((data.drop start.toNat).take length.toNat,
            (data.drop start.toNat).drop length.toNat) := if_pos hlength
      rw [hpiece]
      have hslice := slice_of_bounds data start.toNat (start.toNat + length.toNat) (by omega)
        (by omega)
      rw [show ((start.toNat : Nat) : Int) = start by omega,
        show ((start.toNat + length.toNat : Nat) : Int) = start + length by omega,
        Nat.add_sub_cancel_left] at hslice
      exact ⟨fun _ => by omega, fun _ => hslice.symm⟩
    · have hpiece : splitAt (data.drop start.toNat) length = .error .splitRange := if_neg hlength
      rw [hpiece]
      exact ⟨fun h => h.elim, fun h => absurd ⟨h.2.1, by omega⟩ hlength⟩
  · have hcut : splitAt data start = .error .splitRange := if_neg hstart
    rw [hcut]
    exact ⟨fun h => h.elim, fun h => absurd ⟨h.1, by omega⟩ hstart⟩

theorem left_agrees_iff (data : Bytes) (length : Int) :
    Agrees (evaluate (left data length)) (compiledItem (left data length)) ↔
      WithinRange (left data length) := by
  simp only [evaluate, compiledItem, WithinRange]
  by_cases hlength : 0 ≤ length ∧ length ≤ data.length
  · have hcut : splitAt data length = .ok (data.take length.toNat, data.drop length.toNat) :=
      if_pos hlength
    have hslice := slice_of_bounds data 0 length.toNat (by omega) (by omega)
    rw [show ((length.toNat : Nat) : Int) = length by omega] at hslice
    rw [hcut]
    exact ⟨fun _ => hlength, fun _ => hslice.symm⟩
  · have hcut : splitAt data length = .error .splitRange := if_neg hlength
    rw [hcut]
    exact ⟨fun h => h.elim, fun h => absurd h hlength⟩

theorem right_agrees_iff (data : Bytes) (length : Int) :
    Agrees (evaluate (right data length)) (compiledItem (right data length)) ↔
      WithinRange (right data length) := by
  simp only [evaluate, compiledItem, WithinRange]
  by_cases hlength : 0 ≤ length ∧ length ≤ data.length
  · let start := data.length - length.toNat
    have hoffset : (data.length : Int) - length = (start : Nat) := by omega
    have hcut : splitAt data (data.length - length) = .ok (data.take start, data.drop start) := by
      rw [hoffset]
      exact if_pos (by omega)
    have hslice := slice_of_bounds data start data.length (by omega) le_rfl
    rw [List.take_of_length_le (by rw [List.length_drop])] at hslice
    rw [hcut, hoffset]
    exact ⟨fun _ => hlength, fun _ => hslice.symm⟩
  · have hcut : splitAt data (data.length - length) = .error .splitRange := if_neg (by omega)
    rw [hcut]
    exact ⟨fun h => h.elim, fun h => absurd h hlength⟩

theorem num2bin_agrees_iff (value byteLen : Int) :
    Agrees (evaluate (num2bin value byteLen)) (compiledItem (num2bin value byteLen)) ↔
      WithinRange (num2bin value byteLen) := by
  simp only [evaluate, compiledItem, WithinRange, Script.num2bin]
  by_cases hneg : byteLen < 0
  · rw [if_pos hneg, if_neg (by omega)]
    exact ⟨fun _ => .inl hneg, fun _ => trivial⟩
  · rw [if_neg hneg]
    by_cases hfits : Fits byteLen.toNat value
    · rw [if_pos ⟨by omega, hfits⟩]
      exact ⟨fun _ => .inr hfits, fun _ => (num2binArray_eq hfits).symm⟩
    · rw [if_neg fun h => hfits h.2]
      exact ⟨fun h => h.elim, fun h => (h.resolve_left hneg |> hfits).elim⟩

/-- The two sides agree exactly on the operands in range. -/
theorem agrees_iff_withinRange (call : ByteCall) :
    Agrees call.evaluate call.compiledItem ↔ call.WithinRange := by
  cases call with
  | reverseBytes data => exact reverseBytes_agrees_iff data
  | indexAccess data index => exact indexAccess_agrees_iff data index
  | substr data start length => exact substr_agrees_iff data start length
  | left data length => exact left_agrees_iff data length
  | right data length => exact right_agrees_iff data length
  | num2bin value byteLen => exact num2bin_agrees_iff value byteLen
  | bin2num data =>
    refine ⟨fun _ => trivial, fun _ => ?_⟩
    show encodeNum (decodeNum data) = encodeNum (decodeScriptNumberLocal data)
    rw [decodeScriptNumberLocal_eq]

end ByteCall

/-! ## Compiled calls -/

section Calls

variable {cfg : Config} {slots : Slots} {ctx : LoweringContext} {cells : List Cell}
  {args : List String} {bindingName : String} {bindingIndex : Nat} {lastUses : LastUses}

/-- The operands are on the stack. -/
def OperandsAt (cells : List Cell) (args : List String) (call : ByteCall) : Prop :=
  List.Forall₂ (fun arg item => lookup cells arg = some item) args call.operands

/-- The call is lowered to code that replaces its operands by the outcome. -/
def ByteCallRuns (cfg : Config) (slots : Slots) (ctx : LoweringContext) (cells : List Cell)
    (bindingName : String) (args : List String) (bindingIndex : Nat) (lastUses : LastUses)
    (call : ByteCall) (r : Except ScriptError Bytes) : Prop :=
  ∃ code,
    ctx.lowerByteCall bindingName args bindingIndex lastUses call.func =
      .ok (ctx.after code (some bindingName ::
        slotsOf (takeOperands args bindingIndex lastUses args cells))) ∧
    RunsAs cfg slots code (itemsOf cells)
      (r.map fun item => item :: itemsOf (takeOperands args bindingIndex lastUses args cells))

theorem operandsAt_two {x y : Bytes}
    (h : List.Forall₂ (fun arg item => lookup cells arg = some item) args [x, y]) :
    ∃ a b, lookup cells a = some x ∧ lookup cells b = some y ∧ args = [a, b] := by
  obtain ⟨a, _, ha, hrest, rfl⟩ := List.forall₂_cons_right_iff.mp h
  obtain ⟨b, _, hb, hnil, rfl⟩ := List.forall₂_cons_right_iff.mp hrest
  cases hnil
  exact ⟨a, b, ha, hb, rfl⟩

/-- The value of a name. -/
def itemAt (cells : List Cell) (ref : String) : Bytes := (lookup cells ref).getD []

theorem lookup_itemAt {refs : List String} (h : ∀ ref ∈ refs, (lookup cells ref).isSome) :
    ∀ ref ∈ refs, lookup cells ref = some (itemAt cells ref) := by
  intro ref hmem
  obtain ⟨item, hitem⟩ := Option.isSome_iff_exists.mp (h ref hmem)
  rw [itemAt, hitem, Option.getD_some]

theorem itemAt_of_lookup {ref : String} {item : Bytes} (h : lookup cells ref = some item) :
    itemAt cells ref = item := by
  rw [itemAt, h, Option.getD_some]

/-- Every call runs as its sequence does. -/
theorem byteCall_runs (call : ByteCall) (hmap : ctx.stackMap = slotsOf cells)
    (hargs : OperandsAt cells args call) :
    ByteCallRuns cfg slots ctx cells bindingName args bindingIndex lastUses call
      call.compiledItem := by
  cases call with
  | reverseBytes data =>
    obtain ⟨a, _, ha, hnil, rfl⟩ := List.forall₂_cons_right_iff.mp hargs
    cases hnil
    have hlook : ∀ ref ∈ [a], lookup cells ref = some (itemAt cells ref) :=
      lookup_itemAt (by simp [ha])
    refine lowerUnary_runs cfg slots bindingName bindingIndex lastUses "reverseBytes" hmap
      (hlook a List.mem_cons_self) ?_
    rw [itemAt_of_lookup ha]
    exact runsAs_reverseBytesOps cfg slots data
  | indexAccess data index =>
    obtain ⟨a, b, ha, hb, rfl⟩ := operandsAt_two hargs
    have hlook : ∀ ref ∈ [a, b], lookup cells ref = some (itemAt cells ref) :=
      lookup_itemAt (by simp [ha, hb])
    refine lowerBinary_runs cfg slots bindingName bindingIndex lastUses "__array_access" hmap
      hlook ?_
    rw [itemAt_of_lookup ha, itemAt_of_lookup hb]
    exact runsAs_arrayAccessOps cfg slots data index
  | right data length =>
    obtain ⟨a, b, ha, hb, rfl⟩ := operandsAt_two hargs
    have hlook : ∀ ref ∈ [a, b], lookup cells ref = some (itemAt cells ref) :=
      lookup_itemAt (by simp [ha, hb])
    refine lowerBinary_runs cfg slots bindingName bindingIndex lastUses "right" hmap hlook ?_
    rw [itemAt_of_lookup ha, itemAt_of_lookup hb]
    exact runsAs_rightOps cfg slots data length
  | substr data start length =>
    obtain ⟨a, _, ha, hrest, rfl⟩ := List.forall₂_cons_right_iff.mp hargs
    obtain ⟨b, c, hb, hc, rfl⟩ := operandsAt_two hrest
    have hlook : ∀ ref ∈ [a, b, c], lookup cells ref = some (itemAt cells ref) :=
      lookup_itemAt (by simp [ha, hb, hc])
    refine lowerSubstr_runs cfg slots bindingName bindingIndex lastUses hmap hlook ?_
      fun item => ?_
    · rw [itemAt_of_lookup ha, itemAt_of_lookup hb]
      exact runsAs_splitNip cfg slots data start
    · rw [itemAt_of_lookup hc]
      exact runsAs_splitDrop cfg slots item length
  | left data length =>
    obtain ⟨a, b, ha, hb, rfl⟩ := operandsAt_two hargs
    have hlook : ∀ ref ∈ [a, b], lookup cells ref = some (itemAt cells ref) :=
      lookup_itemAt (by simp [ha, hb])
    have hcodes : byteOpcodes "left" = some [.OP_SPLIT, .OP_DROP] := rfl
    refine lowerByteOpcodes_runs cfg slots bindingName bindingIndex lastUses hcodes hmap hlook ?_
    show RunsAs cfg slots [.opcode .OP_SPLIT, .opcode .OP_DROP] [itemAt cells b, itemAt cells a] _
    rw [itemAt_of_lookup ha, itemAt_of_lookup hb]
    exact (runsAs_splitDrop cfg slots data length).congr (by simp [emitOps_cons])
  | num2bin value byteLen =>
    obtain ⟨a, b, ha, hb, rfl⟩ := operandsAt_two hargs
    have hlook : ∀ ref ∈ [a, b], lookup cells ref = some (itemAt cells ref) :=
      lookup_itemAt (by simp [ha, hb])
    have hcodes : byteOpcodes "num2bin" = some [.OP_NUM2BIN] := rfl
    refine lowerByteOpcodes_runs cfg slots bindingName bindingIndex lastUses hcodes hmap hlook ?_
    show RunsAs cfg slots [.opcode .OP_NUM2BIN] [itemAt cells b, itemAt cells a] _
    rw [itemAt_of_lookup ha, itemAt_of_lookup hb]
    exact runsAs_num2binOp cfg slots value byteLen
  | bin2num data =>
    obtain ⟨a, _, ha, hnil, rfl⟩ := List.forall₂_cons_right_iff.mp hargs
    cases hnil
    have hlook : ∀ ref ∈ [a], lookup cells ref = some (itemAt cells ref) :=
      lookup_itemAt (by simp [ha])
    have hcodes : byteOpcodes "bin2num" = some [.OP_BIN2NUM] := rfl
    refine lowerByteOpcodes_runs cfg slots bindingName bindingIndex lastUses hcodes hmap hlook ?_
    show RunsAs cfg slots [.opcode .OP_BIN2NUM] [itemAt cells a] _
    rw [itemAt_of_lookup ha]
    exact runsAs_bin2num cfg slots data

/-- The call is compiled to code that agrees with the reference: it leaves the value, or
stops where there is none. -/
def ByteCallAgrees (cfg : Config) (slots : Slots) (ctx : LoweringContext) (cells : List Cell)
    (bindingName : String) (args : List String) (bindingIndex : Nat) (lastUses : LastUses)
    (call : ByteCall) : Prop :=
  ∃ r, ByteCallRuns cfg slots ctx cells bindingName args bindingIndex lastUses call r ∧
    Agrees call.evaluate r

theorem ByteCallRuns.unique {call : ByteCall} {r r' : Except ScriptError Bytes}
    (h : ByteCallRuns cfg slots ctx cells bindingName args bindingIndex lastUses call r)
    (h' : ByteCallRuns cfg slots ctx cells bindingName args bindingIndex lastUses call r') :
    r = r' := by
  obtain ⟨code, hlower, hrun⟩ := h
  obtain ⟨code', hlower', hrun'⟩ := h'
  have hcode := LoweringContext.after_ops_inj (Except.ok.inj (hlower.symm.trans hlower'))
  rw [← hcode] at hrun'
  have houtcome := hrun.outcome_unique hrun'
  cases r <;> cases r' <;> simp_all [Except.map]

/-- A compiled call agrees with the reference exactly where its operands are in range. -/
theorem byteCall_agrees_iff (call : ByteCall) (hmap : ctx.stackMap = slotsOf cells)
    (hargs : OperandsAt cells args call) :
    ByteCallAgrees cfg slots ctx cells bindingName args bindingIndex lastUses call ↔
      call.WithinRange := by
  have hrun : ByteCallRuns cfg slots ctx cells bindingName args bindingIndex lastUses call
      call.compiledItem := byteCall_runs call hmap hargs
  rw [← call.agrees_iff_withinRange]
  constructor
  · rintro ⟨r, hother, hagrees⟩
    rwa [hother.unique hrun] at hagrees
  · exact fun hagrees => ⟨_, hrun, hagrees⟩

end Calls

/-- Lowering with nothing on the stack but `data` and `index`. -/
def dataContext : LoweringContext := .holding [some "index", some "data"]

def dataCells (data : Bytes) (index : Int) : List Cell :=
  [(some "index", encodeNum index), (some "data", data)]

theorem operandsAt_dataCells (data : Bytes) (index : Int) :
    OperandsAt (dataCells data index) ["data", "index"] (.indexAccess data index) :=
  .cons rfl (.cons rfl .nil)

/-- A byte below 0x80 is read alike. -/
theorem byteCall_agrees_iff_low :
    ByteCallAgrees (.hashing id) ⟨fun _ _ => [], []⟩ dataContext (dataCells [0x7f] 0) "t0"
        ["data", "index"] 0 (fun _ => none) (.indexAccess [0x7f] 0) ↔
      (ByteCall.indexAccess [0x7f] 0).WithinRange :=
  byteCall_agrees_iff _ rfl (operandsAt_dataCells [0x7f] 0)

/-- The byte 0xff is -127 on the stack and 255 in the reference. -/
theorem not_byteCall_agrees :
    ¬ ∀ (call : ByteCall) (cfg : Config) (slots : Slots) (ctx : LoweringContext)
        (cells : List Cell) (args : List String) (bindingName : String) (bindingIndex : Nat)
        (lastUses : LastUses), ctx.stackMap = slotsOf cells → OperandsAt cells args call →
        ByteCallAgrees cfg slots ctx cells bindingName args bindingIndex lastUses call := by
  intro hall
  let cfg := Config.hashing id
  let slots : Slots := ⟨fun _ _ => [], []⟩
  let call := ByteCall.indexAccess [0xff] 0
  obtain ⟨r, hruns, hagrees⟩ := hall call cfg slots dataContext (dataCells [0xff] 0)
    ["data", "index"] "t0" 0 (fun _ => none) rfl (operandsAt_dataCells [0xff] 0)
  have hcompiled : ByteCallRuns cfg slots dataContext (dataCells [0xff] 0) "t0"
      ["data", "index"] 0 (fun _ => none) call call.compiledItem :=
    byteCall_runs call rfl (operandsAt_dataCells [0xff] 0)
  rw [hruns.unique hcompiled] at hagrees
  have hrange := (ByteCall.indexAccess_agrees_iff [0xff] 0).mp hagrees
  exact absurd (hrange 0xff le_rfl rfl) (by decide)

end Runar.StackLower
