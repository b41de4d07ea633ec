/-
  StackIR/Syntax.lean --- stack operations and the script they emit.

  WHAT THIS FILE IS FOR.  The compiler lowers a method to a list of stack
  operations and then writes that list out as a script.  This file has the
  operations, the encoding of pushed values and the emission, and reads the result
  as instructions of the script machine.

  WHAT EMISSION FORGETS.  A `roll` or `pick` carries its depth for the passes that
  look at it, but emits the bare opcode: the depth is a push of its own in the
  list before it.  A push is emitted with the shortest opcode for its value; every
  such opcode leaves the pushed bytes, so the machine sees a push of those bytes.

  WHAT IS A PARAMETER.  Constructor placeholders and code-separator slots are
  emitted as OP_0 and filled in when the contract is instantiated; the bytes that
  fill them are `Slots`.
-/
import Runar.Script.Machine

set_option autoImplicit false

namespace Runar

open Script

/-! ## Operations -/

/-- A value that a `push` carries. -/
inductive PushValue where
  | bytes (value : Bytes)
  | bigint (value : Int)
  | boolean (value : Bool)
  deriving DecidableEq, Repr

/-- One stack operation.  An absent `else` is the empty list: the emitter writes
the two alike. -/
inductive StackOp where
  | push (value : PushValue)
  | dup
  | swap
  | roll (depth : Nat)
  | pick (depth : Nat)
  | drop
  | opcode (code : Opcode)
  | ifOp (thenOps elseOps : List StackOp)
  | nip
  | over
  | rot
  | tuck
  | placeholder (paramIndex : Nat) (paramName : String)
  | pushCodesepIndex
  | rawBytes (bytes : Bytes) (inArity outArity : Nat)
  deriving Repr

/-! ## Pushed values -/

/-- The loop of `encodeScriptNumber`: the bytes of a magnitude, least significant
first.  `fuel` bounds the number of rounds. -/
def magnitudeBytes : Nat → Nat → Bytes
  | 0, _ => []
  | fuel + 1, abs => if abs > 0 then (abs % 256).toUInt8 :: magnitudeBytes fuel (abs / 256) else []

/-- A bigint as a script number: its magnitude, with the sign in the top bit of
the last byte or, where that bit is taken, in a byte of its own. -/
def encodeScriptNumber (n : Int) : Bytes :=
  if n = 0 then []
  else
    let negative := n < 0
    let bytes := magnitudeBytes n.natAbs.size n.natAbs
    let lastByte := bytes.getLastD 0
    if lastByte &&& 0x80 ≠ 0 then
      bytes ++ [if negative then 0x80 else 0x00]
    else if negative then bytes.dropLast ++ [lastByte ||| 0x80]
    else bytes

/-- The bytes a push leaves on the stack. -/
def PushValue.toBytes : PushValue → Bytes
  | .bytes value => value
  | .bigint value => encodeScriptNumber value
  | .boolean value => boolBytes value

/-! ## Emission -/

/-- What fills the placeholders of a script when the contract is instantiated. -/
structure Slots where
  constructorArg : Nat → String → Bytes
  codeSepIndex : Bytes

mutual

/-- The instructions one operation emits. -/
def emitStackOp (slots : Slots) : StackOp → List Instr
  | .push value => [.push value.toBytes]
  | .dup => [.op .OP_DUP]
  | .swap => [.op .OP_SWAP]
  | .roll _ => [.op .OP_ROLL]
  | .pick _ => [.op .OP_PICK]
  | .drop => [.op .OP_DROP]
  | .nip => [.op .OP_NIP]
  | .over => [.op .OP_OVER]
  | .rot => [.op .OP_ROT]
  | .tuck => [.op .OP_TUCK]
  | .opcode code => [.op code]
  | .ifOp thenOps elseOps =>
      .op .OP_IF :: (emitOps slots thenOps ++
        ((if elseOps.isEmpty then [] else .op .OP_ELSE :: emitOps slots elseOps) ++
          [.op .OP_ENDIF]))
  | .placeholder paramIndex paramName => [.push (slots.constructorArg paramIndex paramName)]
  | .pushCodesepIndex => [.push slots.codeSepIndex]
  | .rawBytes bytes _ _ => [.raw bytes]

/-- The instructions a list of operations emits. -/
def emitOps (slots : Slots) : List StackOp → List Instr
  | [] => []
  | op :: ops => emitStackOp slots op ++ emitOps slots ops

end

/-- Run a list of stack operations. -/
def runOps (cfg : Config) (slots : Slots) (ops : List StackOp) (m : Machine) :
    Except ScriptError Machine :=
  run cfg (emitOps slots ops) m

section Emission

attribute [local simp] emitStackOp emitOps

@[simp] theorem emitStackOp_push (slots : Slots) (value : PushValue) :
    emitStackOp slots (.push value) = [.push value.toBytes] := by
  simp

@[simp] theorem emitStackOp_opcode (slots : Slots) (code : Opcode) :
    emitStackOp slots (.opcode code) = [.op code] := by
  simp

@[simp] theorem emitStackOp_dup (slots : Slots) : emitStackOp slots .dup = [.op .OP_DUP] := by
  simp

@[simp] theorem emitStackOp_swap (slots : Slots) : emitStackOp slots .swap = [.op .OP_SWAP] := by
  simp

@[simp] theorem emitStackOp_drop (slots : Slots) : emitStackOp slots .drop = [.op .OP_DROP] := by
  simp

@[simp] theorem emitStackOp_over (slots : Slots) : emitStackOp slots .over = [.op .OP_OVER] := by
  simp

@[simp] theorem emitStackOp_rot (slots : Slots) : emitStackOp slots .rot = [.op .OP_ROT] := by
  simp

@[simp] theorem emitStackOp_roll (slots : Slots) (depth : Nat) :
    emitStackOp slots (.roll depth) = [.op .OP_ROLL] := by
  simp

@[simp] theorem emitStackOp_pick (slots : Slots) (depth : Nat) :
    emitStackOp slots (.pick depth) = [.op .OP_PICK] := by
  simp

@[simp] theorem emitOps_nil (slots : Slots) : emitOps slots [] = [] := by
  simp

theorem emitOps_cons (slots : Slots) (op : StackOp) (ops : List StackOp) :
    emitOps slots (op :: ops) = emitStackOp slots op ++ emitOps slots ops := by
  simp

end Emission

theorem emitOps_append (slots : Slots) (xs ys : List StackOp) :
    emitOps slots (xs ++ ys) = emitOps slots xs ++ emitOps slots ys := by
  induction xs with
  | nil => simp
  | cons op xs ih => rw [List.cons_append, emitOps_cons, emitOps_cons, ih, List.append_assoc]

theorem runOps_append (cfg : Config) (slots : Slots) (xs ys : List StackOp) (m : Machine) :
    runOps cfg slots (xs ++ ys) m = runOps cfg slots xs m >>= runOps cfg slots ys := by
  unfold runOps
  rw [emitOps_append, run_append]

/-! ## The encoder is the minimal one -/

theorem magnitudeBytes_eq_leBytes {fuel abs w : Nat} (hfuel : w ≤ fuel) (hw : abs < 256 ^ w)
    (hmin : ∀ v, abs < 256 ^ v → w ≤ v) : magnitudeBytes fuel abs = leBytes w abs := by
  induction fuel generalizing abs w with
  | zero =>
      obtain rfl : w = 0 := Nat.le_zero.mp hfuel
      rfl
  | succ fuel ih =>
      rw [magnitudeBytes]
      by_cases habs : abs > 0
      · cases w with
        | zero =>
            rw [Nat.pow_zero] at hw
            omega
        | succ w =>
            have hdiv : abs / 256 < 256 ^ w := by
              rw [Nat.div_lt_iff_lt_mul (by decide), ← Nat.pow_succ]
              exact hw
            have hminDiv : ∀ v, abs / 256 < 256 ^ v → w ≤ v := by
              intro v hv
              rw [Nat.div_lt_iff_lt_mul (by decide), ← Nat.pow_succ] at hv
              exact Nat.le_of_succ_le_succ (hmin (v + 1) hv)
            rw [if_pos habs, leBytes_succ, ih (Nat.le_of_succ_le_succ hfuel) hdiv hminDiv]
      · obtain rfl : abs = 0 := by omega
        have hw0 : w ≤ 0 := hmin 0 (by decide)
        obtain rfl : w = 0 := Nat.le_zero.mp hw0
        rfl

theorem and_signBit_ne_zero (b : UInt8) : b &&& 0x80 ≠ 0 ↔ 128 ≤ b.toNat := by
  have hfin : ∀ x : Fin 256, UInt8.ofNat x.val &&& 0x80 ≠ 0 ↔ 128 ≤ x.val := by
    decide +kernel
  have h := hfin ⟨b.toNat, b.toNat_lt⟩
  rwa [UInt8.ofNat_toNat] at h

theorem or_signBit {x : Nat} (hx : x < 128) : x.toUInt8 ||| 0x80 = (x + 128).toUInt8 := by
  have hfin : ∀ x : Fin 128, x.val.toUInt8 ||| 0x80 = (x.val + 128).toUInt8 := by
    decide +kernel
  exact hfin ⟨x, hx⟩

/-- The compiler's encoder gives the minimal script number. -/
theorem encodeScriptNumber_eq (n : Int) : encodeScriptNumber n = encodeNum n := by
  by_cases hn : n = 0
  · subst hn
    rfl
  have hpos : 0 < n.natAbs := Int.natAbs_pos.mpr hn
  -- `j + 1` is the number of rounds of the loop, `t` the byte the last round pushes
  obtain ⟨j, hj⟩ : ∃ j, (n.natAbs.size + 7) / 8 = j + 1 := by
    have hsize : 0 < n.natAbs.size := Nat.size_pos.mpr hpos
    exact ⟨(n.natAbs.size - 1) / 8, by omega⟩
  have hpow : ∀ v, 256 ^ v = 2 ^ (8 * v) := fun v => by rw [Nat.pow_mul]
  have hlt : n.natAbs < 256 ^ (j + 1) := by
    rw [hpow, ← Nat.size_le]
    omega
  have hloop : magnitudeBytes n.natAbs.size n.natAbs = leBytes (j + 1) n.natAbs := by
    refine magnitudeBytes_eq_leBytes (by omega) hlt ?_
    intro v hv
    rw [hpow, ← Nat.size_le] at hv
    omega
  let t := n.natAbs / 256 ^ j
  have ht : t < 256 := by
    rw [Nat.div_lt_iff_lt_mul (by positivity), ← Nat.pow_succ']
    exact hlt
  have hbytes : magnitudeBytes n.natAbs.size n.natAbs = leBytes j n.natAbs ++ [t.toUInt8] := by
    rw [hloop, leBytes_concat, Nat.mod_eq_of_lt ht]
  have htop : t.toUInt8.toNat = t := by
    rw [Nat.toUInt8_eq, UInt8.toNat_ofNat', Nat.mod_eq_of_lt ht]
  have hsign : 128 ≤ t ↔ signBit (j + 1) ≤ n.natAbs := by
    rw [signBit_succ, Nat.le_div_iff_mul_le (by positivity)]
  rw [encodeScriptNumber, if_neg hn, encodeNum]
  simp only [hbytes, List.getLastD_concat, List.dropLast_concat]
  by_cases hhigh : 128 ≤ t
  · -- the top bit is taken: one more byte carries the sign
    have hwidth : numWidth n.natAbs = j + 1 + 1 := by
      have hle : numWidth n.natAbs ≤ j + 2 := by
        rw [numWidth_le_iff, signBit_succ]
        omega
      have hgt : ¬ numWidth n.natAbs ≤ j + 1 := by
        rw [numWidth_le_iff]
        omega
      omega
    have hword : signed (j + 1 + 1) n = n.natAbs + (if n < 0 then 128 else 0) * 256 ^ (j + 1) := by
      rw [signed, signBit_succ]
      split <;> omega
    have hdiv : signed (j + 1 + 1) n / 256 ^ (j + 1) = if n < 0 then 128 else 0 := by
      rw [hword, Nat.add_mul_div_right _ _ (by positivity), Nat.div_eq_of_lt hlt, Nat.zero_add]
    rw [if_pos ((and_signBit_ne_zero _).mpr (by omega)), hwidth, signedBytes, leBytes_concat, hdiv,
      hword, leBytes_add_mul_pow, ← hbytes, hloop]
    split <;> rfl
  · have hwidth : numWidth n.natAbs = j + 1 := by
      have hle : numWidth n.natAbs ≤ j + 1 := by
        rw [numWidth_le_iff]
        omega
      have hgt : ¬ numWidth n.natAbs ≤ j := by
        rw [numWidth_le_iff]
        cases j with
        | zero => simpa using hpos
        | succ j =>
            have hge : 256 ^ (j + 1) ≤ n.natAbs := by
              rw [hpow, ← Nat.not_lt, ← Nat.size_le]
              omega
            rw [signBit_succ]
            rw [Nat.pow_succ'] at hge
            omega
      omega
    have hword : signed (j + 1) n = n.natAbs + (if n < 0 then 128 else 0) * 256 ^ j := by
      rw [signed, signBit_succ]
      split <;> omega
    have hdiv : signed (j + 1) n / 256 ^ j = t + if n < 0 then 128 else 0 := by
      rw [hword, Nat.add_mul_div_right _ _ (by positivity)]
    have hlow : ¬ t.toUInt8 &&& 0x80 ≠ 0 := by
      rw [and_signBit_ne_zero]
      omega
    rw [if_neg hlow, hwidth, signedBytes, leBytes_concat, hdiv, hword, leBytes_add_mul_pow]
    by_cases hneg : n < 0
    · rw [if_pos hneg, if_pos hneg, or_signBit (by omega), Nat.mod_eq_of_lt (by omega)]
    · rw [if_neg hneg, if_neg hneg, Nat.add_zero, Nat.mod_eq_of_lt ht]

@[simp] theorem PushValue.toBytes_bigint (n : Int) : (PushValue.bigint n).toBytes = encodeNum n :=
  encodeScriptNumber_eq n

@[simp] theorem PushValue.toBytes_bytes (value : Bytes) :
    (PushValue.bytes value).toBytes = value := rfl

@[simp] theorem PushValue.toBytes_boolean (value : Bool) :
    (PushValue.boolean value).toBytes = boolBytes value := rfl

end Runar
