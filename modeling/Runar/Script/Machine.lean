/-
  Script/Machine.lean --- the stack machine that runs scripts.

  WHAT THIS FILE IS FOR.  A script is a flat list of instructions: pushes, opcodes
  and spans of bytes the reader does not look into.  The machine keeps a main
  stack, an alt stack and a stack of conditional flags; an instruction is executed
  only while every flag is true.  `run` is total and computable, and it composes:
  a list of instructions runs as its two halves do (`run_append`).

  STRICT AND RELAXED NUMBERS.  An interpreter may insist that a number operand be
  minimally encoded.  Whether it does is a flag of the configuration, one for each
  opcode, so that a result about one of the two modes can say exactly which
  operands it needs to be minimal.

  WHAT IS A PARAMETER.  Hash functions, signature checks and the effect of a raw
  byte span come with the configuration; the machine is proved about for all of
  them.  Numbers have no length limit.
-/
import Runar.Script.ScriptNum

set_option autoImplicit false

namespace Runar.Script

/-! ## Opcodes and instructions -/

/-- The opcodes, by name.  The four push opcodes that swallow the bytes after
them are not opcodes here: a push is an instruction of its own. -/
inductive Opcode where
  | OP_0 | OP_1NEGATE
  | OP_1 | OP_2 | OP_3 | OP_4 | OP_5 | OP_6 | OP_7 | OP_8
  | OP_9 | OP_10 | OP_11 | OP_12 | OP_13 | OP_14 | OP_15 | OP_16
  | OP_NOP | OP_IF | OP_NOTIF | OP_ELSE | OP_ENDIF | OP_VERIFY | OP_RETURN
  | OP_TOALTSTACK | OP_FROMALTSTACK
  | OP_2DROP | OP_2DUP | OP_3DUP | OP_2OVER | OP_2ROT | OP_2SWAP | OP_IFDUP
  | OP_DEPTH | OP_DROP | OP_DUP | OP_NIP | OP_OVER | OP_PICK | OP_ROLL | OP_ROT
  | OP_SWAP | OP_TUCK
  | OP_CAT | OP_SPLIT | OP_NUM2BIN | OP_BIN2NUM | OP_SIZE
  | OP_INVERT | OP_AND | OP_OR | OP_XOR | OP_EQUAL | OP_EQUALVERIFY
  | OP_1ADD | OP_1SUB | OP_2MUL | OP_2DIV | OP_NEGATE | OP_ABS | OP_NOT | OP_0NOTEQUAL
  | OP_ADD | OP_SUB | OP_MUL | OP_DIV | OP_MOD | OP_LSHIFT | OP_RSHIFT
  | OP_BOOLAND | OP_BOOLOR | OP_NUMEQUAL | OP_NUMEQUALVERIFY | OP_NUMNOTEQUAL
  | OP_LESSTHAN | OP_GREATERTHAN | OP_LESSTHANOREQUAL | OP_GREATERTHANOREQUAL
  | OP_MIN | OP_MAX | OP_WITHIN
  | OP_RIPEMD160 | OP_SHA1 | OP_SHA256 | OP_HASH160 | OP_HASH256
  | OP_CODESEPARATOR | OP_CHECKSIG | OP_CHECKSIGVERIFY
  | OP_CHECKMULTISIG | OP_CHECKMULTISIGVERIFY
  | OP_SUBSTR | OP_LEFT | OP_RIGHT | OP_LSHIFTNUM | OP_RSHIFTNUM
  deriving DecidableEq, Repr

/-- One instruction of a script. -/
inductive Instr where
  /-- a data push -/
  | push (data : Bytes)
  /-- an opcode -/
  | op (code : Opcode)
  /-- a span of bytes taken verbatim -/
  | raw (span : Bytes)
  deriving DecidableEq, Repr

/-- Why a run stopped. -/
inductive ScriptError where
  /-- too few items, or a PICK/ROLL index outside the stack -/
  | invalidStackOperation
  | invalidAltStackOperation
  /-- a VERIFY-type opcode met a false value -/
  | verify
  /-- a number operand that is not minimally encoded, in strict mode -/
  | minimalData
  | divByZero
  /-- a split, shift or substring position out of range -/
  | splitRange
  /-- operands of a bitwise opcode of different lengths -/
  | operandSize
  /-- NUM2BIN with too small a size -/
  | impossibleEncoding
  | unbalancedConditional
  /-- a key or signature count out of range -/
  | sigCount
  /-- an error inside a raw span -/
  | raw
  deriving DecidableEq, Repr

/-- The two data stacks; the head of a list is the top. -/
structure Stacks where
  main : List Bytes
  alt : List Bytes
  deriving DecidableEq, Repr

/-- A machine state: the stacks, the flags of the open conditionals (innermost
first), and whether a RETURN has ended the script. -/
structure Machine extends Stacks where
  exec : List Bool
  returned : Bool
  deriving DecidableEq, Repr

/-- What the machine is run with. -/
structure Config where
  /-- the opcodes whose number operands must be minimal -/
  requireMinimal : Opcode → Bool
  sha1 : Bytes → Bytes
  sha256 : Bytes → Bytes
  ripemd160 : Bytes → Bytes
  /-- `checkSig sig pubKey` in the context of the transaction -/
  checkSig : Bytes → Bytes → Bool
  checkMultiSig : List Bytes → List Bytes → Bool
  /-- the effect of a raw span -/
  raw : Bytes → Machine → Except ScriptError Machine

/-! ## Operand and result helpers -/

section Results

variable {ε α β : Type}

@[simp] theorem ok_bind (a : α) (f : α → Except ε β) : (Except.ok a >>= f) = f a := rfl

@[simp] theorem error_bind (e : ε) (f : α → Except ε β) :
    ((Except.error e : Except ε α) >>= f) = .error e := rfl

@[simp] theorem map_ok (f : α → β) (a : α) : (Except.ok a : Except ε α).map f = .ok (f a) := rfl

@[simp] theorem map_error (f : α → β) (e : ε) :
    (Except.error e : Except ε α).map f = .error e := rfl

end Results

/-- Read a number operand of `code`. -/
def readNum (cfg : Config) (code : Opcode) (bs : Bytes) : Except ScriptError Int :=
  if cfg.requireMinimal code && !decide (IsMinimal bs) then .error .minimalData
  else .ok (decodeNum bs)

theorem readNum_of_isMinimal {cfg : Config} {code : Opcode} {bs : Bytes} (h : IsMinimal bs) :
    readNum cfg code bs = .ok (decodeNum bs) := by
  simp [readNum, h]

@[simp] theorem readNum_encodeNum (cfg : Config) (code : Opcode) (n : Int) :
    readNum cfg code (encodeNum n) = .ok n := by
  rw [readNum_of_isMinimal (isMinimal_encodeNum n), decodeNum_encodeNum]

/-- Replace the top item. -/
def top1 (f : Bytes → Except ScriptError Bytes) (st : Stacks) : Except ScriptError Stacks :=
  match st.main with
  | a :: s => do
      let r ← f a
      .ok { st with main := r :: s }
  | [] => .error .invalidStackOperation

/-- Replace the two top items by one; `f below above`. -/
def top2 (f : Bytes → Bytes → Except ScriptError Bytes) (st : Stacks) :
    Except ScriptError Stacks :=
  match st.main with
  | b :: a :: s => do
      let r ← f a b
      .ok { st with main := r :: s }
  | _ => .error .invalidStackOperation

/-- A unary opcode on numbers. -/
def numOp1 (cfg : Config) (code : Opcode) (f : Int → Except ScriptError Bytes) :
    Stacks → Except ScriptError Stacks :=
  top1 fun a => do
    let x ← readNum cfg code a
    f x

/-- A binary opcode on numbers; `f below above`. -/
def numOp2 (cfg : Config) (code : Opcode) (f : Int → Int → Except ScriptError Bytes) :
    Stacks → Except ScriptError Stacks :=
  top2 fun a b => do
    let x ← readNum cfg code a
    let y ← readNum cfg code b
    f x y

/-- Pop a truth value and stop unless it is true. -/
def verifyTop (st : Stacks) : Except ScriptError Stacks :=
  match st.main with
  | a :: s => if isTruthy a then .ok { st with main := s } else .error .verify
  | [] => .error .invalidStackOperation

/-- Split a byte string at a position. -/
def splitAt (a : Bytes) (n : Int) : Except ScriptError (Bytes × Bytes) :=
  if 0 ≤ n ∧ n ≤ a.length then .ok (a.take n.toNat, a.drop n.toNat)
  else .error .splitRange

theorem splitAt_append (a b : Bytes) : splitAt (a ++ b) a.length = .ok (a, b) := by
  have hrange : (0 : Int) ≤ (a.length : Int) ∧ (a.length : Int) ≤ ((a ++ b).length : Int) := by
    rw [List.length_append]
    omega
  rw [splitAt, if_pos hrange, Int.toNat_natCast, List.take_left, List.drop_left]

/-- A split gives back the two halves of an append at one position only. -/
theorem splitAt_append_iff (a b : Bytes) (n : Int) :
    splitAt (a ++ b) n = .ok (a, b) ↔ n = a.length := by
  constructor
  · intro h
    unfold splitAt at h
    split at h
    · rename_i hrange
      have htake : ((a ++ b).take n.toNat).length = a.length := by
        rw [(Prod.mk.inj (Except.ok.inj h)).1]
      rw [List.length_take] at htake
      omega
    · cases h
  · rintro rfl
    exact splitAt_append a b

/-- The representation of a number in a given width, or an error when it does not
fit. -/
def num2bin (n : Int) (w : Int) : Except ScriptError Bytes :=
  if 0 ≤ w ∧ Fits w.toNat n then .ok (signedBytes w.toNat n)
  else .error .impossibleEncoding

/-- Byte-wise opcodes need operands of one length. -/
def bitwise (f : UInt8 → UInt8 → UInt8) (a b : Bytes) : Except ScriptError Bytes :=
  if a.length = b.length then .ok (List.zipWith f a b) else .error .operandSize

/-- Shift a byte string read as a big-endian bit string, keeping its length. -/
def shiftBytes (f : Nat → Nat → Nat) (a : Bytes) (n : Int) : Except ScriptError Bytes :=
  if n < 0 then .error .splitRange
  else .ok (leBytes a.length (f (leNat a.reverse) n.toNat)).reverse

/-- Pop `n` items, the top one first. -/
def popN : Nat → List Bytes → Except ScriptError (List Bytes × List Bytes)
  | 0, s => .ok ([], s)
  | _ + 1, [] => .error .invalidStackOperation
  | n + 1, a :: s => do
      let (xs, rest) ← popN n s
      .ok (a :: xs, rest)

/-- Pop a count and that many items. -/
def popCounted (cfg : Config) (code : Opcode) (s : List Bytes) :
    Except ScriptError (List Bytes × List Bytes) :=
  match s with
  | [] => .error .invalidStackOperation
  | c :: s' => do
      let n ← readNum cfg code c
      if n < 0 then .error .sigCount else popN n.toNat s'

/-- OP_CHECKMULTISIG: keys with their count, signatures with theirs, and one
unused item below. -/
def checkMultiSigStep (cfg : Config) (st : Stacks) : Except ScriptError Stacks := do
  let (keys, s₁) ← popCounted cfg .OP_CHECKMULTISIG st.main
  let (sigs, s₂) ← popCounted cfg .OP_CHECKMULTISIG s₁
  if keys.length < sigs.length then .error .sigCount
  else
    match s₂ with
    | [] => .error .invalidStackOperation
    | _ :: s₃ => .ok { st with main := boolBytes (cfg.checkMultiSig sigs keys) :: s₃ }

/-! ## One opcode on the stacks -/

/-- Push a number in its minimal form. -/
def pushNum (n : Int) (st : Stacks) : Except ScriptError Stacks :=
  .ok { st with main := encodeNum n :: st.main }

/-- Rearrange the main stack. -/
def shuffle (f : List Bytes → Option (List Bytes)) (st : Stacks) : Except ScriptError Stacks :=
  match f st.main with
  | some s => .ok { st with main := s }
  | none => .error .invalidStackOperation

/-- The effect of an executed opcode on the stacks.  The conditionals and RETURN
act on the machine and are not handled here. -/
def opcodeStep (cfg : Config) (code : Opcode) : Stacks → Except ScriptError Stacks :=
  match code with
  | .OP_0 => pushNum 0
  | .OP_1NEGATE => pushNum (-1)
  | .OP_1 => pushNum 1
  | .OP_2 => pushNum 2
  | .OP_3 => pushNum 3
  | .OP_4 => pushNum 4
  | .OP_5 => pushNum 5
  | .OP_6 => pushNum 6
  | .OP_7 => pushNum 7
  | .OP_8 => pushNum 8
  | .OP_9 => pushNum 9
  | .OP_10 => pushNum 10
  | .OP_11 => pushNum 11
  | .OP_12 => pushNum 12
  | .OP_13 => pushNum 13
  | .OP_14 => pushNum 14
  | .OP_15 => pushNum 15
  | .OP_16 => pushNum 16
  | .OP_NOP | .OP_CODESEPARATOR => .ok
  | .OP_IF | .OP_NOTIF | .OP_ELSE | .OP_ENDIF | .OP_RETURN => .ok
  | .OP_VERIFY => verifyTop
  | .OP_TOALTSTACK => fun st =>
      match st.main with
      | a :: s => .ok { main := s, alt := a :: st.alt }
      | [] => .error .invalidStackOperation
  | .OP_FROMALTSTACK => fun st =>
      match st.alt with
      | a :: t => .ok { main := a :: st.main, alt := t }
      | [] => .error .invalidAltStackOperation
  | .OP_2DROP => shuffle fun
      | _ :: _ :: s => some s
      | _ => none
  | .OP_2DUP => shuffle fun
      | b :: a :: s => some (b :: a :: b :: a :: s)
      | _ => none
  | .OP_3DUP => shuffle fun
      | c :: b :: a :: s => some (c :: b :: a :: c :: b :: a :: s)
      | _ => none
  | .OP_2OVER => shuffle fun
      | d :: c :: b :: a :: s => some (b :: a :: d :: c :: b :: a :: s)
      | _ => none
  | .OP_2ROT => shuffle fun
      | f :: e :: d :: c :: b :: a :: s => some (b :: a :: f :: e :: d :: c :: s)
      | _ => none
  | .OP_2SWAP => shuffle fun
      | d :: c :: b :: a :: s => some (b :: a :: d :: c :: s)
      | _ => none
  | .OP_IFDUP => shuffle fun
      | a :: s => some (if isTruthy a then a :: a :: s else a :: s)
      | [] => none
  | .OP_DEPTH => fun st => pushNum st.main.length st
  | .OP_DROP => shuffle fun
      | _ :: s => some s
      | [] => none
  | .OP_DUP => shuffle fun
      | a :: s => some (a :: a :: s)
      | [] => none
  | .OP_NIP => shuffle fun
      | b :: _ :: s => some (b :: s)
      | _ => none
  | .OP_OVER => shuffle fun
      | b :: a :: s => some (a :: b :: a :: s)
      | _ => none
  | .OP_PICK => fun st =>
      match st.main with
      | [] => .error .invalidStackOperation
      | n :: s => do
          let k ← readNum cfg .OP_PICK n
          if k < 0 then .error .invalidStackOperation
          else
            match s[k.toNat]? with
            | some a => .ok { st with main := a :: s }
            | none => .error .invalidStackOperation
  | .OP_ROLL => fun st =>
      match st.main with
      | [] => .error .invalidStackOperation
      | n :: s => do
          let k ← readNum cfg .OP_ROLL n
          if k < 0 then .error .invalidStackOperation
          else
            match s[k.toNat]? with
            | some a => .ok { st with main := a :: s.eraseIdx k.toNat }
            | none => .error .invalidStackOperation
  | .OP_ROT => shuffle fun
      | c :: b :: a :: s => some (a :: c :: b :: s)
      | _ => none
  | .OP_SWAP => shuffle fun
      | b :: a :: s => some (a :: b :: s)
      | _ => none
  | .OP_TUCK => shuffle fun
      | b :: a :: s => some (b :: a :: b :: s)
      | _ => none
  | .OP_CAT => top2 fun a b => .ok (a ++ b)
  | .OP_SPLIT => fun st =>
      match st.main with
      | n :: a :: s => do
          let k ← readNum cfg .OP_SPLIT n
          let (l, r) ← splitAt a k
          .ok { st with main := r :: l :: s }
      | _ => .error .invalidStackOperation
  | .OP_NUM2BIN => fun st =>
      match st.main with
      | w :: a :: s => do
          let k ← readNum cfg .OP_NUM2BIN w
          let r ← num2bin (decodeNum a) k
          .ok { st with main := r :: s }
      | _ => .error .invalidStackOperation
  | .OP_BIN2NUM => top1 fun a => .ok (encodeNum (decodeNum a))
  | .OP_SIZE => shuffle fun
      | a :: s => some (encodeNum a.length :: a :: s)
      | [] => none
  | .OP_INVERT => top1 fun a => .ok (a.map (~~~ ·))
  | .OP_AND => top2 (bitwise (· &&& ·))
  | .OP_OR => top2 (bitwise (· ||| ·))
  | .OP_XOR => top2 (bitwise (· ^^^ ·))
  | .OP_EQUAL => top2 fun a b => .ok (boolBytes (a == b))
  | .OP_EQUALVERIFY => fun st => do
      let st' ← top2 (fun a b => .ok (boolBytes (a == b))) st
      verifyTop st'
  | .OP_1ADD => numOp1 cfg .OP_1ADD fun x => .ok (encodeNum (x + 1))
  | .OP_1SUB => numOp1 cfg .OP_1SUB fun x => .ok (encodeNum (x - 1))
  | .OP_2MUL => numOp1 cfg .OP_2MUL fun x => .ok (encodeNum (x * 2))
  | .OP_2DIV => numOp1 cfg .OP_2DIV fun x => .ok (encodeNum (x.tdiv 2))
  | .OP_NEGATE => numOp1 cfg .OP_NEGATE fun x => .ok (encodeNum (-x))
  | .OP_ABS => numOp1 cfg .OP_ABS fun x => .ok (encodeNum x.natAbs)
  | .OP_NOT => numOp1 cfg .OP_NOT fun x => .ok (boolBytes (x == 0))
  | .OP_0NOTEQUAL => numOp1 cfg .OP_0NOTEQUAL fun x => .ok (boolBytes (x != 0))
  | .OP_ADD => numOp2 cfg .OP_ADD fun x y => .ok (encodeNum (x + y))
  | .OP_SUB => numOp2 cfg .OP_SUB fun x y => .ok (encodeNum (x - y))
  | .OP_MUL => numOp2 cfg .OP_MUL fun x y => .ok (encodeNum (x * y))
  | .OP_DIV => numOp2 cfg .OP_DIV fun x y =>
      if y = 0 then .error .divByZero else .ok (encodeNum (x.tdiv y))
  | .OP_MOD => numOp2 cfg .OP_MOD fun x y =>
      if y = 0 then .error .divByZero else .ok (encodeNum (x.tmod y))
  | .OP_LSHIFT => top2 fun a b => do
      let n ← readNum cfg .OP_LSHIFT b
      shiftBytes (fun v k => v * 2 ^ k) a n
  | .OP_RSHIFT => top2 fun a b => do
      let n ← readNum cfg .OP_RSHIFT b
      shiftBytes (fun v k => v / 2 ^ k) a n
  | .OP_BOOLAND => numOp2 cfg .OP_BOOLAND fun x y => .ok (boolBytes (x != 0 && y != 0))
  | .OP_BOOLOR => numOp2 cfg .OP_BOOLOR fun x y => .ok (boolBytes (x != 0 || y != 0))
  | .OP_NUMEQUAL => numOp2 cfg .OP_NUMEQUAL fun x y => .ok (boolBytes (x == y))
  -- the fused opcode reads its operands as OP_NUMEQUAL does
  | .OP_NUMEQUALVERIFY => fun st => do
      let st' ← numOp2 cfg .OP_NUMEQUAL (fun x y => .ok (boolBytes (x == y))) st
      verifyTop st'
  | .OP_NUMNOTEQUAL => numOp2 cfg .OP_NUMNOTEQUAL fun x y => .ok (boolBytes (x != y))
  | .OP_LESSTHAN => numOp2 cfg .OP_LESSTHAN fun x y => .ok (boolBytes (decide (x < y)))
  | .OP_GREATERTHAN => numOp2 cfg .OP_GREATERTHAN fun x y => .ok (boolBytes (decide (y < x)))
  | .OP_LESSTHANOREQUAL =>
      numOp2 cfg .OP_LESSTHANOREQUAL fun x y => .ok (boolBytes (decide (x ≤ y)))
  | .OP_GREATERTHANOREQUAL =>
      numOp2 cfg .OP_GREATERTHANOREQUAL fun x y => .ok (boolBytes (decide (y ≤ x)))
  | .OP_MIN => numOp2 cfg .OP_MIN fun x y => .ok (encodeNum (min x y))
  | .OP_MAX => numOp2 cfg .OP_MAX fun x y => .ok (encodeNum (max x y))
  | .OP_WITHIN => fun st =>
      match st.main with
      | hi :: lo :: a :: s => do
          let x ← readNum cfg .OP_WITHIN a
          let l ← readNum cfg .OP_WITHIN lo
          let h ← readNum cfg .OP_WITHIN hi
          .ok { st with main := boolBytes (decide (l ≤ x) && decide (x < h)) :: s }
      | _ => .error .invalidStackOperation
  | .OP_RIPEMD160 => top1 fun a => .ok (cfg.ripemd160 a)
  | .OP_SHA1 => top1 fun a => .ok (cfg.sha1 a)
  | .OP_SHA256 => top1 fun a => .ok (cfg.sha256 a)
  | .OP_HASH160 => top1 fun a => .ok (cfg.ripemd160 (cfg.sha256 a))
  | .OP_HASH256 => top1 fun a => .ok (cfg.sha256 (cfg.sha256 a))
  | .OP_CHECKSIG => top2 fun sig key => .ok (boolBytes (cfg.checkSig sig key))
  | .OP_CHECKSIGVERIFY => fun st => do
      let st' ← top2 (fun sig key => .ok (boolBytes (cfg.checkSig sig key))) st
      verifyTop st'
  | .OP_CHECKMULTISIG => checkMultiSigStep cfg
  | .OP_CHECKMULTISIGVERIFY => fun st => do
      let st' ← checkMultiSigStep cfg st
      verifyTop st'
  | .OP_SUBSTR => fun st =>
      match st.main with
      | len :: start :: a :: s => do
          let n ← readNum cfg .OP_SUBSTR len
          let k ← readNum cfg .OP_SUBSTR start
          let (_, r) ← splitAt a k
          let (m, _) ← splitAt r n
          .ok { st with main := m :: s }
      | _ => .error .invalidStackOperation
  | .OP_LEFT => top2 fun a n => do
      let k ← readNum cfg .OP_LEFT n
      let (l, _) ← splitAt a k
      .ok l
  | .OP_RIGHT => top2 fun a n => do
      let k ← readNum cfg .OP_RIGHT n
      let (_, r) ← splitAt a (a.length - k)
      .ok r
  | .OP_LSHIFTNUM => numOp2 cfg .OP_LSHIFTNUM fun x y =>
      if y < 0 then .error .splitRange else .ok (encodeNum (x * 2 ^ y.toNat))
  | .OP_RSHIFTNUM => numOp2 cfg .OP_RSHIFTNUM fun x y =>
      if y < 0 then .error .splitRange else .ok (encodeNum (x.tdiv (2 ^ y.toNat)))

/-! ## One instruction on the machine -/

namespace Machine

/-- A state outside every conditional. -/
def start (main : List Bytes) (alt : List Bytes) : Machine :=
  { main := main, alt := alt, exec := [], returned := false }

/-- Whether instructions are executed rather than skipped. -/
def running (m : Machine) : Bool := m.exec.all id

/-- Replace the stacks. -/
def withStacks (m : Machine) (st : Stacks) : Machine := { m with toStacks := st }

@[simp] theorem running_start (main alt : List Bytes) : (start main alt).running = true := rfl

@[simp] theorem running_withStacks (m : Machine) (st : Stacks) :
    (m.withStacks st).running = m.running := rfl

@[simp] theorem returned_withStacks (m : Machine) (st : Stacks) :
    (m.withStacks st).returned = m.returned := rfl

@[simp] theorem toStacks_withStacks (m : Machine) (st : Stacks) :
    (m.withStacks st).toStacks = st := rfl

@[simp] theorem withStacks_withStacks (m : Machine) (st st' : Stacks) :
    (m.withStacks st).withStacks st' = m.withStacks st' := rfl

@[simp] theorem withStacks_toStacks (m : Machine) : m.withStacks m.toStacks = m := rfl

end Machine

/-- Open a conditional with the truth value `f` of the popped item. -/
def openIf (f : Bytes → Bool) (m : Machine) : Except ScriptError Machine :=
  if m.running then
    match m.main with
    | a :: s => .ok { m with main := s, exec := f a :: m.exec }
    | [] => .error .invalidStackOperation
  else .ok { m with exec := false :: m.exec }

/-- Run one instruction. -/
def step (cfg : Config) (i : Instr) (m : Machine) : Except ScriptError Machine :=
  if m.returned then .ok m
  else
    match i with
    | .push data =>
        if m.running then .ok { m with main := data :: m.main } else .ok m
    | .raw span => cfg.raw span m
    | .op .OP_IF => openIf isTruthy m
    | .op .OP_NOTIF => openIf (fun a => !isTruthy a) m
    | .op .OP_ELSE =>
        match m.exec with
        | b :: e => .ok { m with exec := (!b) :: e }
        | [] => .error .unbalancedConditional
    | .op .OP_ENDIF =>
        match m.exec with
        | _ :: e => .ok { m with exec := e }
        | [] => .error .unbalancedConditional
    | .op .OP_RETURN =>
        if m.running then .ok { m with returned := true } else .ok m
    | .op code =>
        if m.running then (opcodeStep cfg code m.toStacks).map m.withStacks
        else .ok m

/-- Run a list of instructions. -/
def run (cfg : Config) : List Instr → Machine → Except ScriptError Machine
  | [], m => .ok m
  | i :: is, m => do
      let m' ← step cfg i m
      run cfg is m'

/-! ## Composition -/

@[simp] theorem run_nil (cfg : Config) (m : Machine) : run cfg [] m = .ok m := rfl

theorem run_cons (cfg : Config) (i : Instr) (is : List Instr) (m : Machine) :
    run cfg (i :: is) m = step cfg i m >>= run cfg is := rfl

theorem run_append (cfg : Config) (is js : List Instr) (m : Machine) :
    run cfg (is ++ js) m = run cfg is m >>= run cfg js := by
  induction is generalizing m with
  | nil => rfl
  | cons i is ih =>
      rw [List.cons_append, run_cons, run_cons, bind_assoc]
      congr 1
      funext m'
      exact ih m'

theorem run_singleton (cfg : Config) (i : Instr) (m : Machine) :
    run cfg [i] m = step cfg i m := by
  rw [run_cons]
  cases step cfg i m <;> rfl

/-- Whether an instruction only acts on the stacks: no conditional, no RETURN, no
raw span. -/
def Instr.isPlain : Instr → Bool
  | .push _ => true
  | .raw _ => false
  | .op .OP_IF | .op .OP_NOTIF | .op .OP_ELSE | .op .OP_ENDIF | .op .OP_RETURN => false
  | .op _ => true

@[simp] theorem Instr.isPlain_push (data : Bytes) : (Instr.push data).isPlain = true := rfl

/-- The effect of a plain instruction on the stacks. -/
def plainStep (cfg : Config) : Instr → Stacks → Except ScriptError Stacks
  | .push data => fun st => .ok { st with main := data :: st.main }
  | .raw _ => .ok
  | .op code => opcodeStep cfg code

/-- The effect of a list of plain instructions on the stacks. -/
def plainRun (cfg : Config) : List Instr → Stacks → Except ScriptError Stacks
  | [], st => .ok st
  | i :: is, st => do
      let st' ← plainStep cfg i st
      plainRun cfg is st'

@[simp] theorem plainRun_nil (cfg : Config) (st : Stacks) : plainRun cfg [] st = .ok st := rfl

theorem plainRun_cons (cfg : Config) (i : Instr) (is : List Instr) (st : Stacks) :
    plainRun cfg (i :: is) st = plainStep cfg i st >>= plainRun cfg is := rfl

theorem plainRun_append (cfg : Config) (is js : List Instr) (st : Stacks) :
    plainRun cfg (is ++ js) st = plainRun cfg is st >>= plainRun cfg js := by
  induction is generalizing st with
  | nil => rfl
  | cons i is ih =>
      rw [List.cons_append, plainRun_cons, plainRun_cons, bind_assoc]
      congr 1
      funext st'
      exact ih st'

/-- Where the index is in range, ROLL moves that item to the top. -/
theorem plainRun_roll (c : Config) (k : Nat) (main alt : List Bytes) :
    plainRun c [.push (encodeNum k), .op .OP_ROLL] ⟨main, alt⟩ =
      match main[k]? with
      | some a => .ok ⟨a :: main.eraseIdx k, alt⟩
      | none => .error .invalidStackOperation := by
  have hk : ¬ (k : Int) < 0 := by omega
  simp only [plainRun, plainStep, opcodeStep, readNum_encodeNum, bind, Except.bind, if_neg hk,
    Int.toNat_natCast]
  cases main[k]? <;> rfl

/-- Where the index is in range, PICK copies that item to the top. -/
theorem plainRun_pick (c : Config) (k : Nat) (main alt : List Bytes) :
    plainRun c [.push (encodeNum k), .op .OP_PICK] ⟨main, alt⟩ =
      match main[k]? with
      | some a => .ok ⟨a :: main, alt⟩
      | none => .error .invalidStackOperation := by
  have hk : ¬ (k : Int) < 0 := by omega
  simp only [plainRun, plainStep, opcodeStep, readNum_encodeNum, bind, Except.bind, if_neg hk,
    Int.toNat_natCast]
  cases main[k]? <;> rfl

/-- A plain instruction is executed on the stacks or skipped. -/
theorem step_plain (cfg : Config) {i : Instr} (h : i.isPlain = true) (m : Machine) :
    step cfg i m =
      if m.returned = false ∧ m.running = true then
        (plainStep cfg i m.toStacks).map m.withStacks
      else .ok m := by
  unfold step
  cases hret : m.returned with
  | true => simp
  | false =>
    simp only [Bool.false_eq_true, if_false, true_and]
    by_cases hrun : m.running = true
    · cases i with
      | push data => simp [hrun, hret, plainStep, Except.map, Machine.withStacks]
      | raw span => simp [Instr.isPlain] at h
      | op code => cases code <;> simp_all [plainStep, Instr.isPlain]
    · cases i with
      | push data => simp [hrun]
      | raw span => simp [Instr.isPlain] at h
      | op code => cases code <;> simp_all [Instr.isPlain]

/-- A list of plain instructions is executed on the stacks or skipped. -/
theorem run_plain (cfg : Config) {is : List Instr} (h : ∀ i ∈ is, i.isPlain = true)
    (m : Machine) :
    run cfg is m =
      if m.returned = false ∧ m.running = true then
        (plainRun cfg is m.toStacks).map m.withStacks
      else .ok m := by
  induction is generalizing m with
  | nil => simp [Except.map]
  | cons i is ih =>
      have hi : i.isPlain = true := h i List.mem_cons_self
      have his : ∀ j ∈ is, j.isPlain = true := fun j hj => h j (List.mem_cons_of_mem i hj)
      rw [run_cons, step_plain cfg hi]
      by_cases hm : m.returned = false ∧ m.running = true
      · rw [if_pos hm, if_pos hm, plainRun_cons]
        cases hst : plainStep cfg i m.toStacks with
        | error e => rfl
        | ok st =>
            show run cfg is (m.withStacks st) = (plainRun cfg is st).map m.withStacks
            rw [ih his, if_pos (by simpa using hm), Machine.toStacks_withStacks]
            rfl
      · rw [if_neg hm, if_neg hm]
        show run cfg is m = .ok m
        rw [ih his, if_neg hm]

end Runar.Script
