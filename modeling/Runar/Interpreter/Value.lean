/-
  Interpreter/Value.lean --- the values of the source language.

  WHAT THIS FILE IS FOR.  The reference interpreter runs a contract without compiling
  it.  A number that a bitwise or a shift operator computed also carries the bytes it
  has on the stack: these may be longer than the number needs, and then every operator
  that reads it as a number fails, as the opcodes do.
-/
import Runar.Anf.Syntax
import Runar.Script.Machine

set_option autoImplicit false

namespace Runar.Interpreter

open Script

/-- A value at run time. -/
inductive Value where
  | bigint (value : Int) (scriptBytes : Option Bytes)
  | boolean (value : Bool)
  | bytes (value : Bytes)
  | array (elements : List Value)
  /-- the argument for a `StatefulContext` parameter -/
  | context
  | void
  deriving Repr

namespace Value

/-- A plain number. -/
abbrev num (n : Int) : Value := .bigint n none

def isBigint : Value → Bool
  | .bigint _ _ => true
  | _ => false

def isBoolean : Value → Bool
  | .boolean _ => true
  | _ => false

def isBytes : Value → Bool
  | .bytes _ => true
  | _ => false

end Value

/-! ## Operators -/

/-- A number read as a number; its bytes have to be minimal. -/
def numeric (value : Int) (scriptBytes : Option Bytes) : Option Int :=
  match scriptBytes with
  | none => some value
  | some bytes => if bytes = encodeNum value then some value else none

/-- The bytes of a number on the stack. -/
def stackBytes (value : Int) (scriptBytes : Option Bytes) : Bytes :=
  scriptBytes.getD (encodeNum value)

/-- A number that keeps the bytes it was computed as. -/
def ofStackBytes (bytes : Bytes) : Value := .bigint (decodeNum bytes) (some bytes)

def toBool : Value → Option Bool
  | .boolean b => some b
  | .bigint n bytes => (numeric n bytes).map (· != 0)
  | .bytes bs => some (bs.any (· != 0))
  | .void => some false
  | .array _ | .context => none

/-- The byte-wise operators. -/
def byteOperator : BinaryOp → Option (UInt8 → UInt8 → UInt8)
  | .bitAnd => some (· &&& ·)
  | .bitOr => some (· ||| ·)
  | .bitXor => some (· ^^^ ·)
  | _ => none

/-- The shifts, of a byte string read as a number from the left. -/
def shiftOperator : BinaryOp → Option (Nat → Nat → Nat)
  | .shl => some fun v k => v * 2 ^ k
  | .shr => some fun v k => v / 2 ^ k
  | _ => none

/-- The operators that read both operands as numbers. -/
def numericOperator (op : BinaryOp) (a b : Int) : Option Value :=
  match op with
  | .add => some (.num (a + b))
  | .sub => some (.num (a - b))
  | .mul => some (.num (a * b))
  | .div => if b = 0 then none else some (.num (a.tdiv b))
  | .mod => if b = 0 then none else some (.num (a.tmod b))
  | .eq => some (.boolean (a == b))
  | .ne => some (.boolean (a != b))
  | .lt => some (.boolean (decide (a < b)))
  | .le => some (.boolean (decide (a ≤ b)))
  | .gt => some (.boolean (decide (b < a)))
  | .ge => some (.boolean (decide (b ≤ a)))
  | .and | .or | .bitAnd | .bitOr | .bitXor | .shl | .shr => none

/-- Two numbers.  A bitwise operator works on their bytes; a shift reads only its count
as a number. -/
def applyNumbers (op : BinaryOp) (a : Int) (aBytes : Option Bytes) (b : Int)
    (bBytes : Option Bytes) : Option Value :=
  match byteOperator op, shiftOperator op with
  | some f, _ =>
      (Script.bitwise f (stackBytes a aBytes) (stackBytes b bBytes)).toOption.map ofStackBytes
  | none, some f =>
      (numeric b bBytes).bind fun count =>
        (Script.shiftBytes f (stackBytes a aBytes) count).toOption.map ofStackBytes
  | none, none =>
      (numeric a aBytes).bind fun a => (numeric b bBytes).bind fun b => numericOperator op a b

/-- Two byte strings. -/
def applyBytes (op : BinaryOp) (a b : Bytes) : Option Value :=
  match op with
  | .add => some (.bytes (a ++ b))
  | .eq => some (.boolean (a == b))
  | .ne => some (.boolean (a != b))
  | op => (byteOperator op).bind fun f => (Script.bitwise f a b).toOption.map .bytes

/-- The operators other than `&&` and `||`, on evaluated operands. -/
def applyBinary (op : BinaryOp) : Value → Value → Option Value
  | .bigint a aBytes, .bigint b bBytes => applyNumbers op a aBytes b bBytes
  | .boolean a, .boolean b =>
      match op with
      | .eq => some (.boolean (a == b))
      | .ne => some (.boolean (a != b))
      | _ => none
  | .bytes a, .bytes b => applyBytes op a b
  | _, _ => none

def applyUnary (op : UnaryOp) (v : Value) : Option Value :=
  match op with
  | .not => (toBool v).map fun b => .boolean !b
  | .neg =>
      match v with
      | .bigint n bytes => (numeric n bytes).map fun n => .num (-n)
      | _ => none
  | .bitNot =>
      match v with
      | .bigint n bytes => some (ofStackBytes ((stackBytes n bytes).map (~~~ ·)))
      | .bytes bs => some (.bytes (bs.map (~~~ ·)))
      | _ => none

/-! ### What the operators give -/

theorem isBigint_ofStackBytes (bs : Bytes) : (ofStackBytes bs).isBigint := rfl

/-- The operators whose result is a number, when the operands are. -/
def givesNumber : BinaryOp → Bool
  | .add | .sub | .mul | .div | .mod | .bitAnd | .bitOr | .bitXor | .shl | .shr => true
  | _ => false

/-- The operators whose result is a truth value. -/
def givesBoolean : BinaryOp → Bool
  | .eq | .ne | .lt | .le | .gt | .ge => true
  | _ => false

theorem applyNumbers_isBigint {op : BinaryOp} (hop : givesNumber op) {a b : Int}
    {aBytes bBytes : Option Bytes} {v : Value} (h : applyNumbers op a aBytes b bBytes = some v) :
    v.isBigint := by
  unfold applyNumbers at h
  split at h
  · obtain ⟨bs, -, rfl⟩ := Option.map_eq_some_iff.mp h
    exact isBigint_ofStackBytes bs
  · obtain ⟨count, -, h⟩ := Option.bind_eq_some_iff.mp h
    obtain ⟨bs, -, rfl⟩ := Option.map_eq_some_iff.mp h
    exact isBigint_ofStackBytes bs
  · obtain ⟨a, -, h⟩ := Option.bind_eq_some_iff.mp h
    obtain ⟨b, -, h⟩ := Option.bind_eq_some_iff.mp h
    cases op <;> simp_all [numericOperator, givesNumber, byteOperator, shiftOperator]
    all_goals first | (subst h; rfl) | (obtain ⟨-, rfl⟩ := h; rfl)

theorem applyBinary_isBoolean {op : BinaryOp} (hop : givesBoolean op) {x y v : Value}
    (h : applyBinary op x y = some v) : v.isBoolean := by
  unfold applyBinary at h
  split at h
  · unfold applyNumbers at h
    cases op <;> simp_all [givesBoolean, byteOperator, shiftOperator, Option.bind_eq_some_iff,
      numericOperator]
    all_goals (obtain ⟨a, -, b, -, rfl⟩ := h; rfl)
  · cases op <;> simp_all [givesBoolean]
    all_goals (subst h; rfl)
  · cases op <;> simp_all [givesBoolean, applyBytes, byteOperator]
    all_goals (subst h; rfl)
  · cases h

end Runar.Interpreter
