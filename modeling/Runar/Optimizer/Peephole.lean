/-
  Optimizer/Peephole.lean --- the peephole optimizer.

  WHAT THIS FILE IS FOR.  Before emission the compiler scans each list of stack
  operations for short windows it can replace by fewer operations, and repeats the
  scan until nothing changes.  This file has the rules, one scan and the whole
  pass, as the compiler applies them: nested conditionals first, wider windows
  before narrower ones, and never across a span of raw bytes.
-/
import Runar.StackIR.Syntax

set_option autoImplicit false

namespace Runar.Peephole

open Script

/-! ## Recognising operations -/

def isPush : StackOp → Bool
  | .push _ => true
  | _ => false

def isOpcode (op : StackOp) (code : Opcode) : Bool :=
  match op with
  | .opcode c => c == code
  | _ => false

/-- The number a push carries, if it carries a bigint. -/
def pushedBigInt : StackOp → Option Int
  | .push (.bigint n) => some n
  | _ => none

def isPushBigInt (op : StackOp) (n : Int) : Bool := pushedBigInt op == some n

def isPushZero (op : StackOp) : Bool := isPushBigInt op 0

def isPushOne (op : StackOp) : Bool := isPushBigInt op 1

/-- A roll whose recorded depth is `depth`. -/
def isRoll (op : StackOp) (depth : Nat) : Bool :=
  match op with
  | .roll d => d == depth
  | _ => false

/-- A pick whose recorded depth is `depth`. -/
def isPick (op : StackOp) (depth : Nat) : Bool :=
  match op with
  | .pick d => d == depth
  | _ => false

def isRawBytes : StackOp → Bool
  | .rawBytes _ _ _ => true
  | _ => false

/-- The opcodes that leave the minimal encoding of 0 or 1 and nothing else. -/
def canonicalBoolOpcodes : List Opcode :=
  [.OP_EQUAL, .OP_NUMEQUAL, .OP_NUMNOTEQUAL, .OP_LESSTHAN, .OP_GREATERTHAN, .OP_LESSTHANOREQUAL,
    .OP_GREATERTHANOREQUAL, .OP_BOOLAND, .OP_BOOLOR, .OP_WITHIN, .OP_NOT, .OP_0NOTEQUAL,
    .OP_CHECKSIG, .OP_CHECKMULTISIG]

def producesCanonicalBool : StackOp → Bool
  | .opcode code => canonicalBoolOpcodes.contains code
  | .push (.boolean _) => true
  | .push (.bigint n) => n == 0 || n == 1
  | _ => false

/-! ## Rules -/

/-- A rule: the number of operations it inspects, and what it puts in place of a
window it matches. -/
structure PeepholeRule where
  windowSize : Nat
  matchOps : List StackOp → Option (List StackOp)

/-- A rule that replaces two operations by a fixed list. -/
def pairRule (first second : StackOp → Bool) (replacement : List StackOp) : PeepholeRule where
  windowSize := 2
  matchOps
    | [a, b] => if first a && second b then some replacement else none
    | _ => none

def pushDropElim : PeepholeRule := pairRule isPush (· matches .drop) []

def dupDropElim : PeepholeRule := pairRule (· matches .dup) (· matches .drop) []

def swapSwapElim : PeepholeRule := pairRule (· matches .swap) (· matches .swap) []

def push1AddTo1Add : PeepholeRule := pairRule isPushOne (isOpcode · .OP_ADD) [.opcode .OP_1ADD]

def push1SubTo1Sub : PeepholeRule := pairRule isPushOne (isOpcode · .OP_SUB) [.opcode .OP_1SUB]

def push0AddElim : PeepholeRule := pairRule isPushZero (isOpcode · .OP_ADD) []

def push0SubElim : PeepholeRule := pairRule isPushZero (isOpcode · .OP_SUB) []

/-- Two NOTs normalise; they are dropped only behind an operation that leaves a
canonical truth value. -/
def notNotElim : PeepholeRule where
  windowSize := 3
  matchOps
    | [a, b, c] =>
        if producesCanonicalBool a && isOpcode b .OP_NOT && isOpcode c .OP_NOT then some [a]
        else none
    | _ => none

def negateNegateElim : PeepholeRule :=
  pairRule (isOpcode · .OP_NEGATE) (isOpcode · .OP_NEGATE) []

def equalVerify : PeepholeRule :=
  pairRule (isOpcode · .OP_EQUAL) (isOpcode · .OP_VERIFY) [.opcode .OP_EQUALVERIFY]

def checksigVerify : PeepholeRule :=
  pairRule (isOpcode · .OP_CHECKSIG) (isOpcode · .OP_VERIFY) [.opcode .OP_CHECKSIGVERIFY]

def numequalVerify : PeepholeRule :=
  pairRule (isOpcode · .OP_NUMEQUAL) (isOpcode · .OP_VERIFY) [.opcode .OP_NUMEQUALVERIFY]

def checkmultisigVerify : PeepholeRule :=
  pairRule (isOpcode · .OP_CHECKMULTISIG) (isOpcode · .OP_VERIFY)
    [.opcode .OP_CHECKMULTISIGVERIFY]

def opDupOpDropElim : PeepholeRule := pairRule (isOpcode · .OP_DUP) (isOpcode · .OP_DROP) []

def overOverTo2Dup : PeepholeRule :=
  pairRule (· matches .over) (· matches .over) [.opcode .OP_2DUP]

def dropDropTo2Drop : PeepholeRule :=
  pairRule (· matches .drop) (· matches .drop) [.opcode .OP_2DROP]

def push0Roll0Elim : PeepholeRule := pairRule (isPushBigInt · 0) (isRoll · 0) []

def push1Roll1ToSwap : PeepholeRule := pairRule (isPushBigInt · 1) (isRoll · 1) [.swap]

def push2Roll2ToRot : PeepholeRule := pairRule (isPushBigInt · 2) (isRoll · 2) [.rot]

def push0Pick0ToDup : PeepholeRule := pairRule (isPushBigInt · 0) (isPick · 0) [.dup]

def push1Pick1ToOver : PeepholeRule := pairRule (isPushBigInt · 1) (isPick · 1) [.over]

def sha256Sha256ToHash256 : PeepholeRule :=
  pairRule (isOpcode · .OP_SHA256) (isOpcode · .OP_SHA256) [.opcode .OP_HASH256]

def push0NumequalToNot : PeepholeRule :=
  pairRule isPushZero (isOpcode · .OP_NUMEQUAL) [.opcode .OP_NOT]

/-- A rule that computes a binary opcode on two pushed numbers. -/
def foldRule (code : Opcode) (f : Int → Int → Int) : PeepholeRule where
  windowSize := 3
  matchOps
    | [x, y, op] =>
        match pushedBigInt x, pushedBigInt y with
        | some a, some b => if isOpcode op code then some [.push (.bigint (f a b))] else none
        | _, _ => none
    | _ => none

def foldAdd : PeepholeRule := foldRule .OP_ADD (fun a b => a + b)

def foldSub : PeepholeRule := foldRule .OP_SUB (fun a b => a - b)

def foldMul : PeepholeRule := foldRule .OP_MUL (fun a b => a * b)

/-- A rule that joins two additions, or two subtractions, of pushed numbers. -/
def chainRule (code : Opcode) : PeepholeRule where
  windowSize := 4
  matchOps
    | [x, op₁, y, op₂] =>
        match pushedBigInt x, pushedBigInt y with
        | some a, some b =>
            if isOpcode op₁ code && isOpcode op₂ code then
              some [.push (.bigint (a + b)), .opcode code]
            else none
        | _, _ => none
    | _ => none

def chainAdd : PeepholeRule := chainRule .OP_ADD

def chainSub : PeepholeRule := chainRule .OP_SUB

/-- The rules, in the order they are tried. -/
def rules : List PeepholeRule :=
  [pushDropElim, dupDropElim, swapSwapElim, push1AddTo1Add, push1SubTo1Sub, push0AddElim,
    push0SubElim, notNotElim, negateNegateElim, equalVerify, checksigVerify, numequalVerify,
    checkmultisigVerify, opDupOpDropElim, overOverTo2Dup, dropDropTo2Drop, push0Roll0Elim,
    push1Roll1ToSwap, push2Roll2ToRot, push0Pick0ToDup, push1Pick1ToOver, sha256Sha256ToHash256,
    push0NumequalToNot, foldAdd, foldSub, foldMul, chainAdd, chainSub]

/-! ## One scan -/

/-- The window sizes of the rules, largest first. -/
def windowSizes : List Nat := [4, 3, 2]

/-- What the first matching rule of one size puts in place of the window at the
head of `ops`. -/
def matchWindow (ops : List StackOp) (size : Nat) : Option (List StackOp) :=
  if size > ops.length then none
  else
    let window := ops.take size
    if window.any isRawBytes then none
    else (rules.filter (·.windowSize == size)).findSome? (·.matchOps window)

/-- The first match at the head of `ops`, with the size of its window. -/
def findMatch (ops : List StackOp) : Option (Nat × List StackOp) :=
  windowSizes.findSome? fun size => (matchWindow ops size).map fun replacement =>
    (size, replacement)

/-- The scan of `applyOnePass`; `fuel` bounds the number of rounds. -/
def scan : Nat → List StackOp → List StackOp × Bool
  | 0, ops => (ops, false)
  | _ + 1, [] => ([], false)
  | fuel + 1, op :: rest =>
      if isRawBytes op then
        let r := scan fuel rest
        (op :: r.1, r.2)
      else
        match findMatch (op :: rest) with
        | some (size, replacement) =>
            let r := scan fuel ((op :: rest).drop size)
            (replacement ++ r.1, true)
        | none =>
            let r := scan fuel rest
            (op :: r.1, r.2)

/-- One scan from left to right, and whether it changed anything. -/
def applyOnePass (ops : List StackOp) : List StackOp × Bool := scan ops.length ops

/-! ## The pass -/

/-- Scan until nothing changes, at most the given number of times. -/
def iterate : Nat → List StackOp → List StackOp
  | 0, current => current
  | n + 1, current =>
      let result := applyOnePass current
      if result.2 then iterate n result.1 else current

def maxIterations : Nat := 100

mutual

/-- Optimize the arms of a conditional. -/
def optimizeNestedIf : StackOp → StackOp
  | .ifOp thenOps elseOps =>
      .ifOp (iterate maxIterations (optimizeNestedIfs thenOps))
        (iterate maxIterations (optimizeNestedIfs elseOps))
  | op => op

def optimizeNestedIfs : List StackOp → List StackOp
  | [] => []
  | op :: ops => optimizeNestedIf op :: optimizeNestedIfs ops

end

/-- The optimizer. -/
def optimizeStackIR (ops : List StackOp) : List StackOp :=
  iterate maxIterations (optimizeNestedIfs ops)

theorem optimizeNestedIf_ifOp (thenOps elseOps : List StackOp) :
    optimizeNestedIf (.ifOp thenOps elseOps) =
      .ifOp (optimizeStackIR thenOps) (optimizeStackIR elseOps) := by
  rw [optimizeNestedIf]
  rfl

/-! ## The scan reaches the end -/

theorem windowSize_mem (rule : PeepholeRule) (h : rule ∈ rules) :
    rule.windowSize ∈ windowSizes := by
  have hall : ∀ n ∈ rules.map (·.windowSize), n ∈ windowSizes := by decide
  exact hall _ (List.mem_map_of_mem h)

/-- A matched window is not empty and lies within the list. -/
theorem findMatch_size {ops replacement : List StackOp} {size : Nat}
    (h : findMatch ops = some (size, replacement)) :
    size ∈ windowSizes ∧ matchWindow ops size = some replacement := by
  unfold findMatch at h
  obtain ⟨s, hs, hmap⟩ := List.exists_of_findSome?_eq_some h
  rw [Option.map_eq_some_iff] at hmap
  obtain ⟨r, hr, heq⟩ := hmap
  cases heq
  exact ⟨hs, hr⟩

theorem windowSizes_pos {size : Nat} (h : size ∈ windowSizes) : 0 < size := by
  have hall : ∀ n ∈ windowSizes, 0 < n := by decide
  exact hall size h

/-- Two scans with enough rounds agree. -/
theorem scan_congr (fuel fuel' : Nat) (ops : List StackOp) (h : ops.length ≤ fuel)
    (h' : ops.length ≤ fuel') : scan fuel ops = scan fuel' ops := by
  induction fuel generalizing fuel' ops with
  | zero =>
      obtain rfl : ops = [] := List.length_eq_zero_iff.mp (Nat.le_zero.mp h)
      cases fuel' <;> rfl
  | succ fuel ih =>
      cases ops with
      | nil => cases fuel' <;> rfl
      | cons op rest =>
          cases fuel' with
          | zero => simp at h'
          | succ fuel' =>
              rw [List.length_cons] at h h'
              have hrest : scan fuel rest = scan fuel' rest :=
                ih fuel' rest (by omega) (by omega)
              rw [scan, scan, hrest]
              cases hfind : findMatch (op :: rest) with
              | none => rfl
              | some found =>
                  obtain ⟨size, replacement⟩ := found
                  have hpos : 0 < size := windowSizes_pos (findMatch_size hfind).1
                  have hlen : ((op :: rest).drop size).length ≤ rest.length := by
                    rw [List.length_drop, List.length_cons]
                    omega
                  have hdrop : scan fuel ((op :: rest).drop size) =
                      scan fuel' ((op :: rest).drop size) :=
                    ih fuel' _ (by omega) (by omega)
                  simp only [hdrop]

/-- The scan needs no more rounds than there are operations. -/
theorem scan_eq_applyOnePass {fuel : Nat} {ops : List StackOp} (h : ops.length ≤ fuel) :
    scan fuel ops = applyOnePass ops :=
  scan_congr fuel ops.length ops h (Nat.le_refl _)

end Runar.Peephole
