/-
  Optimizer/FoldBuiltins.lean --- folded math builtins against compiled ones.

  WHAT THIS FILE IS FOR.  The constant folder evaluates a call of a math builtin
  whose arguments are constants, with loops over integers of any size; the compiled
  call runs a sequence whose loops are unrolled a fixed number of times.  This file
  has the folder's evaluation and says on which arguments the two give one number.

  THE LIMITS.  `pow` multiplies at most 32 times, `gcd` divides at most 256 times and
  `log2` halves at most 64 times on chain; `clamp` compares with the bounds in another
  order.  Every other builtin agrees everywhere.
-/
import Runar.StackLower.MathSequences

set_option autoImplicit false

namespace Runar.Optimizer

open Script StackLower

/-! ## The folder -/

def asBigint : ConstValue → Option Int
  | .bigint value => some value
  | _ => none

/-- The loop of `pow`: what is left to multiply, and the product so far. -/
def powLoop (base : Int) : Nat → Int → Int
  | 0, result => result
  | n + 1, result => powLoop base n (result * base)

/-- The loop of `sqrt`: the rounds left, and the guess. -/
def sqrtLoop (n : Int) : Nat → Int → Int
  | 0, guess => guess
  | rounds + 1, guess =>
      let next := (guess + n.tdiv guess).tdiv 2
      if next ≥ guess then guess else sqrtLoop n rounds next

/-- The loop of `gcd`, on magnitudes. -/
def gcdLoop (a b : Nat) : Nat := if _h : b = 0 then a else gcdLoop b (a % b)
termination_by b
decreasing_by exact Nat.mod_lt a (Nat.pos_of_ne_zero _h)

/-- The loop of `log2`, on a positive value. -/
def log2Loop (val bits : Nat) : Nat :=
  if _h : 1 < val then log2Loop (val / 2) (bits + 1) else bits
termination_by val
decreasing_by exact Nat.div_lt_self (by omega) (by decide)

/-- Evaluate a call of a math builtin on constants; `none` leaves the call alone. -/
def evalBuiltinCall (func : String) (args : List ConstValue) : Option ConstValue :=
  let bigintArgs := args.filterMap asBigint
  if bigintArgs.length ≠ args.length then none
  else
    match func, bigintArgs with
    | "abs", [a] => some (.bigint (if a < 0 then -a else a))
    | "min", [a, b] => some (.bigint (if a < b then a else b))
    | "max", [a, b] => some (.bigint (if a > b then a else b))
    | "safediv", [a, b] => if b = 0 then none else some (.bigint (a.tdiv b))
    | "safemod", [a, b] => if b = 0 then none else some (.bigint (a.tmod b))
    | "clamp", [val, lo, hi] =>
        some (.bigint (if val < lo then lo else if val > hi then hi else val))
    | "sign", [n] => some (.bigint (if n > 0 then 1 else if n < 0 then -1 else 0))
    | "pow", [base, exp] =>
        if exp < 0 ∨ exp > 256 then none else some (.bigint (powLoop base exp.toNat 1))
    | "mulDiv", [a, b, c] => if c = 0 then none else some (.bigint ((a * b).tdiv c))
    | "percentOf", [amount, bps] => some (.bigint ((amount * bps).tdiv 10000))
    | "sqrt", [n] =>
        if n < 0 then none else if n = 0 then some (.bigint 0)
        else some (.bigint (sqrtLoop n 256 n))
    | "gcd", [a, b] => some (.bigint (gcdLoop a.natAbs b.natAbs))
    | "divmod", [a, b] => if b = 0 then none else some (.bigint (a.tdiv b))
    | "log2", [n] => some (.bigint (if n ≤ 0 then 0 else log2Loop n.toNat 0))
    | "bool", [n] => some (.boolean (n != 0))
    | _, _ => none

/-! ## What the loops of the folder compute -/

theorem powLoop_eq (base : Int) (n : Nat) (result : Int) :
    powLoop base n result = result * base ^ n := by
  induction n generalizing result with
  | zero => rw [powLoop, pow_zero, mul_one]
  | succ n ih => rw [powLoop, ih, pow_succ', mul_assoc]

theorem gcdLoop_eq (a b : Nat) : gcdLoop a b = a.gcd b := by
  induction b using Nat.strong_induction_on generalizing a with
  | _ b ih =>
    rw [gcdLoop]
    by_cases hb : b = 0
    · rw [dif_pos hb, hb, Nat.gcd_zero_right]
    · rw [dif_neg hb, ih (a % b) (Nat.mod_lt a (Nat.pos_of_ne_zero hb)), Nat.gcd_comm a b,
        Nat.gcd_rec b a, Nat.gcd_comm]

theorem log2Loop_eq (val bits : Nat) : log2Loop val bits = bits + val.log2 := by
  induction val using Nat.strong_induction_on generalizing bits with
  | _ val ih =>
    rw [log2Loop, Nat.log2_def]
    by_cases hval : 1 < val
    · rw [dif_pos hval, if_pos (by omega), ih (val / 2) (by omega)]
      omega
    · rw [dif_neg hval, if_neg (by omega), Nat.add_zero]

/-! ## What the compiled calls compute -/

/-- The number a compiled call leaves; `none` where it stops. -/
def compiledNum : String → List Int → Option Int
  | "abs", [a] => some a.natAbs
  | "min", [a, b] => some (min a b)
  | "max", [a, b] => some (max a b)
  | "safediv", [a, b] => if b = 0 then none else some (a.tdiv b)
  | "safemod", [a, b] => if b = 0 then none else some (a.tmod b)
  | "clamp", [val, lo, hi] => some (min (max val lo) hi)
  | "sign", [n] => some n.sign
  | "pow", [base, exp] => some (base ^ min maxPowIterations exp.toNat)
  | "mulDiv", [a, b, c] => if c = 0 then none else some ((a * b).tdiv c)
  | "percentOf", [amount, bps] => some ((amount * bps).tdiv 10000)
  | "gcd", [a, b] => some ((Euclid.divide^[gcdIterations] (a.natAbs, b.natAbs)).1 : Int)
  | "divmod", [a, b] => if b = 0 then none else some (a.tdiv b)
  | "log2", [n] => some (min log2Iterations n.toNat.log2 : Nat)
  | "bool", [n] => some (if n = 0 then 0 else 1)
  | _, _ => none

/-- How the calls of functions that are no math builtins are lowered. -/
abbrev OtherCalls : Type :=
  String → String → List String → Nat → LastUses → LoweringContext →
    Except CallError LoweringContext

/-- The call is lowered to code that replaces its operands by the item. -/
def CallLeaves (cfg : Config) (slots : Slots) (other : OtherCalls) (ctx : LoweringContext)
    (cells : List Cell) (bindingName func : String) (args : List String) (bindingIndex : Nat)
    (lastUses : LastUses) (item : Bytes) : Prop :=
  ∃ code,
    LoweringContext.lowerCall other bindingName func args bindingIndex lastUses ctx =
      .ok (ctx.after code (some bindingName ::
        slotsOf (takeOperands args bindingIndex lastUses args cells))) ∧
    RunsAs cfg slots code (itemsOf cells)
      (.ok (item :: itemsOf (takeOperands args bindingIndex lastUses args cells)))

/-- The operands are on the stack and hold the numbers. -/
def Holds (cells : List Cell) (args : List String) (xs : List Int) : Prop :=
  List.Forall₂ (fun arg x => lookup cells arg = some (encodeNum x)) args xs

section Compiled

variable {cfg : Config} {slots : Slots} {other : OtherCalls} {ctx : LoweringContext}
  {cells : List Cell} {bindingName func : String} {args : List String} {bindingIndex : Nat}
  {lastUses : LastUses}

theorem CallLeaves.unique {item item' : Bytes}
    (h : CallLeaves cfg slots other ctx cells bindingName func args bindingIndex lastUses item)
    (h' : CallLeaves cfg slots other ctx cells bindingName func args bindingIndex lastUses item') :
    item = item' := by
  obtain ⟨code, hlower, hrun⟩ := h
  obtain ⟨code', hlower', hrun'⟩ := h'
  have hcode := LoweringContext.after_ops_inj (Except.ok.inj (hlower.symm.trans hlower'))
  rw [← hcode] at hrun'
  exact (List.cons.inj (hrun.unique hrun')).1

/-- The value of an operand as an item. -/
def operandItem (cells : List Cell) (ref : String) : Bytes := (lookup cells ref).getD []

theorem operandItem_of_lookup {ref : String} {item : Bytes}
    (h : lookup cells ref = some item) : operandItem cells ref = item := by
  rw [operandItem, h]
  rfl

theorem Holds.lookup_operandItem {xs : List Int} (h : Holds cells args xs) :
    ∀ n ∈ args, lookup cells n = some (operandItem cells n) := by
  induction h with
  | nil => exact fun n hn => by cases hn
  | cons hx _ ih =>
    intro n hn
    rcases List.mem_cons.mp hn with rfl | hn
    · rw [hx, operandItem_of_lookup hx]
    · exact ih n hn

theorem Holds.map_operandItem {xs : List Int} (h : Holds cells args xs) :
    args.map (operandItem cells) = xs.map encodeNum := by
  induction h with
  | nil => rfl
  | cons hx _ ih => rw [List.map_cons, List.map_cons, ih, operandItem_of_lookup hx]

section Families

variable {result : Bytes} (hmap : ctx.stackMap = slotsOf cells)
include hmap

theorem leaves_unary {x : Int} (hargs : Holds cells args [x]) {ops : List StackOp}
    (hops : RunsAs cfg slots ops [encodeNum x] (.ok [result]))
    (hcall : LoweringContext.lowerCall other bindingName func args bindingIndex lastUses ctx =
      LoweringContext.lowerUnary bindingName args bindingIndex lastUses ctx func ops) :
    CallLeaves cfg slots other ctx cells bindingName func args bindingIndex lastUses result := by
  have hlook := hargs.lookup_operandItem
  match args, hargs with
  | [n], .cons hn .nil =>
    rw [← operandItem_of_lookup hn] at hops
    rw [CallLeaves, hcall]
    exact lowerUnary_spec cfg slots bindingName bindingIndex lastUses func hmap
      (hlook n List.mem_cons_self) hops

theorem leaves_binary {x y : Int} (hargs : Holds cells args [x, y]) {ops : List StackOp}
    (hops : RunsAs cfg slots ops [encodeNum y, encodeNum x] (.ok [result]))
    (hcall : LoweringContext.lowerCall other bindingName func args bindingIndex lastUses ctx =
      LoweringContext.lowerBinary bindingName args bindingIndex lastUses ctx func ops) :
    CallLeaves cfg slots other ctx cells bindingName func args bindingIndex lastUses result := by
  have hlook := hargs.lookup_operandItem
  match args, hargs with
  | [a, b], .cons ha (.cons hb .nil) =>
    rw [← operandItem_of_lookup ha, ← operandItem_of_lookup hb] at hops
    rw [CallLeaves, hcall]
    exact lowerBinary_spec cfg slots bindingName bindingIndex lastUses func hmap hlook hops

theorem leaves_ternary {x y z : Int} (hargs : Holds cells args [x, y, z])
    {first second : Opcode} {middle : Bytes}
    (hfirst : RunsAs cfg slots [.opcode first] [encodeNum y, encodeNum x] (.ok [middle]))
    (hsecond : RunsAs cfg slots [.opcode second] [encodeNum z, middle] (.ok [result]))
    (hcall : LoweringContext.lowerCall other bindingName func args bindingIndex lastUses ctx =
      LoweringContext.lowerTernary bindingName args bindingIndex lastUses ctx func first
        second) :
    CallLeaves cfg slots other ctx cells bindingName func args bindingIndex lastUses result := by
  have hlook := hargs.lookup_operandItem
  match args, hargs with
  | [a, b, c], .cons ha (.cons hb (.cons hc .nil)) =>
    rw [← operandItem_of_lookup ha, ← operandItem_of_lookup hb] at hfirst
    rw [← operandItem_of_lookup hc] at hsecond
    rw [CallLeaves, hcall]
    exact lowerTernary_spec cfg slots bindingName bindingIndex lastUses func hmap hlook hfirst
      hsecond

theorem leaves_opcode {xs : List Int} (hargs : Holds cells args xs) {code : Opcode}
    (hcodes : builtinOpcodes func = some [code])
    (hops : RunsAs cfg slots [.opcode code] (xs.map encodeNum).reverse (.ok [result]))
    (hcall : LoweringContext.lowerCall other bindingName func args bindingIndex lastUses ctx =
      LoweringContext.lowerOpcodes bindingName args bindingIndex lastUses ctx func) :
    CallLeaves cfg slots other ctx cells bindingName func args bindingIndex lastUses result := by
  have hitems : itemsOf (operandCells (operandItem cells) args) = (xs.map encodeNum).reverse := by
    rw [itemsOf, operandCells, List.map_reverse, List.map_map, ← hargs.map_operandItem]
    rfl
  rw [← hitems] at hops
  rw [CallLeaves, hcall]
  exact lowerOpcodes_spec cfg slots bindingName bindingIndex lastUses hcodes hmap
    hargs.lookup_operandItem hops

end Families

/-- Lowered where its operands hold numbers, a call leaves its number. -/
theorem compiled_leaves {xs : List Int} {v : Int} (hmap : ctx.stackMap = slotsOf cells)
    (hargs : Holds cells args xs) (hv : compiledNum func xs = some v) :
    CallLeaves cfg slots other ctx cells bindingName func args bindingIndex lastUses
      (encodeNum v) := by
  unfold compiledNum at hv
  split at hv
  case h_1 a =>
    cases hv
    exact leaves_opcode hmap hargs rfl (runsAs_numOp1 cfg slots rfl rfl rfl) rfl
  case h_2 a b =>
    cases hv
    exact leaves_opcode hmap hargs rfl (runsAs_numOp2 cfg slots rfl rfl rfl) rfl
  case h_3 a b =>
    cases hv
    exact leaves_opcode hmap hargs rfl (runsAs_numOp2 cfg slots rfl rfl rfl) rfl
  case h_4 a b =>
    split at hv
    · cases hv
    · rename_i hb
      cases hv
      exact leaves_binary hmap hargs (runsAs_safeDivModOps cfg slots rfl rfl hb (if_neg hb)) rfl
  case h_5 a b =>
    split at hv
    · cases hv
    · rename_i hb
      cases hv
      exact leaves_binary hmap hargs (runsAs_safeDivModOps cfg slots rfl rfl hb (if_neg hb)) rfl
  case h_6 val lo hi =>
    cases hv
    exact leaves_ternary hmap hargs (runsAs_numOp2 cfg slots rfl rfl rfl)
      (runsAs_numOp2 cfg slots rfl rfl rfl) rfl
  case h_7 n =>
    cases hv
    exact leaves_unary hmap hargs (runsAs_signOps cfg slots n) rfl
  case h_8 base exp =>
    cases hv
    exact leaves_binary hmap hargs (runsAs_powOps cfg slots base exp) rfl
  case h_9 a b c =>
    split at hv
    · cases hv
    · rename_i hc
      cases hv
      exact leaves_ternary hmap hargs (runsAs_numOp2 cfg slots rfl rfl rfl)
        (runsAs_numOp2 cfg slots rfl rfl (if_neg hc)) rfl
  case h_10 amount bps =>
    cases hv
    exact leaves_binary hmap hargs (runsAs_percentOfOps cfg slots amount bps) rfl
  case h_11 a b =>
    cases hv
    exact leaves_binary hmap hargs (runsAs_gcdOps cfg slots a b) rfl
  case h_12 a b =>
    split at hv
    · cases hv
    · rename_i hb
      cases hv
      exact leaves_binary hmap hargs (runsAs_divmodOps cfg slots hb) rfl
  case h_13 n =>
    cases hv
    exact leaves_unary hmap hargs (runsAs_log2Ops cfg slots n) rfl
  case h_14 n =>
    cases hv
    have hbool : boolBytes (n != 0) = encodeNum (if n = 0 then 0 else 1) := by
      rw [boolBytes_eq_encodeNum]
      by_cases hn : n = 0 <;> simp [hn]
    rw [← hbool]
    exact leaves_opcode hmap hargs rfl (runsAs_numOp1 cfg slots rfl rfl rfl) rfl
  case h_15 => cases hv

end Compiled

/-! ## Where the two agree -/

/-- The arguments on which the bounds of the compiled loops, and the order in which
`clamp` compares, make no difference. -/
def WithinLimits : String → List Int → Prop
  | "pow", [base, exp] => exp ≤ 32 ∨ base = 0 ∨ base = 1 ∨ base = -1 ∧ exp % 2 = 0
  | "clamp", [val, lo, hi] => lo ≤ hi ∨ lo ≤ val
  | "gcd", [a, b] => Euclid.divisions a.natAbs b.natAbs ≤ 256
  | "log2", [n] => n < 2 ^ 65
  | _, _ => True

/-- A greatest common divisor with a number of fewer than 178 bits is within the
limits. -/
theorem withinLimits_gcd {a b : Int} (h : a.natAbs < Nat.fib 257 ∨ b.natAbs < Nat.fib 257) :
    WithinLimits "gcd" [a, b] :=
  Euclid.divisions_le_of_lt_fib (by decide) h

theorem filterMap_asBigint (xs : List Int) : (xs.map .bigint).filterMap asBigint = xs := by
  induction xs with
  | nil => rfl
  | cons x xs ih => rw [List.map_cons, List.filterMap_cons_some (by rfl), ih]

theorem clamp_iff (val lo hi : Int) :
    min (max val lo) hi = (if val < lo then lo else if val > hi then hi else val) ↔
      lo ≤ hi ∨ lo ≤ val := by
  split
  · omega
  · split <;> omega

/-- A power with the exponent cut off is the power, unless the base grows. -/
theorem pow_min_iff (base : Int) (n : Nat) :
    base ^ min 32 n = base ^ n ↔
      n ≤ 32 ∨ base = 0 ∨ base = 1 ∨ base = -1 ∧ n % 2 = 0 := by
  by_cases hn : n ≤ 32
  · rw [Nat.min_eq_right hn]
    exact ⟨fun _ => .inl hn, fun _ => rfl⟩
  · rw [Nat.min_eq_left (by omega)]
    constructor
    · intro h
      obtain ⟨k, rfl⟩ : ∃ k, n = 32 + k := ⟨n - 32, by omega⟩
      rcases eq_or_ne base 0 with hbase | hbase
      · exact .inr (.inl hbase)
      · rw [pow_add, left_eq_mul₀ (pow_ne_zero 32 hbase), pow_eq_one_iff_cases] at h
        rcases h with hk | hone | ⟨hneg, heven⟩
        · omega
        · exact .inr (.inr (.inl hone))
        · have hmod := Nat.even_iff.mp heven
          exact .inr (.inr (.inr ⟨hneg, by omega⟩))
    · rintro (h | rfl | rfl | ⟨rfl, heven⟩)
      · exact absurd h hn
      · rw [zero_pow (by decide), zero_pow (by omega)]
      · rw [one_pow, one_pow]
      · rw [(by decide : Even 32).neg_one_pow, (Nat.even_iff.mpr heven).neg_one_pow]

theorem log2_min_iff (n : Nat) : min 64 n.log2 = n.log2 ↔ n < 2 ^ 65 := by
  by_cases hn : n = 0
  · subst hn
    decide
  · rw [← Nat.log2_lt hn]
    omega

/-- The folder's constant is the number the compiled call leaves exactly within the
limits. -/
theorem compiledNum_of_folded {func : String} {xs : List Int} {c : ConstValue}
    (hfunc : func ≠ "sqrt") (hfold : evalBuiltinCall func (xs.map .bigint) = some c) :
    ∃ v, compiledNum func xs = some v ∧
      (encodeNum v = (constPush c).toBytes ↔ WithinLimits func xs) := by
  have hnum : ∀ {v w : Int}, encodeNum v = (constPush (.bigint w)).toBytes ↔ v = w := by
    intro v w
    rw [constPush, PushValue.toBytes_bigint]
    exact ⟨encodeNum_inj, congrArg encodeNum⟩
  have hsame : ∀ {v w : Int}, v = w → (encodeNum v = (constPush (.bigint w)).toBytes ↔ True) :=
    fun h => ⟨fun _ => trivial, fun _ => hnum.mpr h⟩
  unfold evalBuiltinCall at hfold
  simp only [filterMap_asBigint, List.length_map, ne_eq, not_true_eq_false, if_false] at hfold
  split at hfold
  case h_1 a =>
    cases hfold
    exact ⟨_, rfl, hsame (by split <;> omega)⟩
  case h_2 a b =>
    cases hfold
    exact ⟨_, rfl, hsame (by split <;> omega)⟩
  case h_3 a b =>
    cases hfold
    exact ⟨_, rfl, hsame (by split <;> omega)⟩
  case h_4 a b =>
    split at hfold
    · cases hfold
    · rename_i hb
      cases hfold
      exact ⟨_, if_neg hb, hsame rfl⟩
  case h_5 a b =>
    split at hfold
    · cases hfold
    · rename_i hb
      cases hfold
      exact ⟨_, if_neg hb, hsame rfl⟩
  case h_6 val lo hi =>
    cases hfold
    exact ⟨_, rfl, hnum.trans (clamp_iff val lo hi)⟩
  case h_7 n =>
    cases hfold
    refine ⟨_, rfl, hsame ?_⟩
    rcases lt_trichotomy n 0 with hneg | rfl | hpos
    · rw [if_neg (by omega), if_pos hneg, Int.sign_eq_neg_one_of_neg hneg]
    · rfl
    · rw [if_pos hpos, Int.sign_eq_one_of_pos hpos]
  case h_8 base exp =>
    split at hfold
    · cases hfold
    · rename_i hexp
      cases hfold
      refine ⟨_, rfl, hnum.trans ?_⟩
      rw [powLoop_eq, one_mul, maxPowIterations, pow_min_iff]
      show _ ↔ exp ≤ 32 ∨ base = 0 ∨ base = 1 ∨ base = -1 ∧ exp % 2 = 0
      omega
  case h_9 a b c =>
    split at hfold
    · cases hfold
    · rename_i hc
      cases hfold
      exact ⟨_, if_neg hc, hsame rfl⟩
  case h_10 amount bps =>
    cases hfold
    exact ⟨_, rfl, hsame rfl⟩
  case h_11 n => exact absurd rfl hfunc
  case h_12 a b =>
    cases hfold
    refine ⟨_, rfl, hnum.trans ?_⟩
    rw [gcdLoop_eq, Int.natCast_inj]
    exact Euclid.iterate_divide_fst_iff (by decide) _ _
  case h_13 a b =>
    split at hfold
    · cases hfold
    · rename_i hb
      cases hfold
      exact ⟨_, if_neg hb, hsame rfl⟩
  case h_14 n =>
    cases hfold
    have hcount : (if n ≤ 0 then (0 : Int) else (log2Loop n.toNat 0 : Nat)) = n.toNat.log2 := by
      rw [log2Loop_eq, Nat.zero_add]
      split
      · rw [show n.toNat = 0 by omega]
        rfl
      · rfl
    refine ⟨_, rfl, hnum.trans ?_⟩
    rw [hcount, Int.natCast_inj, log2Iterations, log2_min_iff]
    show _ ↔ n < 2 ^ 65
    omega
  case h_15 n =>
    cases hfold
    refine ⟨_, rfl, ⟨fun _ => trivial, fun _ => ?_⟩⟩
    rw [constPush, PushValue.toBytes_boolean, boolBytes_eq_encodeNum]
    by_cases hn : n = 0 <;> simp [hn]
  case h_16 => cases hfold

section Agreement

variable {cfg : Config} {slots : Slots} {other : OtherCalls} {ctx : LoweringContext}
  {cells : List Cell} {bindingName func : String} {args : List String} {bindingIndex : Nat}
  {lastUses : LastUses} {xs : List Int}

/-- Wherever the folder gives a constant, the compiled call runs, and it leaves that
constant exactly within the limits. -/
theorem folded_leaves_iff {c : ConstValue} (hfunc : func ≠ "sqrt")
    (hfold : evalBuiltinCall func (xs.map .bigint) = some c)
    (hmap : ctx.stackMap = slotsOf cells) (hargs : Holds cells args xs) :
    CallLeaves cfg slots other ctx cells bindingName func args bindingIndex lastUses
      (constPush c).toBytes ↔ WithinLimits func xs := by
  obtain ⟨v, hv, hiff⟩ := compiledNum_of_folded hfunc hfold
  have hleaves : CallLeaves cfg slots other ctx cells bindingName func args bindingIndex lastUses
      (encodeNum v) := compiled_leaves hmap hargs hv
  constructor
  · exact fun h => hiff.mp (hleaves.unique h)
  · intro h
    rwa [← hiff.mpr h]

end Agreement

/-- A configuration without signatures, for the runs below. -/
def plainConfig : Config where
  requireMinimal := fun _ => true
  sha1 := id
  sha256 := id
  ripemd160 := id
  checkSig := fun _ _ => false
  checkMultiSig := fun _ _ => false
  raw := fun _ m => .ok m

/-- Lowering with nothing but the operands `base` and `exp` on the stack. -/
def powContext : LoweringContext where
  stackMap := [some "exp", some "base"]
  ops := []
  properties := []
  privateMethods := []
  localBindings := []
  outerProtectedRefs := none
  insideBranch := false
  arrayElements := []
  constValues := []
  renamedParams := []

def powCells (base exp : Int) : List Cell :=
  [(some "exp", encodeNum exp), (some "base", encodeNum base)]

theorem holds_powCells (base exp : Int) : Holds (powCells base exp) ["base", "exp"] [base, exp] :=
  .cons rfl (.cons rfl .nil)

/-- The third power of two is folded and compiled alike. -/
theorem folded_leaves_iff_cube :
    CallLeaves plainConfig ⟨fun _ _ => [], []⟩ (fun _ _ _ _ _ ctx => .ok ctx) powContext
      (powCells 2 3) "t0" "pow" ["base", "exp"] 0 (fun _ => none)
      (constPush (.bigint 8)).toBytes ↔ WithinLimits "pow" [2, 3] :=
  folded_leaves_iff (by decide) (by decide) rfl (holds_powCells 2 3)

/-- The folder raises two to the 33rd power, the compiled call only to the 32nd. -/
theorem not_folded_as_compiled :
    ¬ ∀ (func : String) (xs : List Int) (c : ConstValue), func ≠ "sqrt" →
      evalBuiltinCall func (xs.map .bigint) = some c →
      ∀ (cfg : Config) (slots : Slots) (other : OtherCalls) (ctx : LoweringContext)
        (cells : List Cell) (bindingName : String) (args : List String) (bindingIndex : Nat)
        (lastUses : LastUses), ctx.stackMap = slotsOf cells → Holds cells args xs →
        CallLeaves cfg slots other ctx cells bindingName func args bindingIndex lastUses
          (constPush c).toBytes := by
  intro hall
  have hclaimed := hall "pow" [2, 33] (.bigint 8589934592) (by decide) (by decide) plainConfig
    ⟨fun _ _ => [], []⟩ (fun _ _ _ _ _ ctx => .ok ctx) powContext (powCells 2 33) "t0"
    ["base", "exp"] 0 (fun _ => none) rfl (holds_powCells 2 33)
  have hleft : CallLeaves plainConfig ⟨fun _ _ => [], []⟩ (fun _ _ _ _ _ ctx => .ok ctx) powContext
      (powCells 2 33) "t0" "pow" ["base", "exp"] 0 (fun _ => none) (encodeNum 4294967296) :=
    compiled_leaves rfl (holds_powCells 2 33) (by decide)
  have hnum := hclaimed.unique hleft
  rw [constPush, PushValue.toBytes_bigint] at hnum
  exact absurd (encodeNum_inj hnum) (by decide)

end Runar.Optimizer
