/-
  Optimizer/SquareRoot.lean --- sqrt, compiled and folded.

  WHAT THIS FILE IS FOR.  Both sides of `sqrt` are Newton's iteration from the number
  itself.  The folder stops when the guess no longer goes down; the compiled call
  makes sixteen rounds whatever happens.  This file says for which numbers the two
  leave the square root, rounded down.

  THE ROUNDS.  Sixteen rounds do not bring a large number down to its root, and
  where the root is no fixed point the guess may leave it again.
-/
import Runar.Logic.Newton
import Runar.Optimizer.FoldBuiltins

set_option autoImplicit false

namespace Runar.Optimizer

open Script StackLower

/-! ## The compiled rounds -/

/-- A round in the numbers of the script. -/
theorem natCast_next (n x : Nat) :
    ((Newton.next n x : Nat) : Int) = ((x : Int) + (n : Int).tdiv x).tdiv 2 := by
  unfold Newton.next
  rw [Int.ofNat_tdiv, Int.natCast_add, Int.ofNat_tdiv]
  rfl

section Sequences

variable (cfg : Config) (slots : Slots)

/-- Rounds of plain code are plain code. -/
theorem plain_flatMap {round : Nat → List StackOp}
    (h : ∀ i, (emitOps slots (round i)).all Instr.isPlain = true) (indices : List Nat) :
    (emitOps slots (indices.flatMap round)).all Instr.isPlain = true := by
  induction indices with
  | nil => simp
  | cons i indices ih => rw [List.flatMap_cons, emitOps_append, List.all_append, h i, ih]; rfl

theorem plain_sqrtRound (i : Nat) : (emitOps slots (sqrtRound i)).all Instr.isPlain = true := by
  simp [sqrtRound, emitOps_cons]
  decide

theorem runsAs_sqrtRound (n : Nat) {x : Nat} (hx : x ≠ 0) (i : Nat) :
    RunsAs cfg slots (sqrtRound i) [encodeNum (x : Int), encodeNum (n : Int)]
      (.ok [encodeNum (Newton.next n x : Nat), encodeNum (n : Int)]) := by
  rw [natCast_next]
  refine .of_plain (plain_sqrtRound slots i) fun below alt => ?_
  simp [sqrtRound, emitOps_cons, plainRun, plainStep, opcodeStep, shuffle, numOp2, top2, hx]

/-- The compiled call makes all of its rounds, but for zero. -/
theorem runsAs_sqrtOps (n : Nat) :
    RunsAs cfg slots sqrtOps [encodeNum (n : Int)]
      (.ok [encodeNum ((Newton.next n)^[sqrtIterations] n : Nat)]) := by
  have htest : RunsAs cfg slots [.opcode .OP_DUP] [encodeNum (n : Int)]
      (.ok (encodeNum (n : Int) :: [encodeNum (n : Int)])) :=
    runsAs_opcode cfg slots rfl fun _ _ => rfl
  have hplain : (emitOps slots ([.opcode .OP_DUP] ++ (List.range sqrtIterations).flatMap sqrtRound ++
      [.nip])).all Instr.isPlain = true := by
    rw [emitOps_append, emitOps_append, List.all_append, List.all_append,
      plain_flatMap slots (plain_sqrtRound slots)]
    simp [emitOps_cons, emitStackOp]
    decide
  refine htest.append_ok (.ifThen hplain ?_ ?_)
  · intro hflag
    have hn : 0 < n := by simpa [Nat.pos_iff_ne_zero] using hflag
    let items : Nat → List Bytes := fun i =>
      [encodeNum ((Newton.next n)^[i] n : Nat), encodeNum (n : Int)]
    have hround : ∀ i, RunsAs cfg slots (sqrtRound i) (items i) (.ok (items (i + 1))) := by
      intro i
      have hrun := runsAs_sqrtRound cfg slots n (Newton.iterate_next_pos hn i).ne' i
      rw [← Function.iterate_succ_apply' (Newton.next n)] at hrun
      exact hrun
    exact (htest.append_ok (RunsAs.rounds hround sqrtIterations)).append_ok
      (runsAs_nip cfg slots _ _)
  · intro hflag
    have hn : n = 0 := by simpa using hflag
    rw [hn]
    rfl

end Sequences

/-! ## The folder -/

/-- The folder has the root after the rounds down to it. -/
theorem sqrtLoop_eq {n : Nat} (hn : 0 < n) (k : Nat) {x : Nat} (hx : n.sqrt ≤ x)
    (h : Newton.roundsFrom n x ≤ k) : sqrtLoop n k x = n.sqrt := by
  induction k generalizing x with
  | zero =>
    rcases hx.eq_or_lt with rfl | hlt
    · rfl
    · rw [Newton.roundsFrom_above hlt] at h
      omega
  | succ k ih =>
    show (if ((x : Int) + (n : Int).tdiv x).tdiv 2 ≥ x then (x : Int) else
      sqrtLoop n k (((x : Int) + (n : Int).tdiv x).tdiv 2)) = _
    rw [← natCast_next]
    rcases hx.eq_or_lt with rfl | hlt
    · rw [if_pos (Int.ofNat_le.mpr (Newton.sqrt_le_next n (Nat.sqrt_pos.mpr hn)))]
    · have hdown := Newton.next_lt hlt
      rw [if_neg (by omega)]
      rw [Newton.roundsFrom_above hlt, Nat.add_le_add_iff_right] at h
      exact ih (Newton.sqrt_le_next n (Nat.zero_lt_of_lt hlt)) h

theorem folded_sqrt {n : Nat} (h : Newton.rounds n ≤ 256) :
    evalBuiltinCall "sqrt" [ConstValue.bigint n] = some (ConstValue.bigint n.sqrt) := by
  show (if (n : Int) < 0 then none else if (n : Int) = 0 then some (ConstValue.bigint 0) else
    some (ConstValue.bigint (sqrtLoop n 256 n))) = _
  rw [if_neg (by omega)]
  rcases Nat.eq_zero_or_pos n with rfl | hn
  · rfl
  · rw [if_neg (by omega), sqrtLoop_eq hn 256 n.sqrt_le_self h]

/-! ## Compiled and folded alike -/

section Agreement

variable (cfg : Config) (slots : Slots) (other : OtherCalls) (ctx : LoweringContext)
  (cells : List Cell) (bindingName arg : String) (bindingIndex : Nat) (lastUses : LastUses)

/-- The compiled call and the folder give the greatest number whose square is not
above the operand. -/
def SqrtRight (n : Nat) : Prop :=
  ∃ r : Nat, IsGreatest {s : Nat | s * s ≤ n} r ∧
    CallLeaves cfg slots other ctx cells bindingName "sqrt" [arg] bindingIndex lastUses
      (encodeNum (r : Int)) ∧
    evalBuiltinCall "sqrt" [ConstValue.bigint n] = some (ConstValue.bigint r)

/-- Sixteen rounds bring the number down to its root, and leave it there. -/
def SettlesAtRoot (n : Nat) : Prop :=
  Newton.rounds n ≤ 16 ∧ (IsSquare (n + 1) → Even (16 - Newton.rounds n))

theorem isGreatest_sqrt (n : Nat) : IsGreatest {s : Nat | s * s ≤ n} n.sqrt :=
  ⟨n.sqrt_le, fun _ hs => Nat.le_sqrt.mpr hs⟩

/-- The compiled call leaves the sixteenth guess. -/
theorem callLeaves_sqrt {n : Nat} (hmap : ctx.stackMap = slotsOf cells)
    (harg : lookup cells arg = some (encodeNum (n : Int))) :
    CallLeaves cfg slots other ctx cells bindingName "sqrt" [arg] bindingIndex lastUses
      (encodeNum ((Newton.next n)^[sqrtIterations] n : Nat)) :=
  leaves_unary hmap (.cons harg .nil) (runsAs_sqrtOps cfg slots n) rfl

theorem iterate_next_sixteen_iff (n : Nat) :
    (Newton.next n)^[sqrtIterations] n = n.sqrt ↔ SettlesAtRoot n := by
  rcases Nat.eq_zero_or_pos n with rfl | hn
  · have hrounds : Newton.rounds 0 = 0 := Newton.roundsFrom_sqrt 0
    have hsettles : SettlesAtRoot 0 := by
      rw [SettlesAtRoot, hrounds]
      exact ⟨by decide, fun _ => by decide⟩
    exact iff_of_true (Function.iterate_fixed rfl sqrtIterations) hsettles
  · exact Newton.iterate_next_iff hn sqrtIterations n.sqrt_le_self

/-- `sqrt` is the square root, compiled and folded, exactly where sixteen rounds settle at the
root; they do for every number below 2^16 that is not one below a square, and for none from
65537^2 on. -/
theorem sqrtRight_iff {n : Nat} (hmap : ctx.stackMap = slotsOf cells)
    (harg : lookup cells arg = some (encodeNum (n : Int))) :
    (SqrtRight cfg slots other ctx cells bindingName arg bindingIndex lastUses n ↔
      SettlesAtRoot n) ∧
    (n < 2 ^ 16 → ¬ IsSquare (n + 1) → SettlesAtRoot n) ∧
    (65537 * 65537 ≤ n → ¬ SettlesAtRoot n) := by
  have hleaves := callLeaves_sqrt cfg slots other ctx cells bindingName arg bindingIndex lastUses
    hmap harg
  refine ⟨⟨?_, fun h => ?_⟩, fun hlt hsquare => ?_, fun hle h => ?_⟩
  · rintro ⟨r, hr, hcompiled, -⟩
    obtain rfl := hr.unique (isGreatest_sqrt n)
    have hnum := encodeNum_inj (hleaves.unique hcompiled)
    exact (iterate_next_sixteen_iff n).mp (Int.ofNat_inj.mp hnum)
  · rw [(iterate_next_sixteen_iff n).mpr h] at hleaves
    exact ⟨n.sqrt, isGreatest_sqrt n, hleaves, folded_sqrt (h.1.trans (by decide))⟩
  · exact ⟨Newton.rounds_le hlt, fun h => absurd h hsquare⟩
  · exact absurd h.1 (Nat.not_le_of_lt (Newton.lt_rounds hle))

end Agreement

/-- Lowering with nothing but the operand on the stack. -/
def rootContext : LoweringContext := { powContext with stackMap := [some "n"] }

def rootCells (n : Int) : List Cell := [(some "n", encodeNum n)]

/-- The square root of ten is compiled and folded alike. -/
theorem sqrtRight_iff_ten :
    SqrtRight plainConfig ⟨fun _ _ => [], []⟩ (fun _ _ _ _ _ ctx => .ok ctx) rootContext
      (rootCells 10) "t0" "n" 0 (fun _ => none) 10 := by
  have hten : ¬ IsSquare (10 + 1) := by decide +kernel
  obtain ⟨hiff, hsmall, -⟩ := sqrtRight_iff plainConfig ⟨fun _ _ => [], []⟩
    (fun _ _ _ _ _ ctx => .ok ctx) rootContext (rootCells 10) "t0" "n" 0 (fun _ => none) rfl rfl
  exact hiff.mpr (hsmall (by decide) hten)

/-- For eight the guess goes down to two after three rounds, and thirteen more leave it at
three. -/
theorem not_sqrtRight :
    ¬ ∀ (cfg : Config) (slots : Slots) (other : OtherCalls) (ctx : LoweringContext)
        (cells : List Cell) (bindingName arg : String) (bindingIndex : Nat)
        (lastUses : LastUses) (n : Nat), ctx.stackMap = slotsOf cells →
        lookup cells arg = some (encodeNum (n : Int)) →
        SqrtRight cfg slots other ctx cells bindingName arg bindingIndex lastUses n := by
  intro hall
  obtain ⟨r, hr, hcompiled, -⟩ := hall plainConfig ⟨fun _ _ => [], []⟩
    (fun _ _ _ _ _ ctx => .ok ctx) rootContext (rootCells 8) "t0" "n" 0 (fun _ => none) 8 rfl rfl
  have hleaves := callLeaves_sqrt plainConfig ⟨fun _ _ => [], []⟩
    (fun _ _ _ _ _ ctx => .ok ctx) rootContext (rootCells 8) "t0" "n" 0 (fun _ => none) rfl rfl
  have hlast : (Newton.next 8)^[sqrtIterations] 8 = 3 := by decide +kernel
  have hthree : r = 3 := by
    have hnum := encodeNum_inj (hcompiled.unique hleaves)
    rw [hlast] at hnum
    exact Int.ofNat_inj.mp hnum
  have hsquare : r * r ≤ 8 := hr.1
  rw [hthree] at hsquare
  exact absurd hsquare (by decide)

end Runar.Optimizer
