/-
  StackLower/MathSequences.lean --- what the math sequences compute.

  WHAT THIS FILE IS FOR.  Each builtin on numbers is a fixed sequence of operations.
  This file runs each sequence on the numbers it is given.  A loop is run round by
  round: what one round does to the numbers is proved once, and the loop then does it
  as often as it has rounds.
-/
import Runar.StackLower.MathBuiltins

set_option autoImplicit false

namespace Runar.StackLower

open Script

section Sequences

variable (cfg : Config) (slots : Slots)

/-- A unary opcode on a number. -/
theorem runsAs_numOp1 {code : Opcode} {f : Int → Except ScriptError Bytes} {x : Int}
    {result : Bytes} (hplain : (Instr.op code).isPlain = true)
    (hcode : opcodeStep cfg code = numOp1 cfg code f) (hf : f x = .ok result) :
    RunsAs cfg slots [.opcode code] [encodeNum x] (.ok [result]) := by
  refine runsAs_opcode cfg slots hplain fun below alt => ?_
  rw [hcode]
  simp [numOp1, top1, hf]

/-- A binary opcode on numbers. -/
theorem runsAs_numOp2 {code : Opcode} {f : Int → Int → Except ScriptError Bytes} {x y : Int}
    {result : Bytes} (hplain : (Instr.op code).isPlain = true)
    (hcode : opcodeStep cfg code = numOp2 cfg code f) (hf : f x y = .ok result) :
    RunsAs cfg slots [.opcode code] [encodeNum y, encodeNum x] (.ok [result]) := by
  refine runsAs_opcode cfg slots hplain fun below alt => ?_
  rw [hcode]
  simp [numOp2, top2, hf]

theorem runsAs_safeDivModOps {code : Opcode} {f : Int → Int → Except ScriptError Bytes}
    {x y : Int} {result : Bytes} (hplain : (Instr.op code).isPlain = true)
    (hcode : opcodeStep cfg code = numOp2 cfg code f) (hy : y ≠ 0) (hf : f x y = .ok result) :
    RunsAs cfg slots (safeDivModOps code) [encodeNum y, encodeNum x] (.ok [result]) := by
  have hcheck : RunsAs cfg slots [.opcode .OP_DUP, .opcode .OP_0NOTEQUAL, .opcode .OP_VERIFY]
      [encodeNum y] (.ok [encodeNum y]) := by
    refine .of_plain (by simp [emitOps_cons]; decide) fun below alt => ?_
    simp [emitOps_cons, plainRun, plainStep, opcodeStep, shuffle, numOp1, top1, verifyTop, hy]
  exact (hcheck.frame [encodeNum x]).append_ok (runsAs_numOp2 cfg slots hplain hcode hf)

/-- Round `i` of `pow` multiplies where the exponent is above `i`. -/
theorem runsAs_powRound (base exp acc : Int) (i : Nat) :
    RunsAs cfg slots (powRound i) [encodeNum acc, encodeNum base, encodeNum exp]
      (.ok [encodeNum (if (i : Int) < exp then acc * base else acc), encodeNum base,
        encodeNum exp]) := by
  have htest : RunsAs cfg slots
      [.push (.bigint 2), .opcode .OP_PICK, .push (.bigint i), .opcode .OP_GREATERTHAN]
      [encodeNum acc, encodeNum base, encodeNum exp]
      (.ok (boolBytes (decide ((i : Int) < exp)) ::
        [encodeNum acc, encodeNum base, encodeNum exp])) := by
    refine .of_plain (by simp [emitOps_cons]; decide) fun below alt => ?_
    simp [emitOps_cons, plainRun, plainStep, opcodeStep, numOp2, top2]
  refine htest.append_ok (.ifThen (by simp [emitOps_cons]; decide) ?_ ?_)
  · intro hflag
    rw [isTruthy_boolBytes, decide_eq_true_eq] at hflag
    rw [if_pos hflag]
    refine .of_plain (by simp [emitOps_cons]; decide) fun below alt => ?_
    simp [emitOps_cons, plainRun, plainStep, opcodeStep, numOp2, top2, shuffle]
  · intro hflag
    rw [isTruthy_boolBytes, decide_eq_false_iff_not] at hflag
    rw [if_neg hflag]

/-- `pow` multiplies as often as the exponent says, and no more than the rounds
allow. -/
theorem runsAs_powOps (base exp : Int) :
    RunsAs cfg slots powOps [encodeNum exp, encodeNum base]
      (.ok [encodeNum (base ^ min maxPowIterations exp.toNat)]) := by
  have hstart : RunsAs cfg slots [.swap, .push (.bigint 1)] [encodeNum exp, encodeNum base]
      (.ok [encodeNum (base ^ min 0 exp.toNat), encodeNum base, encodeNum exp]) := by
    refine .of_plain (by simp [emitOps_cons]; decide) fun below alt => ?_
    simp [emitOps_cons, plainRun, plainStep, opcodeStep, shuffle]
  let items : Nat → List Bytes := fun i =>
    [encodeNum (base ^ min i exp.toNat), encodeNum base, encodeNum exp]
  have hround : ∀ i, RunsAs cfg slots (powRound i) (items i) (.ok (items (i + 1))) := by
    intro i
    have hrun := runsAs_powRound cfg slots base exp (base ^ min i exp.toNat) i
    show RunsAs cfg slots _ _ (.ok [encodeNum (base ^ min (i + 1) exp.toNat), _, _])
    by_cases hi : (i : Int) < exp
    · rw [if_pos hi, ← pow_succ] at hrun
      rwa [show min (i + 1) exp.toNat = min i exp.toNat + 1 by omega]
    · rw [if_neg hi] at hrun
      rwa [show min (i + 1) exp.toNat = min i exp.toNat by omega]
  have hloop := RunsAs.rounds hround maxPowIterations
  have hend : ∀ a b c : Bytes, RunsAs cfg slots [.nip, .nip] [a, b, c] (.ok [a]) := fun a b c =>
    ((runsAs_nip cfg slots a b).frame [c]).append_ok (runsAs_nip cfg slots a c)
  exact (hstart.append_ok hloop).append_ok (hend _ _ _)

/-- A round of `gcd` is one division. -/
theorem runsAs_gcdRound (p : Nat × Nat) (i : Nat) :
    RunsAs cfg slots (gcdRound i) [encodeNum (p.2 : Int), encodeNum (p.1 : Int)]
      (.ok [encodeNum ((Euclid.divide p).2 : Int), encodeNum ((Euclid.divide p).1 : Int)]) := by
  obtain ⟨a, b⟩ := p
  have htest : RunsAs cfg slots [.opcode .OP_DUP, .opcode .OP_0NOTEQUAL]
      [encodeNum (b : Int), encodeNum (a : Int)]
      (.ok (boolBytes ((b : Int) != 0) :: [encodeNum (b : Int), encodeNum (a : Int)])) := by
    refine .of_plain (by simp [emitOps_cons]; decide) fun below alt => ?_
    simp [emitOps_cons, plainRun, plainStep, opcodeStep, shuffle, numOp1, top1]
  refine htest.append_ok (.ifThen (by simp [emitOps_cons]; decide) ?_ ?_)
  · intro hflag
    have hb : b ≠ 0 := by simpa using hflag
    rw [Euclid.divide_pos hb]
    refine .of_plain (by simp [emitOps_cons]; decide) fun below alt => ?_
    simp [emitOps_cons, plainRun, plainStep, opcodeStep, numOp2, top2, shuffle, hb,
      Int.tmod_eq_emod_of_nonneg (Int.natCast_nonneg a)]
  · intro hflag
    have hb : b = 0 := by simpa using hflag
    rw [hb, Euclid.divide_zero]

/-- `gcd` makes as many divisions as it has rounds. -/
theorem runsAs_gcdOps (x y : Int) :
    RunsAs cfg slots gcdOps [encodeNum y, encodeNum x]
      (.ok [encodeNum ((Euclid.divide^[gcdIterations] (x.natAbs, y.natAbs)).1 : Int)]) := by
  have hstart : RunsAs cfg slots [.opcode .OP_ABS, .swap, .opcode .OP_ABS, .swap]
      [encodeNum y, encodeNum x]
      (.ok [encodeNum (y.natAbs : Int), encodeNum (x.natAbs : Int)]) := by
    refine .of_plain (by simp [emitOps_cons]; decide) fun below alt => ?_
    simp [emitOps_cons, plainRun, plainStep, opcodeStep, shuffle, numOp1, top1]
  let state : Nat → Nat × Nat := fun i => Euclid.divide^[i] (x.natAbs, y.natAbs)
  let items : Nat → List Bytes := fun i =>
    [encodeNum ((state i).2 : Int), encodeNum ((state i).1 : Int)]
  have hround : ∀ i, RunsAs cfg slots (gcdRound i) (items i) (.ok (items (i + 1))) := by
    intro i
    have hrun := runsAs_gcdRound cfg slots (state i) i
    rw [← Function.iterate_succ_apply' Euclid.divide] at hrun
    exact hrun
  have hloop := RunsAs.rounds hround gcdIterations
  have hend := (runsAs_drop cfg slots (encodeNum ((state gcdIterations).2 : Int))).frame
    [encodeNum ((state gcdIterations).1 : Int)]
  exact (hstart.append_ok hloop).append_ok hend

theorem runsAs_divmodOps {x y : Int} (hy : y ≠ 0) :
    RunsAs cfg slots divmodOps [encodeNum y, encodeNum x] (.ok [encodeNum (x.tdiv y)]) := by
  refine .of_plain (by simp [divmodOps, emitOps_cons]; decide) fun below alt => ?_
  simp [divmodOps, emitOps_cons, plainRun, plainStep, opcodeStep, shuffle, numOp2, top2, hy]

theorem runsAs_percentOfOps (x y : Int) :
    RunsAs cfg slots percentOfOps [encodeNum y, encodeNum x]
      (.ok [encodeNum ((x * y).tdiv 10000)]) := by
  refine .of_plain (by simp [percentOfOps, emitOps_cons]; decide) fun below alt => ?_
  simp [percentOfOps, emitOps_cons, plainRun, plainStep, opcodeStep, numOp2, top2]

/-- One halving of `log2`: the counter and the input after it. -/
def halve (p : Int × Int) : Int × Int := if 1 < p.2 then (p.1 + 1, p.2.tdiv 2) else p

theorem runsAs_log2Round (p : Int × Int) (i : Nat) :
    RunsAs cfg slots (log2Round i) [encodeNum p.1, encodeNum p.2]
      (.ok [encodeNum (halve p).1, encodeNum (halve p).2]) := by
  obtain ⟨counter, input⟩ := p
  have htest : RunsAs cfg slots
      [.swap, .opcode .OP_DUP, .push (.bigint 1), .opcode .OP_GREATERTHAN]
      [encodeNum counter, encodeNum input]
      (.ok (boolBytes (decide (1 < input)) :: [encodeNum input, encodeNum counter])) := by
    refine .of_plain (by simp [emitOps_cons]; decide) fun below alt => ?_
    simp [emitOps_cons, plainRun, plainStep, opcodeStep, shuffle, numOp2, top2]
  have hif : RunsAs cfg slots
      [.ifOp [.push (.bigint 2), .opcode .OP_DIV, .swap, .opcode .OP_1ADD, .swap] []]
      (boolBytes (decide (1 < input)) :: [encodeNum input, encodeNum counter])
      (.ok [encodeNum (halve (counter, input)).2, encodeNum (halve (counter, input)).1]) := by
    refine .ifThen (by simp [emitOps_cons]; decide) ?_ ?_
    · intro hflag
      have hinput : 1 < input := by simpa using hflag
      rw [halve, if_pos hinput]
      refine .of_plain (by simp [emitOps_cons]; decide) fun below alt => ?_
      simp [emitOps_cons, plainRun, plainStep, opcodeStep, numOp1, top1, numOp2, top2, shuffle]
    · intro hflag
      have hinput : ¬ 1 < input := by simpa using hflag
      rw [halve, if_neg hinput]
  exact (htest.append_ok hif).append_ok (runsAs_swap cfg slots _ _)

/-- The number of halvings of a positive number is its logarithm, and each divides by
two. -/
theorem iterate_halve {n : Nat} (hn : n ≠ 0) (k : Nat) :
    halve^[k] (0, (n : Int)) =
      (((min k n.log2 : Nat) : Int), ((n / 2 ^ min k n.log2 : Nat) : Int)) := by
  induction k with
  | zero => simp
  | succ k ih =>
    rw [Function.iterate_succ_apply', ih]
    by_cases hk : k < n.log2
    · have hpow : 2 * 2 ^ k ≤ n := by
        rw [← Nat.pow_succ']
        exact (Nat.pow_le_pow_right (by decide) hk).trans (Nat.log2_self_le hn)
      have hlt : (1 : Int) < ((n / 2 ^ k : Nat) : Int) := by
        have hle := (Nat.le_div_iff_mul_le (by positivity)).mpr hpow
        omega
      have hdiv : n / 2 ^ (k + 1) = n / 2 ^ k / 2 := by
        rw [Nat.div_div_eq_div_mul, Nat.pow_succ]
      rw [show min k n.log2 = k by omega, show min (k + 1) n.log2 = k + 1 by omega, halve,
        if_pos hlt, hdiv]
      rfl
    · have hle : ¬ (1 : Int) < ((n / 2 ^ n.log2 : Nat) : Int) := by
        have hlt : n / 2 ^ n.log2 < 2 := by
          rw [Nat.div_lt_iff_lt_mul (by positivity), ← Nat.pow_succ']
          exact Nat.lt_log2_self
        omega
      rw [show min k n.log2 = n.log2 by omega, show min (k + 1) n.log2 = n.log2 by omega, halve,
        if_neg hle]

theorem iterate_halve_fst (x : Int) (k : Nat) :
    (halve^[k] (0, x)).1 = (min k x.toNat.log2 : Nat) := by
  by_cases hx : 0 < x
  · obtain ⟨n, rfl⟩ : ∃ n : Nat, x = n := ⟨x.toNat, by omega⟩
    rw [iterate_halve (by omega), Int.toNat_natCast]
  · have hstop : halve (0, x) = (0, x) := if_neg (show ¬ (1 : Int) < x by omega)
    rw [Function.iterate_fixed hstop, show x.toNat = 0 by omega]
    simp

/-- `log2` counts no more halvings than it has rounds. -/
theorem runsAs_log2Ops (x : Int) :
    RunsAs cfg slots log2Ops [encodeNum x]
      (.ok [encodeNum (min log2Iterations x.toNat.log2 : Nat)]) := by
  let state : Nat → Int × Int := fun i => halve^[i] (0, x)
  let items : Nat → List Bytes := fun i => [encodeNum (state i).1, encodeNum (state i).2]
  have hround : ∀ i, RunsAs cfg slots (log2Round i) (items i) (.ok (items (i + 1))) := by
    intro i
    have hrun := runsAs_log2Round cfg slots (state i) i
    rw [← Function.iterate_succ_apply' halve] at hrun
    exact hrun
  have hstart : RunsAs cfg slots [.push (.bigint 0)] [encodeNum x] (.ok (items 0)) := by
    have hpush := (runsAs_push cfg slots (.bigint 0)).frame [encodeNum x]
    simpa [items, state] using hpush
  have hend := runsAs_nip cfg slots (encodeNum (state log2Iterations).1)
    (encodeNum (state log2Iterations).2)
  rw [← iterate_halve_fst]
  exact (hstart.append_ok (RunsAs.rounds hround log2Iterations)).append_ok hend

theorem abs_tdiv_self {x : Int} (hx : x ≠ 0) : |x|.tdiv x = x.sign := by
  rcases lt_or_gt_of_ne hx with hneg | hpos
  · rw [abs_of_neg hneg, Int.neg_tdiv, Int.tdiv_self hx, Int.sign_eq_neg_one_of_neg hneg]
  · rw [abs_of_pos hpos, Int.tdiv_self hx, Int.sign_eq_one_of_pos hpos]

/-- `sign` divides the magnitude of a number by the number. -/
theorem runsAs_signOps (x : Int) :
    RunsAs cfg slots signOps [encodeNum x] (.ok [encodeNum x.sign]) := by
  have htest : RunsAs cfg slots [.opcode .OP_DUP] [encodeNum x]
      (.ok (encodeNum x :: [encodeNum x])) :=
    runsAs_opcode cfg slots rfl fun _ _ => rfl
  refine htest.append_ok (.ifThen (by simp [emitOps_cons]; decide) ?_ ?_)
  · intro hflag
    have hx : x ≠ 0 := by simpa using hflag
    refine .of_plain (by simp [emitOps_cons]; decide) fun below alt => ?_
    simp [emitOps_cons, plainRun, plainStep, opcodeStep, numOp1, top1, numOp2, top2, shuffle, hx,
      abs_tdiv_self hx]
  · intro hflag
    have hx : x = 0 := by simpa using hflag
    rw [hx]
    rfl

end Sequences

end Runar.StackLower
