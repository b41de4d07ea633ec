/-
  StackLower/ByteSequences.lean --- cutting byte strings.

  WHAT THIS FILE IS FOR.  Code that takes a piece out of a byte string pushes an
  offset, splits and drops what it does not need.  This file runs the few patterns
  the lowering and the code generators use: the piece before an offset, the piece
  behind it, and an offset counted from the end.
-/
import Runar.StackLower.MathSequences

set_option autoImplicit false

namespace Runar

open Script

/-- A machine whose hashes are all `hash` and that accepts no signature. -/
def Script.Config.hashing (hash : Bytes → Bytes) : Config where
  requireMinimal := fun _ => true
  sha1 := hash
  sha256 := hash
  ripemd160 := hash
  checkSig := fun _ _ => false
  checkMultiSig := fun _ _ => false
  raw := fun _ m => .ok m

namespace StackLower

/-- A context of lowering with the slots and nothing else. -/
def LoweringContext.holding (slots : StackMap) : LoweringContext where
  stackMap := slots
  ops := []
  properties := []
  privateMethods := []
  localBindings := []
  outerProtectedRefs := none
  insideBranch := false
  arrayElements := []
  constValues := []
  renamedParams := []

/-- The code decides `b`: it leaves that truth value, and where it is false it may stop
instead. -/
def Decides (cfg : Config) (slots : Slots) (ops : List StackOp) (before : List Bytes)
    (b : Bool) : Prop :=
  RunsAs cfg slots ops before (.ok [boolBytes b]) ∨
    b = false ∧ ∃ e, RunsAs cfg slots ops before (.error e)

section Decisions

variable {cfg : Config} {slots : Slots} {ops : List StackOp} {before : List Bytes}

theorem decides_of_error {e : ScriptError} (h : RunsAs cfg slots ops before (.error e))
    (b : Bool) : Decides cfg slots ops before b ↔ b = false := by
  constructor
  · rintro (hleft | ⟨hb, -⟩)
    · cases h.outcome_unique hleft
    · exact hb
  · exact fun hb => .inr ⟨hb, e, h⟩

theorem decides_of_ok {left : Bool} (h : RunsAs cfg slots ops before (.ok [boolBytes left]))
    (b : Bool) : Decides cfg slots ops before b ↔ b = left := by
  constructor
  · rintro (hleft | ⟨-, e, hstop⟩)
    · have hitems := h.unique hleft
      cases b <;> cases left <;> simp_all [boolBytes]
    · cases h.outcome_unique hstop
  · rintro rfl
    exact .inl h

end Decisions

section Pieces

variable (cfg : Config) (slots : Slots)

theorem runsAs_pushNum (n : Int) :
    RunsAs cfg slots [.push (.bigint n)] [] (.ok [encodeNum n]) := by
  have h := runsAs_push cfg slots (.bigint n)
  rwa [PushValue.toBytes_bigint] at h

theorem runsAs_bin2num (a : Bytes) :
    RunsAs cfg slots [.opcode .OP_BIN2NUM] [a] (.ok [encodeNum (decodeNum a)]) := by
  refine runsAs_opcode cfg slots rfl fun below alt => ?_
  simp [opcodeStep, top1, Except.map]

/-- A split where the machine splits, and a stop where it does not. -/
theorem runsAs_splitAt (a : Bytes) (n : Int) :
    RunsAs cfg slots [.opcode .OP_SPLIT] [encodeNum n, a]
      ((splitAt a n).map fun parts => [parts.2, parts.1]) := by
  refine runsAs_opcode cfg slots rfl fun below alt => ?_
  cases hsplit : splitAt a n <;> simp [opcodeStep, hsplit, Except.map]

/-- A split at the seam of two pieces. -/
theorem runsAs_split {a b : Bytes} {n : Int} (h : n = a.length) :
    RunsAs cfg slots [.opcode .OP_SPLIT] [encodeNum n, a ++ b] (.ok [b, a]) := by
  subst h
  have hsplit := runsAs_splitAt cfg slots (a ++ b) a.length
  rwa [splitAt_append] at hsplit

/-- Keep the first piece. -/
theorem runsAs_takeFirst {a b : Bytes} {n : Nat} (h : a.length = n) :
    RunsAs cfg slots [.push (.bigint n), .opcode .OP_SPLIT, .drop] [a ++ b] (.ok [a]) := by
  have hpush := (runsAs_pushNum cfg slots n).frame [a ++ b]
  have hsplit : RunsAs cfg slots [.opcode .OP_SPLIT] [encodeNum n, a ++ b] (.ok [b, a]) :=
    runsAs_split cfg slots (by rw [h])
  have hdrop := (runsAs_drop cfg slots b).frame [a]
  exact (hpush.append_ok hsplit).append_ok hdrop

/-- Keep what is behind the first piece. -/
theorem runsAs_dropFirst {a b : Bytes} {n : Nat} (h : a.length = n) :
    RunsAs cfg slots [.push (.bigint n), .opcode .OP_SPLIT, .nip] [a ++ b] (.ok [b]) := by
  have hpush := (runsAs_pushNum cfg slots n).frame [a ++ b]
  have hsplit : RunsAs cfg slots [.opcode .OP_SPLIT] [encodeNum n, a ++ b] (.ok [b, a]) :=
    runsAs_split cfg slots (by rw [h])
  exact (hpush.append_ok hsplit).append_ok (runsAs_nip cfg slots b a)

/-- Put the offset of the last piece on top. -/
theorem runsAs_offsetFromEnd {a b : Bytes} {n : Nat} (h : b.length = n) :
    RunsAs cfg slots [.opcode .OP_SIZE, .push (.bigint n), .opcode .OP_SUB] [a ++ b]
      (.ok [encodeNum a.length, a ++ b]) := by
  have hsize := runsAs_size cfg slots (a ++ b)
  have hpush := (runsAs_pushNum cfg slots n).frame [encodeNum (a ++ b).length, a ++ b]
  have hsub : RunsAs cfg slots [.opcode .OP_SUB] [encodeNum n, encodeNum (a ++ b).length]
      (.ok [encodeNum a.length]) := by
    refine runsAs_numOp2 cfg slots rfl rfl ?_
    rw [List.length_append, ← h]
    simp
  exact (hsize.append_ok hpush).append_ok (hsub.frame [a ++ b])

end Pieces

end StackLower

end Runar
