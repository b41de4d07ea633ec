/-
  StackLower/Merkle.lean --- Merkle roots.

  WHAT THIS FILE IS FOR.  A Merkle proof is the siblings on the way from a leaf to the
  root, and the bits of the leaf's index say on which side each of them stands.  The
  compiled code takes one sibling a level from the front of the proof; the reference
  copies both halves of a node into an array of 64 bytes.  This file has both and
  proves that they give the same root for leaves that fill their half.
-/
import Runar.StackIR.RunsOn
import Runar.StackLower.ByteSequences

set_option autoImplicit false

namespace Runar.StackLower.Merkle

open Script

/-- The hash of a node: one round of SHA-256, or two. -/
def nodeHash (sha256 : Bytes → Bytes) (useSha256 : Bool) (preimage : Bytes) : Bytes :=
  if useSha256 then sha256 preimage else sha256 (sha256 preimage)

/-- The sibling of a level in the proof. -/
def sibling (proof : Bytes) (i : Nat) : Bytes := (proof.drop (32 * i)).take 32

/-- The bit of the index for a level. -/
def bit (index i : Nat) : Nat := index / 2 ^ i % 2

/-- The siblings folded into a leaf, the lowest bit of the index first. -/
def foldSiblings (hash : Bytes → Bytes) (leaf proof : Bytes) (index : Nat) : Nat → Bytes
  | 0 => leaf
  | i + 1 =>
      let current := foldSiblings hash leaf proof index i
      hash (if bit index i = 1 then sibling proof i ++ current else current ++ sibling proof i)

/-! ## The reference -/

/-- `array.set(source, offset)`. -/
def setBytes (array source : Bytes) (offset : Nat) : Except String Bytes :=
  if offset + source.length ≤ array.length then
    .ok (array.take offset ++ source ++ array.drop (offset + source.length))
  else .error "offset is out of bounds"

/-- One level of the reference. -/
def merkleStep (sha256 : Bytes → Bytes) (useSha256 : Bool) (proof : Bytes) (index : Nat)
    (current : Bytes) (i : Nat) : Except String Bytes := do
  let preimage := List.replicate 64 0
  let preimage ←
    if bit index i = 1 then do
      let preimage ← setBytes preimage (sibling proof i) 0
      setBytes preimage current 32
    else do
      let preimage ← setBytes preimage current 0
      setBytes preimage (sibling proof i) 32
  .ok (nodeHash sha256 useSha256 preimage)

/-- The root that the reference interpreter computes. -/
def merkleRoot (sha256 : Bytes → Bytes) (useSha256 : Bool) (leaf proof : Bytes)
    (index depth : Nat) : Except String Bytes :=
  (List.range depth).foldlM (merkleStep sha256 useSha256 proof index) leaf

/-! ## The emitted code -/

/-- Take the next sibling; the rest of the proof goes to the alt stack. -/
def siblingOps : List StackOp :=
  [.swap, .push (.bigint 32), .opcode .OP_SPLIT, .opcode .OP_TOALTSTACK, .swap]

/-- The bit of the index on top. -/
def bitOps (i : Nat) : List StackOp :=
  [.opcode .OP_DUP] ++
    (if i = 1 then [.opcode .OP_2DIV]
      else if i > 1 then [.push (.bigint i), .opcode .OP_RSHIFTNUM] else []) ++
    [.push (.bigint 2), .opcode .OP_MOD]

/-- Put the index on the alt stack. -/
def saveIndexOps : List StackOp := [.swap, .opcode .OP_TOALTSTACK, .rot, .rot, .rot]

/-- Hash the pair and take back index and proof. -/
def hashOps (hashOp : Opcode) : List StackOp :=
  [.opcode .OP_CAT, .opcode hashOp, .opcode .OP_FROMALTSTACK, .opcode .OP_FROMALTSTACK, .swap]

def levelOps (hashOp : Opcode) (i : Nat) : List StackOp :=
  siblingOps ++ bitOps i ++ saveIndexOps ++ [.ifOp [.swap] []] ++ hashOps hashOp

def emitMerkleRoot (depth : Nat) (hashOp : Opcode) : List StackOp :=
  (List.range depth).flatMap (levelOps hashOp) ++ [.drop, .drop]

def emitMerkleRootSha256 (depth : Nat) : List StackOp := emitMerkleRoot depth .OP_SHA256

def emitMerkleRootHash256 (depth : Nat) : List StackOp := emitMerkleRoot depth .OP_HASH256

/-- The opcode of a hash. -/
def hashOpcode (useSha256 : Bool) : Opcode := if useSha256 then .OP_SHA256 else .OP_HASH256

/-! ## One level -/

section Level

variable (cfg : Config) (slots : Slots)

theorem plainRun_siblingOps (index proof current : Bytes) (below alt : List Bytes) :
    plainRun cfg (emitOps slots siblingOps) ⟨index :: proof :: current :: below, alt⟩ =
      if 32 ≤ proof.length then
        .ok ⟨index :: proof.take 32 :: current :: below, proof.drop 32 :: alt⟩
      else .error .splitRange := by
  by_cases hlen : 32 ≤ proof.length
  · have hsplit : splitAt proof 32 = .ok (proof.take 32, proof.drop 32) := if_pos (by omega)
    simp [siblingOps, emitOps_cons, plainRun, plainStep, opcodeStep, shuffle, hsplit, hlen]
  · have hsplit : splitAt proof 32 = .error .splitRange := if_neg (by omega)
    simp [siblingOps, emitOps_cons, plainRun, plainStep, opcodeStep, shuffle, hsplit, hlen]

theorem plainRun_bitOps (index i : Nat) (below alt : List Bytes) :
    plainRun cfg (emitOps slots (bitOps i)) ⟨encodeNum index :: below, alt⟩ =
      .ok ⟨encodeNum (bit index i) :: encodeNum index :: below, alt⟩ := by
  have hmod : ∀ k : Nat, ((index : Int) / 2 ^ k).tmod 2 = (index : Int) / 2 ^ k % 2 := fun k =>
    Int.tmod_eq_emod_of_nonneg (by positivity)
  match i with
  | 0 =>
    have h := hmod 0
    rw [pow_zero, Int.ediv_one] at h
    simp [bitOps, emitOps_cons, plainRun, plainStep, opcodeStep, shuffle, numOp2, top2, bit, h]
  | 1 =>
    have h := hmod 1
    rw [pow_one] at h
    simp [bitOps, emitOps_cons, plainRun, plainStep, opcodeStep, shuffle, numOp1, top1, numOp2,
      top2, bit, h]
  | i + 2 =>
    have hneg : ¬ (i : Int) + 2 < 0 := by omega
    have hnat : ((i : Int) + 2).toNat = i + 2 := by omega
    simp [bitOps, emitOps_cons, plainRun, plainStep, opcodeStep, shuffle, numOp2, top2, bit, hneg,
      hnat, hmod]

theorem plainRun_saveIndexOps (flag index right left : Bytes) (below alt : List Bytes) :
    plainRun cfg (emitOps slots saveIndexOps) ⟨flag :: index :: right :: left :: below, alt⟩ =
      .ok ⟨flag :: right :: left :: below, index :: alt⟩ := by
  simp [saveIndexOps, emitOps_cons, plainRun, plainStep, opcodeStep, shuffle]

theorem plainRun_hashOps (useSha256 : Bool) (right left index rest : Bytes)
    (below alt : List Bytes) :
    plainRun cfg (emitOps slots (hashOps (hashOpcode useSha256)))
        ⟨right :: left :: below, index :: rest :: alt⟩ =
      .ok ⟨index :: rest :: nodeHash cfg.sha256 useSha256 (left ++ right) :: below, alt⟩ := by
  cases useSha256 <;>
  simp [hashOps, hashOpcode, nodeHash, emitOps_cons, plainRun, plainStep, opcodeStep, shuffle,
    top1, top2]

/-- The pair in the order of the bit. -/
def ordered (flag : Nat) (current sibling : Bytes) : Bytes :=
  if flag = 1 then sibling ++ current else current ++ sibling

/-- The effect of a level: its pieces, one after the other. -/
theorem denotes_levelOps (hashOp : Opcode) (i : Nat)
    (hplain : (emitOps slots (hashOps hashOp)).all Instr.isPlain = true) :
    Denotes cfg (emitOps slots (levelOps hashOp i)) fun st =>
      plainRun cfg (emitOps slots siblingOps) st >>=
        plainRun cfg (emitOps slots (bitOps i)) >>=
        plainRun cfg (emitOps slots saveIndexOps) >>=
        ifEffect (plainRun cfg [.op .OP_SWAP]) .ok >>=
        plainRun cfg (emitOps slots (hashOps hashOp)) := by
  have hbit : (emitOps slots (bitOps i)).all Instr.isPlain = true := by
    unfold bitOps
    split
    · simp [emitOps_cons]; decide
    · split <;> simp [emitOps_cons] <;> decide
  have hif : emitOps slots [.ifOp [.swap] []] =
      .op .OP_IF :: ([.op .OP_SWAP] ++ [.op .OP_ENDIF]) := by
    simp [emitOps_cons, emitStackOp]
  have hswap : Denotes cfg (emitOps slots [.ifOp [.swap] []])
      (ifEffect (plainRun cfg [.op .OP_SWAP]) .ok) := by
    rw [hif]
    exact .ifThen (.plain rfl)
  unfold levelOps
  rw [emitOps_append, emitOps_append, emitOps_append, emitOps_append]
  exact ((((Denotes.plain (by simp [siblingOps, emitOps_cons]; decide)).append
    (.plain hbit)).append (.plain (by simp [saveIndexOps, emitOps_cons]; decide))).append
    hswap).append (.plain hplain)

/-- A level takes the sibling off the proof and hashes the pair; where the proof is too
short it stops. -/
theorem runsAs_levelOps (useSha256 : Bool) (index i : Nat) (proof current : Bytes) :
    RunsAs cfg slots (levelOps (hashOpcode useSha256) i) [encodeNum index, proof, current]
      (if 32 ≤ proof.length then
        .ok [encodeNum index, proof.drop 32,
          nodeHash cfg.sha256 useSha256 (ordered (bit index i) current (proof.take 32))]
      else .error .splitRange) := by
  have hplain : (emitOps slots (hashOps (hashOpcode useSha256))).all Instr.isPlain = true := by
    cases useSha256 <;> simp [hashOps, hashOpcode, emitOps_cons] <;> decide
  refine .of_denotes (denotes_levelOps cfg slots (hashOpcode useSha256) i hplain)
    fun below alt => ?_
  simp only [List.cons_append, List.nil_append]
  rw [plainRun_siblingOps]
  by_cases hlen : 32 ≤ proof.length
  · rw [if_pos hlen, if_pos hlen, ok_bind, plainRun_bitOps, ok_bind, plainRun_saveIndexOps, ok_bind]
    have hflag : isTruthy (encodeNum (bit index i : Nat)) = decide (bit index i = 1) := by
      have hbit : bit index i < 2 := Nat.mod_lt _ (by decide)
      rw [isTruthy_encodeNum]
      rcases (show bit index i = 0 ∨ bit index i = 1 by omega) with h | h <;> rw [h] <;> rfl
    have hif : ifEffect (plainRun cfg [.op .OP_SWAP]) .ok
        ⟨encodeNum (bit index i : Nat) :: proof.take 32 :: current :: below,
          encodeNum index :: proof.drop 32 :: alt⟩ =
        .ok (if bit index i = 1 then
          ⟨current :: proof.take 32 :: below, encodeNum index :: proof.drop 32 :: alt⟩
        else ⟨proof.take 32 :: current :: below, encodeNum index :: proof.drop 32 :: alt⟩) := by
      simp only [ifEffect, hflag]
      by_cases hone : bit index i = 1 <;>
      simp [hone, plainRun, plainStep, opcodeStep, shuffle]
    rw [hif, ok_bind]
    by_cases hone : bit index i = 1
    · rw [if_pos hone, plainRun_hashOps, ordered, if_pos hone]
      rfl
    · rw [if_neg hone, plainRun_hashOps, ordered, if_neg hone]
      rfl
  · rw [if_neg hlen, if_neg hlen]
    rfl

end Level

/-! ## All levels -/

section Root

variable (cfg : Config) (slots : Slots) (useSha256 : Bool) (leaf proof : Bytes) (index : Nat)

/-- The items before level `i`. -/
def levelItems (i : Nat) : List Bytes :=
  [encodeNum index, proof.drop (32 * i),
    foldSiblings (nodeHash cfg.sha256 useSha256) leaf proof index i]

/-- A level goes on to the next one where the proof has its sibling. -/
theorem runsAs_level {i : Nat} :
    RunsAs cfg slots (levelOps (hashOpcode useSha256) i)
      (levelItems cfg useSha256 leaf proof index i)
      (if 32 * (i + 1) ≤ proof.length then .ok (levelItems cfg useSha256 leaf proof index (i + 1))
        else .error .splitRange) := by
  have hlevel := runsAs_levelOps cfg slots useSha256 index i (proof.drop (32 * i))
    (foldSiblings (nodeHash cfg.sha256 useSha256) leaf proof index i)
  rw [List.drop_drop, List.length_drop] at hlevel
  by_cases hlen : 32 * (i + 1) ≤ proof.length
  · rw [if_pos (by omega)] at hlevel
    rw [if_pos hlen]
    exact hlevel
  · rw [if_neg (by omega)] at hlevel
    rwa [if_neg hlen]

/-- All levels, for as long as the proof has siblings. -/
theorem runsOn_levels (depth : Nat) :
    RunsOn cfg slots ((List.range depth).flatMap (levelOps (hashOpcode useSha256)))
      ⟨levelItems cfg useSha256 leaf proof index 0, []⟩
      (if 32 * depth ≤ proof.length then
        .ok ⟨levelItems cfg useSha256 leaf proof index depth, []⟩
      else .error .splitRange) := by
  refine RunsOn.rounds_reached (fun i => ⟨levelItems cfg useSha256 leaf proof index i, []⟩)
    (fun i => 32 * i ≤ proof.length) (Nat.zero_le _) (fun i h => by omega) fun i _ _ => ?_
  have hlevel := RunsOn.of_runsAs
    (runsAs_level cfg slots useSha256 leaf proof index (i := i)) []
  by_cases hlen : 32 * (i + 1) ≤ proof.length
  · rw [if_pos hlen] at hlevel ⊢
    exact hlevel
  · rw [if_neg hlen] at hlevel ⊢
    exact hlevel

/-- The code leaves the fold of the siblings. -/
theorem emitMerkleRoot_runs {depth : Nat} (hlen : 32 * depth ≤ proof.length) :
    RunsAs cfg slots (emitMerkleRoot depth (hashOpcode useSha256)) [encodeNum index, proof, leaf]
      (.ok [foldSiblings (nodeHash cfg.sha256 useSha256) leaf proof index depth]) := by
  have hlevels := runsOn_levels cfg slots useSha256 leaf proof index depth
  rw [if_pos hlen] at hlevels
  have hdrop := (runsAs_drop cfg slots (encodeNum index)).frame
    [proof.drop (32 * depth), foldSiblings (nodeHash cfg.sha256 useSha256) leaf proof index depth]
  have hdrop' := (runsAs_drop cfg slots (proof.drop (32 * depth))).frame
    [foldSiblings (nodeHash cfg.sha256 useSha256) leaf proof index depth]
  exact (RunsOn.runsAs hlevels).append_ok (hdrop.append_ok hdrop')

/-- A proof that is too short stops the code. -/
theorem emitMerkleRoot_stops {depth : Nat} (hlen : proof.length < 32 * depth) :
    RunsAs cfg slots (emitMerkleRoot depth (hashOpcode useSha256)) [encodeNum index, proof, leaf]
      (.error .splitRange) := by
  have hlevels := runsOn_levels cfg slots useSha256 leaf proof index depth
  rw [if_neg (by omega)] at hlevels
  exact RunsAs.append_error (RunsOn.runsAs hlevels)

end Root

/-! ## The reference -/

theorem setBytes_left {array source : Bytes} (h : source.length ≤ array.length) :
    setBytes array source 0 = .ok (source ++ array.drop source.length) := by
  rw [setBytes, if_pos (by omega), List.take_zero, List.nil_append, Nat.zero_add]

/-- Two halves of 32 bytes fill the array. -/
theorem setBytes_halves {left right : Bytes} (hleft : left.length = 32)
    (hright : right.length = 32) (next : Bytes → Except String Bytes) :
    (do
      let array ← setBytes (List.replicate 64 0) left 0
      let array ← setBytes array right 32
      next array) = next (left ++ right) := by
  have hfirst : setBytes (List.replicate 64 0) left 0 =
      .ok (left ++ List.replicate 32 0) := by
    rw [setBytes_left (by simp [hleft]), hleft, List.drop_replicate]
  have hsecond : setBytes (left ++ List.replicate 32 0) right 32 = .ok (left ++ right) := by
    rw [setBytes, if_pos (by simp [hleft, hright]), ← hleft, List.take_left,
      List.drop_of_length_le (by simp [hleft, hright]), List.append_nil]
  rw [hfirst, ok_bind, hsecond, ok_bind]

theorem merkleStep_eq (sha256 : Bytes → Bytes) (useSha256 : Bool) (index : Nat)
    {proof current : Bytes} {i : Nat} (hcurrent : current.length = 32)
    (hlen : 32 * (i + 1) ≤ proof.length) :
    merkleStep sha256 useSha256 proof index current i =
      .ok (nodeHash sha256 useSha256 (ordered (bit index i) current (sibling proof i))) := by
  have hsibling : (sibling proof i).length = 32 := by
    rw [sibling, List.length_take, List.length_drop]
    omega
  simp only [merkleStep, ordered]
  by_cases hbit : bit index i = 1
  · rw [if_pos hbit, if_pos hbit]
    exact setBytes_halves hsibling hcurrent fun array => .ok (nodeHash sha256 useSha256 array)
  · rw [if_neg hbit, if_neg hbit]
    exact setBytes_halves hcurrent hsibling fun array => .ok (nodeHash sha256 useSha256 array)

/-- The reference computes the fold, for a leaf that fills its half. -/
theorem merkleRoot_eq {sha256 : Bytes → Bytes} (hsha : ∀ x, (sha256 x).length = 32)
    (useSha256 : Bool) {leaf proof : Bytes} (index : Nat) {depth : Nat} (hleaf : leaf.length = 32)
    (hlen : 32 * depth ≤ proof.length) :
    merkleRoot sha256 useSha256 leaf proof index depth =
        .ok (foldSiblings (nodeHash sha256 useSha256) leaf proof index depth) ∧
      (foldSiblings (nodeHash sha256 useSha256) leaf proof index depth).length = 32 := by
  have hhash : ∀ x, (nodeHash sha256 useSha256 x).length = 32 := by
    intro x
    unfold nodeHash
    split <;> exact hsha _
  induction depth with
  | zero => exact ⟨rfl, hleaf⟩
  | succ depth ih =>
    obtain ⟨hroot, hcurrent⟩ := ih (by omega)
    refine ⟨?_, hhash _⟩
    rw [merkleRoot, List.range_succ, List.foldlM_append]
    show (merkleRoot sha256 useSha256 leaf proof index depth >>= _) = _
    rw [hroot, ok_bind, List.foldlM_cons, merkleStep_eq sha256 useSha256 index hcurrent hlen]
    rfl

/-! ## Agreement -/

/-- Compiled code and reference leave the fold of the siblings, and a proof that is too
short stops the code. -/
theorem emitMerkleRoot_correct (cfg : Config) (slots : Slots)
    (hsha : ∀ x, (cfg.sha256 x).length = 32) (useSha256 : Bool) (leaf proof : Bytes)
    (index depth : Nat) :
    (leaf.length = 32 → 32 * depth ≤ proof.length →
      ∃ root, root = foldSiblings (nodeHash cfg.sha256 useSha256) leaf proof index depth ∧
        merkleRoot cfg.sha256 useSha256 leaf proof index depth = .ok root ∧
        RunsAs cfg slots (emitMerkleRoot depth (hashOpcode useSha256))
          [encodeNum index, proof, leaf] (.ok [root])) ∧
    (proof.length < 32 * depth →
      ∃ e, RunsAs cfg slots (emitMerkleRoot depth (hashOpcode useSha256))
        [encodeNum index, proof, leaf] (.error e)) := by
  constructor
  · intro hleaf hlen
    exact ⟨_, rfl, (merkleRoot_eq hsha useSha256 index hleaf hlen).1,
      emitMerkleRoot_runs cfg slots useSha256 leaf proof index hlen⟩
  · intro hlen
    exact ⟨_, emitMerkleRoot_stops cfg slots useSha256 leaf proof index hlen⟩

/-- A machine whose digests are that of 64 zero bytes. -/
def zeroBlockDigest : Config :=
  .hashing fun _ => leBytes 32 0x4bfb5927a93198eae8f0d920233d00439b9709d36eef982730206ad142fda5f5

theorem length_zeroBlockDigest (x : Bytes) : (zeroBlockDigest.sha256 x).length = 32 :=
  length_leBytes 32 _

/-- One level above two leaves of zero bytes. -/
theorem emitMerkleRoot_correct_one :
    ∃ root, root = foldSiblings (nodeHash zeroBlockDigest.sha256 true) (List.replicate 32 0)
        (List.replicate 32 0) 1 1 ∧
      merkleRoot zeroBlockDigest.sha256 true (List.replicate 32 0) (List.replicate 32 0) 1 1 =
        .ok root ∧
      RunsAs zeroBlockDigest ⟨fun _ _ => [], []⟩ (emitMerkleRoot 1 (hashOpcode true))
        [encodeNum (1 : Nat), List.replicate 32 0, List.replicate 32 0] (.ok [root]) :=
  (emitMerkleRoot_correct zeroBlockDigest ⟨fun _ _ => [], []⟩ length_zeroBlockDigest true
    (List.replicate 32 0) (List.replicate 32 0) 1 1).1 List.length_replicate (by simp)

/-- A leaf of 33 bytes on the right does not fit into the array of the reference. -/
theorem longLeaf_not_merkleRoot :
    ¬ ∀ (cfg : Config) (slots : Slots), (∀ x, (cfg.sha256 x).length = 32) →
      ∀ (useSha256 : Bool) (leaf proof : Bytes) (index depth : Nat),
        32 * depth ≤ proof.length →
        ∃ root, merkleRoot cfg.sha256 useSha256 leaf proof index depth = .ok root ∧
          RunsAs cfg slots (emitMerkleRoot depth (hashOpcode useSha256))
            [encodeNum index, proof, leaf] (.ok [root]) := by
  intro hall
  obtain ⟨root, hroot, -⟩ := hall zeroBlockDigest ⟨fun _ _ => [], []⟩ length_zeroBlockDigest
    true (List.replicate 33 0) (List.replicate 32 0) 1 1 (by simp)
  have hrange : merkleRoot zeroBlockDigest.sha256 true (List.replicate 33 0)
      (List.replicate 32 0) 1 1 = .error "offset is out of bounds" := by
    decide
  rw [hrange] at hroot
  cases hroot

end Runar.StackLower.Merkle
