/-
  StackLower/PreimageCheck.lean --- the check binds the preimage to the transaction.

  WHAT THIS FILE IS FOR.  A node's signature check is a parameter of the machine.  Here
  it is tied to the equation it evaluates, and the emitted code is shown to accept a
  preimage exactly if the digest of the transaction is the hash of the preimage, or the
  one other digest the negated nonce stands for.
-/
import Runar.StackLower.PreimageSignature
import Mathlib.Data.ZMod.ValMinAbs
import Mathlib.Tactic.LinearCombination

set_option autoImplicit false

namespace Runar.StackLower

open Script Crypto

variable {P : Type} [AddCommGroup P]

/-! ## What a node checks -/

/-- A node accepts a signature for a key: the last byte selects the digest, the rest is
strictly encoded with a low `s`, the key is a point, and the equation holds. -/
def Accepts (C : CurveGroup P) (decodePoint : Bytes → Option P) (digest : UInt8 → Nat)
    (sig key : Bytes) : Prop :=
  ∃ body flag r s Q, sig = body ++ [flag] ∧ readSignature body = some (r, s) ∧
    s ≤ halfOrder ∧ decodePoint key = some Q ∧ C.Verifies Q (digest flag) r s

/-- The machine's parameters are those of a node that spends a transaction with these
digests. -/
structure NodeChecks (cfg : Config) (C : CurveGroup P) (decodePoint : Bytes → Option P)
    (digest : UInt8 → Nat) : Prop where
  length_sha256 : ∀ x, (cfg.sha256 x).length = 32
  decode_generator : decodePoint gCompressed = some C.generator
  coord_twice : C.xCoord (C.point 2) = rConst
  checkSig_iff : ∀ sig key, cfg.checkSig sig key = true ↔ Accepts C decodePoint digest sig key

/-! ## The code as a whole -/

section Code

variable (slots : Slots)

theorem isPlain_reverseRounds (n : Nat) :
    (emitOps slots (List.replicate n reverseRound).flatten).all Instr.isPlain = true := by
  induction n with
  | zero => simp
  | succ n ih =>
      rw [List.replicate_succ, List.flatten_cons, emitOps_append, List.all_append, ih,
        Bool.and_true]
      rfl

theorem isPlain_emitReverseN (n : Nat) :
    (emitOps slots (emitReverseN n)).all Instr.isPlain = true := by
  rw [emitReverseN, emitOps_append, emitOps_append, List.all_append, List.all_append,
    isPlain_reverseRounds]
  rfl

theorem isPlain_derivation (sighashFlag : Nat) :
    (emitOps slots (derivation sighashFlag)).all Instr.isPlain = true := by
  simp only [derivation, hashPart, contentPart, emitOps_append, List.all_append,
    isPlain_emitReverseN]
  rfl

end Code

/-- The signature the code derives from a preimage. -/
def derivedSignature (cfg : Config) (p : Bytes) : Bytes :=
  derSignature (integerContent rConst) (integerContent (lowS (preimageNumber cfg p)))

theorem length_integerContent_lowS (z : Nat) : (integerContent (lowS z)).length ≤ 32 := by
  rw [length_integerContent]
  exact numWidth_lowS_le z

/-- The derivation leaves the signature and its flag on the preimage. -/
theorem derivation_runsAs {cfg : Config} (hsha : ∀ x, (cfg.sha256 x).length = 32)
    (slots : Slots) (sighashFlag : Nat) (p : Bytes) :
    RunsAs cfg slots (derivation sighashFlag) [p]
      (.ok [derivedSignature cfg p ++ [flagByte sighashFlag], p]) := by
  refine .of_plain (isPlain_derivation slots sighashFlag) fun below alt => ?_
  have hlen := length_integerContent_lowS (preimageNumber cfg p)
  have hr : rDer.length = 35 := rfl
  have htotal : (rDer ++ derInteger (integerContent (lowS (preimageNumber cfg p)))).length <
      128 := by
    rw [List.length_append, hr, derInteger, List.length_cons, List.length_cons]
    omega
  rw [derivation, List.singleton_append, emitOps_append, plainRun_append,
    plainRun_hashPart cfg slots below alt hsha, ok_bind, emitOps_append, plainRun_append,
    plainRun_reducePart, ok_bind, emitOps_append, plainRun_append, plainRun_lowPart, ok_bind,
    emitOps_append, plainRun_append, plainRun_contentPart cfg slots _ alt (numWidth_lowS_le _),
    ok_bind, emitOps_append, plainRun_append,
    plainRun_integerPart cfg slots _ alt (Nat.lt_of_le_of_lt hlen (by decide)), ok_bind,
    plainRun_signaturePart cfg slots _ alt sighashFlag htotal]
  rfl

/-- The derived signature is strictly encoded. -/
theorem readSignature_derivedSignature (cfg : Config) (p : Bytes)
    (hs : fullS (preimageNumber cfg p) ≠ 0) :
    readSignature (derivedSignature cfg p) =
      some (rConst, lowS (preimageNumber cfg p)) := by
  have hpos : 0 < lowS (preimageNumber cfg p) := by
    rw [Nat.pos_iff_ne_zero, ne_eq, lowS_eq_zero_iff]
    exact hs
  have hr : 0 < rConst := by decide
  have hlenR : (integerContent rConst).length = 33 := by decide +kernel
  have hlenS := length_integerContent_lowS (preimageNumber cfg p)
  have hread := readSignature_derSignature (isMinimalPositive_integerContent hr)
    (isMinimalPositive_integerContent hpos) (by omega)
  rwa [beNat_integerContent, beNat_integerContent] at hread

theorem checkPart_runsAs (cfg : Config) (slots : Slots) (sig : Bytes) :
    RunsAs cfg slots checkPart [sig]
      (if cfg.checkSig sig gCompressed then .ok [] else .error .verify) := by
  refine .of_plain rfl fun below alt => ?_
  cases hsig : cfg.checkSig sig gCompressed with
  | true =>
      simp [checkPart, emitOps_cons, plainRun, plainStep, opcodeStep, top2, verifyTop, hsig]
  | false =>
      simp [checkPart, emitOps_cons, plainRun, plainStep, opcodeStep, top2, verifyTop, hsig]

/-! ## The binding -/

section Binding

variable {cfg : Config} {C : CurveGroup P} {decodePoint : Bytes → Option P}
  {digest : UInt8 → Nat}

/-- The nonce is two. -/
theorem two_mul_kInv : (2 : ZMod curveOrder) * kInv = 1 := by
  have hnat : 2 * kInv = curveOrder + 1 := by decide
  have hcast := congrArg (Nat.cast : Nat → ZMod curveOrder) hnat
  push_cast at hcast
  rwa [ZMod.natCast_self, zero_add] at hcast

theorem two_mul_fullS (z : Nat) :
    (2 : ZMod curveOrder) * (fullS z : ZMod curveOrder) = z + rConst := by
  rw [fullS, ZMod.natCast_mod]
  push_cast
  linear_combination (z + rConst : ZMod curveOrder) * two_mul_kInv

/-- The low one is the full one up to sign. -/
theorem lowS_cast (z : Nat) :
    (lowS z : ZMod curveOrder) = fullS z ∨ (lowS z : ZMod curveOrder) = -(fullS z) := by
  have hle := (fullS_lt z).le
  unfold lowS
  split
  · right
    rw [Nat.cast_sub hle, ZMod.natCast_self, zero_sub]
  · left
    rfl

/-- The digests a derived signature is good for. -/
theorem verifies_derived_iff (hcoord : C.xCoord (C.point 2) = rConst) {z e : Nat}
    (hs : fullS z ≠ 0) :
    C.Verifies C.generator e rConst (lowS z) ↔
      (e : ZMod curveOrder) = z ∨ (e : ZMod curveOrder) = -z - 2 * rConst := by
  have htwo : (2 : ZMod curveOrder) ≠ 0 := by
    intro h
    have hone := two_mul_kInv
    rw [h, zero_mul] at hone
    exact zero_ne_one hone
  have hpos : 0 < lowS z := by
    rw [Nat.pos_iff_ne_zero, ne_eq, lowS_eq_zero_iff]
    exact hs
  have hle := lowS_le z
  have hhalf : halfOrder < curveOrder := by decide
  rw [C.verifies_generator_iff htwo hcoord (by decide) (by decide +kernel)
    (by decide) hpos (Nat.lt_of_le_of_lt hle hhalf)]
  have hfull := two_mul_fullS z
  have hplus : (e + rConst : ZMod curveOrder) = z + rConst ↔ (e : ZMod curveOrder) = z :=
    add_left_inj _
  have hminus : (e + rConst : ZMod curveOrder) = -(z + rConst) ↔
      (e : ZMod curveOrder) = -z - 2 * rConst := by
    constructor
    · intro h
      linear_combination h
    · intro h
      linear_combination h
  rcases lowS_cast z with h | h
  · rw [h, hfull, hplus, hminus]
  · rw [h, mul_neg, hfull, neg_neg, hplus, hminus, or_comm]

/-- What the node's check says of the derived signature. -/
theorem checkSig_derived_iff (node : NodeChecks cfg C decodePoint digest) (sighashFlag : Nat)
    (p : Bytes) (hs : fullS (preimageNumber cfg p) ≠ 0) :
    cfg.checkSig (derivedSignature cfg p ++ [flagByte sighashFlag]) gCompressed = true ↔
      (digest (flagByte sighashFlag) : ZMod curveOrder) = preimageNumber cfg p ∨
      (digest (flagByte sighashFlag) : ZMod curveOrder) =
        -(preimageNumber cfg p) - 2 * rConst := by
  have hread := readSignature_derivedSignature cfg p hs
  rw [node.checkSig_iff, ← verifies_derived_iff node.coord_twice hs]
  constructor
  · rintro ⟨body, flag, r, s, Q, hsig, hbody, _, hkey, hver⟩
    obtain ⟨rfl, hflag⟩ := List.append_inj' hsig rfl
    cases hflag
    rw [hread] at hbody
    cases hbody
    rw [node.decode_generator] at hkey
    cases hkey
    exact hver
  · intro hver
    exact ⟨_, _, _, _, _, rfl, hread, lowS_le _, node.decode_generator, hver⟩

/-- The emitted code derives a strict low signature with the flag after it, keeps the
preimage on top, and goes on exactly if the digest of the transaction is the hash of the
preimage or the one other digest of the same coordinate. -/
theorem checkPreimage_binds (node : NodeChecks cfg C decodePoint digest) (slots : Slots)
    (sighashFlag : Nat) (p : Bytes) (hs : fullS (preimageNumber cfg p) ≠ 0) :
    ∃ build check sig s,
      emitCheckPreimageBinding sighashFlag = .ok (build ++ check) ∧
      RunsAs cfg slots build [p] (.ok [sig ++ [flagByte sighashFlag], p]) ∧
      check = [.push (.bytes gCompressed), .opcode .OP_CHECKSIGVERIFY] ∧
      readSignature sig = some (rConst, s) ∧ 0 < s ∧ s ≤ halfOrder ∧
      RunsAs cfg slots (build ++ check) [p]
        (if (digest (flagByte sighashFlag) : ZMod curveOrder) = preimageNumber cfg p ∨
            (digest (flagByte sighashFlag) : ZMod curveOrder) =
              -(preimageNumber cfg p) - 2 * rConst
          then .ok [p] else .error .verify) := by
  have hbuild := derivation_runsAs node.length_sha256 slots sighashFlag p
  have hpos : 0 < lowS (preimageNumber cfg p) := by
    rw [Nat.pos_iff_ne_zero, ne_eq, lowS_eq_zero_iff]
    exact hs
  refine ⟨derivation sighashFlag, checkPart, derivedSignature cfg p, lowS (preimageNumber cfg p),
    emitCheckPreimageBinding_eq sighashFlag, hbuild, rfl,
    readSignature_derivedSignature cfg p hs, hpos, lowS_le _, ?_⟩
  have hcheck := (checkPart_runsAs cfg slots
    (derivedSignature cfg p ++ [flagByte sighashFlag])).frame [p]
  have hiff := checkSig_derived_iff node sighashFlag p hs
  refine hbuild.append_ok ?_
  by_cases h : cfg.checkSig (derivedSignature cfg p ++ [flagByte sighashFlag]) gCompressed = true
  · rw [if_pos (hiff.mp h)]
    rw [if_pos h] at hcheck
    exact hcheck
  · rw [if_neg (mt hiff.mpr h)]
    rw [if_neg h] at hcheck
    exact hcheck

end Binding

/-! ### The hypotheses can be met

A group of the order with coordinates that separate points up to sign, the hashes of the
empty string, and the transaction that has it for a preimage. -/

/-- The hash of the empty string. -/
def emptyHash : Bytes :=
  [0xe3, 0xb0, 0xc4, 0x42, 0x98, 0xfc, 0x1c, 0x14, 0x9a, 0xfb, 0xf4, 0xc8, 0x99, 0x6f, 0xb9, 0x24,
   0x27, 0xae, 0x41, 0xe4, 0x64, 0x9b, 0x93, 0x4c, 0xa4, 0x95, 0x99, 0x1b, 0x78, 0x52, 0xb8, 0x55]

/-- The hash of that hash. -/
def emptyHash256 : Bytes :=
  [0x5d, 0xf6, 0xe0, 0xe2, 0x76, 0x13, 0x59, 0xd3, 0x0a, 0x82, 0x75, 0x05, 0x8e, 0x29, 0x9f, 0xcc,
   0x03, 0x81, 0x53, 0x45, 0x45, 0xf5, 0x5c, 0xf4, 0x3e, 0x41, 0x98, 0x3f, 0x5d, 0x4c, 0x94, 0x56]

/-- The distance from zero, with the coordinate of twice the generator in place. -/
def residueCoord (k : ZMod curveOrder) : Nat :=
  if k.valMinAbs.natAbs = 2 then rConst else k.valMinAbs.natAbs

theorem natAbs_valMinAbs_lt (k : ZMod curveOrder) : k.valMinAbs.natAbs < rConst := by
  have hle := ZMod.natAbs_valMinAbs_le k
  have hhalf : curveOrder / 2 < rConst := by decide
  exact Nat.lt_of_le_of_lt hle hhalf

theorem residueCoord_eq_iff (j k : ZMod curveOrder) :
    residueCoord j = residueCoord k ↔ j = k ∨ j = -k := by
  have hj := natAbs_valMinAbs_lt j
  have hk := natAbs_valMinAbs_lt k
  rw [← ZMod.natAbs_valMinAbs_eq_natAbs_valMinAbs]
  unfold residueCoord
  split <;> split <;> omega

/-- The residues modulo the order, as a group of points. -/
def residueGroup : CurveGroup (ZMod curveOrder) where
  generator := 1
  order_generator := ZMod.addOrderOf_one curveOrder
  xCoord := residueCoord
  xCoord_lt k := by
    have hlt := natAbs_valMinAbs_lt k
    have hfield : rConst < fieldPrime := by decide
    unfold residueCoord
    split <;> omega
  xCoord_eq_iff j k _ _ := residueCoord_eq_iff j k

theorem residueGroup_twice : residueGroup.xCoord (residueGroup.point 2) = rConst := by
  have htwo : residueGroup.point 2 = 2 := by
    rw [← mul_one (2 : ZMod curveOrder)]
    have h := residueGroup.nsmul_point 2 1
    rw [Nat.cast_ofNat] at h
    rw [← h, residueGroup.point_one]
    exact two_nsmul (1 : ZMod curveOrder) |>.trans (two_mul 1).symm
  have hmin : (2 : ZMod curveOrder).valMinAbs = 2 := by
    have hle : 2 ≤ curveOrder / 2 := by decide
    exact_mod_cast ZMod.valMinAbs_natCast_of_le_half hle
  have habs : (2 : ZMod curveOrder).valMinAbs.natAbs = 2 := by
    rw [hmin]
    rfl
  have hcoord : residueCoord 2 = rConst := by rw [residueCoord, if_pos habs]
  rw [htwo]
  exact hcoord

open Classical in
/-- A node that spends the transaction. -/
noncomputable def emptyPreimageNode : Config where
  requireMinimal _ := true
  sha1 x := x
  sha256 x := if x = [] then emptyHash else emptyHash256
  ripemd160 x := x
  checkSig sig key :=
    decide (Accepts residueGroup (fun bytes => if bytes = gCompressed then some 1 else none)
      (fun _ => beNat emptyHash256) sig key)
  checkMultiSig _ _ := false
  raw _ := .ok

theorem emptyPreimageNode_checks : NodeChecks emptyPreimageNode residueGroup
    (fun bytes => if bytes = gCompressed then some 1 else none)
    (fun _ => beNat emptyHash256) where
  length_sha256 x := by
    unfold emptyPreimageNode
    dsimp only
    split <;> rfl
  decode_generator := if_pos rfl
  coord_twice := residueGroup_twice
  checkSig_iff _ _ := by
    classical
    exact decide_eq_true_iff

theorem emptyPreimage_number : preimageNumber emptyPreimageNode [] = beNat emptyHash256 := by
  rw [preimageNumber, emptyPreimageNode]
  dsimp only
  rw [if_pos rfl, if_neg (by decide)]

theorem checkPreimage_binds_empty :
    ∃ build check sig s,
      emitCheckPreimageBinding 0x41 = .ok (build ++ check) ∧
      RunsAs emptyPreimageNode ⟨fun _ _ => [], []⟩ build [[]]
        (.ok [sig ++ [flagByte 0x41], []]) ∧
      check = [.push (.bytes gCompressed), .opcode .OP_CHECKSIGVERIFY] ∧
      readSignature sig = some (rConst, s) ∧ 0 < s ∧ s ≤ halfOrder ∧
      RunsAs emptyPreimageNode ⟨fun _ _ => [], []⟩ (build ++ check) [[]]
        (if (beNat emptyHash256 : ZMod curveOrder) = preimageNumber emptyPreimageNode [] ∨
            (beNat emptyHash256 : ZMod curveOrder) =
              -(preimageNumber emptyPreimageNode []) - 2 * rConst
          then .ok [[]] else .error .verify) :=
  checkPreimage_binds emptyPreimageNode_checks ⟨fun _ _ => [], []⟩ 0x41 []
    (by rw [emptyPreimage_number]; decide)

end Runar.StackLower
