/-
  StackLower/PreimageSignature.lean --- what the derivation leaves on the stack.

  WHAT THIS FILE IS FOR.  One lemma for each part of the code that derives the
  signature: from the items it starts from, the items it leaves.  Together they say that
  the derivation leaves a strict signature, with its flag, on the preimage.
-/
import Runar.StackLower.PreimageBinding

set_option autoImplicit false

namespace Runar.StackLower

open Script Crypto

section Parts

variable (cfg : Config) (slots : Slots) (below alt : List Bytes)

/-! ## Reversal -/

theorem plainRun_reverseRound (b : UInt8) (rest gathered : Bytes) :
    plainRun cfg (emitOps slots reverseRound) ⟨(b :: rest) :: gathered :: below, alt⟩ =
      .ok ⟨rest :: (b :: gathered) :: below, alt⟩ := by
  have hsplit : splitAt (b :: rest) 1 = .ok ([b], rest) := splitAt_append [b] rest
  simp [reverseRound, emitOps_cons, plainRun, plainStep, opcodeStep, shuffle, top2, hsplit]

/-- The rounds move the bytes over one by one, so the last is in front. -/
theorem plainRun_reverseRounds (x gathered : Bytes) :
    plainRun cfg (emitOps slots (List.replicate x.length reverseRound).flatten)
        ⟨x :: gathered :: below, alt⟩ =
      .ok ⟨[] :: (x.reverse ++ gathered) :: below, alt⟩ := by
  induction x generalizing gathered with
  | nil => simp
  | cons b rest ih =>
      rw [List.length_cons, List.replicate_succ, List.flatten_cons, emitOps_append,
        plainRun_append, plainRun_reverseRound, ok_bind, ih, List.reverse_cons,
        List.append_assoc, List.singleton_append]

theorem plainRun_emitReverseN {n : Nat} {x : Bytes} (hlen : x.length = n) :
    plainRun cfg (emitOps slots (emitReverseN n)) ⟨x :: below, alt⟩ =
      .ok ⟨x.reverse :: below, alt⟩ := by
  subst hlen
  have hstart : plainRun cfg (emitOps slots [.opcode .OP_0, .swap]) ⟨x :: below, alt⟩ =
      .ok ⟨x :: [] :: below, alt⟩ := by
    simp [emitOps_cons, plainRun, plainStep, opcodeStep, shuffle, pushNum]
  have hend : plainRun cfg (emitOps slots [.drop]) ⟨[] :: x.reverse :: below, alt⟩ =
      .ok ⟨x.reverse :: below, alt⟩ := by
    simp [emitOps_cons, plainRun, plainStep, opcodeStep, shuffle]
  rw [emitReverseN, emitOps_append, emitOps_append, plainRun_append, plainRun_append, hstart,
    ok_bind, plainRun_reverseRounds, ok_bind, List.append_nil, hend]

/-! ## The parts -/

/-- The hash of a preimage as a number, most significant byte first. -/
def preimageNumber (p : Bytes) : Nat := beNat (cfg.sha256 (cfg.sha256 p))

theorem plainRun_hashPart (hsha : ∀ x, (cfg.sha256 x).length = 32) (p : Bytes) :
    plainRun cfg (emitOps slots hashPart) ⟨p :: below, alt⟩ =
      .ok ⟨encodeNum (preimageNumber cfg p) :: p :: below, alt⟩ := by
  have hstart : plainRun cfg (emitOps slots [.dup, .opcode .OP_HASH256]) ⟨p :: below, alt⟩ =
      .ok ⟨cfg.sha256 (cfg.sha256 p) :: p :: below, alt⟩ := by
    simp [emitOps_cons, plainRun, plainStep, opcodeStep, shuffle, top1]
  have hend (d : Bytes) : plainRun cfg
      (emitOps slots [.push (.bytes [0x00]), .opcode .OP_CAT, .opcode .OP_BIN2NUM])
        ⟨d :: p :: below, alt⟩ = .ok ⟨encodeNum (leNat d) :: p :: below, alt⟩ := by
    simp [emitOps_cons, plainRun, plainStep, opcodeStep, top1, top2, decodeNum_append_zero]
  rw [hashPart, emitOps_append, plainRun_append, hstart, ok_bind, emitOps_append,
    plainRun_append, plainRun_emitReverseN cfg slots _ _ (hsha _), ok_bind, hend]
  rfl

/-- `s` before it is made low. -/
def fullS (z : Nat) : Nat := (z + rConst) * kInv % curveOrder

/-- The low one of `s` and its opposite. -/
def lowS (z : Nat) : Nat :=
  if halfOrder < fullS z then curveOrder - fullS z else fullS z

/-- The reduction, for any constants. -/
theorem plainRun_reduce (x r kinv n : Int) (hn : n ≠ 0) :
    plainRun cfg (emitOps slots
        [.push (.bigint r), .opcode .OP_ADD, .push (.bigint kinv), .opcode .OP_MUL,
         .push (.bigint n), .opcode .OP_2DUP, .opcode .OP_MOD, .rot, .drop, .over,
         .opcode .OP_ADD, .swap, .opcode .OP_MOD]) ⟨encodeNum x :: below, alt⟩ =
      .ok ⟨encodeNum ((((x + r) * kinv).tmod n + n).tmod n) :: below, alt⟩ := by
  simp [emitOps_cons, plainRun, plainStep, opcodeStep, shuffle, top2, numOp2, hn]

theorem plainRun_reducePart (z : Nat) :
    plainRun cfg (emitOps slots reducePart) ⟨encodeNum z :: below, alt⟩ =
      .ok ⟨encodeNum (fullS z) :: below, alt⟩ := by
  have hne : ((curveOrder : Nat) : Int) ≠ 0 := by
    exact_mod_cast prime_curveOrder.ne_zero
  have hmul : ((z : Int) + rConst) * kInv = (((z + rConst) * kInv : Nat) : Int) := by
    push_cast
    rfl
  have hfull : ((((z : Int) + rConst) * kInv).tmod curveOrder + curveOrder).tmod curveOrder =
      fullS z := by
    rw [hmul, ← Int.ofNat_tmod, ← Int.natCast_add, ← Int.ofNat_tmod, Nat.add_mod_right,
      Nat.mod_mod]
    rfl
  rw [reducePart, plainRun_reduce cfg slots below alt z rConst kInv curveOrder hne, hfull]

/-- The choice between a number and its distance from the order, for any bounds. -/
theorem plainRun_choose (s half n : Int) :
    plainRun cfg (emitOps slots
        [.dup, .push (.bigint half), .opcode .OP_GREATERTHAN, .over, .push (.bigint n), .swap,
         .opcode .OP_2MUL, .swap, .opcode .OP_SUB, .opcode .OP_MUL, .opcode .OP_SUB])
        ⟨encodeNum s :: below, alt⟩ =
      .ok ⟨encodeNum (if half < s then n - s else s) :: below, alt⟩ := by
  have hflag (b : Bool) (code : Opcode) :
      readNum cfg code (boolBytes b) = .ok (if b then 1 else 0) := by
    rw [boolBytes_eq_encodeNum, readNum_encodeNum]
  by_cases hhigh : half < s
  · have hlow : s - (s * 2 - n) = n - s := by ring
    simp [emitOps_cons, plainRun, plainStep, opcodeStep, shuffle, top1, top2, numOp1, numOp2,
      hhigh, hflag, hlow]
  · have hzero (code : Opcode) : readNum cfg code [] = .ok 0 := readNum_encodeNum cfg code 0
    simp [emitOps_cons, plainRun, plainStep, opcodeStep, shuffle, top1, top2, numOp1, numOp2,
      hhigh, hflag, hzero]

theorem fullS_lt (z : Nat) : fullS z < curveOrder := Nat.mod_lt _ prime_curveOrder.pos

theorem plainRun_lowPart (z : Nat) :
    plainRun cfg (emitOps slots lowPart) ⟨encodeNum (fullS z) :: below, alt⟩ =
      .ok ⟨encodeNum (lowS z) :: below, alt⟩ := by
  have hlt := fullS_lt z
  have hlow : (if (halfOrder : Int) < fullS z then (curveOrder : Int) - fullS z else fullS z) =
      lowS z := by
    unfold lowS
    split <;> split <;> omega
  rw [lowPart, plainRun_choose cfg slots below alt (fullS z) halfOrder curveOrder, hlow]

/-- The low one is at most half the order. -/
theorem lowS_le (z : Nat) : lowS z ≤ halfOrder := by
  have hlt := fullS_lt z
  have hhalf : curveOrder = 2 * halfOrder + 1 := by decide +kernel
  unfold lowS
  split <;> omega

theorem lowS_eq_zero_iff (z : Nat) : lowS z = 0 ↔ fullS z = 0 := by
  have hlt := fullS_lt z
  unfold lowS
  split <;> omega

/-- The low one is at most 32 bytes long. -/
theorem numWidth_lowS_le (z : Nat) : numWidth (lowS z) ≤ 32 := by
  rw [numWidth_le_iff]
  have hle := lowS_le z
  have hbound : halfOrder < signBit 32 := by decide +kernel
  exact Nat.lt_of_le_of_lt hle hbound

/-- The last bytes of a padded word, most significant first, are the minimal content. -/
theorem drop_reverse_leBytes {n w : Nat} (h : numWidth n ≤ w) :
    (leBytes w n).reverse.drop (w - numWidth n) = integerContent n := by
  rw [List.drop_reverse, length_leBytes, Nat.sub_sub_self h, take_leBytes h, integerContent,
    encodeNum_natCast]

theorem plainRun_contentPart {s : Nat} (hs : numWidth s ≤ 32) :
    plainRun cfg (emitOps slots contentPart) ⟨encodeNum s :: below, alt⟩ =
      .ok ⟨integerContent s :: below, alt⟩ := by
  have hfits : Fits 32 (s : Int) := (numWidth_le_iff s 32).mp hs
  have hpad : num2bin s 32 = .ok (leBytes 32 s) := by
    rw [num2bin, if_pos ⟨by decide, hfits⟩]
    rw [signedBytes, signed_natCast]
    rfl
  have hstart : plainRun cfg (emitOps slots
      [.opcode .OP_SIZE, .opcode .OP_TOALTSTACK, .push (.bigint 32), .opcode .OP_NUM2BIN])
        ⟨encodeNum s :: below, alt⟩ =
      .ok ⟨leBytes 32 s :: below, encodeNum (numWidth s) :: alt⟩ := by
    simp [emitOps_cons, plainRun, plainStep, opcodeStep, shuffle, length_encodeNum, hpad]
  have hsplit : splitAt (leBytes 32 s).reverse (32 - (numWidth s : Int)) =
      .ok ((leBytes 32 s).reverse.take (32 - numWidth s), integerContent s) := by
    have hnat : (32 - (numWidth s : Int)).toNat = 32 - numWidth s := by omega
    rw [splitAt, if_pos, hnat, drop_reverse_leBytes hs]
    rw [List.length_reverse, length_leBytes]
    omega
  have hend : plainRun cfg (emitOps slots
      [.opcode .OP_FROMALTSTACK, .push (.bigint 32), .swap, .opcode .OP_SUB, .opcode .OP_SPLIT,
       .nip]) ⟨(leBytes 32 s).reverse :: below, encodeNum (numWidth s) :: alt⟩ =
      .ok ⟨integerContent s :: below, alt⟩ := by
    simp [emitOps_cons, emitStackOp, plainRun, plainStep, opcodeStep, shuffle, top2, numOp2,
      hsplit]
  rw [contentPart, emitOps_append, plainRun_append, hstart, ok_bind, emitOps_append,
    plainRun_append, plainRun_emitReverseN cfg slots _ _ (length_leBytes 32 s), ok_bind, hend]

/-- A length below `128` takes one byte. -/
theorem num2bin_length {n : Nat} (h : n < 128) : num2bin n 1 = .ok [n.toUInt8] := by
  have hfits : Fits 1 (n : Int) := h
  have hmod : n % 256 = n := by omega
  have hword : signedBytes 1 (n : Int) = [n.toUInt8] := by
    rw [signedBytes, signed_natCast, leBytes_succ, hmod]
    rfl
  rw [num2bin, if_pos ⟨by decide, hfits⟩]
  exact congrArg Except.ok hword

theorem plainRun_integerPart {content : Bytes} (h : content.length < 128) :
    plainRun cfg (emitOps slots integerPart) ⟨content :: below, alt⟩ =
      .ok ⟨derInteger content :: below, alt⟩ := by
  simp [integerPart, emitOps_cons, emitStackOp, plainRun, plainStep, opcodeStep, shuffle, top2,
    num2bin_length h, derInteger]

/-- The encoded `r` is the strict encoding of the coordinate. -/
theorem rDer_eq : rDer = derInteger (integerContent rConst) := by decide +kernel

/-- The last byte of a signature. -/
def flagByte (sighashFlag : Nat) : UInt8 := (sighashFlag &&& 0xff).toUInt8

theorem plainRun_signaturePart (sighashFlag : Nat) {content : Bytes}
    (h : (rDer ++ derInteger content).length < 128) :
    plainRun cfg (emitOps slots (signaturePart sighashFlag))
        ⟨derInteger content :: below, alt⟩ =
      .ok ⟨(derSignature (integerContent rConst) content ++ [flagByte sighashFlag]) :: below,
        alt⟩ := by
  have htotal : num2bin ((derInteger content).length + rDer.length) 1 =
      .ok [(rDer ++ derInteger content).length.toUInt8] := by
    rw [← num2bin_length h, List.length_append, Nat.add_comm, Nat.cast_add]
  rw [derSignature, ← rDer_eq, signaturePart]
  generalize rDer = r at htotal ⊢
  simp [emitOps_cons, emitStackOp, plainRun, plainStep, opcodeStep, shuffle, top2, numOp2, flagByte,
    htotal]

end Parts

end Runar.StackLower
