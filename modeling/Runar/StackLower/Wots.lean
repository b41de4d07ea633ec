/-
  StackLower/Wots.lean --- WOTS+ signatures.

  WHAT THIS FILE IS FOR.  A WOTS+ signature has one element for each base-16 digit of the
  message's hash and of its checksum; each element is hashed forward as far as its digit
  leaves room, and the hash of all the ends is the root in the public key.  The emitted
  code unrolls the 67 chains with the checksum beside them.  This file has the reference and
  the emitted code, and says which signatures they decide in the same way.
-/
import Runar.StackIR.RunsOn
import Runar.StackLower.ByteSequences
import Mathlib.Data.List.GetD

set_option autoImplicit false

namespace Runar.StackLower.Wots

open Script

/-! ## The reference -/

def W : Nat := 16
def N : Nat := 32
def LEN1 : Nat := 64
def LEN2 : Nat := 3
def LEN : Nat := LEN1 + LEN2

/-- The tweakable hash; `pubSeed` has `N` bytes wherever it is called. -/
def F (sha256 : Bytes → Bytes) (pubSeed : Bytes) (chainIdx stepIdx : Nat) (msg : Bytes) : Bytes :=
  sha256 (pubSeed ++ [chainIdx.toUInt8, stepIdx.toUInt8] ++ msg)

/-- `steps` rounds of `F` from `startStep` on. -/
def chain (sha256 : Bytes → Bytes) (x : Bytes) (startStep : Nat) (steps : Nat) (pubSeed : Bytes)
    (chainIdx : Nat) : Bytes :=
  match steps with
  | 0 => x
  | n + 1 =>
      F sha256 pubSeed chainIdx (startStep + n) (chain sha256 x startStep n pubSeed chainIdx)

/-- Two digits a byte, the high one first. -/
def extractDigits (hash : Bytes) : List Nat :=
  hash.flatMap fun b => [b.toNat >>> 4 &&& 0x0f, b.toNat &&& 0x0f]

/-- The loop over the checksum digits, the last digit first. -/
def checksumLoop : Nat → Nat → List Nat → List Nat
  | 0, _, digits => digits
  | i + 1, remaining, digits => checksumLoop i (remaining / W) (remaining % W :: digits)

def checksumDigits (msgDigits : List Nat) : List Nat :=
  checksumLoop LEN2 (msgDigits.foldl (fun sum d => sum + ((W - 1) - d)) 0) []

def allDigits (msgHash : Bytes) : List Nat :=
  let msg := extractDigits msgHash
  msg ++ checksumDigits msg

/-- The end of chain `i`. -/
def endpoint (sha256 : Bytes → Bytes) (sig pubSeed : Bytes) (digits : List Nat) (i : Nat) :
    Bytes :=
  let digit := digits.getD i 0
  chain sha256 ((sig.drop (i * N)).take N) digit ((W - 1) - digit) pubSeed i

/-- The reference; each end has `N` bytes, so the array of them is filled by the ends one
after the other. -/
def wotsVerify (sha256 : Bytes → Bytes) (msg sig pk : Bytes) : Bool :=
  if sig.length ≠ LEN * N then false
  else if pk.length ≠ 2 * N then false
  else
    let pubSeed := pk.take N
    let pkRoot := (pk.drop N).take N
    let digits := allDigits (sha256 msg)
    let concat := (List.range LEN).flatMap (endpoint sha256 sig pubSeed digits)
    sha256 concat == pkRoot

/-! ## The emitted code -/

/-- Put what the chain does not use on the alt stack and take the next element. -/
def enterChainOps : List StackOp :=
  [.opcode .OP_DUP, .push (.bigint 15), .swap, .opcode .OP_SUB, .opcode .OP_TOALTSTACK, .swap,
    .opcode .OP_TOALTSTACK, .swap, .opcode .OP_TOALTSTACK, .swap, .push (.bigint 32),
    .opcode .OP_SPLIT, .opcode .OP_TOALTSTACK, .swap]

/-- Count the digit down, and hash where it is zero. -/
def hashRound (chainIndex j : Nat) : List StackOp :=
  [.opcode .OP_DUP, .opcode .OP_0NOTEQUAL,
    .ifOp [.opcode .OP_1SUB]
      [.swap, .push (.bigint 2), .opcode .OP_PICK,
        .push (.bytes [chainIndex.toUInt8, j.toUInt8]), .opcode .OP_CAT, .swap,
        .opcode .OP_CAT, .opcode .OP_SHA256, .swap]]

/-- Take everything back and count the steps and the end in. -/
def leaveChainOps : List StackOp :=
  [.drop, .opcode .OP_FROMALTSTACK, .opcode .OP_FROMALTSTACK, .opcode .OP_FROMALTSTACK,
    .opcode .OP_FROMALTSTACK, .opcode .OP_ROT, .opcode .OP_ADD, .swap, .push (.bigint 3),
    .opcode .OP_ROLL, .opcode .OP_CAT]

def emitWOTSOneChain (chainIndex : Nat) : List StackOp :=
  enterChainOps ++ (List.range 15).flatMap (hashRound chainIndex) ++ leaveChainOps

/-- The public key is cut, the message hashed, and checksum and ends start empty. -/
def prologueOps : List StackOp :=
  [.push (.bigint 32), .opcode .OP_SPLIT, .opcode .OP_TOALTSTACK, .opcode .OP_ROT,
    .opcode .OP_ROT, .swap, .opcode .OP_SHA256, .swap, .push (.bigint 0), .opcode .OP_0,
    .push (.bigint 3), .opcode .OP_ROLL]

/-- The next byte of the hash. -/
def nextByteOps : List StackOp := [.push (.bigint 1), .opcode .OP_SPLIT, .swap]

/-- The two digits of a byte. -/
def nibbleOps : List StackOp :=
  [.push (.bigint 0), .push (.bigint 1), .opcode .OP_NUM2BIN, .opcode .OP_CAT,
    .opcode .OP_BIN2NUM, .opcode .OP_DUP, .push (.bigint 16), .opcode .OP_DIV, .swap,
    .push (.bigint 16), .opcode .OP_MOD]

/-- One byte of the hash: two chains. -/
def byteOps (byteIdx : Nat) : List StackOp :=
  (if byteIdx < 31 then nextByteOps else []) ++ nibbleOps ++
    (if byteIdx < 31 then [.opcode .OP_TOALTSTACK, .swap, .opcode .OP_TOALTSTACK]
      else [.opcode .OP_TOALTSTACK]) ++
    emitWOTSOneChain (byteIdx * 2) ++
    (if byteIdx < 31 then
      [.opcode .OP_FROMALTSTACK, .opcode .OP_FROMALTSTACK, .swap, .opcode .OP_TOALTSTACK]
      else [.opcode .OP_FROMALTSTACK]) ++
    emitWOTSOneChain (byteIdx * 2 + 1) ++
    (if byteIdx < 31 then [.opcode .OP_FROMALTSTACK] else [])

/-- The digits of the checksum, the first one on top of the alt stack. -/
def checksumOps : List StackOp :=
  [.swap, .opcode .OP_DUP, .push (.bigint 16), .opcode .OP_MOD, .opcode .OP_TOALTSTACK,
    .opcode .OP_DUP, .push (.bigint 16), .opcode .OP_DIV, .push (.bigint 16), .opcode .OP_MOD,
    .opcode .OP_TOALTSTACK, .push (.bigint 256), .opcode .OP_DIV, .push (.bigint 16),
    .opcode .OP_MOD, .opcode .OP_TOALTSTACK]

/-- One chain of the checksum. -/
def checksumChainOps (ci : Nat) : List StackOp :=
  [.opcode .OP_TOALTSTACK, .push (.bigint 0), .opcode .OP_FROMALTSTACK,
    .opcode .OP_FROMALTSTACK] ++ emitWOTSOneChain (64 + ci) ++ [.swap, .drop]

/-- Hash the ends and compare them with the root. -/
def epilogueOps : List StackOp :=
  [.swap, .drop, .opcode .OP_SHA256, .opcode .OP_FROMALTSTACK, .opcode .OP_EQUAL, .swap, .drop]

def emitVerifyWOTS : List StackOp :=
  prologueOps ++ (List.range 32).flatMap byteOps ++ checksumOps ++
    (List.range 3).flatMap checksumChainOps ++ epilogueOps

/-! ## One chain -/

section Chain

variable (cfg : Config) (slots : Slots)

theorem runsAs_hashRound (chainIndex j k : Nat) (x pubSeed : Bytes) :
    RunsAs cfg slots (hashRound chainIndex j) [encodeNum k, x, pubSeed]
      (.ok (if k = 0 then [encodeNum (0 : Nat), F cfg.sha256 pubSeed chainIndex j x, pubSeed]
        else [encodeNum (k - 1 : Nat), x, pubSeed])) := by
  let hashOps : List Instr :=
    [Instr.op .OP_SWAP, .push (encodeNum 2), .op .OP_PICK, .push [chainIndex.toUInt8, j.toUInt8],
      .op .OP_CAT, .op .OP_SWAP, .op .OP_CAT, .op .OP_SHA256, .op .OP_SWAP]
  have hemit : emitOps slots (hashRound chainIndex j) =
      [Instr.op .OP_DUP, .op .OP_0NOTEQUAL] ++
        Instr.op .OP_IF :: ([Instr.op .OP_1SUB] ++
          Instr.op .OP_ELSE :: (hashOps ++ [Instr.op .OP_ENDIF])) := by
    simp [hashRound, emitOps_cons, emitStackOp, hashOps]
  have htest : Denotes cfg [Instr.op .OP_DUP, .op .OP_0NOTEQUAL] _ := .plain rfl
  have hskip : Denotes cfg [Instr.op .OP_1SUB] _ := .plain rfl
  have hhash : Denotes cfg hashOps _ := .plain rfl
  have hden := htest.append (hskip.ifElse hhash)
  rw [← hemit] at hden
  refine .of_denotes hden fun below alt => ?_
  by_cases hk : k = 0
  · subst hk
    have hnil : ∀ code, readNum cfg code [] = .ok 0 := fun code => readNum_encodeNum cfg code 0
    simp [plainRun, plainStep, opcodeStep, shuffle, numOp1, top1, top2, ifEffect, hnil, F,
      hashOps]
  · have hpred : (k : Int) - 1 = (k - 1 : Nat) := by omega
    simp [plainRun, plainStep, opcodeStep, shuffle, numOp1, top1, ifEffect, hk, hpred]

theorem chain_succ (sha256 : Bytes → Bytes) (x pubSeed : Bytes) (start n idx : Nat) :
    chain sha256 x start (n + 1) pubSeed idx =
      F sha256 pubSeed idx (start + n) (chain sha256 x start n pubSeed idx) := rfl

/-- The loop skips as many rounds as the digit says and hashes in the others. -/
theorem runsAs_hashRounds (chainIndex digit : Nat) (x pubSeed : Bytes) (n : Nat) :
    RunsAs cfg slots ((List.range n).flatMap (hashRound chainIndex))
      [encodeNum digit, x, pubSeed]
      (.ok [encodeNum (digit - n : Nat),
        chain cfg.sha256 x digit (n - digit) pubSeed chainIndex, pubSeed]) := by
  let items : Nat → List Bytes := fun j =>
    [encodeNum (digit - j : Nat), chain cfg.sha256 x digit (j - digit) pubSeed chainIndex, pubSeed]
  have hround : ∀ j, RunsAs cfg slots (hashRound chainIndex j) (items j) (.ok (items (j + 1))) := by
    intro j
    have hrun := runsAs_hashRound cfg slots chainIndex j (digit - j)
      (chain cfg.sha256 x digit (j - digit) pubSeed chainIndex) pubSeed
    show RunsAs cfg slots _ _ (.ok [encodeNum (digit - (j + 1) : Nat),
      chain cfg.sha256 x digit (j + 1 - digit) pubSeed chainIndex, pubSeed])
    by_cases hskip : digit ≤ j
    · rw [if_pos (by omega)] at hrun
      have hstep : j + 1 - digit = (j - digit) + 1 := by omega
      rw [hstep, chain_succ, show digit + (j - digit) = j by omega,
        show digit - (j + 1) = 0 by omega]
      exact hrun
    · rw [if_neg (by omega)] at hrun
      rw [show j + 1 - digit = j - digit by omega, show digit - (j + 1) = digit - j - 1 by omega]
      exact hrun
  have hstart : items 0 = [encodeNum digit, x, pubSeed] := by
    show [encodeNum (digit - 0 : Nat), chain cfg.sha256 x digit (0 - digit) pubSeed chainIndex,
      pubSeed] = _
    rw [Nat.zero_sub, Nat.sub_zero]
    rfl
  have hloop := RunsAs.rounds hround n
  rwa [hstart] at hloop

/-- A chain takes one element off the signature and adds its end; where the signature is too
short it stops. -/
theorem runsAs_emitWOTSOneChain (chainIndex : Nat) {digit : Nat} (hdigit : digit ≤ 15)
    (endpt sig pubSeed : Bytes) (csum : Nat) :
    RunsAs cfg slots (emitWOTSOneChain chainIndex)
      [encodeNum digit, endpt, encodeNum csum, sig, pubSeed]
      (if 32 ≤ sig.length then
        .ok [endpt ++ chain cfg.sha256 (sig.take 32) digit (15 - digit) pubSeed chainIndex,
          encodeNum (csum + (15 - digit) : Nat), sig.drop 32, pubSeed]
      else .error .splitRange) := by
  have hsteps : (15 : Int) - digit = (15 - digit : Nat) := by omega
  have henter : RunsOn cfg slots enterChainOps
      ⟨[encodeNum digit, endpt, encodeNum csum, sig, pubSeed], []⟩
      (if 32 ≤ sig.length then
        .ok ⟨[encodeNum digit, sig.take 32, pubSeed],
          [sig.drop 32, encodeNum csum, endpt, encodeNum (15 - digit : Nat)]⟩
      else .error .splitRange) := by
    refine .of_plain (by simp [enterChainOps, emitOps_cons]; decide) fun below => ?_
    by_cases hlen : 32 ≤ sig.length
    · have hsplit : splitAt sig 32 = .ok (sig.take 32, sig.drop 32) := if_pos (by omega)
      simp [enterChainOps, emitOps_cons, plainRun, plainStep, opcodeStep, shuffle, numOp2, top2,
        Stacks.onto, hsplit, hlen, hsteps]
    · have hsplit : splitAt sig 32 = .error .splitRange := if_neg (by omega)
      simp [enterChainOps, emitOps_cons, plainRun, plainStep, opcodeStep, shuffle, numOp2, top2,
        Stacks.onto, hsplit, hlen]
  by_cases hlen : 32 ≤ sig.length
  · rw [if_pos hlen] at henter ⊢
    have hloop := RunsOn.of_runsAs
      (runsAs_hashRounds cfg slots chainIndex digit (sig.take 32) pubSeed 15)
      [sig.drop 32, encodeNum csum, endpt, encodeNum (15 - digit : Nat)]
    have hleave : RunsOn cfg slots leaveChainOps
        ⟨[encodeNum (digit - 15 : Nat),
          chain cfg.sha256 (sig.take 32) digit (15 - digit) pubSeed chainIndex, pubSeed],
          [sig.drop 32, encodeNum csum, endpt, encodeNum (15 - digit : Nat)]⟩
        (.ok ⟨[endpt ++ chain cfg.sha256 (sig.take 32) digit (15 - digit) pubSeed chainIndex,
          encodeNum (csum + (15 - digit) : Nat), sig.drop 32, pubSeed], []⟩) := by
      refine .of_plain (by simp [leaveChainOps, emitOps_cons]; decide) fun below => ?_
      simp [leaveChainOps, emitOps_cons, plainRun, plainStep, opcodeStep, shuffle, numOp2, top2,
        Stacks.onto, Int.add_comm]
    exact RunsOn.runsAs ((henter.append_ok hloop).append_ok hleave)
  · rw [if_neg hlen] at henter ⊢
    exact RunsOn.runsAs (henter.append_error.append_error)

end Chain

/-! ## The message -/

section Message

variable (cfg : Config) (slots : Slots)

/-- The ends of the first `n` chains. -/
def endpoints (sha256 : Bytes → Bytes) (sig pubSeed : Bytes) (digits : List Nat) (n : Nat) :
    Bytes :=
  (List.range n).flatMap (endpoint sha256 sig pubSeed digits)

/-- The steps that the first `n` chains make. -/
def steps (digits : List Nat) (n : Nat) : Nat :=
  ((List.range n).map fun i => 15 - digits.getD i 0).sum

theorem endpoints_succ (sha256 : Bytes → Bytes) (sig pubSeed : Bytes) (digits : List Nat)
    (n : Nat) :
    endpoints sha256 sig pubSeed digits (n + 1) =
      endpoints sha256 sig pubSeed digits n ++ endpoint sha256 sig pubSeed digits n := by
  rw [endpoints, endpoints, List.range_succ, List.flatMap_append, List.flatMap_singleton]

theorem steps_succ (digits : List Nat) (n : Nat) :
    steps digits (n + 1) = steps digits n + (15 - digits.getD n 0) := by
  rw [steps, steps, List.range_succ, List.map_append, List.sum_append, List.map_singleton,
    List.sum_singleton]

/-- Chain `i` of a signature. -/
theorem runsAs_chain (sig pubSeed : Bytes) (digits : List Nat) (i csum : Nat)
    (hdigit : digits.getD i 0 ≤ 15) :
    RunsAs cfg slots (emitWOTSOneChain i)
      [encodeNum (digits.getD i 0), endpoints cfg.sha256 sig pubSeed digits i, encodeNum csum,
        sig.drop (32 * i), pubSeed]
      (if 32 * (i + 1) ≤ sig.length then
        .ok [endpoints cfg.sha256 sig pubSeed digits (i + 1),
          encodeNum (csum + (15 - digits.getD i 0) : Nat), sig.drop (32 * (i + 1)), pubSeed]
      else .error .splitRange) := by
  have hrun := runsAs_emitWOTSOneChain cfg slots i hdigit
    (endpoints cfg.sha256 sig pubSeed digits i) (sig.drop (32 * i)) pubSeed csum
  have hend : chain cfg.sha256 ((sig.drop (32 * i)).take 32) (digits.getD i 0)
      (15 - digits.getD i 0) pubSeed i = endpoint cfg.sha256 sig pubSeed digits i := by
    rw [endpoint, Nat.mul_comm 32 i]
    rfl
  rw [hend, ← endpoints_succ, List.drop_drop, List.length_drop] at hrun
  by_cases hlen : 32 * (i + 1) ≤ sig.length
  · rw [if_pos (by omega)] at hrun
    rwa [if_pos hlen]
  · rw [if_neg (by omega)] at hrun
    rwa [if_neg hlen]

/-- The digits of a byte. -/
theorem runsOn_nibbleOps (b : UInt8) (items : List Bytes) :
    RunsOn cfg slots nibbleOps ⟨[b] :: items, []⟩
      (.ok ⟨encodeNum (b.toNat &&& 0x0f : Nat) :: encodeNum (b.toNat >>> 4 &&& 0x0f : Nat) ::
        items, []⟩) := by
  have hnil : ∀ code, readNum cfg code [] = .ok 0 := fun code => readNum_encodeNum cfg code 0
  have hpad : num2bin 0 1 = .ok [0] := by decide
  have hbyte : decodeNum [b, 0] = b.toNat := by
    have hword := decodeNum_append_zero [b]
    simpa [leNat] using hword
  have hlow : b.toNat &&& 0x0f = b.toNat % 16 := Nat.and_two_pow_sub_one_eq_mod _ 4
  have hhigh : b.toNat >>> 4 &&& 0x0f = b.toNat / 16 := by
    have hlt : b.toNat < 256 := b.toNat_lt
    have hmod : b.toNat >>> 4 &&& 0x0f = b.toNat >>> 4 % 16 :=
      Nat.and_two_pow_sub_one_eq_mod _ 4
    rw [hmod, Nat.shiftRight_eq_div_pow]
    omega
  have hdiv : (b.toNat : Int).tdiv 16 = (b.toNat / 16 : Nat) := by
    rw [Int.tdiv_eq_ediv_of_nonneg (by omega)]
    rfl
  have hmod : (b.toNat : Int).tmod 16 = (b.toNat % 16 : Nat) := by
    rw [Int.tmod_eq_emod_of_nonneg (by omega)]
    rfl
  rw [hlow, hhigh]
  refine .of_plain (by simp [nibbleOps, emitOps_cons]; decide) fun below => ?_
  simp [nibbleOps, emitOps_cons, plainRun, plainStep, opcodeStep, shuffle, numOp2, top2, top1,
    Stacks.onto, hpad, hbyte, hdiv, hmod]

/-- What is left of the hash after byte `i`. -/
def kept (i : Nat) (rest : Bytes) : List Bytes := if i < 31 then [rest] else []

/-- A byte of the hash takes two elements off the signature. -/
theorem runsAs_byteOps {i : Nat} {b : UInt8} {rest : Bytes} (hrest : ¬ i < 31 → rest = [])
    (sig pubSeed : Bytes) {digits : List Nat}
    (hhigh : digits.getD (i * 2) 0 = b.toNat >>> 4 &&& 0x0f)
    (hlow : digits.getD (i * 2 + 1) 0 = b.toNat &&& 0x0f) :
    RunsAs cfg slots (byteOps i)
      [b :: rest, endpoints cfg.sha256 sig pubSeed digits (i * 2),
        encodeNum (steps digits (i * 2)), sig.drop (32 * (i * 2)), pubSeed]
      (if 32 * ((i + 1) * 2) ≤ sig.length then
        .ok (kept i rest ++ [endpoints cfg.sha256 sig pubSeed digits ((i + 1) * 2),
          encodeNum (steps digits ((i + 1) * 2)), sig.drop (32 * ((i + 1) * 2)), pubSeed])
      else .error .splitRange) := by
  have hfront : ∀ items : List Bytes, RunsOn cfg slots
      ((if i < 31 then nextByteOps else []) ++ nibbleOps ++
        (if i < 31 then [.opcode .OP_TOALTSTACK, .swap, .opcode .OP_TOALTSTACK]
          else [.opcode .OP_TOALTSTACK]))
      ⟨(b :: rest) :: items, []⟩
      (.ok ⟨encodeNum (digits.getD (i * 2) 0) :: items,
        kept i rest ++ [encodeNum (digits.getD (i * 2 + 1) 0)]⟩) := by
    intro items
    rw [hhigh, hlow]
    unfold kept
    by_cases hi : i < 31
    · rw [if_pos hi, if_pos hi, if_pos hi]
      have hsplit : splitAt (b :: rest) 1 = .ok ([b], rest) := splitAt_append [b] rest
      have hnext : RunsOn cfg slots nextByteOps ⟨(b :: rest) :: items, []⟩
          (.ok ⟨[b] :: rest :: items, []⟩) := by
        refine .of_plain (by simp [nextByteOps, emitOps_cons]; decide) fun below => ?_
        simp [nextByteOps, emitOps_cons, plainRun, plainStep, opcodeStep, shuffle, Stacks.onto,
          hsplit]
      have hsave : ∀ low high : Bytes, RunsOn cfg slots
          [.opcode .OP_TOALTSTACK, .swap, .opcode .OP_TOALTSTACK]
          ⟨low :: high :: rest :: items, []⟩ (.ok ⟨high :: items, [rest, low]⟩) := by
        intro low high
        refine .of_plain (by simp [emitOps_cons]; decide) fun below => ?_
        simp [emitOps_cons, plainRun, plainStep, opcodeStep, shuffle, Stacks.onto]
      exact (hnext.append_ok (runsOn_nibbleOps cfg slots b (rest :: items))).append_ok
        (hsave _ _)
    · rw [if_neg hi, if_neg hi, if_neg hi, hrest hi]
      have hsave : ∀ low high : Bytes, RunsOn cfg slots [.opcode .OP_TOALTSTACK]
          ⟨low :: high :: items, []⟩ (.ok ⟨high :: items, [low]⟩) := by
        intro low high
        refine .of_plain (by simp [emitOps_cons]; decide) fun below => ?_
        simp [emitOps_cons, plainRun, plainStep, opcodeStep, Stacks.onto]
      exact (runsOn_nibbleOps cfg slots b items).append_ok (hsave _ _)
  have hmiddle : ∀ items : List Bytes, RunsOn cfg slots
      (if i < 31 then
        [.opcode .OP_FROMALTSTACK, .opcode .OP_FROMALTSTACK, .swap, .opcode .OP_TOALTSTACK]
        else [.opcode .OP_FROMALTSTACK])
      ⟨items, kept i rest ++ [encodeNum (digits.getD (i * 2 + 1) 0)]⟩
      (.ok ⟨encodeNum (digits.getD (i * 2 + 1) 0) :: items, kept i rest⟩) := by
    intro items
    unfold kept
    by_cases hi : i < 31
    · rw [if_pos hi, if_pos hi]
      refine .of_plain (by simp [emitOps_cons]; decide) fun below => ?_
      simp [emitOps_cons, plainRun, plainStep, opcodeStep, shuffle, Stacks.onto]
    · rw [if_neg hi, if_neg hi]
      refine .of_plain (by simp [emitOps_cons]; decide) fun below => ?_
      simp [emitOps_cons, plainRun, plainStep, opcodeStep, Stacks.onto]
  have hback : ∀ items : List Bytes, RunsOn cfg slots
      (if i < 31 then [.opcode .OP_FROMALTSTACK] else [])
      ⟨items, kept i rest⟩ (.ok ⟨kept i rest ++ items, []⟩) := by
    intro items
    unfold kept
    by_cases hi : i < 31
    · rw [if_pos hi, if_pos hi]
      refine .of_plain (by simp [emitOps_cons]; decide) fun below => ?_
      simp [emitOps_cons, plainRun, plainStep, opcodeStep, Stacks.onto]
    · rw [if_neg hi, if_neg hi]
      exact .nil _
  have hfirst := RunsOn.of_runsAs (runsAs_chain cfg slots sig pubSeed digits (i * 2)
    (steps digits (i * 2)) (by rw [hhigh]; exact Nat.and_le_right))
    (kept i rest ++ [encodeNum (digits.getD (i * 2 + 1) 0)])
  have hsecond := RunsOn.of_runsAs (runsAs_chain cfg slots sig pubSeed digits (i * 2 + 1)
    (steps digits (i * 2 + 1)) (by rw [hlow]; exact Nat.and_le_right)) (kept i rest)
  rw [← steps_succ] at hfirst hsecond
  have hindex : (i + 1) * 2 = i * 2 + 1 + 1 := by omega
  rw [hindex]
  unfold byteOps
  refine RunsOn.runsAs ?_
  by_cases hlen : 32 * (i * 2 + 1) ≤ sig.length
  · rw [if_pos hlen] at hfirst
    have hstart := (((hfront _).append_ok hfirst).append_ok (hmiddle _))
    by_cases hlen' : 32 * (i * 2 + 1 + 1) ≤ sig.length
    · rw [if_pos hlen'] at hsecond ⊢
      exact (hstart.append_ok hsecond).append_ok (hback _)
    · rw [if_neg hlen'] at hsecond ⊢
      exact (hstart.append_ok hsecond).append_error
  · have hlen' : ¬ 32 * (i * 2 + 1 + 1) ≤ sig.length := by omega
    rw [if_neg hlen] at hfirst
    rw [if_neg hlen']
    exact ((((hfront _).append_ok hfirst).append_error).append_error).append_error

/-- The stacks before byte `i`. -/
def byteItems (sig pubSeed : Bytes) (digits : List Nat) (hash : Bytes) (i : Nat) : Stacks :=
  ⟨hash.drop i :: [endpoints cfg.sha256 sig pubSeed digits (i * 2),
    encodeNum (steps digits (i * 2)), sig.drop (32 * (i * 2)), pubSeed], []⟩

/-- All bytes of the hash: 64 chains. -/
theorem runsOn_bytes {hash : Bytes} (hhash : hash.length = 32) (sig pubSeed : Bytes)
    {digits : List Nat}
    (hdigits : ∀ (i : Nat) (hi : i < hash.length),
      digits.getD (i * 2) 0 = hash[i].toNat >>> 4 &&& 0x0f ∧
        digits.getD (i * 2 + 1) 0 = hash[i].toNat &&& 0x0f) :
    RunsOn cfg slots ((List.range 32).flatMap byteOps) (byteItems cfg sig pubSeed digits hash 0)
      (if 2048 ≤ sig.length then
        .ok ⟨[endpoints cfg.sha256 sig pubSeed digits 64, encodeNum (steps digits 64),
          sig.drop 2048, pubSeed], []⟩
      else .error .splitRange) := by
  have hbyte : ∀ (i : Nat) (hi : i < hash.length),
      RunsOn cfg slots (byteOps i) (byteItems cfg sig pubSeed digits hash i)
        (if 32 * ((i + 1) * 2) ≤ sig.length then
          .ok ⟨kept i (hash.drop (i + 1)) ++
            [endpoints cfg.sha256 sig pubSeed digits ((i + 1) * 2),
              encodeNum (steps digits ((i + 1) * 2)), sig.drop (32 * ((i + 1) * 2)), pubSeed], []⟩
        else .error .splitRange) := by
    intro i hi
    have hrest : ¬ i < 31 → hash.drop (i + 1) = [] := fun hlast =>
      List.drop_eq_nil_of_le (by omega)
    have hrun := RunsOn.of_runsAs (runsAs_byteOps cfg slots hrest sig pubSeed (hdigits i hi).1
      (hdigits i hi).2) []
    rw [← List.drop_eq_getElem_cons hi] at hrun
    by_cases hlen : 32 * ((i + 1) * 2) ≤ sig.length
    · rw [if_pos hlen] at hrun ⊢
      exact hrun
    · rw [if_neg hlen] at hrun ⊢
      exact hrun
  have hloop : RunsOn cfg slots ((List.range 31).flatMap byteOps)
      (byteItems cfg sig pubSeed digits hash 0)
      (if 32 * (31 * 2) ≤ sig.length then .ok (byteItems cfg sig pubSeed digits hash 31)
        else .error .splitRange) := by
    refine RunsOn.rounds_reached (byteItems cfg sig pubSeed digits hash)
      (fun i => 32 * (i * 2) ≤ sig.length) (by omega) (fun i h => by omega) fun i hi _ => ?_
    have hround := hbyte i (by omega)
    rw [kept, if_pos hi] at hround
    exact hround
  have hlast := hbyte 31 (by omega)
  rw [List.range_succ, List.flatMap_append, List.flatMap_singleton]
  by_cases hlen : 32 * (31 * 2) ≤ sig.length
  · rw [if_pos hlen] at hloop
    exact hloop.append_ok hlast
  · rw [if_neg hlen] at hloop
    rw [if_neg (by omega)]
    exact hloop.append_error

end Message

/-! ## The checksum -/

section Checksum

variable (cfg : Config) (slots : Slots)

theorem runsOn_checksumOps (csum : Nat) (endpt sig pubSeed : Bytes) :
    RunsOn cfg slots checksumOps ⟨[endpt, encodeNum csum, sig, pubSeed], []⟩
      (.ok ⟨[endpt, sig, pubSeed], [encodeNum (csum / 256 % 16 : Nat),
        encodeNum (csum / 16 % 16 : Nat), encodeNum (csum % 16 : Nat)]⟩) := by
  have hmod : ∀ k : Int, 0 ≤ k → k.tmod 16 = k % 16 := fun k hk => Int.tmod_eq_emod_of_nonneg hk
  have hlow := hmod csum (by omega)
  have hmid := hmod ((csum : Int) / 16) (by omega)
  have hhigh := hmod ((csum : Int) / 256) (by omega)
  refine .of_plain (by simp [checksumOps, emitOps_cons]; decide) fun below => ?_
  simp [checksumOps, emitOps_cons, plainRun, plainStep, opcodeStep, shuffle, numOp2, top2,
    Stacks.onto, hlow, hmid, hhigh]

/-- The stacks before checksum chain `j`. -/
def checksumItems (sig pubSeed : Bytes) (digits : List Nat) (j : Nat) : Stacks :=
  ⟨[endpoints cfg.sha256 sig pubSeed digits (64 + j), sig.drop (32 * (64 + j)), pubSeed],
    (List.range' (64 + j) (3 - j)).map fun i => encodeNum (digits.getD i 0)⟩

theorem runsOn_checksumChainOps {j : Nat} (hj : j < 3) (sig pubSeed : Bytes) {digits : List Nat}
    (hdigit : digits.getD (64 + j) 0 ≤ 15) :
    RunsOn cfg slots (checksumChainOps j) (checksumItems cfg sig pubSeed digits j)
      (if 32 * (64 + (j + 1)) ≤ sig.length then .ok (checksumItems cfg sig pubSeed digits (j + 1))
        else .error .splitRange) := by
  have hrange : List.range' (64 + j) (3 - j) =
      (64 + j) :: List.range' (64 + (j + 1)) (3 - (j + 1)) := by
    rw [show 3 - j = (3 - (j + 1)) + 1 by omega, List.range'_succ]
    rfl
  have henter : RunsOn cfg slots
      [.opcode .OP_TOALTSTACK, .push (.bigint 0), .opcode .OP_FROMALTSTACK,
        .opcode .OP_FROMALTSTACK]
      (checksumItems cfg sig pubSeed digits j)
      (.ok ⟨[encodeNum (digits.getD (64 + j) 0), endpoints cfg.sha256 sig pubSeed digits (64 + j),
        encodeNum (0 : Nat), sig.drop (32 * (64 + j)), pubSeed],
        (List.range' (64 + (j + 1)) (3 - (j + 1))).map fun i => encodeNum (digits.getD i 0)⟩) := by
    refine .of_plain (by simp [emitOps_cons]; decide) fun below => ?_
    simp [emitOps_cons, plainRun, plainStep, opcodeStep, Stacks.onto, checksumItems, hrange]
  have hleave : ∀ (csum endpt : Bytes) (items alt : List Bytes), RunsOn cfg slots [.swap, .drop]
      ⟨endpt :: csum :: items, alt⟩ (.ok ⟨endpt :: items, alt⟩) := by
    intro csum endpt items alt
    refine .of_plain (by simp [emitOps_cons]; decide) fun below => ?_
    simp [emitOps_cons, plainRun, plainStep, opcodeStep, shuffle, Stacks.onto]
  have hchain := RunsOn.of_runsAs
    (runsAs_chain cfg slots sig pubSeed digits (64 + j) 0 hdigit)
    ((List.range' (64 + (j + 1)) (3 - (j + 1))).map fun i => encodeNum (digits.getD i 0))
  unfold checksumChainOps
  by_cases hlen : 32 * (64 + (j + 1)) ≤ sig.length
  · rw [if_pos (show 32 * (64 + j + 1) ≤ sig.length by omega)] at hchain
    rw [if_pos hlen]
    exact (henter.append_ok hchain).append_ok (hleave _ _ _ _)
  · rw [if_neg (show ¬ 32 * (64 + j + 1) ≤ sig.length by omega)] at hchain
    rw [if_neg hlen]
    exact (henter.append_ok hchain).append_error

/-- The three chains of the checksum. -/
theorem runsOn_checksumChains (sig pubSeed : Bytes) {digits : List Nat}
    (hlen : 2048 ≤ sig.length) (hdigit : ∀ j < 3, digits.getD (64 + j) 0 ≤ 15) :
    RunsOn cfg slots ((List.range 3).flatMap checksumChainOps)
      (checksumItems cfg sig pubSeed digits 0)
      (if 2144 ≤ sig.length then
        .ok ⟨[endpoints cfg.sha256 sig pubSeed digits 67, sig.drop 2144, pubSeed], []⟩
      else .error .splitRange) :=
  RunsOn.rounds_reached (checksumItems cfg sig pubSeed digits)
    (fun j => 32 * (64 + j) ≤ sig.length) hlen (fun j h => by omega)
    fun j hj _ => runsOn_checksumChainOps cfg slots hj sig pubSeed (hdigit j hj)

end Checksum

/-! ## Digits -/

section Digits

theorem extractDigits_cons (b : UInt8) (hash : Bytes) :
    extractDigits (b :: hash) =
      (b.toNat >>> 4 &&& 0x0f) :: (b.toNat &&& 0x0f) :: extractDigits hash := rfl

theorem length_extractDigits (hash : Bytes) : (extractDigits hash).length = hash.length * 2 := by
  induction hash with
  | nil => rfl
  | cons b hash ih => rw [extractDigits_cons, List.length_cons, List.length_cons, ih,
      List.length_cons, Nat.succ_mul]

/-- The digits of byte `i`. -/
theorem getD_extractDigits (hash : Bytes) : ∀ (i : Nat) (hi : i < hash.length),
    (extractDigits hash).getD (i * 2) 0 = hash[i].toNat >>> 4 &&& 0x0f ∧
      (extractDigits hash).getD (i * 2 + 1) 0 = hash[i].toNat &&& 0x0f := by
  induction hash with
  | nil => exact fun i hi => absurd hi (Nat.not_lt_zero i)
  | cons b hash ih =>
    intro i hi
    cases i with
    | zero => exact ⟨rfl, rfl⟩
    | succ i =>
      have htail := ih i (Nat.lt_of_succ_lt_succ hi)
      rw [extractDigits_cons, Nat.succ_mul]
      exact htail

theorem le_of_mem_extractDigits {hash : Bytes} {d : Nat} (h : d ∈ extractDigits hash) :
    d ≤ 15 := by
  obtain ⟨b, -, hd⟩ := List.mem_flatMap.mp h
  rcases List.mem_cons.mp hd with rfl | hd
  · exact Nat.and_le_right
  · obtain rfl := List.mem_singleton.mp hd
    exact Nat.and_le_right

/-- The digits of a message: those of its hash, then those of the checksum. -/
theorem getD_allDigits {hash : Bytes} {i : Nat} (hi : i < hash.length * 2) :
    (allDigits hash).getD i 0 = (extractDigits hash).getD i 0 := by
  unfold allDigits
  exact List.getD_append _ _ _ _ (by rw [length_extractDigits]; exact hi)

theorem steps_eq_sum (digits rest : List Nat) :
    steps (digits ++ rest) digits.length = digits.foldl (fun sum d => sum + ((W - 1) - d)) 0 := by
  have hmap : (List.range digits.length).map (fun i => 15 - (digits ++ rest).getD i 0) =
      digits.map fun d => 15 - d := by
    refine List.ext_getElem (by simp) fun i hi hi' => ?_
    rw [List.length_map] at hi'
    rw [List.getElem_map, List.getElem_range, List.getD_append _ _ _ _ hi',
      List.getD_eq_getElem _ _ hi', List.getElem_map]
  rw [steps, hmap, List.sum_eq_foldl_nat, List.foldl_map]
  rfl

/-- The last three digits are those of the checksum. -/
theorem checksum_allDigits {hash : Bytes} (hhash : hash.length = 32) :
    (List.range' 64 3).map ((allDigits hash).getD · 0) =
      [steps (allDigits hash) 64 / 256 % 16, steps (allDigits hash) 64 / 16 % 16,
        steps (allDigits hash) 64 % 16] := by
  have hlength : (extractDigits hash).length = 64 := by rw [length_extractDigits, hhash]
  have hsteps : steps (allDigits hash) 64 =
      (extractDigits hash).foldl (fun sum d => sum + ((W - 1) - d)) 0 := by
    rw [← hlength]
    exact steps_eq_sum _ _
  have hget : ∀ j, (allDigits hash).getD (64 + j) 0 =
      (checksumDigits (extractDigits hash)).getD j 0 := by
    intro j
    unfold allDigits
    rw [List.getD_append_right _ _ _ _ (by omega), hlength, Nat.add_sub_cancel_left]
  have hdigits : checksumDigits (extractDigits hash) =
      [steps (allDigits hash) 64 / 16 / 16 % 16, steps (allDigits hash) 64 / 16 % 16,
        steps (allDigits hash) 64 % 16] := by
    rw [checksumDigits, ← hsteps]
    rfl
  have hthree : (List.range' 64 3).map ((allDigits hash).getD · 0) =
      [(allDigits hash).getD (64 + 0) 0, (allDigits hash).getD (64 + 1) 0,
        (allDigits hash).getD (64 + 2) 0] := rfl
  rw [hthree, hget, hget, hget, hdigits, Nat.div_div_eq_div_mul]
  rfl

theorem checksum_le (digits : List Nat) {hash : Bytes} (hhash : hash.length = 32)
    (hdigits : digits = allDigits hash) : ∀ j < 3, digits.getD (64 + j) 0 ≤ 15 := by
  intro j hj
  subst hdigits
  have hmem : (allDigits hash).getD (64 + j) 0 ∈
      (List.range' 64 3).map ((allDigits hash).getD · 0) :=
    List.mem_map_of_mem (List.mem_range'_1.mpr ⟨by omega, by omega⟩)
  rw [checksum_allDigits hhash] at hmem
  simp only [List.mem_cons, List.not_mem_nil, or_false] at hmem
  omega

end Digits

/-! ## Agreement -/

section Verify

variable (cfg : Config) (slots : Slots)

/-- The code compares the hash of the ends with the root; what is too short stops it. -/
theorem runsAs_emitVerifyWOTS (hsha : ∀ x, (cfg.sha256 x).length = 32) (msg sig pk : Bytes) :
    RunsAs cfg slots emitVerifyWOTS [pk, sig, msg]
      (if 32 ≤ pk.length ∧ 2144 ≤ sig.length then
        .ok [boolBytes (cfg.sha256 (endpoints cfg.sha256 sig (pk.take 32)
          (allDigits (cfg.sha256 msg)) 67) == pk.drop 32)]
      else .error .splitRange) := by
  let digits := allDigits (cfg.sha256 msg)
  have hprologue : RunsOn cfg slots prologueOps ⟨[pk, sig, msg], []⟩
      (if 32 ≤ pk.length then
        .ok ((byteItems cfg sig (pk.take 32) digits (cfg.sha256 msg) 0).onto ⟨[], [pk.drop 32]⟩)
      else .error .splitRange) := by
    have hempty : encodeNum (steps digits 0 : Nat) = [] := rfl
    refine .of_plain (by simp [prologueOps, emitOps_cons]; decide) fun below => ?_
    by_cases hlen : 32 ≤ pk.length
    · have hsplit : splitAt pk 32 = .ok (pk.take 32, pk.drop 32) := if_pos (by omega)
      simp [prologueOps, emitOps_cons, plainRun, plainStep, opcodeStep, shuffle, top1, pushNum,
        Stacks.onto, byteItems, endpoints, hempty, hsplit, hlen]
    · have hsplit : splitAt pk 32 = .error .splitRange := if_neg (by omega)
      simp [prologueOps, emitOps_cons, plainRun, plainStep, opcodeStep, shuffle, Stacks.onto,
        hsplit, hlen]
  have hdigits : ∀ (i : Nat) (hi : i < (cfg.sha256 msg).length),
      digits.getD (i * 2) 0 = (cfg.sha256 msg)[i].toNat >>> 4 &&& 0x0f ∧
        digits.getD (i * 2 + 1) 0 = (cfg.sha256 msg)[i].toNat &&& 0x0f := by
    intro i hi
    have hbyte := getD_extractDigits (cfg.sha256 msg) i hi
    rwa [← getD_allDigits (by omega), ← getD_allDigits (by omega)] at hbyte
  have hbytes := (runsOn_bytes cfg slots (hsha msg) sig (pk.take 32) hdigits).frame
    ⟨[], [pk.drop 32]⟩
  have hchecksum : RunsOn cfg slots checksumOps
      ⟨[endpoints cfg.sha256 sig (pk.take 32) digits 64, encodeNum (steps digits 64),
        sig.drop 2048, pk.take 32], [pk.drop 32]⟩
      (.ok ((checksumItems cfg sig (pk.take 32) digits 0).onto ⟨[], [pk.drop 32]⟩)) := by
    have hrun := (runsOn_checksumOps cfg slots (steps digits 64)
      (endpoints cfg.sha256 sig (pk.take 32) digits 64) (sig.drop 2048) (pk.take 32)).frame
      ⟨[], [pk.drop 32]⟩
    have halt := congrArg (List.map fun d : Nat => encodeNum d) (checksum_allDigits (hsha msg))
    rw [List.map_map] at halt
    rw [checksumItems, Stacks.onto]
    exact halt ▸ hrun
  have hchains := fun hlen => (runsOn_checksumChains cfg slots sig (pk.take 32) hlen
    (checksum_le digits (hsha msg) rfl)).frame ⟨[], [pk.drop 32]⟩
  have hepilogue : ∀ endpt rest pubSeed root : Bytes, RunsOn cfg slots epilogueOps
      ⟨[endpt, rest, pubSeed], [root]⟩ (.ok ⟨[boolBytes (cfg.sha256 endpt == root)], []⟩) := by
    intro endpt rest pubSeed root
    refine .of_plain (by simp [epilogueOps, emitOps_cons]; decide) fun below => ?_
    simp [epilogueOps, emitOps_cons, plainRun, plainStep, opcodeStep, shuffle, top1, top2,
      Stacks.onto]
  unfold emitVerifyWOTS
  refine RunsOn.runsAs ?_
  by_cases hpk : 32 ≤ pk.length
  · rw [if_pos hpk] at hprologue
    have hstart := hprologue.append_ok hbytes
    by_cases hmsg : 2048 ≤ sig.length
    · rw [if_pos hmsg] at hstart
      have hmiddle := (hstart.append_ok hchecksum).append_ok (hchains hmsg)
      by_cases hsig : 2144 ≤ sig.length
      · rw [if_pos hsig] at hmiddle
        rw [if_pos ⟨hpk, hsig⟩]
        exact hmiddle.append_ok (hepilogue _ _ _ _)
      · rw [if_neg hsig] at hmiddle
        rw [if_neg fun h => hsig h.2]
        exact hmiddle.append_error
    · rw [if_neg hmsg] at hstart
      have hsig : ¬ (32 ≤ pk.length ∧ 2144 ≤ sig.length) := by omega
      rw [if_neg hsig]
      exact hstart.append_error.append_error.append_error
  · rw [if_neg hpk] at hprologue
    rw [if_neg fun h => hpk h.1]
    exact hprologue.append_error.append_error.append_error.append_error

/-- The ends depend on the elements alone. -/
theorem endpoints_take (sha256 : Bytes → Bytes) (sig pubSeed : Bytes) (digits : List Nat) :
    endpoints sha256 (sig.take 2144) pubSeed digits 67 =
      endpoints sha256 sig pubSeed digits 67 := by
  have hpoint : ∀ i ∈ List.range 67,
      endpoint sha256 (sig.take 2144) pubSeed digits i = endpoint sha256 sig pubSeed digits i := by
    intro i hi
    have hlt := List.mem_range.mp hi
    simp only [endpoint, List.drop_take, List.take_take, N]
    rw [show min 32 (2144 - i * 32) = 32 by omega]
  exact congrArg List.flatten (List.map_congr_left hpoint)

/-- What the reference makes of the first 2144 bytes. -/
theorem wotsVerify_take {sha256 : Bytes → Bytes} (hsha : ∀ x, (sha256 x).length = 32)
    (msg : Bytes) {sig pk : Bytes} (hsig : 2144 ≤ sig.length) (hpk : 32 ≤ pk.length) :
    wotsVerify sha256 msg (sig.take 2144) pk =
      (sha256 (endpoints sha256 sig (pk.take 32) (allDigits (sha256 msg)) 67) == pk.drop 32) := by
  have hlength : (sig.take 2144).length = LEN * N := by
    rw [List.length_take]
    show min 2144 sig.length = 2144
    omega
  rw [wotsVerify, if_neg (not_not.mpr hlength)]
  by_cases hkey : pk.length = 2 * N
  · have hroot : (pk.drop 32).take 32 = pk.drop 32 :=
      List.take_of_length_le (by rw [List.length_drop, hkey]; decide)
    rw [if_neg (not_not.mpr hkey)]
    show (sha256 (endpoints sha256 (sig.take 2144) (pk.take 32) (allDigits (sha256 msg)) 67) ==
      (pk.drop 32).take 32) = _
    rw [endpoints_take, hroot]
  · rw [if_pos hkey]
    refine (beq_eq_false_iff_ne.mpr fun heq => ?_).symm
    have hlen := congrArg List.length heq
    rw [hsha, List.length_drop] at hlen
    exact hkey (show pk.length = 64 by omega)

/-- The digest of no bytes. -/
def emptyDigest : Config :=
  .hashing fun _ => leBytes 32 0x55b852781b9995a44c939b64e441ae2724b96f99c8f4fb9a141cfc9842c4b0e3

theorem length_emptyDigest (x : Bytes) : (emptyDigest.sha256 x).length = 32 := length_leBytes 32 _

end Verify

end Runar.StackLower.Wots
