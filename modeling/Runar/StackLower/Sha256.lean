/-
  StackLower/Sha256.lean --- the opcodes of SHA-256.

  WHAT THIS FILE IS FOR.  A block is compressed by one long piece of straight code: the
  words of the block are unpacked and extended to the 64 of the schedule, the eight working
  variables are kept above them through the rounds, and their sums with the value before
  are packed again.  The end of a message is padded on the stack to one block or two.  The
  file has what each piece does to words, and from it that the code computes the hash.
-/
import Runar.StackLower.Words

set_option autoImplicit false

namespace Runar.StackLower.Sha256

open Script Crypto.Sha256

/-! ## The code generator -/

def K : List Nat :=
  [0x428a2f98, 0x71374491, 0xb5c0fbcf, 0xe9b5dba5,
   0x3956c25b, 0x59f111f1, 0x923f82a4, 0xab1c5ed5,
   0xd807aa98, 0x12835b01, 0x243185be, 0x550c7dc3,
   0x72be5d74, 0x80deb1fe, 0x9bdc06a7, 0xc19bf174,
   0xe49b69c1, 0xefbe4786, 0x0fc19dc6, 0x240ca1cc,
   0x2de92c6f, 0x4a7484aa, 0x5cb0a9dc, 0x76f988da,
   0x983e5152, 0xa831c66d, 0xb00327c8, 0xbf597fc7,
   0xc6e00bf3, 0xd5a79147, 0x06ca6351, 0x14292967,
   0x27b70a85, 0x2e1b2138, 0x4d2c6dfc, 0x53380d13,
   0x650a7354, 0x766a0abb, 0x81c2c92e, 0x92722c85,
   0xa2bfe8a1, 0xa81a664b, 0xc24b8b70, 0xc76c51a3,
   0xd192e819, 0xd6990624, 0xf40e3585, 0x106aa070,
   0x19a4c116, 0x1e376c08, 0x2748774c, 0x34b0bcb5,
   0x391c0cb3, 0x4ed8aa4a, 0x5b9cca4f, 0x682e6ff3,
   0x748f82ee, 0x78a5636f, 0x84c87814, 0x8cc70208,
   0x90befffa, 0xa4506ceb, 0xbef9a3f7, 0xc67178f2]

def u32ToLE (n : Nat) : Bytes := leBytes 4 n

section Code

open Emitter

/-- Two rotations and a third operation, their results joined. -/
def sigmaOps (first second : Nat) (third : List StackOp) : List StackOp :=
  reverseBytes4 ++ [.dup, .dup] ++ rotrBE first ++ [.swap] ++ rotrBE second ++ binOp .OP_XOR ++
    [.swap] ++ third ++ binOp .OP_XOR ++ reverseBytes4

def bigSigma0 : List StackOp := sigmaOps 2 13 (rotrBE 22)
def bigSigma1 : List StackOp := sigmaOps 6 11 (rotrBE 25)
def smallSigma0 : List StackOp := sigmaOps 7 18 (shrBE 3)
def smallSigma1 : List StackOp := sigmaOps 17 19 (shrBE 10)

def ch : List StackOp :=
  [.rot, .dup, .opcode .OP_INVERT, .rot] ++ binOp .OP_AND ++ toAlt ++ binOp .OP_AND ++ fromAlt ++
    binOp .OP_XOR

def maj : List StackOp :=
  toAlt ++ [.opcode .OP_2DUP] ++ binOp .OP_AND ++ toAlt ++ binOp .OP_XOR ++ fromAlt ++ [.swap] ++
    fromAlt ++ binOp .OP_AND ++ binOp .OP_OR

/-- The five addends of the first temporary word, above the working variables. -/
def roundAddends (t : Nat) : List StackOp :=
  pick 4 ++ bigSigma1 ++ pick 5 ++ pick 7 ++ pick 9 ++ ch ++ pick 9 ++
    pushB (u32ToLE (K.getD t 0)) ++ pick (75 - t)

/-- The second temporary word. -/
def roundSecond : List StackOp :=
  pick 1 ++ bigSigma0 ++ pick 2 ++ pick 4 ++ pick 6 ++ maj ++ add32

/-- The working variables move up. -/
def roundUpdate : List StackOp :=
  [.swap] ++ add32 ++ [.swap] ++ roll 5 ++ add32 ++ roll 8 ++ [.drop] ++ [.swap] ++ roll 4 ++
    roll 4 ++ roll 4 ++ roll 3

def emitRound (t : Nat) : List StackOp :=
  roundAddends t ++ addN 5 ++ [.dup] ++ toAlt ++ roundSecond ++ fromAlt ++ roundUpdate

/-- One more word of the schedule. -/
def expandOps : List StackOp :=
  [.over] ++ smallSigma1 ++ pick (6 + 1) ++ pick (14 + 2) ++ smallSigma0 ++ pick (15 + 3) ++ addN 4

def unpackBlock : List StackOp :=
  (List.replicate 15 split4).flatten ++ beWordsToLE 16

def unpackState : List StackOp :=
  (List.replicate 7 split4).flatten ++ beWordsToLEReversed8

/-- The working variables plus the value before, onto the alt stack. -/
def addState : List StackOp :=
  (List.range 8).flatMap fun i => roll (8 - i) ++ add32 ++ toAlt

def packState : List StackOp :=
  fromAlt ++ reverseBytes4 ++
    (List.replicate 7 (fromAlt ++ reverseBytes4 ++ [.swap] ++ binOp .OP_CAT)).flatten

def generateCompressOps : List StackOp :=
  [.swap, .dup] ++ toAlt ++ toAlt ++ unpackBlock ++ (List.replicate 48 expandOps).flatten ++
    fromAlt ++ unpackState ++ (List.range 64).flatMap emitRound ++ fromAlt ++ unpackState ++
    addState ++ packState ++ (List.replicate 64 [.swap, .drop]).flatten

def emitSha256Compress : List StackOp := generateCompressOps

/-- The bit length as eight bytes, the most significant first, onto the alt stack. -/
def bitLength : List StackOp :=
  pushI 9 ++ binOp .OP_NUM2BIN ++ pushI 8 ++ [.opcode .OP_SPLIT, .drop] ++ pushI 4 ++
    [.opcode .OP_SPLIT] ++ reverseBytes4 ++ [.swap] ++ reverseBytes4 ++ binOp .OP_CAT ++ toAlt

/-- Zeros up to a length, and the bit length behind them. -/
def padTo (length : Nat) : List StackOp :=
  pushI length ++ [.swap] ++ binOp .OP_SUB ++ pushI 0 ++ [.swap] ++ binOp .OP_NUM2BIN ++
    binOp .OP_CAT ++ fromAlt ++ binOp .OP_CAT

def emitSha256Finalize : List StackOp :=
  bitLength ++ pushB [0x80] ++ binOp .OP_CAT ++ [.opcode .OP_SIZE, .dup] ++ pushI 57 ++
    binOp .OP_LESSTHAN ++
    ([.opcode .OP_IF] ++ (padTo 56 ++ generateCompressOps) ++ [.opcode .OP_ELSE] ++
      (padTo 120 ++ pushI 64 ++ [.opcode .OP_SPLIT] ++ toAlt ++ generateCompressOps ++ fromAlt ++
        generateCompressOps) ++ [.opcode .OP_ENDIF])

end Code

/-! ## Functions of words -/

section Words

variable (cfg : Config) (slots : Slots)

theorem runsAs_bitwise {code : Opcode} {f : UInt8 → UInt8 → UInt8} {x y z : Bytes}
    (hplain : (Instr.op code).isPlain = true)
    (hcode : opcodeStep cfg code = top2 fun a b => bitwise f a b) (h : bitwise f x y = .ok z) :
    RunsAs cfg slots [.opcode code] [y, x] (.ok [z]) := by
  refine runsAs_opcode cfg slots hplain fun below alt => ?_
  rw [hcode]
  simp [top2, h]

theorem runsAs_sigmaOps {first second : Nat} {third : List StackOp} {f : Word → Word}
    (hfirst : first < 32) (hsecond : second < 32)
    (hthird : ∀ x, RunsAs cfg slots third [toBytes x] (.ok [toBytes (f x)])) (x : Word) :
    RunsAs cfg slots (sigmaOps first second third) [le x]
      (.ok [le (x.rotateRight first ^^^ x.rotateRight second ^^^ f x)]) := by
  have hxor : ∀ y z : Word, RunsAs cfg slots (Emitter.binOp .OP_XOR) [toBytes z, toBytes y]
      (.ok [toBytes (y ^^^ z)]) := fun y z =>
    runsAs_bitwise cfg slots rfl rfl (bitwise_reverse (bitwise_xor y z))
  have hin := runsAs_reverseBytes4 cfg slots (length_le x)
  have hcopies := (runsAs_dup cfg slots (toBytes x)).append_ok
    ((runsAs_dup cfg slots (toBytes x)).frame [toBytes x])
  have hone := (runsAs_rotrBE cfg slots x hfirst).frame [toBytes x, toBytes x]
  have hswap := (runsAs_swap cfg slots (toBytes (x.rotateRight first)) (toBytes x)).frame
    [toBytes x]
  have htwo := (runsAs_rotrBE cfg slots x hsecond).frame
    [toBytes (x.rotateRight first), toBytes x]
  have hjoin := (hxor (x.rotateRight first) (x.rotateRight second)).frame [toBytes x]
  have hswap' := runsAs_swap cfg slots (toBytes (x.rotateRight first ^^^ x.rotateRight second))
    (toBytes x)
  have hthree := (hthird x).frame [toBytes (x.rotateRight first ^^^ x.rotateRight second)]
  have hjoin' := hxor (x.rotateRight first ^^^ x.rotateRight second) (f x)
  have hout := runsAs_reverseBytes4 cfg slots
    (length_toBytes (x.rotateRight first ^^^ x.rotateRight second ^^^ f x))
  rw [reverse_toBytes] at hout
  exact ((((((((hin.append_ok hcopies).append_ok hone).append_ok hswap).append_ok htwo).append_ok
    hjoin).append_ok hswap').append_ok hthree).append_ok hjoin').append_ok hout

theorem runsAs_bigSigma0 (x : Word) :
    RunsAs cfg slots bigSigma0 [le x] (.ok [le (Crypto.Sha256.bigSigma0 x)]) :=
  runsAs_sigmaOps cfg slots (by decide) (by decide)
    (fun x => runsAs_rotrBE cfg slots x (by decide)) x

theorem runsAs_bigSigma1 (x : Word) :
    RunsAs cfg slots bigSigma1 [le x] (.ok [le (Crypto.Sha256.bigSigma1 x)]) :=
  runsAs_sigmaOps cfg slots (by decide) (by decide)
    (fun x => runsAs_rotrBE cfg slots x (by decide)) x

theorem runsAs_smallSigma0 (x : Word) :
    RunsAs cfg slots smallSigma0 [le x] (.ok [le (Crypto.Sha256.smallSigma0 x)]) :=
  runsAs_sigmaOps cfg slots (by decide) (by decide) (fun x => runsAs_shrBE cfg slots x 3) x

theorem runsAs_smallSigma1 (x : Word) :
    RunsAs cfg slots smallSigma1 [le x] (.ok [le (Crypto.Sha256.smallSigma1 x)]) :=
  runsAs_sigmaOps cfg slots (by decide) (by decide) (fun x => runsAs_shrBE cfg slots x 10) x

theorem runsAs_ch (e f g : Word) :
    RunsAs cfg slots ch [le g, le f, le e] (.ok [le (Crypto.Sha256.ch e f g)]) := by
  refine .of_plain (by simp [ch, Emitter.binOp, Emitter.toAlt, Emitter.fromAlt, emitOps_cons];
                       decide) fun below alt => ?_
  simp [ch, Emitter.binOp, Emitter.toAlt, Emitter.fromAlt, emitOps_cons, plainRun, plainStep,
    opcodeStep, shuffle, top1, top2, invert_le, bitwise_and, bitwise_xor, Crypto.Sha256.ch]
  rw [BitVec.and_comm f e]

/-- The majority as the code computes it. -/
theorem maj_eq (x y z : Word) : x &&& y ||| z &&& (x ^^^ y) = Crypto.Sha256.maj x y z := by
  ext i hi
  simp only [Crypto.Sha256.maj, BitVec.getElem_or, BitVec.getElem_and, BitVec.getElem_xor]
  cases x[i] <;> cases y[i] <;> cases z[i] <;> rfl

theorem runsAs_maj (a b c : Word) :
    RunsAs cfg slots maj [le c, le b, le a] (.ok [le (Crypto.Sha256.maj a b c)]) := by
  refine .of_plain (by simp [maj, Emitter.binOp, Emitter.toAlt, Emitter.fromAlt, emitOps_cons];
                       decide) fun below alt => ?_
  simp [maj, Emitter.binOp, Emitter.toAlt, Emitter.fromAlt, emitOps_cons, plainRun, plainStep,
    opcodeStep, shuffle, top2, bitwise_and, bitwise_xor, bitwise_or]
  rw [BitVec.and_comm (a ^^^ b) c, maj_eq]

end Words

/-! ## The schedule and the rounds -/

section Rounds

variable (cfg : Config) (slots : Slots)

theorem length_schedule (block : Bytes) (n : Nat) : (schedule block n).length = 16 + n := by
  induction n with
  | zero => simp [schedule, blockWords]
  | succ n ih => rw [schedule, List.length_cons, ih, Nat.add_assoc]

theorem getElem?_map_le {ws : List Word} {i : Nat} (h : i < ws.length) :
    (ws.map le)[i]? = some (le (ws.getD i 0)) := by
  rw [List.getElem?_map, List.getD_eq_getElem?_getD, List.getElem?_eq_getElem h]
  rfl

/-- One more word, from those above. -/
theorem runsAs_expandOps (ws : List Word) (h : 16 ≤ ws.length) :
    RunsAs cfg slots expandOps (ws.map le) (.ok ((nextWord ws :: ws).map le)) := by
  have hword : ∀ i < 16, (ws.map le)[i]? = some (le (ws.getD i 0)) := fun i hi =>
    getElem?_map_le (Nat.lt_of_lt_of_le hi h)
  have hover := runsAs_pick cfg slots 1 (ws.map le) (hword 1 (by decide))
  have hone := (runsAs_smallSigma1 cfg slots (ws.getD 1 0)).frame (ws.map le)
  have hpick6 := runsAs_pick cfg slots (6 + 1)
    (le (Crypto.Sha256.smallSigma1 (ws.getD 1 0)) :: ws.map le) (hword 6 (by decide))
  have hpick14 := runsAs_pick cfg slots (14 + 2)
    (le (ws.getD 6 0) :: le (Crypto.Sha256.smallSigma1 (ws.getD 1 0)) :: ws.map le)
    (hword 14 (by decide))
  have hzero := (runsAs_smallSigma0 cfg slots (ws.getD 14 0)).frame
    (le (ws.getD 6 0) :: le (Crypto.Sha256.smallSigma1 (ws.getD 1 0)) :: ws.map le)
  have hpick15 := runsAs_pick cfg slots (15 + 3)
    (le (Crypto.Sha256.smallSigma0 (ws.getD 14 0)) :: le (ws.getD 6 0) ::
      le (Crypto.Sha256.smallSigma1 (ws.getD 1 0)) :: ws.map le) (hword 15 (by decide))
  have hadd := (runsAs_addN cfg slots (ws.getD 15 0)
    [Crypto.Sha256.smallSigma0 (ws.getD 14 0), ws.getD 6 0,
      Crypto.Sha256.smallSigma1 (ws.getD 1 0)] (by simp)).frame (ws.map le)
  have hsum : ws.getD 15 0 + [Crypto.Sha256.smallSigma0 (ws.getD 14 0), ws.getD 6 0,
      Crypto.Sha256.smallSigma1 (ws.getD 1 0)].sum = nextWord ws := by
    simp only [nextWord, List.sum_cons, List.sum_nil]
    ac_rfl
  rw [hsum] at hadd
  exact (((((hover.append_ok hone).append_ok hpick6).append_ok hpick14).append_ok
    hzero).append_ok hpick15).append_ok hadd

theorem runsAs_expand (block : Bytes) (n : Nat) :
    RunsAs cfg slots (List.replicate n expandOps).flatten ((schedule block 0).map le)
      (.ok ((schedule block n).map le)) := by
  induction n with
  | zero => exact .nil _
  | succ n ih =>
    have hnext := runsAs_expandOps cfg slots (schedule block n)
      (by rw [length_schedule]; exact Nat.le_add_right 16 n)
    rw [List.replicate_succ', List.flatten_append, List.flatten_singleton]
    exact ih.append_ok hnext

theorem u32ToLE_K {t : Nat} (h : t < 64) : u32ToLE (K.getD t 0) = le (constants.getD t 0) := by
  have hall : ∀ t < 64, (constants.getD t 0).toNat = K.getD t 0 := by decide
  rw [le, hall t h, u32ToLE]

theorem runsAs_pushB (bytes : Bytes) :
    RunsAs cfg slots (Emitter.pushB bytes) [] (.ok [bytes]) :=
  runsAs_push cfg slots (.bytes bytes)

/-- The items of the working variables. -/
abbrev State.items (s : State) : List Bytes := s.words.map le

variable (s : State) (k w : Word)

/-- The first temporary word of a round. -/
def firstWord : Word := s.h + Crypto.Sha256.bigSigma1 s.e + Crypto.Sha256.ch s.e s.f s.g + k + w

/-- The second temporary word of a round. -/
def secondWord : Word := Crypto.Sha256.bigSigma0 s.a + Crypto.Sha256.maj s.a s.b s.c

theorem runsAs_roundAddends {t : Nat} (ht : t < 64) {sched : List Bytes}
    (hw : sched[63 - t]? = some (le w)) :
    RunsAs cfg slots (roundAddends t) (State.items s ++ sched)
      (.ok ([w, constants.getD t 0, s.h, Crypto.Sha256.ch s.e s.f s.g,
        Crypto.Sha256.bigSigma1 s.e].map le ++ (State.items s ++ sched))) := by
  have hpick4 := runsAs_pick cfg slots 4 (State.items s ++ sched) rfl
  have hone := (runsAs_bigSigma1 cfg slots s.e).frame (State.items s ++ sched)
  have hpick5 := runsAs_pick cfg slots 5
    (le (Crypto.Sha256.bigSigma1 s.e) :: (State.items s ++ sched)) rfl
  have hpick7 := runsAs_pick cfg slots 7
    (le s.e :: le (Crypto.Sha256.bigSigma1 s.e) :: (State.items s ++ sched)) rfl
  have hpick9 := runsAs_pick cfg slots 9
    (le s.f :: le s.e :: le (Crypto.Sha256.bigSigma1 s.e) :: (State.items s ++ sched)) rfl
  have hch := (runsAs_ch cfg slots s.e s.f s.g).frame
    (le (Crypto.Sha256.bigSigma1 s.e) :: (State.items s ++ sched))
  have hpickh := runsAs_pick cfg slots 9
    ([Crypto.Sha256.ch s.e s.f s.g, Crypto.Sha256.bigSigma1 s.e].map le ++
      (State.items s ++ sched)) rfl
  have hconst := (runsAs_pushB cfg slots (u32ToLE (K.getD t 0))).frame
    ([s.h, Crypto.Sha256.ch s.e s.f s.g, Crypto.Sha256.bigSigma1 s.e].map le ++
      (State.items s ++ sched))
  rw [u32ToLE_K ht] at hconst
  have hpickw := runsAs_pick cfg slots (63 - t + 12)
    ([constants.getD t 0, s.h, Crypto.Sha256.ch s.e s.f s.g,
      Crypto.Sha256.bigSigma1 s.e].map le ++ (State.items s ++ sched)) hw
  rw [show 63 - t + 12 = 75 - t by omega] at hpickw
  rw [roundAddends, u32ToLE_K ht]
  exact (((((((hpick4.append_ok hone).append_ok hpick5).append_ok hpick7).append_ok
    hpick9).append_ok hch).append_ok hpickh).append_ok hconst).append_ok hpickw

theorem runsAs_roundFirst {t : Nat} (ht : t < 64) {sched : List Bytes}
    (hw : sched[63 - t]? = some (le w)) :
    RunsAs cfg slots (roundAddends t ++ Emitter.addN 5) (State.items s ++ sched)
      (.ok (le (firstWord s (constants.getD t 0) w) :: (State.items s ++ sched))) := by
  have haddends := runsAs_roundAddends cfg slots s w ht hw
  have hadd := (runsAs_addN cfg slots w [constants.getD t 0, s.h, Crypto.Sha256.ch s.e s.f s.g,
    Crypto.Sha256.bigSigma1 s.e] (by simp)).frame (State.items s ++ sched)
  have hsum : w + [constants.getD t 0, s.h, Crypto.Sha256.ch s.e s.f s.g,
      Crypto.Sha256.bigSigma1 s.e].sum = firstWord s (constants.getD t 0) w := by
    simp only [firstWord, List.sum_cons, List.sum_nil]
    ac_rfl
  rw [hsum] at hadd
  exact haddends.append_ok hadd

theorem runsAs_roundSecond (t1 : Word) (sched : List Bytes) :
    RunsAs cfg slots roundSecond (le t1 :: (State.items s ++ sched))
      (.ok (le (secondWord s) :: le t1 :: (State.items s ++ sched))) := by
  have hpick1 := runsAs_pick cfg slots 1 (le t1 :: (State.items s ++ sched)) rfl
  have hzero := (runsAs_bigSigma0 cfg slots s.a).frame (le t1 :: (State.items s ++ sched))
  have hpick2 := runsAs_pick cfg slots 2
    (le (Crypto.Sha256.bigSigma0 s.a) :: le t1 :: (State.items s ++ sched)) rfl
  have hpick4 := runsAs_pick cfg slots 4
    (le s.a :: le (Crypto.Sha256.bigSigma0 s.a) :: le t1 :: (State.items s ++ sched)) rfl
  have hpick6 := runsAs_pick cfg slots 6
    (le s.b :: le s.a :: le (Crypto.Sha256.bigSigma0 s.a) :: le t1 ::
      (State.items s ++ sched)) rfl
  have hmaj := (runsAs_maj cfg slots s.a s.b s.c).frame
    (le (Crypto.Sha256.bigSigma0 s.a) :: le t1 :: (State.items s ++ sched))
  have hadd := (runsAs_add32 cfg slots (Crypto.Sha256.bigSigma0 s.a)
    (Crypto.Sha256.maj s.a s.b s.c)).frame (le t1 :: (State.items s ++ sched))
  rw [BitVec.add_comm] at hadd
  exact (((((hpick1.append_ok hzero).append_ok hpick2).append_ok hpick4).append_ok
    hpick6).append_ok hmaj).append_ok hadd

/-- Roll and the items above stay where they are. -/
theorem runsAs_roundUpdate (t1 t2 : Word) (sched : List Bytes) :
    RunsAs cfg slots roundUpdate (le t1 :: le t2 :: le t1 :: (State.items s ++ sched))
      (.ok ([t1 + t2, s.a, s.b, s.c, s.d + t1, s.e, s.f, s.g].map le ++ sched)) := by
  have hswap := (runsAs_swap cfg slots (le t1) (le t2)).frame
    (le t1 :: (State.items s ++ sched))
  have hnewA := (runsAs_add32 cfg slots t1 t2).frame (le t1 :: (State.items s ++ sched))
  rw [BitVec.add_comm] at hnewA
  have hswap' := (runsAs_swap cfg slots (le (t1 + t2)) (le t1)).frame (State.items s ++ sched)
  have hrollD := (runsAs_roll cfg slots ([t1, t1 + t2, s.a, s.b, s.c].map le) (le s.d)
    (d := 5) rfl).frame ([s.e, s.f, s.g, s.h].map le ++ sched)
  have hnewE := (runsAs_add32 cfg slots t1 s.d).frame
    ([t1 + t2, s.a, s.b, s.c, s.e, s.f, s.g, s.h].map le ++ sched)
  have hrollH := (runsAs_roll cfg slots ([s.d + t1, t1 + t2, s.a, s.b, s.c, s.e, s.f, s.g].map le)
    (le s.h) (d := 8) rfl).frame sched
  have hdrop := (runsAs_drop cfg slots (le s.h)).frame
    ([s.d + t1, t1 + t2, s.a, s.b, s.c, s.e, s.f, s.g].map le ++ sched)
  have hswap'' := (runsAs_swap cfg slots (le (s.d + t1)) (le (t1 + t2))).frame
    ([s.a, s.b, s.c, s.e, s.f, s.g].map le ++ sched)
  have hrollC := (runsAs_roll cfg slots ([t1 + t2, s.d + t1, s.a, s.b].map le) (le s.c)
    (d := 4) rfl).frame ([s.e, s.f, s.g].map le ++ sched)
  have hrollB := (runsAs_roll cfg slots ([s.c, t1 + t2, s.d + t1, s.a].map le) (le s.b)
    (d := 4) rfl).frame ([s.e, s.f, s.g].map le ++ sched)
  have hrollA := (runsAs_roll cfg slots ([s.b, s.c, t1 + t2, s.d + t1].map le) (le s.a)
    (d := 4) rfl).frame ([s.e, s.f, s.g].map le ++ sched)
  have hrollNew := (runsAs_roll cfg slots ([s.a, s.b, s.c].map le) (le (t1 + t2))
    (d := 3) rfl).frame ([s.d + t1, s.e, s.f, s.g].map le ++ sched)
  exact ((((((((((hswap.append_ok hnewA).append_ok hswap').append_ok hrollD).append_ok
    hnewE).append_ok hrollH).append_ok hdrop).append_ok hswap'').append_ok hrollC).append_ok
    hrollB).append_ok hrollA).append_ok hrollNew

/-- One round. -/
theorem runsAs_emitRound {t : Nat} (ht : t < 64) {sched : List Bytes}
    (hw : sched[63 - t]? = some (le w)) :
    RunsAs cfg slots (emitRound t) (State.items s ++ sched)
      (.ok (State.items (round s (constants.getD t 0) w) ++ sched)) := by
  have hfirst := RunsOn.of_runsAs (runsAs_roundFirst cfg slots s w ht hw) []
  have hdup := RunsOn.of_runsAs ((runsAs_dup cfg slots
    (le (firstWord s (constants.getD t 0) w))).frame (State.items s ++ sched)) []
  have hsave := runsOn_toAlt cfg slots (le (firstWord s (constants.getD t 0) w))
    (le (firstWord s (constants.getD t 0) w) :: (State.items s ++ sched)) []
  have hsecond := RunsOn.of_runsAs (runsAs_roundSecond cfg slots s
    (firstWord s (constants.getD t 0) w) sched) [le (firstWord s (constants.getD t 0) w)]
  have hback := runsOn_fromAlt cfg slots (le (firstWord s (constants.getD t 0) w))
    (le (secondWord s) :: le (firstWord s (constants.getD t 0) w) :: (State.items s ++ sched)) []
  have hupdate := RunsOn.of_runsAs (runsAs_roundUpdate cfg slots s
    (firstWord s (constants.getD t 0) w) (secondWord s) sched) []
  exact RunsOn.runsAs (((((hfirst.append_ok hdup).append_ok hsave).append_ok hsecond).append_ok
    hback).append_ok hupdate)

/-- All rounds, above the schedule. -/
theorem runsAs_rounds (block : Bytes) :
    RunsAs cfg slots ((List.range 64).flatMap emitRound)
      (State.items s ++ (schedule block 48).map le)
      (.ok (State.items (rounds s block 64) ++ (schedule block 48).map le)) := by
  have hround : ∀ t < 64, RunsAs cfg slots (emitRound t)
      (State.items (rounds s block t) ++ (schedule block 48).map le)
      (.ok (State.items (rounds s block (t + 1)) ++ (schedule block 48).map le)) := by
    intro t ht
    have hlt : 63 - t < (schedule block 48).length := by
      rw [length_schedule]
      omega
    exact runsAs_emitRound cfg slots (rounds s block t) (scheduleWord block t) ht
      (getElem?_map_le hlt)
  exact RunsAs.rounds_of_lt hround

end Rounds

/-! ## Unpacking and packing -/

section Packing

variable (cfg : Config) (slots : Slots)

/-- The words of a block, the first one deepest. -/
theorem runsAs_unpackBlock {block : Bytes} (h : block.length = 64) :
    RunsAs cfg slots unpackBlock [block] (.ok ((schedule block 0).map le)) := by
  have hsplits := runsAs_unpack cfg slots 15 h
  have hpieces := length_of_mem_pieces block 16 (by omega)
  have hturn := runsAs_beWordsToLE cfg slots (pieces block 16).reverse fun x hx =>
    hpieces x (List.mem_reverse.mp hx)
  have hwords : ((pieces block 16).reverse.map List.reverse) = (schedule block 0).map le := by
    rw [schedule, List.map_reverse, List.map_reverse, blockWords, List.map_map, pieces,
      List.map_map]
    refine congrArg List.reverse (List.map_congr_left fun i hi => ?_)
    exact (le_ofBytes (hpieces _ (List.mem_map.mpr ⟨i, hi, rfl⟩))).symm
  rw [hwords] at hturn
  exact hsplits.append_ok hturn

theorem bytes_eq (s : State) :
    s.bytes = ([s.a, s.b, s.c, s.d, s.e, s.f, s.g].map toBytes).flatten ++ toBytes s.h := by
  simp [State.bytes, State.words]

/-- The words of a value, the first one on top. -/
theorem runsAs_unpackState (s : State) :
    RunsAs cfg slots unpackState [s.bytes] (.ok (State.items s)) := by
  have hsplits := runsAs_splits cfg slots ([s.a, s.b, s.c, s.d, s.e, s.f, s.g].map toBytes)
    (toBytes s.h) (by simp)
  rw [← bytes_eq] at hsplits
  have hturn := runsAs_beWordsToLEReversed8 cfg slots
    ([s.h, s.g, s.f, s.e, s.d, s.c, s.b, s.a].map toBytes) rfl (by simp)
  exact hsplits.append_ok hturn

theorem runsOn_addState (s t : State) (rest alt : List Bytes) :
    RunsOn cfg slots addState ⟨State.items s ++ State.items t ++ rest, alt⟩
      (.ok ⟨rest, (State.items (s.add t)).reverse ++ alt⟩) := by
  have hadd : ∀ x y : Word, RunsAs cfg slots Emitter.add32 [le y, le x] (.ok [le (x + y)]) :=
    fun x y => by
      rw [BitVec.add_comm]
      exact runsAs_add32 cfg slots x y
  have h := runsOn_joins cfg slots hadd 8 s.words t.words rest alt rfl rfl
  rw [List.map_append] at h
  exact h

/-- Packing goes from the last word to the first. -/
theorem runsOn_packs (words : List Word) (packed : Bytes) (rest alt : List Bytes) :
    RunsOn cfg slots (List.replicate words.length
        (Emitter.fromAlt ++ Emitter.reverseBytes4 ++ [.swap] ++ Emitter.binOp .OP_CAT)).flatten
      ⟨packed :: rest, words.map le ++ alt⟩
      (.ok ⟨(words.reverse.flatMap toBytes ++ packed) :: rest, alt⟩) := by
  induction words generalizing packed with
  | nil => exact .nil _
  | cons w words ih =>
    have hback := runsOn_fromAlt cfg slots (le w) (packed :: rest) (words.map le ++ alt)
    have hreverse := RunsOn.of_runsAs ((runsAs_reverseBytes4 cfg slots (length_le w)).frame
      (packed :: rest)) (words.map le ++ alt)
    have hswap := RunsOn.of_runsAs ((runsAs_swap cfg slots (toBytes w) packed).frame rest)
      (words.map le ++ alt)
    have hcat := RunsOn.of_runsAs ((runsAs_cat cfg slots packed (toBytes w)).frame rest)
      (words.map le ++ alt)
    have hrest := ih (toBytes w ++ packed)
    rw [List.length_cons, List.replicate_succ, List.flatten_cons, List.reverse_cons,
      List.flatMap_append, List.flatMap_singleton,
      List.append_assoc (words.reverse.flatMap toBytes)]
    exact (((hback.append_ok hreverse).append_ok hswap).append_ok hcat).append_ok hrest

theorem runsOn_packState (s : State) (rest alt : List Bytes) :
    RunsOn cfg slots packState ⟨rest, (State.items s).reverse ++ alt⟩
      (.ok ⟨s.bytes :: rest, alt⟩) := by
  have hback := runsOn_fromAlt cfg slots (le s.h) rest
    ([s.g, s.f, s.e, s.d, s.c, s.b, s.a].map le ++ alt)
  have hreverse := RunsOn.of_runsAs ((runsAs_reverseBytes4 cfg slots (length_le s.h)).frame rest)
    ([s.g, s.f, s.e, s.d, s.c, s.b, s.a].map le ++ alt)
  have hpacks := runsOn_packs cfg slots [s.g, s.f, s.e, s.d, s.c, s.b, s.a] (toBytes s.h) rest alt
  rw [bytes_eq]
  exact (hback.append_ok hreverse).append_ok hpacks

/-- Drop everything below the top. -/
theorem runsAs_drops (x : Bytes) (items : List Bytes) :
    RunsAs cfg slots (List.replicate items.length [.swap, .drop]).flatten (x :: items)
      (.ok [x]) := by
  induction items with
  | nil => exact .nil _
  | cons y items ih =>
    have hswap := (runsAs_swap cfg slots x y).frame items
    have hdrop := (runsAs_drop cfg slots y).frame (x :: items)
    rw [List.length_cons, List.replicate_succ, List.flatten_cons]
    exact (hswap.append_ok hdrop).append_ok ih

/-- Compression of a block. -/
theorem runsAs_generateCompressOps (s : State) {block : Bytes} (h : block.length = 64) :
    RunsAs cfg slots generateCompressOps [block, s.bytes] (.ok [(compress s block).bytes]) := by
  have hswap := RunsOn.of_runsAs (runsAs_swap cfg slots block s.bytes) []
  have hdup := RunsOn.of_runsAs ((runsAs_dup cfg slots s.bytes).frame [block]) []
  have hsave := runsOn_toAlt cfg slots s.bytes [s.bytes, block] []
  have hsave' := runsOn_toAlt cfg slots s.bytes [block] [s.bytes]
  have hunpack := RunsOn.of_runsAs (runsAs_unpackBlock cfg slots h) [s.bytes, s.bytes]
  have hexpand := RunsOn.of_runsAs (runsAs_expand cfg slots block 48) [s.bytes, s.bytes]
  have hback := runsOn_fromAlt cfg slots s.bytes ((schedule block 48).map le) [s.bytes]
  have hstate := RunsOn.of_runsAs ((runsAs_unpackState cfg slots s).frame
    ((schedule block 48).map le)) [s.bytes]
  have hrounds := RunsOn.of_runsAs (runsAs_rounds cfg slots s block) [s.bytes]
  have hback' := runsOn_fromAlt cfg slots s.bytes
    (State.items (rounds s block 64) ++ (schedule block 48).map le) []
  have hstate' := RunsOn.of_runsAs ((runsAs_unpackState cfg slots s).frame
    (State.items (rounds s block 64) ++ (schedule block 48).map le)) []
  have hadd := runsOn_addState cfg slots s (rounds s block 64) ((schedule block 48).map le) []
  have hpack := runsOn_packState cfg slots (compress s block) ((schedule block 48).map le) []
  have hdrops := RunsOn.of_runsAs (runsAs_drops cfg slots (compress s block).bytes
    ((schedule block 48).map le)) []
  rw [List.length_map, length_schedule] at hdrops
  rw [List.append_assoc] at hadd
  refine RunsOn.runsAs ?_
  exact ((((((((((((hswap.append_ok hdup).append_ok hsave).append_ok hsave').append_ok
    hunpack).append_ok hexpand).append_ok hback).append_ok hstate).append_ok hrounds).append_ok
    hback').append_ok hstate').append_ok hadd).append_ok hpack).append_ok hdrops

end Packing

/-! ## The end of a message -/

section Finalize

variable (cfg : Config) (slots : Slots)

theorem runsAs_num2bin {n w : Nat} (h : n < signBit w) :
    RunsAs cfg slots [.opcode .OP_NUM2BIN] [encodeNum w, encodeNum n] (.ok [leBytes w n]) := by
  refine runsAs_opcode cfg slots rfl fun below alt => ?_
  simp [opcodeStep, num2bin_natCast h]

theorem runsOn_bitLength {n : Nat} (h : n < 2 ^ 64) (rest alt : List Bytes) :
    RunsOn cfg slots bitLength ⟨encodeNum n :: rest, alt⟩
      (.ok ⟨rest, (leBytes 8 n).reverse :: alt⟩) := by
  have hsize := (runsAs_pushNum cfg slots 9).frame [encodeNum n]
  have hbin := runsAs_num2bin cfg slots (n := n) (w := 9)
    (Nat.lt_trans h (by decide))
  have htake := runsAs_takeFirst cfg slots (a := leBytes 8 n)
    (b := [(n / 256 ^ 8 % 256).toUInt8]) (n := 8) (length_leBytes 8 n)
  rw [← leBytes_concat 8 n] at htake
  have hfour := (runsAs_pushNum cfg slots 4).frame [leBytes 8 n]
  have hsplit := runsAs_split cfg slots (a := leBytes 4 n) (b := leBytes 4 (n / 256 ^ 4)) (n := 4)
    (by simp)
  rw [← leBytes_append 4 4 n] at hsplit
  have hhigh := (runsAs_reverseBytes4 cfg slots (length_leBytes 4 (n / 256 ^ 4))).frame
    [leBytes 4 n]
  have hswap := runsAs_swap cfg slots (leBytes 4 (n / 256 ^ 4)).reverse (leBytes 4 n)
  have hlow := (runsAs_reverseBytes4 cfg slots (length_leBytes 4 n)).frame
    [(leBytes 4 (n / 256 ^ 4)).reverse]
  have hcat := runsAs_cat cfg slots (leBytes 4 n).reverse (leBytes 4 (n / 256 ^ 4)).reverse
  rw [← List.reverse_append, ← leBytes_append 4 4 n] at hcat
  have hbytes := (((((((hsize.append_ok hbin).append_ok htake).append_ok hfour).append_ok
    hsplit).append_ok hhigh).append_ok hswap).append_ok hlow).append_ok hcat
  have hsave := runsOn_toAlt cfg slots (leBytes 8 n).reverse rest alt
  exact (RunsOn.of_runsAs (hbytes.frame rest) alt).append_ok hsave

theorem leBytes_zeros (w : Nat) : leBytes w 0 = List.replicate w 0 := by
  induction w with
  | zero => rfl
  | succ w ih =>
    rw [leBytes_succ, Nat.zero_div, ih, List.replicate_succ]
    rfl

/-- Zeros and the length behind the last bytes. -/
theorem runsOn_padTo (length : Nat) (bytes : Bytes) (h : bytes.length ≤ length) (bits : Bytes)
    (rest alt : List Bytes) :
    RunsOn cfg slots (padTo length) ⟨encodeNum bytes.length :: bytes :: rest, bits :: alt⟩
      (.ok ⟨(bytes ++ List.replicate (length - bytes.length) 0 ++ bits) :: rest, alt⟩) := by
  have hpush := (runsAs_pushNum cfg slots length).frame [encodeNum bytes.length, bytes]
  have hswap := (runsAs_swap cfg slots (encodeNum length) (encodeNum bytes.length)).frame [bytes]
  have hsub : RunsAs cfg slots [.opcode .OP_SUB] [encodeNum bytes.length, encodeNum length]
      (.ok [encodeNum (length - bytes.length : Nat)]) :=
    runsAs_numOp2 cfg slots rfl rfl (by rw [Int.ofNat_sub h])
  have hzero := (runsAs_pushNum cfg slots 0).frame [encodeNum (length - bytes.length : Nat), bytes]
  have hswap' := (runsAs_swap cfg slots (encodeNum 0)
    (encodeNum (length - bytes.length : Nat))).frame [bytes]
  have hbin := runsAs_num2bin cfg slots (n := 0) (w := length - bytes.length) (signBit_pos _)
  rw [leBytes_zeros] at hbin
  have hcat := runsAs_cat cfg slots (List.replicate (length - bytes.length) 0) bytes
  have hpadded := ((((((hpush.append_ok hswap).append_ok (hsub.frame [bytes])).append_ok
    hzero).append_ok hswap').append_ok (hbin.frame [bytes])).append_ok hcat)
  have hback := runsOn_fromAlt cfg slots bits
    ((bytes ++ List.replicate (length - bytes.length) 0) :: rest) alt
  have hcat' := RunsOn.of_runsAs ((runsAs_cat cfg slots bits
    (bytes ++ List.replicate (length - bytes.length) 0)).frame rest) alt
  exact ((RunsOn.of_runsAs (hpadded.frame rest) (bits :: alt)).append_ok hback).append_ok hcat'

/-- The length and its comparison. -/
theorem runsAs_sizeTest57 (bytes : Bytes) :
    RunsAs cfg slots ([.opcode .OP_SIZE, .dup] ++ Emitter.pushI 57 ++ Emitter.binOp .OP_LESSTHAN)
      [bytes] (.ok [boolBytes (decide (bytes.length < 57)), encodeNum bytes.length, bytes]) := by
  refine .of_plain (by simp [Emitter.pushI, Emitter.binOp, emitOps_cons]; decide)
    fun below alt => ?_
  simp [Emitter.pushI, Emitter.binOp, emitOps_cons, plainRun, plainStep, opcodeStep, shuffle,
    numOp2, top2]

theorem isPlain_pick (d : Nat) : IsPlain slots (Emitter.pick d) := by
  match d with
  | 0 | 1 => simp [IsPlain, Emitter.pick, emitOps_cons]; decide
  | d + 2 => simp [IsPlain, Emitter.pick, emitOps_cons]; decide

theorem isPlain_sigmaOps (first second : Nat) {third : List StackOp} (h : IsPlain slots third) :
    IsPlain slots (sigmaOps first second third) := by
  have hbefore : IsPlain slots (Emitter.reverseBytes4 ++ [StackOp.dup, .dup] ++
      Emitter.rotrBE first ++ [StackOp.swap] ++ Emitter.rotrBE second ++
      Emitter.binOp .OP_XOR ++ [StackOp.swap]) := by
    simp [IsPlain, Emitter.reverseBytes4, Emitter.rotrBE, Emitter.binOp, Emitter.pushI,
      emitOps_cons]
    decide
  have hafter : IsPlain slots (Emitter.binOp .OP_XOR ++ Emitter.reverseBytes4) := by
    simp [IsPlain, Emitter.reverseBytes4, Emitter.binOp, Emitter.pushI, emitOps_cons]
    decide
  have hall := (hbefore.append h).append hafter
  rwa [← List.append_assoc] at hall

theorem isPlain_rotrBE (n : Nat) : IsPlain slots (Emitter.rotrBE n) := by
  simp [IsPlain, Emitter.rotrBE, Emitter.pushI, emitOps_cons]
  decide

theorem isPlain_shrBE (n : Nat) : IsPlain slots (Emitter.shrBE n) := by
  simp [IsPlain, Emitter.shrBE, Emitter.pushI, emitOps_cons]
  decide

theorem isPlain_addN (n : Nat) : IsPlain slots (Emitter.addN n) := by
  have hnum : IsPlain slots Emitter.le2num := by
    simp [IsPlain, Emitter.le2num, Emitter.pushB, emitOps_cons]
    decide
  have hround : IsPlain slots ([StackOp.swap] ++ Emitter.le2num ++ [StackOp.opcode .OP_ADD]) := by
    simp [IsPlain, Emitter.le2num, Emitter.pushB, emitOps_cons]
    decide
  have hlast : IsPlain slots Emitter.num2le := by
    simp [IsPlain, Emitter.num2le, Emitter.pushI, emitOps_cons]
    decide
  exact (hnum.append (hround.replicate (n - 1))).append hlast

theorem isPlain_expandOps : IsPlain slots expandOps := by
  have hover : IsPlain slots [.over] := by simp [IsPlain, emitOps_cons]; decide
  have hone := isPlain_sigmaOps slots 17 19 (isPlain_shrBE slots 10)
  have hzero := isPlain_sigmaOps slots 7 18 (isPlain_shrBE slots 3)
  exact (((((hover.append hone).append (isPlain_pick slots 7)).append
    (isPlain_pick slots 16)).append hzero).append (isPlain_pick slots 18)).append
    (isPlain_addN slots 4)

theorem isPlain_roundAddends (t : Nat) : IsPlain slots (roundAddends t) := by
  have hone := isPlain_sigmaOps slots 6 11 (isPlain_rotrBE slots 25)
  have hpicks := (((isPlain_pick slots 4).append hone).append (isPlain_pick slots 5)).append
    (isPlain_pick slots 7)
  have hch : IsPlain slots ch := by
    simp [IsPlain, ch, Emitter.binOp, Emitter.toAlt, Emitter.fromAlt, emitOps_cons]
    decide
  have hconst : IsPlain slots (Emitter.pushB (u32ToLE (K.getD t 0))) := by
    simp [IsPlain, Emitter.pushB, emitOps_cons]
  exact ((((hpicks.append (isPlain_pick slots 9)).append hch).append (isPlain_pick slots 9)).append
    hconst).append (isPlain_pick slots (75 - t))

theorem isPlain_roundSecond : IsPlain slots roundSecond := by
  have hzero := isPlain_sigmaOps slots 2 13 (isPlain_rotrBE slots 22)
  have hmaj : IsPlain slots (maj ++ Emitter.add32) := by
    simp [IsPlain, maj, Emitter.binOp, Emitter.toAlt, Emitter.fromAlt, Emitter.add32,
      Emitter.le2num, Emitter.num2le, Emitter.pushB, Emitter.pushI, emitOps_cons]
    decide
  have hpicks := ((((isPlain_pick slots 1).append hzero).append (isPlain_pick slots 2)).append
    (isPlain_pick slots 4)).append (isPlain_pick slots 6)
  have hall := hpicks.append hmaj
  rwa [← List.append_assoc] at hall

theorem isPlain_emitRound (t : Nat) : IsPlain slots (emitRound t) := by
  have hdup : IsPlain slots ([StackOp.dup] ++ Emitter.toAlt) := by
    simp [IsPlain, Emitter.toAlt, emitOps_cons]
    decide
  have hupdate : IsPlain slots (Emitter.fromAlt ++ roundUpdate) := by
    simp [IsPlain, Emitter.fromAlt, roundUpdate, Emitter.roll, Emitter.add32, Emitter.le2num,
      Emitter.num2le, Emitter.pushB, Emitter.pushI, emitOps_cons]
    decide
  have hfirst := (isPlain_roundAddends slots t).append (isPlain_addN slots 5)
  have hall := ((hfirst.append hdup).append (isPlain_roundSecond slots)).append hupdate
  rwa [← List.append_assoc, ← List.append_assoc] at hall

theorem isPlain_split4 : IsPlain slots Emitter.split4 := by
  simp [IsPlain, Emitter.split4, Emitter.pushI, emitOps_cons]
  decide

theorem isPlain_turn : IsPlain slots (Emitter.reverseBytes4 ++ Emitter.toAlt) := by
  simp [IsPlain, Emitter.reverseBytes4, Emitter.toAlt, Emitter.pushI, emitOps_cons]
  decide

theorem isPlain_fromAlt : IsPlain slots Emitter.fromAlt := by
  simp [IsPlain, Emitter.fromAlt, emitOps_cons]
  decide

theorem isPlain_unpackBlock : IsPlain slots unpackBlock :=
  ((isPlain_split4 slots).replicate 15).append
    (((isPlain_turn slots).replicate 16).append ((isPlain_fromAlt slots).replicate 16))

theorem isPlain_roll (d : Nat) : IsPlain slots (Emitter.roll d) := by
  match d with
  | 0 => rfl
  | 1 | 2 => simp [IsPlain, Emitter.roll, emitOps_cons]; decide
  | d + 3 => simp [IsPlain, Emitter.roll, emitOps_cons]; decide

theorem isPlain_unpackState : IsPlain slots unpackState := by
  have hrolls : IsPlain slots ((List.range 8).reverse.flatMap fun i =>
      Emitter.roll i ++ Emitter.reverseBytes4 ++ Emitter.toAlt) := .flatMap _ fun i => by
    rw [List.append_assoc]
    exact (isPlain_roll slots i).append (isPlain_turn slots)
  exact ((isPlain_split4 slots).replicate 7).append
    (hrolls.append ((isPlain_fromAlt slots).replicate 8))

theorem isPlain_addState : IsPlain slots addState := by
  have hadd : IsPlain slots (Emitter.add32 ++ Emitter.toAlt) := by
    simp [IsPlain, Emitter.add32, Emitter.le2num, Emitter.num2le, Emitter.toAlt, Emitter.pushB,
      Emitter.pushI, emitOps_cons]
    decide
  refine .flatMap _ fun i => ?_
  rw [List.append_assoc]
  exact (isPlain_roll slots (8 - i)).append hadd

theorem isPlain_packState : IsPlain slots packState := by
  have hround : IsPlain slots
      (Emitter.fromAlt ++ Emitter.reverseBytes4 ++ [StackOp.swap] ++ Emitter.binOp .OP_CAT) := by
    simp [IsPlain, Emitter.fromAlt, Emitter.reverseBytes4, Emitter.binOp, Emitter.pushI,
      emitOps_cons]
    decide
  have hfirst : IsPlain slots (Emitter.fromAlt ++ Emitter.reverseBytes4) := by
    simp [IsPlain, Emitter.fromAlt, Emitter.reverseBytes4, Emitter.pushI, emitOps_cons]
    decide
  exact hfirst.append (hround.replicate 7)

theorem isPlain_generateCompressOps : IsPlain slots generateCompressOps := by
  have hsave : IsPlain slots ([StackOp.swap, .dup] ++ Emitter.toAlt ++ Emitter.toAlt) := by
    simp [IsPlain, Emitter.toAlt, emitOps_cons]
    decide
  have hback := isPlain_fromAlt slots
  have hdrop : IsPlain slots [StackOp.swap, .drop] := by
    simp [IsPlain, emitOps_cons]
    decide
  have hschedule := (hsave.append (isPlain_unpackBlock slots)).append
    ((isPlain_expandOps slots).replicate 48)
  have hrounds := ((hschedule.append hback).append (isPlain_unpackState slots)).append
    (IsPlain.flatMap (List.range 64) (isPlain_emitRound slots))
  have hsums := ((hrounds.append hback).append (isPlain_unpackState slots)).append
    (isPlain_addState slots)
  exact (hsums.append (isPlain_packState slots)).append (hdrop.replicate 64)

theorem isPlain_padTo (length : Nat) : IsPlain slots (padTo length) := by
  simp [IsPlain, padTo, Emitter.pushI, Emitter.binOp, Emitter.fromAlt, emitOps_cons]
  decide

/-! ### One block or two -/

/-- What is compressed at the end. -/
def lastBytes (last bits : Bytes) (length : Nat) : Bytes :=
  last ++ [0x80] ++ List.replicate (length - (last ++ [0x80]).length) 0 ++ bits

theorem padded_eq {last : Bytes} (h : last.length ≤ 119) (n : Nat) :
    padded last n =
      lastBytes last (leBytes 8 n).reverse (if last.length < 56 then 56 else 120) := by
  rw [padded, lastBytes, List.length_append, List.length_singleton]
  split
  · rw [show (119 - last.length % 64) % 64 = 56 - (last.length + 1) by omega]
  · rw [show (119 - last.length % 64) % 64 = 120 - (last.length + 1) by omega]

theorem length_lastBytes (last : Bytes) (length : Nat) (h : last.length + 1 ≤ length) (n : Nat) :
    (lastBytes last (leBytes 8 n).reverse length).length = length + 8 := by
  simp [lastBytes]
  omega

theorem runsOn_oneBlock (s : State) {last : Bytes} (h : last.length < 56) (n : Nat) :
    RunsOn cfg slots (padTo 56 ++ generateCompressOps)
      ⟨[encodeNum (last ++ [0x80]).length, last ++ [0x80], s.bytes], [(leBytes 8 n).reverse]⟩
      (.ok ⟨[((blocks (lastBytes last (leBytes 8 n).reverse 56)).foldl compress s).bytes],
        []⟩) := by
  have hlength := length_lastBytes last 56 h n
  have hpad := runsOn_padTo cfg slots 56 (last ++ [0x80])
    (by rw [List.length_append, List.length_singleton]; omega) (leBytes 8 n).reverse [s.bytes] []
  have hcompress := RunsOn.of_runsAs (runsAs_generateCompressOps cfg slots s hlength) []
  have hblocks := blocks_append hlength []
  rw [List.append_nil] at hblocks
  rw [hblocks]
  exact hpad.append_ok hcompress

theorem runsOn_twoBlocks (s : State) {last : Bytes} (h : last.length ≤ 119) (n : Nat) :
    RunsOn cfg slots (padTo 120 ++ Emitter.pushI 64 ++ [.opcode .OP_SPLIT] ++ Emitter.toAlt ++
        generateCompressOps ++ Emitter.fromAlt ++ generateCompressOps)
      ⟨[encodeNum (last ++ [0x80]).length, last ++ [0x80], s.bytes], [(leBytes 8 n).reverse]⟩
      (.ok ⟨[((blocks (lastBytes last (leBytes 8 n).reverse 120)).foldl compress s).bytes],
        []⟩) := by
  have hlength := length_lastBytes last 120 (by omega) n
  have hpad := runsOn_padTo cfg slots 120 (last ++ [0x80])
    (by rw [List.length_append, List.length_singleton]; omega) (leBytes 8 n).reverse [s.bytes] []
  obtain ⟨first, second, hbytes, hfirst, hsecond⟩ : ∃ first second,
      lastBytes last (leBytes 8 n).reverse 120 = first ++ second ∧ first.length = 64 ∧
        second.length = 64 :=
    ⟨_, _, (List.take_append_drop 64 _).symm, by simp [hlength], by simp [hlength]⟩
  have hpush := RunsOn.of_runsAs ((runsAs_pushNum cfg slots 64).frame
    [first ++ second, s.bytes]) []
  have hsplit := RunsOn.of_runsAs ((runsAs_split cfg slots (a := first) (b := second) (n := 64)
    (by rw [hfirst]; rfl)).frame [s.bytes]) []
  have hsave := runsOn_toAlt cfg slots second [first, s.bytes] []
  have hone := RunsOn.of_runsAs (runsAs_generateCompressOps cfg slots s hfirst) [second]
  have hback := runsOn_fromAlt cfg slots second [(compress s first).bytes] []
  have htwo := RunsOn.of_runsAs (runsAs_generateCompressOps cfg slots (compress s first) hsecond) []
  have hblocks := blocks_append hsecond []
  rw [List.append_nil] at hblocks
  rw [← lastBytes, hbytes] at hpad
  rw [hbytes, blocks_append hfirst, hblocks]
  exact (((((hpad.append_ok hpush).append_ok hsplit).append_ok hsave).append_ok hone).append_ok
    hback).append_ok htwo

/-- The code of the end of a message compresses the padded rest. -/
theorem runsAs_emitSha256Finalize (s : State) {last : Bytes} (hlast : last.length ≤ 119) {n : Nat}
    (hn : n < 2 ^ 64) :
    RunsAs cfg slots emitSha256Finalize [encodeNum n, last, s.bytes]
      (.ok [((blocks (padded last n)).foldl compress s).bytes]) := by
  have hlength := runsOn_bitLength cfg slots hn [last, s.bytes] []
  have hmark := RunsOn.of_runsAs ((runsAs_pushB cfg slots [0x80]).frame [last, s.bytes])
    [(leBytes 8 n).reverse]
  have hcat := RunsOn.of_runsAs ((runsAs_cat cfg slots [0x80] last).frame [s.bytes])
    [(leBytes 8 n).reverse]
  have hsize := RunsOn.of_runsAs ((runsAs_sizeTest57 cfg slots (last ++ [0x80])).frame [s.bytes])
    [(leBytes 8 n).reverse]
  have hplain := isPlain_generateCompressOps slots
  have hsave : IsPlain slots (Emitter.pushI 64 ++ [StackOp.opcode .OP_SPLIT] ++ Emitter.toAlt) := by
    simp [IsPlain, Emitter.pushI, Emitter.toAlt, emitOps_cons]
    decide
  have hmore : IsPlain slots (padTo 120 ++ Emitter.pushI 64 ++ [StackOp.opcode .OP_SPLIT] ++
      Emitter.toAlt ++ generateCompressOps ++ Emitter.fromAlt ++ generateCompressOps) := by
    have h := ((((isPlain_padTo slots 120).append hsave).append hplain).append
      (isPlain_fromAlt slots)).append hplain
    rwa [← List.append_assoc, ← List.append_assoc] at h
  have hbranch : RunsOn cfg slots
      (if isTruthy (boolBytes (decide ((last ++ [0x80]).length < 57))) then
        padTo 56 ++ generateCompressOps
      else padTo 120 ++ Emitter.pushI 64 ++ [StackOp.opcode .OP_SPLIT] ++ Emitter.toAlt ++
        generateCompressOps ++ Emitter.fromAlt ++ generateCompressOps)
      ⟨[encodeNum (last ++ [0x80]).length, last ++ [0x80], s.bytes], [(leBytes 8 n).reverse]⟩
      (.ok ⟨[((blocks (padded last n)).foldl compress s).bytes], []⟩) := by
    simp only [isTruthy_boolBytes, decide_eq_true_eq]
    rw [padded_eq hlast]
    by_cases hshort : last.length < 56
    · rw [if_pos (by simp; omega), if_pos hshort]
      exact runsOn_oneBlock cfg slots s hshort n
    · rw [if_neg (by simp; omega), if_neg hshort]
      exact runsOn_twoBlocks cfg slots s hlast n
  have hif := RunsOn.ifElse ((isPlain_padTo slots 56).append hplain) hmore hbranch
  have hmarked := ((hlength.append_ok hmark).append_ok hcat).append_ok hsize
  have hall := hmarked.append_ok hif
  refine RunsOn.runsAs ?_
  rw [emitSha256Finalize]
  simp only [← List.append_assoc] at hall ⊢
  exact hall

end Finalize

/-- The compression of some blocks, each pushed on top of the value before. -/
def foldBlocks (blocks : List Bytes) : List StackOp :=
  blocks.flatMap fun block => Emitter.pushB block ++ emitSha256Compress

theorem runsAs_foldBlocks (cfg : Config) (slots : Slots) (s : State) {blocks : List Bytes}
    (h : ∀ block ∈ blocks, block.length = 64) :
    RunsAs cfg slots (foldBlocks blocks) [s.bytes] (.ok [(blocks.foldl compress s).bytes]) := by
  induction blocks generalizing s with
  | nil => exact .nil _
  | cons block blocks ih =>
    obtain ⟨hblock, hblocks⟩ := List.forall_mem_cons.mp h
    have hpush := (runsAs_pushB cfg slots block).frame [s.bytes]
    have hcompress := runsAs_generateCompressOps cfg slots s hblock
    exact (hpush.append_ok hcompress).append_ok (ih (compress s block) hblocks)

/-- The compiled hash is the hash of the message, however many whole blocks are split off. -/
theorem emitSha256_correct (cfg : Config) (slots : Slots) (blocks : List Bytes) (last : Bytes)
    (hblocks : ∀ block ∈ blocks, block.length = 64) (hlast : last.length ≤ 119)
    (hbits : 8 * (blocks.flatten ++ last).length < 2 ^ 64) :
    RunsAs cfg slots
      (foldBlocks blocks ++ Emitter.pushB last ++
        Emitter.pushI (8 * (blocks.flatten ++ last).length : Nat) ++ emitSha256Finalize)
      [initial.bytes] (.ok [digest (blocks.flatten ++ last)]) := by
  have hfold := runsAs_foldBlocks cfg slots initial hblocks
  have hrest := (runsAs_pushB cfg slots last).frame [(blocks.foldl compress initial).bytes]
  have hlength := (runsAs_pushNum cfg slots (8 * (blocks.flatten ++ last).length : Nat)).frame
    [last, (blocks.foldl compress initial).bytes]
  have hend := runsAs_emitSha256Finalize cfg slots (blocks.foldl compress initial) hlast hbits
  rw [← digest_flatten_append hblocks] at hend
  exact ((hfold.append_ok hrest).append_ok hlength).append_ok hend

theorem emitSha256_correct_abc :
    RunsAs (.hashing id) ⟨fun _ _ => [], []⟩
      (foldBlocks [] ++ Emitter.pushB [0x61, 0x62, 0x63] ++ Emitter.pushI 24 ++ emitSha256Finalize)
      [initial.bytes]
      (.ok [[0xba, 0x78, 0x16, 0xbf, 0x8f, 0x01, 0xcf, 0xea, 0x41, 0x41, 0x40, 0xde, 0x5d, 0xae,
        0x22, 0x23, 0xb0, 0x03, 0x61, 0xa3, 0x96, 0x17, 0x7a, 0x9c, 0xb4, 0x10, 0xff, 0x61, 0xf2,
        0x00, 0x15, 0xad]]) := by
  have hdigest : digest [0x61, 0x62, 0x63] =
      [0xba, 0x78, 0x16, 0xbf, 0x8f, 0x01, 0xcf, 0xea, 0x41, 0x41, 0x40, 0xde, 0x5d, 0xae,
        0x22, 0x23, 0xb0, 0x03, 0x61, 0xa3, 0x96, 0x17, 0x7a, 0x9c, 0xb4, 0x10, 0xff, 0x61, 0xf2,
        0x00, 0x15, 0xad] := by
    decide +kernel
  rw [← hdigest]
  exact emitSha256_correct (.hashing id) ⟨fun _ _ => [], []⟩ [] [0x61, 0x62, 0x63] (by simp)
    (by decide) (by decide)

end Runar.StackLower.Sha256
