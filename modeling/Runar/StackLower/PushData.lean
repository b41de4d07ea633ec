/-
  StackLower/PushData.lean --- the on-chain codec for ByteString state fields.

  WHAT THIS FILE IS FOR.  A state field of variable length is stored behind a
  length prefix.  The compiler emits one opcode sequence that prepends the prefix
  and one that splits a field off the front of the state.  This file has both
  sequences, what each does to a byte string, and for which lengths they are
  inverse to one another.

  WHERE THEY ARE NOT.  The encoder writes length bytes unsigned.  The decoder reads
  them with BIN2NUM, which is signed: a length byte from 0x80 on, or a two-byte
  length from 0x8000 on, comes back negative or zero.  From 65536 bytes on the
  encoder keeps the low two bytes of a four-byte length, and only from 2^31 on does
  its NUM2BIN fail.
-/
import Runar.StackIR.Syntax
import Runar.Script.Block
import Runar.Script.Refine

set_option autoImplicit false

namespace Runar.StackLower

open Script

/-! ## The opcode sequences -/

/-- Prepend a length prefix: `[.., bs_value]` to `[.., pushdata_encoded_value]`. -/
def emitPushDataEncode : List StackOp :=
  [.opcode .OP_SIZE, .dup, .push (.bigint 76), .opcode .OP_LESSTHAN,
    .opcode .OP_IF,
    -- len <= 75: one length byte
    .push (.bigint 2), .opcode .OP_NUM2BIN, .push (.bigint 1), .opcode .OP_SPLIT, .drop,
    .swap, .opcode .OP_CAT,
    .opcode .OP_ELSE,
    .dup, .push (.bigint 256), .opcode .OP_LESSTHAN,
    .opcode .OP_IF,
    -- 76 <= len <= 255: 0x4c and one length byte
    .push (.bigint 2), .opcode .OP_NUM2BIN, .push (.bigint 1), .opcode .OP_SPLIT, .drop,
    .push (.bytes [0x4c]), .swap, .opcode .OP_CAT, .swap, .opcode .OP_CAT,
    .opcode .OP_ELSE,
    -- len >= 256: 0x4d and two length bytes
    .push (.bigint 4), .opcode .OP_NUM2BIN, .push (.bigint 2), .opcode .OP_SPLIT, .drop,
    .push (.bytes [0x4d]), .swap, .opcode .OP_CAT, .swap, .opcode .OP_CAT,
    .opcode .OP_ENDIF,
    .opcode .OP_ENDIF]

/-- Split a field off: `[.., state_bytes]` to `[.., data, remaining_state]`. -/
def emitPushDataDecode : List StackOp :=
  [.push (.bigint 1), .opcode .OP_SPLIT, .swap, .opcode .OP_BIN2NUM, .dup, .push (.bigint 76),
    .opcode .OP_LESSTHAN,
    .opcode .OP_IF,
    -- fb < 76: the first byte is the length
    .opcode .OP_SPLIT,
    .opcode .OP_ELSE,
    .dup, .push (.bigint 77), .opcode .OP_NUMEQUAL,
    .opcode .OP_IF,
    -- fb = 77: two length bytes
    .drop, .push (.bigint 2), .opcode .OP_SPLIT, .swap, .opcode .OP_BIN2NUM, .opcode .OP_SPLIT,
    .opcode .OP_ELSE,
    -- fb = 76: one length byte
    .drop, .push (.bigint 1), .opcode .OP_SPLIT, .swap, .opcode .OP_BIN2NUM, .opcode .OP_SPLIT,
    .opcode .OP_ENDIF,
    .opcode .OP_ENDIF]

/-! ## What they compute -/

/-- A byte string behind its length prefix. -/
def pushDataEncoding (s : Bytes) : Except ScriptError Bytes :=
  if s.length < 76 then .ok (leBytes 1 s.length ++ s)
  else if s.length < 256 then .ok (0x4c :: leBytes 1 s.length ++ s)
  else if s.length < 2 ^ 31 then .ok (0x4d :: leBytes 2 s.length ++ s)
  else .error .impossibleEncoding

/-- Read a signed length of `w` bytes and split that many bytes off the rest. -/
def splitLength (w : Nat) (bs : Bytes) : Except ScriptError (Bytes × Bytes) := do
  let (len, rest) ← splitAt bs w
  splitAt rest (decodeNum len)

/-- The field at the front of a state, and the rest. -/
def pushDataDecoding (bs : Bytes) : Except ScriptError (Bytes × Bytes) := do
  let (first, rest) ← splitAt bs 1
  if decodeNum first < 76 then splitAt rest (decodeNum first)
  else if decodeNum first = 77 then splitLength 2 rest
  else splitLength 1 rest

/-! ## The encoder runs as it computes -/

/-- Compare the length on top with a bound. -/
def sizeTest (bound : Nat) : List Instr :=
  [.op .OP_DUP, .push (encodeNum bound), .op .OP_LESSTHAN]

/-- Replace the length on top by its low `v` bytes, through a word of `w` bytes. -/
def lowBytes (w v : Nat) : List Instr :=
  [.push (encodeNum w), .op .OP_NUM2BIN, .push (encodeNum v), .op .OP_SPLIT, .op .OP_DROP]

/-- Prepend the length bytes. -/
def encodeArm (w v : Nat) : List Instr := lowBytes w v ++ [.op .OP_SWAP, .op .OP_CAT]

/-- Prepend a marker byte and the length bytes. -/
def encodeMarkedArm (w v : Nat) (marker : UInt8) : List Instr :=
  lowBytes w v ++ [.push [marker], .op .OP_SWAP, .op .OP_CAT, .op .OP_SWAP, .op .OP_CAT]

section Encoder

variable (cfg : Config) (slots : Slots)

theorem plainRun_sizeTest (len bound : Nat) (s alt : List Bytes) :
    plainRun cfg (sizeTest bound) ⟨encodeNum len :: s, alt⟩ =
      .ok ⟨boolBytes (decide (len < bound)) :: encodeNum len :: s, alt⟩ := by
  simp only [sizeTest, plainRun, plainStep, opcodeStep, shuffle, numOp2, top2, readNum_encodeNum,
    bind, Except.bind, Int.ofNat_lt]

theorem plainRun_lowBytes {w v len : Nat} (h : v ≤ w) (s alt : List Bytes) :
    plainRun cfg (lowBytes w v) ⟨encodeNum len :: s, alt⟩ =
      if Fits w len then .ok ⟨leBytes v len :: s, alt⟩ else .error .impossibleEncoding := by
  by_cases hfits : Fits w len
  · have hwidth : (0 : Int) ≤ (w : Int) ∧ Fits (w : Int).toNat len :=
      ⟨Int.natCast_nonneg w, by rwa [Int.toNat_natCast]⟩
    have hsplit : (0 : Int) ≤ (v : Int) ∧
        (v : Int) ≤ ((signedBytes (w : Int).toNat (len : Int)).length : Int) := by
      rw [length_signedBytes, Int.toNat_natCast]
      omega
    have htake : (signedBytes (w : Int).toNat (len : Int)).take (v : Int).toNat =
        leBytes v len := by
      rw [Int.toNat_natCast, Int.toNat_natCast, signedBytes, signed_natCast, take_leBytes h]
    rw [if_pos hfits]
    simp only [lowBytes, plainRun, plainStep, opcodeStep, readNum_encodeNum, decodeNum_encodeNum,
      num2bin, splitAt, shuffle, bind, Except.bind, if_pos hwidth, if_pos hsplit, htake]
  · have hwidth : ¬ ((0 : Int) ≤ (w : Int) ∧ Fits (w : Int).toNat len) := by
      rintro ⟨_, hfits'⟩
      rw [Int.toNat_natCast] at hfits'
      exact hfits hfits'
    rw [if_neg hfits]
    simp only [lowBytes, plainRun, plainStep, opcodeStep, readNum_encodeNum, decodeNum_encodeNum,
      num2bin, bind, Except.bind, if_neg hwidth]

theorem plainRun_encodeArm {w v len : Nat} (h : v ≤ w) (s : Bytes) (r alt : List Bytes) :
    plainRun cfg (encodeArm w v) ⟨encodeNum len :: s :: r, alt⟩ =
      if Fits w len then .ok ⟨(leBytes v len ++ s) :: r, alt⟩ else .error .impossibleEncoding := by
  rw [encodeArm, plainRun_append, plainRun_lowBytes cfg h]
  split <;> rfl

theorem plainRun_encodeMarkedArm {w v len : Nat} (h : v ≤ w) (marker : UInt8) (s : Bytes)
    (r alt : List Bytes) :
    plainRun cfg (encodeMarkedArm w v marker) ⟨encodeNum len :: s :: r, alt⟩ =
      if Fits w len then .ok ⟨(marker :: leBytes v len ++ s) :: r, alt⟩
      else .error .impossibleEncoding := by
  rw [encodeMarkedArm, plainRun_append, plainRun_lowBytes cfg h]
  split <;> rfl

/-- The encoder as an effect: three arms behind two comparisons. -/
def encodeEffect : Effect := fun st =>
  plainRun cfg (.op .OP_SIZE :: sizeTest 76) st >>=
    ifEffect (plainRun cfg (encodeArm 2 1))
      (fun st => plainRun cfg (sizeTest 256) st >>=
        ifEffect (plainRun cfg (encodeMarkedArm 2 1 0x4c)) (plainRun cfg (encodeMarkedArm 4 2 0x4d)))

theorem denotes_emitPushDataEncode :
    Denotes cfg (emitOps slots emitPushDataEncode) (encodeEffect cfg) := by
  have hemit : emitOps slots emitPushDataEncode =
      (Instr.op .OP_SIZE :: sizeTest 76) ++
        (Instr.op .OP_IF :: (encodeArm 2 1 ++ Instr.op .OP_ELSE ::
        ((sizeTest 256 ++ (Instr.op .OP_IF :: (encodeMarkedArm 2 1 0x4c ++ Instr.op .OP_ELSE ::
          (encodeMarkedArm 4 2 0x4d ++ [Instr.op .OP_ENDIF])))) ++ [Instr.op .OP_ENDIF]))) := by
    simp [emitPushDataEncode, emitOps_cons, sizeTest, encodeArm, encodeMarkedArm, lowBytes]
  rw [hemit]
  refine .append (.plain rfl) (.ifElse (.plain rfl) (.append (.plain rfl) (.ifElse ?_ ?_)))
  · exact .plain rfl
  · exact .plain rfl

theorem fits_natCast_iff (w n : Nat) : Fits (w + 1) n ↔ n < 128 * 256 ^ w := by
  rw [Fits, Int.natAbs_natCast, signBit_succ]

/-- What the encoder does to a byte string. -/
theorem encodeEffect_apply (s : Bytes) (r alt : List Bytes) :
    encodeEffect cfg ⟨s :: r, alt⟩ = (pushDataEncoding s).map fun e => ⟨e :: r, alt⟩ := by
  have hsize : plainRun cfg (.op .OP_SIZE :: sizeTest 76) ⟨s :: r, alt⟩ =
      .ok ⟨boolBytes (decide (s.length < 76)) :: encodeNum s.length :: s :: r, alt⟩ :=
    plainRun_sizeTest cfg s.length 76 (s :: r) alt
  have hfits₂ : Fits 2 s.length ↔ s.length < 2 ^ 15 := fits_natCast_iff 1 s.length
  have hfits₄ : Fits 4 s.length ↔ s.length < 2 ^ 31 := fits_natCast_iff 3 s.length
  unfold encodeEffect pushDataEncoding
  rw [hsize]
  simp only [bind, Except.bind, ifEffect, isTruthy_boolBytes, decide_eq_true_eq,
    plainRun_sizeTest]
  by_cases h₁ : s.length < 76
  · rw [if_pos h₁, if_pos h₁, plainRun_encodeArm cfg (by decide),
      if_pos (hfits₂.mpr (by omega))]
    rfl
  · rw [if_neg h₁, if_neg h₁]
    by_cases h₂ : s.length < 256
    · rw [if_pos h₂, if_pos h₂, plainRun_encodeMarkedArm cfg (by decide),
        if_pos (hfits₂.mpr (by omega))]
      rfl
    · rw [if_neg h₂, if_neg h₂, plainRun_encodeMarkedArm cfg (by decide)]
      by_cases h₄ : s.length < 2 ^ 31
      · rw [if_pos (hfits₄.mpr h₄), if_pos h₄]
        rfl
      · rw [if_neg (fun h => h₄ (hfits₄.mp h)), if_neg h₄]
        rfl

/-- Running the encoder. -/
theorem runOps_emitPushDataEncode (s : Bytes) (r alt : List Bytes) :
    runOps cfg slots emitPushDataEncode (.start (s :: r) alt) =
      (pushDataEncoding s).map fun e => .start (e :: r) alt := by
  unfold runOps
  rw [(denotes_emitPushDataEncode cfg slots).run_start, encodeEffect_apply]
  cases pushDataEncoding s <;> rfl

end Encoder

/-! ## The decoder runs as it computes -/

/-- Read the first byte and compare it with 76. -/
def firstByteTest : List Instr :=
  [.push (encodeNum 1), .op .OP_SPLIT, .op .OP_SWAP, .op .OP_BIN2NUM, .op .OP_DUP,
    .push (encodeNum 76), .op .OP_LESSTHAN]

def markerTest : List Instr := [.op .OP_DUP, .push (encodeNum 77), .op .OP_NUMEQUAL]

/-- Drop the marker, read a length of `w` bytes and split there. -/
def lengthArm (w : Nat) : List Instr :=
  [.op .OP_DROP, .push (encodeNum w), .op .OP_SPLIT, .op .OP_SWAP, .op .OP_BIN2NUM, .op .OP_SPLIT]

/-- The stacks after a split: the right half is on top. -/
def afterSplit (r alt : List Bytes) (halves : Bytes × Bytes) : Stacks :=
  ⟨halves.2 :: halves.1 :: r, alt⟩

section Decoder

variable (cfg : Config) (slots : Slots)

theorem opcodeStep_split (n : Int) (a : Bytes) (r alt : List Bytes) :
    opcodeStep cfg .OP_SPLIT ⟨encodeNum n :: a :: r, alt⟩ =
      (splitAt a n).map (afterSplit r alt) := by
  simp only [opcodeStep, readNum_encodeNum, bind, Except.bind]
  cases splitAt a n <;> rfl

/-- Split off `w` bytes and read them as a number. -/
theorem plainRun_readLength (w : Nat) (bs : Bytes) (r alt : List Bytes) :
    plainRun cfg [.push (encodeNum w), .op .OP_SPLIT, .op .OP_SWAP, .op .OP_BIN2NUM]
        ⟨bs :: r, alt⟩ =
      (splitAt bs w).map fun p => ⟨encodeNum (decodeNum p.1) :: p.2 :: r, alt⟩ := by
  rw [plainRun_cons]
  show plainRun cfg [.op .OP_SPLIT, .op .OP_SWAP, .op .OP_BIN2NUM] ⟨encodeNum w :: bs :: r, alt⟩ = _
  rw [plainRun_cons, show plainStep cfg (.op .OP_SPLIT) = opcodeStep cfg .OP_SPLIT from rfl,
    opcodeStep_split]
  cases splitAt bs w <;> rfl

theorem plainRun_firstByteTest (bs : Bytes) (r alt : List Bytes) :
    plainRun cfg firstByteTest ⟨bs :: r, alt⟩ =
      (splitAt bs 1).map fun p =>
        ⟨boolBytes (decide (decodeNum p.1 < 76)) :: encodeNum (decodeNum p.1) :: p.2 :: r, alt⟩ := by
  have hread := plainRun_readLength cfg 1 bs r alt
  have happ := plainRun_append cfg
    [.push (encodeNum (1 : Nat)), .op .OP_SPLIT, .op .OP_SWAP, .op .OP_BIN2NUM]
    [.op .OP_DUP, .push (encodeNum 76), .op .OP_LESSTHAN] ⟨bs :: r, alt⟩
  rw [hread] at happ
  refine happ.trans ?_
  cases splitAt bs (1 : Nat) with
  | error e => rfl
  | ok p =>
      show plainRun cfg [.op .OP_DUP, .push (encodeNum 76), .op .OP_LESSTHAN]
        ⟨encodeNum (decodeNum p.1) :: p.2 :: r, alt⟩ = _
      simp only [plainRun, plainStep, opcodeStep, shuffle, numOp2, top2, readNum_encodeNum, bind,
        Except.bind, Except.map]

theorem plainRun_markerTest (n : Int) (s alt : List Bytes) :
    plainRun cfg markerTest ⟨encodeNum n :: s, alt⟩ =
      .ok ⟨boolBytes (n == 77) :: encodeNum n :: s, alt⟩ := by
  simp only [markerTest, plainRun, plainStep, opcodeStep, shuffle, numOp2, top2,
    readNum_encodeNum, bind, Except.bind]

theorem plainRun_lengthArm (w : Nat) (x bs : Bytes) (r alt : List Bytes) :
    plainRun cfg (lengthArm w) ⟨x :: bs :: r, alt⟩ =
      (splitLength w bs).map (afterSplit r alt) := by
  have happ := plainRun_append cfg
    [Instr.push (encodeNum w), .op .OP_SPLIT, .op .OP_SWAP, .op .OP_BIN2NUM] [Instr.op .OP_SPLIT]
    ⟨bs :: r, alt⟩
  rw [plainRun_readLength] at happ
  refine Eq.trans (b := plainRun cfg
    ([Instr.push (encodeNum w), .op .OP_SPLIT, .op .OP_SWAP, .op .OP_BIN2NUM] ++
      [Instr.op .OP_SPLIT])
    ⟨bs :: r, alt⟩) rfl (happ.trans ?_)
  unfold splitLength
  cases splitAt bs w with
  | error e => rfl
  | ok p =>
      show plainRun cfg [Instr.op .OP_SPLIT] ⟨encodeNum (decodeNum p.1) :: p.2 :: r, alt⟩ =
        (splitAt p.2 (decodeNum p.1)).map (afterSplit r alt)
      rw [plainRun_cons, show plainStep cfg (.op .OP_SPLIT) = opcodeStep cfg .OP_SPLIT from rfl,
        opcodeStep_split]
      cases splitAt p.2 (decodeNum p.1) <;> rfl

/-- The decoder as an effect. -/
def decodeEffect : Effect := fun st =>
  plainRun cfg firstByteTest st >>=
    ifEffect (plainRun cfg [.op .OP_SPLIT])
      (fun st => plainRun cfg markerTest st >>=
        ifEffect (plainRun cfg (lengthArm 2)) (plainRun cfg (lengthArm 1)))

theorem denotes_emitPushDataDecode :
    Denotes cfg (emitOps slots emitPushDataDecode) (decodeEffect cfg) := by
  have hemit : emitOps slots emitPushDataDecode =
      firstByteTest ++ (Instr.op .OP_IF :: ([Instr.op .OP_SPLIT] ++ Instr.op .OP_ELSE ::
        ((markerTest ++ (Instr.op .OP_IF :: (lengthArm 2 ++ Instr.op .OP_ELSE ::
          (lengthArm 1 ++ [Instr.op .OP_ENDIF])))) ++ [Instr.op .OP_ENDIF]))) := by
    simp [emitPushDataDecode, emitOps_cons, firstByteTest, markerTest, lengthArm]
  rw [hemit]
  refine .append (.plain rfl) (.ifElse (.plain rfl) (.append (.plain rfl) (.ifElse ?_ ?_)))
  · exact .plain rfl
  · exact .plain rfl

/-- What the decoder does to a byte string. -/
theorem decodeEffect_apply (bs : Bytes) (r alt : List Bytes) :
    decodeEffect cfg ⟨bs :: r, alt⟩ = (pushDataDecoding bs).map (afterSplit r alt) := by
  unfold decodeEffect pushDataDecoding
  rw [plainRun_firstByteTest]
  cases splitAt bs 1 with
  | error e => rfl
  | ok p =>
      obtain ⟨first, rest⟩ := p
      simp only [bind, Except.bind, Except.map, ifEffect, isTruthy_boolBytes, decide_eq_true_eq,
        plainRun_markerTest, beq_iff_eq]
      split
      · rw [plainRun_cons, show plainStep cfg (.op .OP_SPLIT) = opcodeStep cfg .OP_SPLIT from rfl,
          opcodeStep_split]
        cases splitAt rest (decodeNum first) <;> rfl
      · split
        · exact plainRun_lengthArm cfg 2 _ rest r alt
        · exact plainRun_lengthArm cfg 1 _ rest r alt

/-- Running the decoder. -/
theorem runOps_emitPushDataDecode (bs : Bytes) (r alt : List Bytes) :
    runOps cfg slots emitPushDataDecode (.start (bs :: r) alt) =
      (pushDataDecoding bs).map fun p => .start (p.2 :: p.1 :: r) alt := by
  unfold runOps
  rw [(denotes_emitPushDataDecode cfg slots).run_start, decodeEffect_apply]
  cases pushDataDecoding bs <;> rfl

end Decoder

/-! ## Where the two are inverse -/

/-- A field of `w` length bytes is split off exactly where its length, read as a
signed number, is its length. -/
theorem splitLength_eq_iff {w : Nat} (s rest : Bytes) (h : s.length < 256 ^ (w + 1)) :
    splitLength (w + 1) (leBytes (w + 1) s.length ++ (s ++ rest)) = .ok (s, rest) ↔
      s.length < signBit (w + 1) := by
  have hsplit : splitAt (leBytes (w + 1) s.length ++ (s ++ rest)) ((w + 1 : Nat) : Int) =
      .ok (leBytes (w + 1) s.length, s ++ rest) := by
    have happ := splitAt_append (leBytes (w + 1) s.length) (s ++ rest)
    rwa [length_leBytes] at happ
  rw [splitLength, hsplit]
  show splitAt (s ++ rest) (decodeNum (leBytes (w + 1) s.length)) = .ok (s, rest) ↔ _
  rw [splitAt_append_iff, decodeNum_leBytes_eq_iff h]

theorem splitAt_one_cons (b : UInt8) (bs : Bytes) : splitAt (b :: bs) 1 = .ok ([b], bs) :=
  splitAt_append [b] bs

/-- For the lengths the format covers, decoding gives the field back exactly where
the top bit of its length bytes is clear. -/
theorem pushDataDecoding_iff (s rest : Bytes) (h : s.length ≤ 65535) :
    (∃ e, pushDataEncoding s = .ok e ∧ pushDataDecoding (e ++ rest) = .ok (s, rest)) ↔
      s.length < 128 ∨ 256 ≤ s.length ∧ s.length < 32768 := by
  unfold pushDataEncoding
  by_cases h₁ : s.length < 76
  · rw [if_pos h₁]
    have hdecode : pushDataDecoding (leBytes 1 s.length ++ s ++ rest) = .ok (s, rest) := by
      have hnum : decodeNum (leBytes 1 s.length) = s.length :=
        (decodeNum_leBytes_eq_iff (by omega)).mpr (by rw [signBit_succ]; omega)
      have hsplit : splitAt (leBytes 1 s.length ++ (s ++ rest)) 1 =
          .ok (leBytes 1 s.length, s ++ rest) := splitAt_append (leBytes 1 s.length) (s ++ rest)
      unfold pushDataDecoding
      rw [List.append_assoc, hsplit]
      show (if decodeNum (leBytes 1 s.length) < 76 then
        splitAt (s ++ rest) (decodeNum (leBytes 1 s.length)) else _) = _
      rw [hnum, if_pos (by omega), splitAt_append]
    constructor
    · intro _
      omega
    · intro _
      exact ⟨_, rfl, hdecode⟩
  · rw [if_neg h₁]
    by_cases h₂ : s.length < 256
    · rw [if_pos h₂]
      have hdecode : pushDataDecoding (0x4c :: leBytes 1 s.length ++ s ++ rest) =
          splitLength 1 (leBytes 1 s.length ++ (s ++ rest)) := by
        unfold pushDataDecoding
        rw [List.cons_append, List.cons_append, splitAt_one_cons, List.append_assoc]
        rfl
      have hiff := splitLength_eq_iff (w := 0) s rest (by omega)
      rw [signBit_succ] at hiff
      constructor
      · rintro ⟨e, he, hround⟩
        cases he
        rw [hdecode, hiff] at hround
        omega
      · intro hlen
        refine ⟨_, rfl, ?_⟩
        rw [hdecode, hiff]
        omega
    · rw [if_neg h₂, if_pos (by omega)]
      have hdecode : pushDataDecoding (0x4d :: leBytes 2 s.length ++ s ++ rest) =
          splitLength 2 (leBytes 2 s.length ++ (s ++ rest)) := by
        unfold pushDataDecoding
        rw [List.cons_append, List.cons_append, splitAt_one_cons, List.append_assoc]
        rfl
      have hiff := splitLength_eq_iff (w := 1) s rest (by omega)
      rw [signBit_succ] at hiff
      constructor
      · rintro ⟨e, he, hround⟩
        cases he
        rw [hdecode, hiff] at hround
        omega
      · intro hlen
        refine ⟨_, rfl, ?_⟩
        rw [hdecode, hiff]
        omega

/-! ## The codec on the machine -/

section Codec

variable (cfg : Config) (slots : Slots)

/-- Encoding a field and decoding it in front of any remaining state gives the
field and that state, whatever lies below on the stack. -/
def RoundTrips (s : Bytes) : Prop :=
  ∀ (rest : Bytes) (r alt : List Bytes), ∃ e,
    runOps cfg slots emitPushDataEncode (.start (s :: r) alt) = .ok (.start (e :: r) alt) ∧
      runOps cfg slots emitPushDataDecode (.start ((e ++ rest) :: r) alt) =
        .ok (.start (rest :: s :: r) alt)

/-- The encoder stops. -/
def EncoderFails (s : Bytes) : Prop :=
  ∀ r alt : List Bytes, ∃ err,
    runOps cfg slots emitPushDataEncode (.start (s :: r) alt) = .error err

/-- What a codec for the push-data format owes a byte string: a round trip up to
65535 bytes, and a refusal above. -/
def CodecCorrect (s : Bytes) : Prop :=
  (s.length ≤ 65535 → RoundTrips cfg slots s) ∧ (65535 < s.length → EncoderFails cfg slots s)

theorem roundTrips_iff (s : Bytes) :
    RoundTrips cfg slots s ↔ ∀ rest, ∃ e, pushDataEncoding s = .ok e ∧
      pushDataDecoding (e ++ rest) = .ok (s, rest) := by
  constructor
  · intro h rest
    obtain ⟨e, henc, hdec⟩ := h rest [] []
    rw [runOps_emitPushDataEncode] at henc
    rw [runOps_emitPushDataDecode] at hdec
    refine ⟨e, ?_, ?_⟩
    · cases hs : pushDataEncoding s with
      | error err => rw [hs] at henc; cases henc
      | ok e' => rw [hs] at henc; cases henc; rfl
    · cases hs : pushDataDecoding (e ++ rest) with
      | error err => rw [hs] at hdec; cases hdec
      | ok p => rw [hs] at hdec; cases hdec; rfl
  · intro h rest r alt
    obtain ⟨e, henc, hdec⟩ := h rest
    refine ⟨e, ?_, ?_⟩
    · rw [runOps_emitPushDataEncode, henc]
      rfl
    · rw [runOps_emitPushDataDecode, hdec]
      rfl

theorem encoderFails_iff (s : Bytes) : EncoderFails cfg slots s ↔ 2 ^ 31 ≤ s.length := by
  have hfails : EncoderFails cfg slots s ↔ ∃ err, pushDataEncoding s = .error err := by
    constructor
    · intro h
      obtain ⟨err, herr⟩ := h [] []
      rw [runOps_emitPushDataEncode] at herr
      cases hs : pushDataEncoding s with
      | error err' => exact ⟨err', rfl⟩
      | ok e => rw [hs] at herr; cases herr
    · rintro ⟨err, herr⟩ r alt
      refine ⟨err, ?_⟩
      rw [runOps_emitPushDataEncode, herr]
      rfl
  rw [hfails, pushDataEncoding]
  constructor
  · rintro ⟨err, herr⟩
    by_contra hlt
    rw [if_pos (show s.length < 2 ^ 31 by omega)] at herr
    split at herr
    · cases herr
    · split at herr <;> cases herr
  · intro hlen
    refine ⟨.impossibleEncoding, ?_⟩
    rw [if_neg (by omega), if_neg (by omega), if_neg (by omega)]

/-- The failing kinds of length, read off the two halves. -/
theorem codecCorrect_of_length (s : Bytes) :
    CodecCorrect cfg slots s ↔
      (s.length ≤ 65535 → s.length < 128 ∨ 256 ≤ s.length ∧ s.length < 32768) ∧
        (65535 < s.length → 2 ^ 31 ≤ s.length) := by
  unfold CodecCorrect
  rw [encoderFails_iff, roundTrips_iff]
  refine and_congr (imp_congr_right fun hlen => ?_) Iff.rfl
  constructor
  · intro h
    exact (pushDataDecoding_iff s [] hlen).mp (h [])
  · intro h rest
    exact (pushDataDecoding_iff s rest hlen).mpr h

/-- The codec is correct exactly for the lengths whose length bytes have a clear
top bit, and for those that do not fit the four-byte word of the encoder. -/
theorem codecCorrect_iff (s : Bytes) :
    CodecCorrect cfg slots s ↔
      s.length < 128 ∨ (256 ≤ s.length ∧ s.length < 32768) ∨ 2 ^ 31 ≤ s.length := by
  rw [codecCorrect_of_length]
  omega

/-- A field of 128 zero bytes comes back empty: its length byte reads as negative
zero. -/
theorem not_codecCorrect :
    ¬ ∀ (cfg : Config) (slots : Slots) (s : Bytes), CodecCorrect cfg slots s := by
  intro h
  have hcodec := h ⟨fun _ => false, id, id, id, fun _ _ => false, fun _ _ => false,
    fun _ m => .ok m⟩ ⟨fun _ _ => [], []⟩ (List.replicate 128 0)
  rw [codecCorrect_of_length, List.length_replicate] at hcodec
  omega

end Codec

end Runar.StackLower
