/-
  StackLower/Rabin.lean --- verification of Rabin signatures.

  WHAT THIS FILE IS FOR.  A Rabin signature is a root of the digest, up to a small
  padding, modulo the public key.  The reference computes with unsigned numbers and
  compares residues; the script reads the padding as a signed number, takes the
  remainder with OP_MOD and compares it with the digest itself.  This file has both
  and says exactly where they agree.
-/
import Runar.StackLower.ByteSequences

set_option autoImplicit false

namespace Runar.StackLower.Rabin

open Script

/-- The bound on the padding. -/
def paddingLimit : Nat := 65536

/-- `rabinVerify`; the numbers are read from the bytes as unsigned ones. -/
def rabinVerify (sha256 : Bytes → Bytes) (msg : Bytes) (sig : Int) (padding : Bytes)
    (pubkey : Int) : Bool :=
  if pubkey ≤ 0 then false
  else if leNat padding ≥ paddingLimit then false
  else
    let lhs := ((sig * sig + leNat padding).tmod pubkey + pubkey).tmod pubkey
    let rhs := ((leNat (sha256 msg) : Int).tmod pubkey + pubkey).tmod pubkey
    lhs == rhs

/-- Check that the padding is in range. -/
def paddingOps : List StackOp :=
  [.opcode .OP_SWAP, .opcode .OP_DUP, .opcode .OP_0, .push (.bigint paddingLimit),
    .opcode .OP_WITHIN, .opcode .OP_VERIFY]

/-- The remainder of the padded square. -/
def remainderOps : List StackOp :=
  [.opcode .OP_ROT, .opcode .OP_DUP, .opcode .OP_MUL, .opcode .OP_ADD, .opcode .OP_SWAP,
    .opcode .OP_MOD]

/-- Compare with the digest, which a zero byte makes a number without a sign. -/
def digestOps : List StackOp :=
  [.opcode .OP_SWAP, .opcode .OP_SHA256, .push (.bytes [0x00]), .opcode .OP_CAT,
    .opcode .OP_BIN2NUM, .opcode .OP_NUMEQUAL]

def emitVerifyRabinSig : List StackOp := paddingOps ++ remainderOps ++ digestOps

/-! ## What the script computes -/

section Script

variable (cfg : Config) (slots : Slots)

/-- The padding as the two opcodes that use it read it. -/
def readPadding (padding : Bytes) : Except ScriptError Int := do
  let n ← readNum cfg .OP_WITHIN padding
  if 0 ≤ n ∧ n < paddingLimit then readNum cfg .OP_ADD padding else .error .verify

/-- The machine takes the padding for the number: that is its value as a signed number,
in range, and a strict machine has it minimal. -/
def PaddingRead (padding : Bytes) (n : Int) : Prop :=
  decodeNum padding = n ∧ 0 ≤ n ∧ n < paddingLimit ∧
    (cfg.requireMinimal .OP_WITHIN ∨ cfg.requireMinimal .OP_ADD → IsMinimal padding)

theorem readNum_eq_ok_iff (code : Opcode) (bs : Bytes) (n : Int) :
    readNum cfg code bs = .ok n ↔
      decodeNum bs = n ∧ (cfg.requireMinimal code → IsMinimal bs) := by
  unfold readNum
  by_cases hmin : IsMinimal bs <;> cases cfg.requireMinimal code <;> simp [hmin]

theorem readPadding_eq_ok_iff (padding : Bytes) (n : Int) :
    readPadding cfg padding = .ok n ↔ PaddingRead cfg padding n := by
  unfold readPadding PaddingRead
  cases hread : readNum cfg .OP_WITHIN padding with
  | error e =>
    have hnot := (readNum_eq_ok_iff cfg .OP_WITHIN padding n).not.mp (by rw [hread]; exact nofun)
    simp only [error_bind, reduceCtorEq, false_iff]
    exact fun h => hnot ⟨h.1, fun hstrict => h.2.2.2 (.inl hstrict)⟩
  | ok m =>
    obtain ⟨rfl, hwithin⟩ := (readNum_eq_ok_iff cfg .OP_WITHIN padding m).mp hread
    rw [ok_bind]
    by_cases hrange : 0 ≤ decodeNum padding ∧ decodeNum padding < paddingLimit
    · rw [if_pos hrange, readNum_eq_ok_iff]
      constructor
      · rintro ⟨rfl, hadd⟩
        exact ⟨rfl, hrange.1, hrange.2, fun hstrict => hstrict.elim hwithin hadd⟩
      · rintro ⟨rfl, -, -, hstrict⟩
        exact ⟨rfl, fun hadd => hstrict (.inr hadd)⟩
    · rw [if_neg hrange]
      simp only [reduceCtorEq, false_iff]
      rintro ⟨rfl, hlow, hhigh, -⟩
      exact hrange ⟨hlow, hhigh⟩

theorem runsAs_paddingOps (padding pubkey : Bytes) :
    RunsAs cfg slots paddingOps [pubkey, padding] (do
      let n ← readNum cfg .OP_WITHIN padding
      if 0 ≤ n ∧ n < paddingLimit then .ok [padding, pubkey] else .error .verify) := by
  have hzero : readNum cfg .OP_WITHIN [] = .ok 0 := readNum_encodeNum cfg .OP_WITHIN 0
  refine .of_plain (by simp [paddingOps, emitOps_cons]; decide) fun below alt => ?_
  cases hread : readNum cfg .OP_WITHIN padding with
  | error e =>
    simp [paddingOps, emitOps_cons, plainRun, plainStep, opcodeStep, shuffle, hread, pushNum]
  | ok n =>
    by_cases hrange : 0 ≤ n ∧ n < paddingLimit <;>
    simp [paddingOps, emitOps_cons, plainRun, plainStep, opcodeStep, shuffle, hread, pushNum,
      verifyTop, hzero, hrange]

theorem runsAs_remainderOps (sig pubkey : Int) (padding : Bytes) :
    RunsAs cfg slots remainderOps [padding, encodeNum pubkey, encodeNum sig] (do
      let n ← readNum cfg .OP_ADD padding
      if pubkey = 0 then .error .divByZero
      else .ok [encodeNum ((sig * sig + n).tmod pubkey)]) := by
  have hnil : readNum cfg .OP_MOD [] = .ok 0 := readNum_encodeNum cfg .OP_MOD 0
  refine .of_plain (by simp [remainderOps, emitOps_cons]; decide) fun below alt => ?_
  cases hread : readNum cfg .OP_ADD padding with
  | error e =>
    simp [remainderOps, emitOps_cons, plainRun, plainStep, opcodeStep, shuffle, numOp2, top2,
      hread]
  | ok n =>
    by_cases hzero : pubkey = 0 <;>
    simp [remainderOps, emitOps_cons, plainRun, plainStep, opcodeStep, shuffle, numOp2, top2,
      hread, hnil, hzero, add_comm]

theorem runsAs_digestOps (msg : Bytes) (remainder : Int) :
    RunsAs cfg slots digestOps [encodeNum remainder, msg]
      (.ok [boolBytes (remainder == leNat (cfg.sha256 msg))]) := by
  refine .of_plain (by simp [digestOps, emitOps_cons]; decide) fun below alt => ?_
  simp [digestOps, emitOps_cons, plainRun, plainStep, opcodeStep, shuffle, numOp2, top2, top1,
    PushValue.toBytes, decodeNum_append_zero]

/-- The script leaves a truth value where the padding and the modulus are accepted, and
stops elsewhere. -/
theorem runsAs_emitVerifyRabinSig (msg : Bytes) (sig : Int) (padding : Bytes) (pubkey : Int) :
    RunsAs cfg slots emitVerifyRabinSig [encodeNum pubkey, padding, encodeNum sig, msg] (do
      let n ← readPadding cfg padding
      if pubkey = 0 then .error .divByZero
      else .ok [boolBytes ((sig * sig + n).tmod pubkey == leNat (cfg.sha256 msg))]) := by
  have hpadding := (runsAs_paddingOps cfg slots padding (encodeNum pubkey)).frame
    [encodeNum sig, msg]
  have hremainder := (runsAs_remainderOps cfg slots sig pubkey padding).frame [msg]
  have hdigest := runsAs_digestOps cfg slots msg
  unfold readPadding
  cases hwithin : readNum cfg .OP_WITHIN padding with
  | error e =>
    rw [hwithin] at hpadding
    exact hpadding.append_error.append_error
  | ok n =>
    rw [hwithin, ok_bind] at hpadding
    rw [ok_bind]
    by_cases hrange : 0 ≤ n ∧ n < paddingLimit
    · rw [if_pos hrange] at hpadding ⊢
      cases hadd : readNum cfg .OP_ADD padding with
      | error e =>
        rw [hadd] at hremainder
        exact (hpadding.append_ok hremainder).append_error
      | ok n' =>
        rw [hadd, ok_bind] at hremainder
        rw [ok_bind]
        by_cases hzero : pubkey = 0
        · rw [if_pos hzero] at hremainder ⊢
          exact (hpadding.append_ok hremainder).append_error
        · rw [if_neg hzero] at hremainder ⊢
          exact (hpadding.append_ok hremainder).append_ok (hdigest _)
    · rw [if_neg hrange] at hpadding ⊢
      exact hpadding.append_error.append_error

end Script

/-! ## Agreement -/

/-- Two numbers with one residue, the way the reference computes it. -/
theorem residues_eq_iff {a b n : Int} (hn : 0 < n) :
    (a.tmod n + n).tmod n = (b.tmod n + n).tmod n ↔ n ∣ a - b := by
  have hresidue : ∀ c : Int, (c.tmod n + n).tmod n = c % n := by
    intro c
    have hlow : 0 ≤ c.tmod n + n := by
      have := Int.lt_tmod_of_pos c hn
      omega
    rw [Int.tmod_eq_emod_of_nonneg hlow, Int.add_emod_right, Int.tmod_def,
      Int.sub_mul_emod_self_left]
  rw [hresidue, hresidue, Int.emod_eq_emod_iff_emod_sub_eq_zero, Int.dvd_iff_emod_eq_zero]

theorem rabinVerify_iff (sha256 : Bytes → Bytes) (msg : Bytes) (sig : Int) (padding : Bytes)
    (pubkey : Int) :
    rabinVerify sha256 msg sig padding pubkey = true ↔
      0 < pubkey ∧ leNat padding < paddingLimit ∧
        pubkey ∣ sig * sig + leNat padding - leNat (sha256 msg) := by
  unfold rabinVerify
  by_cases hkey : pubkey ≤ 0
  · rw [if_pos hkey]
    exact ⟨nofun, fun h => absurd h.1 (by omega)⟩
  · rw [if_neg hkey]
    by_cases hpad : leNat padding ≥ paddingLimit
    · rw [if_pos hpad]
      exact ⟨nofun, fun h => absurd h.2.1 (by omega)⟩
    · rw [if_neg hpad]
      simp only [beq_iff_eq]
      rw [residues_eq_iff (by omega)]
      exact ⟨fun h => ⟨by omega, by omega, h⟩, fun h => h.2.2⟩

/-- A number below a positive modulus is the remainder of what it is congruent to. -/
theorem tmod_eq_iff {x n : Int} (d : Nat) (hx : 0 ≤ x) (hn : 0 < n) :
    x.tmod n = d ↔ (d : Int) < n ∧ n ∣ x - d := by
  rw [Int.tmod_eq_emod_of_nonneg hx]
  constructor
  · intro h
    have hlt := Int.emod_lt_of_pos x hn
    rw [h] at hlt
    refine ⟨hlt, ?_⟩
    rw [← h]
    exact Int.dvd_self_sub_emod
  · rintro ⟨hlt, hdvd⟩
    rw [Int.emod_eq_emod_iff_emod_sub_eq_zero.mpr (Int.emod_eq_zero_of_dvd hdvd)]
    exact Int.emod_eq_of_lt (by omega) hlt

section Agreement

variable (cfg : Config) (slots : Slots) (msg : Bytes) (sig : Int) (padding : Bytes) (pubkey : Int)

/-- The digest as a number. -/
def digest : Nat := leNat (cfg.sha256 msg)

/-- Where script and reference agree. -/
structure Regular : Prop where
  /-- of a valid signature, the digest is below the modulus and the padding is read as a
  number of the same residue -/
  valid : 0 < pubkey → leNat padding < paddingLimit →
    pubkey ∣ sig * sig + leNat padding - digest cfg msg →
    (digest cfg msg : Int) < pubkey ∧ ∃ n, PaddingRead cfg padding n ∧ pubkey ∣ n - leNat padding
  /-- the remainder by a negative modulus is not the digest -/
  negativeKey : pubkey < 0 → ∀ n, PaddingRead cfg padding n →
    (sig * sig + n).tmod pubkey ≠ digest cfg msg
  /-- a padding that is read as another number than its unsigned one does not turn an
  invalid signature into a valid one -/
  otherPadding : 0 < pubkey → ∀ n, PaddingRead cfg padding n → n ≠ leNat padding →
    (digest cfg msg : Int) < pubkey → pubkey ∣ sig * sig + n - digest cfg msg →
    leNat padding < paddingLimit ∧ pubkey ∣ n - leNat padding

/-- The script leaves true where the padding is read and the remainder is the digest. -/
def Accepts : Prop :=
  pubkey ≠ 0 ∧ ∃ n, PaddingRead cfg padding n ∧ (sig * sig + n).tmod pubkey = digest cfg msg

theorem decides_iff_accepts (b : Bool) :
    Decides cfg slots emitVerifyRabinSig [encodeNum pubkey, padding, encodeNum sig, msg] b ↔
      (b = true ↔ Accepts cfg msg sig padding pubkey) := by
  have hrun := runsAs_emitVerifyRabinSig cfg slots msg sig padding pubkey
  cases hread : readPadding cfg padding with
  | error e =>
    rw [hread] at hrun
    have hnot : ¬ Accepts cfg msg sig padding pubkey := by
      rintro ⟨-, n, hn, -⟩
      rw [← readPadding_eq_ok_iff, hread] at hn
      cases hn
    rw [decides_of_error hrun]
    cases b <;> simp [hnot]
  | ok n =>
    have hn := (readPadding_eq_ok_iff cfg padding n).mp hread
    rw [hread, ok_bind] at hrun
    by_cases hzero : pubkey = 0
    · rw [if_pos hzero] at hrun
      have hnot : ¬ Accepts cfg msg sig padding pubkey := fun h => h.1 hzero
      rw [decides_of_error hrun]
      cases b <;> simp [hnot]
    · rw [if_neg hzero] at hrun
      have hiff : Accepts cfg msg sig padding pubkey ↔
          (sig * sig + n).tmod pubkey = digest cfg msg := by
        constructor
        · rintro ⟨-, n', hn', heq⟩
          rwa [← hn'.1, hn.1] at heq
        · exact fun heq => ⟨hzero, n, hn, heq⟩
      rw [decides_of_ok hrun, hiff, Bool.eq_iff_iff, beq_iff_eq]
      rfl

/-- The script agrees with the reference exactly on the regular inputs. -/
theorem decides_rabinVerify_iff :
    Decides cfg slots emitVerifyRabinSig [encodeNum pubkey, padding, encodeNum sig, msg]
      (rabinVerify cfg.sha256 msg sig padding pubkey) ↔ Regular cfg msg sig padding pubkey := by
  rw [decides_iff_accepts, rabinVerify_iff]
  have hsquare : 0 ≤ sig * sig := mul_self_nonneg sig
  constructor
  · intro hagree
    refine ⟨fun hkey hpad hdvd => ?_, fun hkey n hn heq => ?_, fun hkey n hn _ hlt hdvd => ?_⟩
    · obtain ⟨-, n, hn, heq⟩ := hagree.mp ⟨hkey, hpad, hdvd⟩
      obtain ⟨hlt, hdvd'⟩ := (tmod_eq_iff _ (by have := hn.2.1; omega) hkey).mp heq
      refine ⟨hlt, n, hn, ?_⟩
      have hdiff := Int.dvd_sub hdvd' hdvd
      rwa [show sig * sig + n - (digest cfg msg : Int) -
        (sig * sig + leNat padding - digest cfg msg) = n - leNat padding by ring] at hdiff
    · exact absurd (hagree.mpr ⟨by omega, n, hn, heq⟩).1 (by omega)
    · have heq := (tmod_eq_iff _ (by have := hn.2.1; omega) hkey).mpr ⟨hlt, hdvd⟩
      obtain ⟨-, hpad, hdvd'⟩ := hagree.mpr ⟨by omega, n, hn, heq⟩
      refine ⟨hpad, ?_⟩
      have hdiff := Int.dvd_sub hdvd hdvd'
      rwa [show sig * sig + n - (digest cfg msg : Int) -
        (sig * sig + leNat padding - leNat (cfg.sha256 msg)) = n - leNat padding by
          rw [digest]; ring] at hdiff
  · intro hreg
    constructor
    · rintro ⟨hkey, hpad, hdvd⟩
      obtain ⟨hlt, n, hn, hres⟩ := hreg.valid hkey hpad hdvd
      refine ⟨by omega, n, hn, (tmod_eq_iff _ (by have := hn.2.1; omega) hkey).mpr ⟨hlt, ?_⟩⟩
      have hsum := Int.dvd_add hdvd hres
      rwa [show sig * sig + leNat padding - (leNat (cfg.sha256 msg) : Int) +
        (n - leNat padding) = sig * sig + n - digest cfg msg by rw [digest]; ring] at hsum
    · rintro ⟨hzero, n, hn, heq⟩
      rcases lt_or_gt_of_ne hzero with hneg | hkey
      · exact absurd heq (hreg.negativeKey hneg n hn)
      · obtain ⟨hlt, hdvd⟩ := (tmod_eq_iff _ (by have := hn.2.1; omega) hkey).mp heq
        by_cases hsame : n = leNat padding
        · subst hsame
          have := hn.2.2.1
          exact ⟨hkey, by omega, hdvd⟩
        · obtain ⟨hpad, hres⟩ := hreg.otherPadding hkey n hn hsame hlt hdvd
          refine ⟨hkey, hpad, ?_⟩
          have hdiff := Int.dvd_sub hdvd hres
          rwa [show sig * sig + n - (digest cfg msg : Int) - (n - leNat padding) =
            sig * sig + leNat padding - leNat (cfg.sha256 msg) by rw [digest]; ring] at hdiff

end Agreement

/-- A machine whose digests are that of the empty message. -/
def emptyDigest : Config :=
  .hashing fun _ => leBytes 32 0x55b852781b9995a44c939b64e441ae2724b96f99c8f4fb9a141cfc9842c4b0e3

/-- Modulo one every signature of the empty message is valid, but the digest is not one
of the residues. -/
theorem not_decides_rabinVerify :
    ¬ ∀ (cfg : Config) (slots : Slots) (msg : Bytes) (sig : Int) (padding : Bytes) (pubkey : Int),
      Decides cfg slots emitVerifyRabinSig [encodeNum pubkey, padding, encodeNum sig, msg]
        (rabinVerify cfg.sha256 msg sig padding pubkey) := by
  intro hall
  have hagree := (decides_iff_accepts ..).mp (hall emptyDigest ⟨fun _ _ => [], []⟩ [] 0 [] 1)
  have hvalid : rabinVerify emptyDigest.sha256 [] 0 [] 1 = true :=
    (rabinVerify_iff ..).mpr ⟨by decide, by decide, one_dvd _⟩
  obtain ⟨-, n, -, heq⟩ := hagree.mp hvalid
  rw [Int.tmod_one] at heq
  have hdigest : digest emptyDigest [] =
      0x55b852781b9995a44c939b64e441ae2724b96f99c8f4fb9a141cfc9842c4b0e3 := by
    show leNat (leBytes 32 _) = _
    rw [leNat_leBytes, Nat.mod_eq_of_lt (by norm_num)]
  rw [hdigest] at heq
  exact absurd heq (by norm_num)

end Runar.StackLower.Rabin
