/-
  StackLower/Words.lean --- words of 32 bits as byte strings.

  WHAT THIS FILE IS FOR.  The hash code generators keep words as four bytes, the least
  significant first: such a word becomes a number by a zero byte behind it, so that its top
  bit is no sign, and AND, OR, XOR and INVERT work on the bytes as they are.  Rotations turn
  the bytes around first, since the shift opcodes read their operand the other way.  This
  file has the pieces of the emitter and what each does to the words it is given.
-/
import Mathlib.Data.BitVec
import Runar.StackIR.RunsOn
import Runar.StackLower.ByteSequences
import Runar.Crypto.Sha256

set_option autoImplicit false

namespace Runar.StackLower

open Script Crypto.Sha256

/-! ## The emitter -/

namespace Emitter

def pushI (v : Int) : List StackOp := [.push (.bigint v)]
def pushB (v : Bytes) : List StackOp := [.push (.bytes v)]

def pick (d : Nat) : List StackOp :=
  match d with
  | 0 => [.dup]
  | 1 => [.over]
  | d => [.push (.bigint d), .pick d]

def roll (d : Nat) : List StackOp :=
  match d with
  | 0 => []
  | 1 => [.swap]
  | 2 => [.rot]
  | d => [.push (.bigint d), .roll d]

def toAlt : List StackOp := [.opcode .OP_TOALTSTACK]
def fromAlt : List StackOp := [.opcode .OP_FROMALTSTACK]
def binOp (code : Opcode) : List StackOp := [.opcode code]

def split4 : List StackOp := pushI 4 ++ [.opcode .OP_SPLIT]

def reverseBytes4 : List StackOp :=
  pushI 1 ++ [.opcode .OP_SPLIT] ++ pushI 1 ++ [.opcode .OP_SPLIT] ++ pushI 1 ++
    [.opcode .OP_SPLIT] ++ [.swap, .opcode .OP_CAT, .swap, .opcode .OP_CAT, .swap,
      .opcode .OP_CAT]

def le2num : List StackOp := pushB [0x00] ++ [.opcode .OP_CAT, .opcode .OP_BIN2NUM]

def num2le : List StackOp :=
  pushI 5 ++ [.opcode .OP_NUM2BIN] ++ pushI 4 ++ [.opcode .OP_SPLIT, .drop]

def add32 : List StackOp := le2num ++ [.swap] ++ le2num ++ [.opcode .OP_ADD] ++ num2le

/-- Add `n` words, `n` not below two. -/
def addN (n : Nat) : List StackOp :=
  le2num ++ (List.replicate (n - 1) ([.swap] ++ le2num ++ [.opcode .OP_ADD])).flatten ++ num2le

def rotrBE (n : Nat) : List StackOp :=
  [.dup] ++ pushI n ++ [.opcode .OP_RSHIFT, .swap] ++ pushI (32 - n : Nat) ++
    [.opcode .OP_LSHIFT, .opcode .OP_OR]

def shrBE (n : Nat) : List StackOp := pushI n ++ [.opcode .OP_RSHIFT]

def rotr16_LE : List StackOp := pushI 2 ++ [.opcode .OP_SPLIT, .swap] ++ binOp .OP_CAT
def rotr8_LE : List StackOp := pushI 1 ++ [.opcode .OP_SPLIT, .swap] ++ binOp .OP_CAT
def rotr_LE_general (n : Nat) : List StackOp := reverseBytes4 ++ rotrBE n ++ reverseBytes4

/-- `for (i < n) { reverseBytes4; toAlt }`, then everything back. -/
def beWordsToLE (n : Nat) : List StackOp :=
  (List.replicate n (reverseBytes4 ++ toAlt)).flatten ++ (List.replicate n fromAlt).flatten

def beWordsToLEReversed8 : List StackOp :=
  (List.range 8).reverse.flatMap (fun i => roll i ++ reverseBytes4 ++ toAlt) ++
    (List.replicate 8 fromAlt).flatten

end Emitter

/-- The bytes of a word, the least significant first. -/
def le (w : Word) : Bytes := leBytes 4 w.toNat

@[simp] theorem length_le (w : Word) : (le w).length = 4 := length_leBytes 4 _

theorem reverse_le (w : Word) : (le w).reverse = toBytes w := rfl

theorem reverse_toBytes (w : Word) : (toBytes w).reverse = le w := List.reverse_reverse _

@[simp] theorem length_toBytes (w : Word) : (toBytes w).length = 4 := by
  rw [← reverse_le, List.length_reverse, length_le]

/-- Four bytes are the word that is read from them. -/
theorem le_ofBytes {x : Bytes} (h : x.length = 4) : le (ofBytes x) = x.reverse := by
  have hlt := leNat_lt x.reverse
  rw [List.length_reverse, h] at hlt
  have hback := leBytes_leNat x.reverse
  rw [List.length_reverse, h] at hback
  rw [le, ofBytes, BitVec.toNat_ofNat, Nat.mod_eq_of_lt (show _ < 2 ^ 32 from hlt), hback]

/-! ## Bitwise opcodes -/

section Bitwise

/-- A bitwise operation on words goes through the bytes. -/
theorem zipWith_leBytes {f : UInt8 → UInt8 → UInt8} {g : Nat → Nat → Nat}
    (hbyte : ∀ m n : Nat, f (m % 256).toUInt8 (n % 256).toUInt8 = (g m n % 256).toUInt8)
    (hrest : ∀ m n : Nat, g m n / 256 = g (m / 256) (n / 256)) (w m n : Nat) :
    List.zipWith f (leBytes w m) (leBytes w n) = leBytes w (g m n) := by
  induction w generalizing m n with
  | zero => rfl
  | succ w ih =>
    rw [leBytes_succ, leBytes_succ, leBytes_succ, List.zipWith_cons_cons, hbyte, ih, hrest]

theorem bitwise_and (x y : Word) : bitwise (· &&& ·) (le x) (le y) = .ok (le (x &&& y)) := by
  rw [bitwise, if_pos (by simp), le, le, zipWith_leBytes (g := (· &&& ·)) ?_ ?_, le,
    BitVec.toNat_and]
  · intro m n
    rw [← UInt8.toNat_inj, UInt8.toNat_and, toNat_toUInt8_mod, toNat_toUInt8_mod,
      toNat_toUInt8_mod]
    exact (Nat.and_mod_two_pow (n := 8)).symm
  · exact fun m n => Nat.and_div_two_pow (n := 8)

theorem bitwise_or (x y : Word) : bitwise (· ||| ·) (le x) (le y) = .ok (le (x ||| y)) := by
  rw [bitwise, if_pos (by simp), le, le, zipWith_leBytes (g := (· ||| ·)) ?_ ?_, le,
    BitVec.toNat_or]
  · intro m n
    rw [← UInt8.toNat_inj, UInt8.toNat_or, toNat_toUInt8_mod, toNat_toUInt8_mod,
      toNat_toUInt8_mod]
    exact (Nat.or_mod_two_pow (n := 8)).symm
  · exact fun m n => Nat.or_div_two_pow (n := 8)

theorem bitwise_xor (x y : Word) : bitwise (· ^^^ ·) (le x) (le y) = .ok (le (x ^^^ y)) := by
  rw [bitwise, if_pos (by simp), le, le, zipWith_leBytes (g := (· ^^^ ·)) ?_ ?_, le,
    BitVec.toNat_xor]
  · intro m n
    rw [← UInt8.toNat_inj, UInt8.toNat_xor, toNat_toUInt8_mod, toNat_toUInt8_mod,
      toNat_toUInt8_mod]
    exact (Nat.xor_mod_two_pow (n := 8)).symm
  · exact fun m n => Nat.xor_div_two_pow (n := 8)

/-- The same on words whose bytes are turned around. -/
theorem bitwise_reverse {f : UInt8 → UInt8 → UInt8} {a b c : Bytes} (h : bitwise f a b = .ok c) :
    bitwise f a.reverse b.reverse = .ok c.reverse := by
  unfold bitwise at h ⊢
  split at h
  · next hlen =>
    obtain rfl := Except.ok.inj h
    rw [if_pos (by simpa using hlen), List.reverse_zipWith hlen]
  · exact nomatch h

theorem invert_le (x : Word) : (le x).map (~~~ ·) = le (~~~x) := by
  have hones : le (BitVec.allOnes 32) = List.replicate 4 0xff := by decide
  have hxor := bitwise_xor x (BitVec.allOnes 32)
  rw [bitwise, if_pos (by simp), BitVec.xor_allOnes, hones] at hxor
  refine Eq.trans ?_ (Except.ok.inj hxor)
  have hnot : ∀ b : UInt8, ~~~b = b ^^^ 0xff := fun b => (UInt8.xor_neg_one).symm
  simp [le, leBytes, hnot]

theorem shiftBytes_right (x : Word) (n : Nat) :
    shiftBytes (fun v k => v / 2 ^ k) (toBytes x) n = .ok (toBytes (x >>> n)) := by
  have hvalue : leNat (toBytes x).reverse = x.toNat := by
    rw [reverse_toBytes, le, leNat_leBytes]
    exact Nat.mod_eq_of_lt x.isLt
  have hn : ¬ (n : Int) < 0 := by omega
  rw [shiftBytes, if_neg hn, length_toBytes, hvalue, Int.toNat_natCast, toBytes,
    BitVec.toNat_ushiftRight, Nat.shiftRight_eq_div_pow]

theorem shiftBytes_left (x : Word) (n : Nat) :
    shiftBytes (fun v k => v * 2 ^ k) (toBytes x) n = .ok (toBytes (x <<< n)) := by
  have hvalue : leNat (toBytes x).reverse = x.toNat := by
    rw [reverse_toBytes, le, leNat_leBytes]
    exact Nat.mod_eq_of_lt x.isLt
  have hn : ¬ (n : Int) < 0 := by omega
  have hmod : leBytes 4 (x.toNat * 2 ^ n) = leBytes 4 (x.toNat * 2 ^ n % 2 ^ 32) := by
    conv_lhs => rw [← Nat.mod_add_div' (x.toNat * 2 ^ n) (2 ^ 32)]
    exact leBytes_add_mul_pow 4 _ _
  rw [shiftBytes, if_neg hn, length_toBytes, hvalue, Int.toNat_natCast, toBytes,
    BitVec.toNat_shiftLeft, Nat.shiftLeft_eq, hmod]

theorem toNat_rotateRight (x : Word) {n : Nat} (h : n < 32) :
    (x.rotateRight n).toNat = x.toNat / 2 ^ n + x.toNat % 2 ^ n * 2 ^ (32 - n) := by
  have hlow : x.toNat / 2 ^ n < 2 ^ (32 - n) := by
    rw [Nat.div_lt_iff_lt_mul (by positivity), ← Nat.pow_add, Nat.sub_add_cancel h.le]
    exact x.isLt
  have hhigh : x.toNat <<< (32 - n) % 2 ^ 32 = (x.toNat % 2 ^ n) <<< (32 - n) := by
    have hpow : 2 ^ 32 = 2 ^ n * 2 ^ (32 - n) := by
      rw [← Nat.pow_add, Nat.add_sub_cancel' h.le]
    rw [Nat.shiftLeft_eq, Nat.shiftLeft_eq, hpow, Nat.mul_mod_mul_right]
  rw [BitVec.toNat_rotateRight, Nat.mod_eq_of_lt h, hhigh, Nat.shiftRight_eq_div_pow, Nat.or_comm,
    ← Nat.shiftLeft_add_eq_or_of_lt hlow, Nat.shiftLeft_eq, Nat.add_comm]

/-- A rotation by whole bytes moves the low bytes behind the others. -/
theorem le_rotateRight (x : Word) {k : Nat} (h : k < 4) :
    le (x.rotateRight (8 * k)) = (le x).drop k ++ (le x).take k := by
  have hpow : ∀ j, 2 ^ (8 * j) = 256 ^ j := fun j => Nat.pow_mul 2 8 j
  have hlow : x.toNat / 256 ^ k < 256 ^ (4 - k) := by
    rw [Nat.div_lt_iff_lt_mul (by positivity), ← Nat.pow_add, Nat.sub_add_cancel h.le]
    exact x.isLt
  have hvalue : (x.rotateRight (8 * k)).toNat =
      x.toNat / 256 ^ k + x.toNat % 256 ^ k * 256 ^ (4 - k) := by
    rw [toNat_rotateRight x (by omega), show 32 - 8 * k = 8 * (4 - k) by omega, hpow, hpow]
  have hsplit : le x = leBytes k x.toNat ++ leBytes (4 - k) (x.toNat / 256 ^ k) := by
    rw [le, ← leBytes_append, Nat.add_sub_cancel' h.le]
  have hrotated : le (x.rotateRight (8 * k)) =
      leBytes (4 - k) (x.toNat / 256 ^ k) ++ leBytes k (x.toNat % 256 ^ k) := by
    have hparts : ∀ m, leBytes 4 m = leBytes (4 - k) m ++ leBytes k (m / 256 ^ (4 - k)) := by
      intro m
      rw [← leBytes_append, Nat.sub_add_cancel h.le]
    rw [le, hvalue, hparts, leBytes_add_mul_pow, Nat.add_mul_div_right _ _ (by positivity),
      Nat.div_eq_of_lt hlow, Nat.zero_add]
  have hmod : leBytes k (x.toNat % 256 ^ k) = leBytes k x.toNat := by
    conv_rhs => rw [← Nat.mod_add_div' x.toNat (256 ^ k)]
    rw [leBytes_add_mul_pow]
  rw [hrotated, hmod, hsplit, List.drop_left' (length_leBytes k _),
    List.take_left' (length_leBytes k _)]

end Bitwise

/-! ## Pieces of the emitter -/

section Pieces

variable (cfg : Config) (slots : Slots)

theorem runsAs_reverseBytes4 {x : Bytes} (h : x.length = 4) :
    RunsAs cfg slots Emitter.reverseBytes4 [x] (.ok [x.reverse]) := by
  obtain ⟨a, b, c, d, rfl⟩ : ∃ a b c d, x = [a, b, c, d] := by
    match x, h with
    | [a, b, c, d], _ => exact ⟨a, b, c, d, rfl⟩
  have hsplit : ∀ (y : UInt8) (ys : Bytes), splitAt (y :: ys) 1 = .ok ([y], ys) := fun y ys =>
    splitAt_append [y] ys
  refine .of_plain (by simp [Emitter.reverseBytes4, Emitter.pushI, emitOps_cons]; decide)
    fun below alt => ?_
  simp [Emitter.reverseBytes4, Emitter.pushI, emitOps_cons, plainRun, plainStep, opcodeStep,
    shuffle, top2, hsplit]

theorem runsAs_le2num (w : Word) :
    RunsAs cfg slots Emitter.le2num [le w] (.ok [encodeNum (w.toNat : Nat)]) := by
  have hvalue : decodeNum (le w ++ [0]) = w.toNat := by
    rw [decodeNum_append_zero, le, leNat_leBytes, Nat.mod_eq_of_lt (show _ < 256 ^ 4 from w.isLt)]
  refine .of_plain (by simp [Emitter.le2num, Emitter.pushB, emitOps_cons]; decide)
    fun below alt => ?_
  simp [Emitter.le2num, Emitter.pushB, emitOps_cons, plainRun, plainStep, opcodeStep, top1, top2,
    hvalue]

theorem num2bin_natCast {n w : Nat} (h : n < signBit w) : num2bin n w = .ok (leBytes w n) := by
  rw [num2bin, if_pos ⟨Int.natCast_nonneg w, by simpa [Fits] using h⟩]
  exact congrArg (fun m => Except.ok (leBytes w m)) (signed_natCast w n)

/-- The low four bytes of a number below `2 ^ 39`. -/
theorem runsAs_num2le {n : Nat} (h : n < 2 ^ 39) :
    RunsAs cfg slots Emitter.num2le [encodeNum n] (.ok [le (BitVec.ofNat 32 n)]) := by
  have hbin : num2bin n 5 = .ok (leBytes 5 n) := num2bin_natCast (w := 5) h
  have hsplit : splitAt (leBytes 5 n) 4 = .ok (leBytes 4 n, (leBytes 5 n).drop 4) := by
    rw [splitAt, if_pos (by simp)]
    show Except.ok ((leBytes 5 n).take 4, (leBytes 5 n).drop 4) = _
    rw [take_leBytes (by decide)]
  have hword : leBytes 4 n = le (BitVec.ofNat 32 n) := by
    rw [le, BitVec.toNat_ofNat]
    conv_lhs => rw [← Nat.mod_add_div' n (2 ^ 32)]
    exact leBytes_add_mul_pow 4 _ _
  refine .of_plain (by simp [Emitter.num2le, Emitter.pushI, emitOps_cons]; decide)
    fun below alt => ?_
  simp [Emitter.num2le, Emitter.pushI, emitOps_cons, plainRun, plainStep, opcodeStep, shuffle,
    hbin, hsplit, hword]

/-- One more addend. -/
theorem runsAs_addRound (s : Nat) (w : Word) :
    RunsAs cfg slots ([.swap] ++ Emitter.le2num ++ [.opcode .OP_ADD]) [encodeNum s, le w]
      (.ok [encodeNum (s + w.toNat : Nat)]) := by
  have hswap := runsAs_swap cfg slots (encodeNum s) (le w)
  have hnum := (runsAs_le2num cfg slots w).frame [encodeNum s]
  have hadd : RunsAs cfg slots [.opcode .OP_ADD] [encodeNum (w.toNat : Nat), encodeNum s]
      (.ok [encodeNum (s + w.toNat : Nat)]) := runsAs_numOp2 cfg slots rfl rfl rfl
  exact (hswap.append_ok hnum).append_ok hadd

/-- The sum of some numbers. -/
def total (ws : List Word) : Nat := (ws.map BitVec.toNat).sum

theorem runsAs_addRounds (s : Nat) (ws : List Word) :
    RunsAs cfg slots
      (List.replicate ws.length ([.swap] ++ Emitter.le2num ++ [.opcode .OP_ADD])).flatten
      (encodeNum s :: ws.map le) (.ok [encodeNum (s + total ws : Nat)]) := by
  induction ws generalizing s with
  | nil => exact .nil _
  | cons w ws ih =>
    have hround := (runsAs_addRound cfg slots s w).frame (ws.map le)
    have hrest := ih (s + w.toNat)
    rw [List.length_cons, List.replicate_succ, List.flatten_cons]
    rw [show s + total (w :: ws) = s + w.toNat + total ws by simp [total, Nat.add_assoc]]
    exact hround.append_ok hrest

theorem ofNat_total (ws : List Word) : BitVec.ofNat 32 (total ws) = ws.sum := by
  induction ws with
  | nil => rfl
  | cons w ws ih =>
    rw [List.sum_cons, ← ih, total, List.map_cons, List.sum_cons, BitVec.ofNat_add,
      BitVec.ofNat_toNat, BitVec.setWidth_eq]
    rfl

theorem total_lt {ws : List Word} (h : ws.length ≤ 5) : total ws < 2 ^ 39 := by
  have hle : total ws ≤ ws.length * 2 ^ 32 := by
    clear h
    induction ws with
    | nil => exact Nat.zero_le _
    | cons w ws ih =>
      have hw := w.isLt
      rw [total, List.map_cons, List.sum_cons, List.length_cons]
      rw [total] at ih
      omega
  omega

/-- Up to five words are added at once. -/
theorem runsAs_addN (w : Word) (ws : List Word) (h : ws.length ≤ 4) :
    RunsAs cfg slots (Emitter.addN (ws.length + 1)) ((w :: ws).map le)
      (.ok [le (w + ws.sum)]) := by
  have hfirst := (runsAs_le2num cfg slots w).frame (ws.map le)
  have hrounds := runsAs_addRounds cfg slots w.toNat ws
  have hlast := runsAs_num2le cfg slots (n := total (w :: ws))
    (total_lt (by rw [List.length_cons]; omega))
  rw [ofNat_total, List.sum_cons] at hlast
  exact (hfirst.append_ok hrounds).append_ok hlast

theorem runsAs_add32 (x y : Word) :
    RunsAs cfg slots Emitter.add32 [le y, le x] (.ok [le (y + x)]) := by
  have h := runsAs_addN cfg slots y [x] (by simp)
  rw [List.sum_singleton] at h
  exact h.congr (by simp [Emitter.add32, Emitter.addN])

theorem runsAs_shrBE (x : Word) (n : Nat) :
    RunsAs cfg slots (Emitter.shrBE n) [toBytes x] (.ok [toBytes (x >>> n)]) := by
  refine .of_plain (by simp [Emitter.shrBE, Emitter.pushI, emitOps_cons]; decide)
    fun below alt => ?_
  simp [Emitter.shrBE, Emitter.pushI, emitOps_cons, plainRun, plainStep, opcodeStep, top2,
    shiftBytes_right]

theorem runsAs_rotrBE (x : Word) {n : Nat} (h : n < 32) :
    RunsAs cfg slots (Emitter.rotrBE n) [toBytes x] (.ok [toBytes (x.rotateRight n)]) := by
  have hor : bitwise (· ||| ·) (toBytes (x >>> n)) (toBytes (x <<< (32 - n))) =
      .ok (toBytes (x.rotateRight n)) := by
    rw [BitVec.rotateRight_def, Nat.mod_eq_of_lt h, ← reverse_le, ← reverse_le, ← reverse_le]
    exact bitwise_reverse (bitwise_or _ _)
  have hleft := shiftBytes_left x (32 - n)
  refine .of_plain (by simp [Emitter.rotrBE, Emitter.pushI, emitOps_cons]; decide)
    fun below alt => ?_
  have hsub : (32 : Int) - n = (32 - n : Nat) := by omega
  simp [Emitter.rotrBE, Emitter.pushI, emitOps_cons, plainRun, plainStep, opcodeStep, shuffle,
    top2, shiftBytes_right, hleft, hor]

theorem runsAs_rotateBytes (x : Word) {k : Nat} (h : k < 4) :
    RunsAs cfg slots (Emitter.pushI k ++ [.opcode .OP_SPLIT, .swap] ++ Emitter.binOp .OP_CAT)
      [le x] (.ok [le (x.rotateRight (8 * k))]) := by
  have hpush := (runsAs_pushNum cfg slots k).frame [le x]
  have hsplit := runsAs_split cfg slots (a := (le x).take k) (b := (le x).drop k) (n := k)
    (by simp; omega)
  rw [List.take_append_drop] at hsplit
  have hswap := runsAs_swap cfg slots ((le x).drop k) ((le x).take k)
  have hcat := runsAs_cat cfg slots ((le x).take k) ((le x).drop k)
  rw [← le_rotateRight x h] at hcat
  exact (hpush.append_ok (hsplit.append_ok hswap)).append_ok hcat

theorem runsAs_rotr16_LE (x : Word) :
    RunsAs cfg slots Emitter.rotr16_LE [le x] (.ok [le (x.rotateRight 16)]) :=
  runsAs_rotateBytes cfg slots x (k := 2) (by decide)

theorem runsAs_rotr8_LE (x : Word) :
    RunsAs cfg slots Emitter.rotr8_LE [le x] (.ok [le (x.rotateRight 8)]) :=
  runsAs_rotateBytes cfg slots x (k := 1) (by decide)

theorem runsAs_rotr_LE_general (x : Word) {n : Nat} (h : n < 32) :
    RunsAs cfg slots (Emitter.rotr_LE_general n) [le x] (.ok [le (x.rotateRight n)]) := by
  have hin := runsAs_reverseBytes4 cfg slots (length_le x)
  have hout := runsAs_reverseBytes4 cfg slots (length_toBytes (x.rotateRight n))
  rw [reverse_toBytes] at hout
  exact (hin.append_ok (runsAs_rotrBE cfg slots x h)).append_ok hout

/-! ### Items of the stack -/

/-- Copy the item at a depth. -/
theorem runsAs_pick (d : Nat) (items : List Bytes) {x : Bytes} (h : items[d]? = some x) :
    RunsAs cfg slots (Emitter.pick d) items (.ok (x :: items)) := by
  match d, items, h with
  | 0, y :: items, h =>
    obtain rfl := Option.some.inj h
    exact (runsAs_dup cfg slots y).frame items
  | 1, y :: z :: items, h =>
    obtain rfl := Option.some.inj h
    exact (runsAs_over cfg slots y z).frame items
  | d + 2, items, h =>
    refine .of_plain (by simp [Emitter.pick, emitOps_cons]; decide) fun below alt => ?_
    have hpick := plainRun_pick cfg (d + 2) (items ++ below) alt
    have hget : (items ++ below)[d + 2]? = some x := by
      obtain ⟨hlt, -⟩ := List.getElem?_eq_some_iff.mp h
      rw [List.getElem?_append_left hlt, h]
    rw [hget] at hpick
    simpa [Emitter.pick, emitOps_cons] using hpick

/-- Move the item below others to the top. -/
theorem runsAs_roll {d : Nat} (front : List Bytes) (x : Bytes) (h : front.length = d) :
    RunsAs cfg slots (Emitter.roll d) (front ++ [x]) (.ok (x :: front)) := by
  match d, front, h with
  | 0, [], _ => exact .nil _
  | 1, [y], _ => exact runsAs_swap cfg slots y x
  | 2, [y, z], _ => exact runsAs_rot cfg slots y z x
  | d + 3, front, h =>
    refine .of_plain (by simp [Emitter.roll, emitOps_cons]; decide) fun below alt => ?_
    have hroll := plainRun_roll cfg (d + 3) (front ++ x :: below) alt
    rw [← h, List.getElem?_append_right le_rfl, List.eraseIdx_append_of_length_le le_rfl] at hroll
    have hdepth : (d : Int) + 3 = (front.length : Nat) := by omega
    simpa [Emitter.roll, emitOps_cons, hdepth] using hroll

/-- Words cut off the front of a byte string, the first one deepest. -/
theorem runsAs_splits (parts : List Bytes) (last : Bytes) (h : ∀ x ∈ parts, x.length = 4) :
    RunsAs cfg slots (List.replicate parts.length Emitter.split4).flatten
      [parts.flatten ++ last] (.ok (last :: parts.reverse)) := by
  induction parts with
  | nil => exact .nil _
  | cons x parts ih =>
    obtain ⟨hx, hparts⟩ := List.forall_mem_cons.mp h
    have hpush := (runsAs_pushNum cfg slots 4).frame [x ++ (parts.flatten ++ last)]
    have hsplit : RunsAs cfg slots [.opcode .OP_SPLIT] [encodeNum 4, x ++ (parts.flatten ++ last)]
        (.ok [parts.flatten ++ last, x]) := runsAs_split cfg slots (by rw [hx]; rfl)
    have hrest := (ih hparts).frame [x]
    rw [List.length_cons, List.replicate_succ, List.flatten_cons, List.flatten_cons,
      List.append_assoc, List.reverse_cons]
    exact (hpush.append_ok hsplit).append_ok hrest

theorem runsOn_toAlt (x : Bytes) (items alt : List Bytes) :
    RunsOn cfg slots Emitter.toAlt ⟨x :: items, alt⟩ (.ok ⟨items, x :: alt⟩) := by
  refine .of_plain (by simp [Emitter.toAlt, emitOps_cons]; decide) fun below => ?_
  simp [Emitter.toAlt, emitOps_cons, plainRun, plainStep, opcodeStep, Stacks.onto]

theorem runsOn_fromAlt (x : Bytes) (items alt : List Bytes) :
    RunsOn cfg slots Emitter.fromAlt ⟨items, x :: alt⟩ (.ok ⟨x :: items, alt⟩) := by
  refine .of_plain (by simp [Emitter.fromAlt, emitOps_cons]; decide) fun below => ?_
  simp [Emitter.fromAlt, emitOps_cons, plainRun, plainStep, opcodeStep, Stacks.onto]

/-- Everything back from the alt stack. -/
theorem runsOn_fromAlts (xs items alt : List Bytes) :
    RunsOn cfg slots (List.replicate xs.length Emitter.fromAlt).flatten ⟨items, xs ++ alt⟩
      (.ok ⟨xs.reverse ++ items, alt⟩) := by
  induction xs generalizing items with
  | nil => exact .nil _
  | cons x xs ih =>
    have hfirst := runsOn_fromAlt cfg slots x items (xs ++ alt)
    have hrest := ih (x :: items)
    rw [List.length_cons, List.replicate_succ, List.flatten_cons, List.reverse_cons,
      List.append_assoc]
    exact hfirst.append_ok hrest

/-- Words turned around on their way to the alt stack. -/
theorem runsOn_reversals (xs items alt : List Bytes) (h : ∀ x ∈ xs, x.length = 4) :
    RunsOn cfg slots (List.replicate xs.length (Emitter.reverseBytes4 ++ Emitter.toAlt)).flatten
      ⟨xs ++ items, alt⟩ (.ok ⟨items, (xs.map List.reverse).reverse ++ alt⟩) := by
  induction xs generalizing alt with
  | nil => exact .nil _
  | cons x xs ih =>
    obtain ⟨hx, hxs⟩ := List.forall_mem_cons.mp h
    have hreverse := RunsOn.of_runsAs
      ((runsAs_reverseBytes4 cfg slots hx).frame (xs ++ items)) alt
    have hsave := runsOn_toAlt cfg slots x.reverse (xs ++ items) alt
    have hrest := ih (x.reverse :: alt) hxs
    rw [List.length_cons, List.replicate_succ, List.flatten_cons, List.map_cons,
      List.reverse_cons, List.append_assoc (xs.map List.reverse).reverse, List.singleton_append]
    exact (hreverse.append_ok hsave).append_ok hrest

/-- Words of the one byte order become words of the other, in place. -/
theorem runsAs_beWordsToLE (xs : List Bytes) (h : ∀ x ∈ xs, x.length = 4) :
    RunsAs cfg slots (Emitter.beWordsToLE xs.length) xs (.ok (xs.map List.reverse)) := by
  have hsave := runsOn_reversals cfg slots xs [] [] h
  have hback := runsOn_fromAlts cfg slots (xs.map List.reverse).reverse [] []
  rw [List.length_reverse, List.length_map, List.reverse_reverse, List.append_nil] at hback
  rw [List.append_nil, List.append_nil] at hsave
  rw [List.append_nil] at hback
  exact RunsOn.runsAs (hsave.append_ok hback)

/-- The same from the deepest word on, so that their order is reversed. -/
theorem runsOn_rolls (n : Nat) (xs alt : List Bytes) (hn : xs.length = n)
    (h : ∀ x ∈ xs, x.length = 4) :
    RunsOn cfg slots ((List.range n).reverse.flatMap fun i =>
        Emitter.roll i ++ Emitter.reverseBytes4 ++ Emitter.toAlt)
      ⟨xs, alt⟩ (.ok ⟨[], xs.map List.reverse ++ alt⟩) := by
  induction n generalizing xs alt with
  | zero =>
    obtain rfl := List.length_eq_zero_iff.mp hn
    exact .nil _
  | succ n ih =>
    obtain ⟨front, x, rfl⟩ : ∃ front x, xs = front ++ [x] := by
      rcases List.eq_nil_or_concat xs with rfl | ⟨front, x, rfl⟩
      · exact absurd hn (by simp)
      · exact ⟨front, x, List.concat_eq_append⟩
    have hfront : front.length = n := by simpa using hn
    have hx : x.length = 4 := h x (by simp)
    have hroll := RunsOn.of_runsAs (runsAs_roll cfg slots front x hfront) alt
    have hreverse := RunsOn.of_runsAs
      ((runsAs_reverseBytes4 cfg slots hx).frame front) alt
    have hsave := runsOn_toAlt cfg slots x.reverse front alt
    have hrest := ih front (x.reverse :: alt) hfront fun y hy => h y (by simp [hy])
    rw [List.range_succ, List.reverse_append, List.reverse_singleton, List.singleton_append,
      List.flatMap_cons, List.map_append, List.map_singleton,
      List.append_assoc (front.map List.reverse), List.singleton_append]
    exact ((hroll.append_ok hreverse).append_ok hsave).append_ok hrest

theorem runsAs_beWordsToLEReversed8 (xs : List Bytes) (hxs : xs.length = 8)
    (h : ∀ x ∈ xs, x.length = 4) :
    RunsAs cfg slots Emitter.beWordsToLEReversed8 xs (.ok (xs.map List.reverse).reverse) := by
  have hsave := runsOn_rolls cfg slots 8 xs [] hxs h
  have hback := runsOn_fromAlts cfg slots (xs.map List.reverse) [] []
  rw [List.length_map, hxs, List.append_nil, List.append_nil] at hback
  rw [List.append_nil] at hsave
  exact RunsOn.runsAs (hsave.append_ok hback)

/-- The pieces of four bytes. -/
def pieces (bytes : Bytes) (n : Nat) : List Bytes :=
  (List.range n).map fun i => (bytes.drop (4 * i)).take 4

theorem flatten_pieces (bytes : Bytes) (n : Nat) :
    (pieces bytes n).flatten ++ bytes.drop (4 * n) = bytes := by
  induction n with
  | zero => rfl
  | succ n ih =>
    rw [pieces, List.range_succ, List.map_append, List.flatten_append, List.append_assoc]
    conv_rhs => rw [← ih, ← List.take_append_drop 4 (bytes.drop (4 * n)), List.drop_drop]
    simp [pieces, Nat.mul_succ]

theorem length_of_mem_pieces (bytes : Bytes) (n : Nat) (h : 4 * n ≤ bytes.length) :
    ∀ x ∈ pieces bytes n, x.length = 4 := by
  intro x hx
  obtain ⟨i, hi, rfl⟩ := List.mem_map.mp hx
  have hlt := List.mem_range.mp hi
  rw [List.length_take, List.length_drop]
  omega

/-- All words of a byte string, the first one deepest. -/
theorem runsAs_unpack (n : Nat) {bytes : Bytes} (h : bytes.length = 4 * (n + 1)) :
    RunsAs cfg slots (List.replicate n Emitter.split4).flatten [bytes]
      (.ok (pieces bytes (n + 1)).reverse) := by
  have hparts := length_of_mem_pieces bytes n (by omega)
  have hlast : (bytes.drop (4 * n)).take 4 = bytes.drop (4 * n) :=
    List.take_of_length_le (by rw [List.length_drop]; omega)
  have hall : (pieces bytes (n + 1)).reverse = bytes.drop (4 * n) :: (pieces bytes n).reverse := by
    rw [pieces, pieces, List.range_succ, List.map_append, List.reverse_append, List.map_singleton,
      hlast]
    rfl
  have hlength : (pieces bytes n).length = n := by simp [pieces]
  have hsplits := runsAs_splits cfg slots (pieces bytes n) (bytes.drop (4 * n)) hparts
  rw [flatten_pieces, hlength, ← hall] at hsplits
  exact hsplits

/-- Two lists of words joined pairwise onto the alt stack, from the top on. -/
theorem runsOn_joins {op : List StackOp} {f : Word → Word → Word}
    (hop : ∀ x y, RunsAs cfg slots op [le y, le x] (.ok [le (f x y)])) (n : Nat)
    (xs ys : List Word) (rest alt : List Bytes) (hx : xs.length = n) (hy : ys.length = n) :
    RunsOn cfg slots ((List.range n).reverse.flatMap fun i =>
        Emitter.roll (i + 1) ++ op ++ Emitter.toAlt)
      ⟨(xs ++ ys).map le ++ rest, alt⟩
      (.ok ⟨rest, ((List.zipWith f xs ys).map le).reverse ++ alt⟩) := by
  induction n generalizing xs ys alt with
  | zero =>
    obtain rfl := List.length_eq_zero_iff.mp hx
    obtain rfl := List.length_eq_zero_iff.mp hy
    exact .nil _
  | succ n ih =>
    obtain ⟨x, xs, rfl⟩ := List.exists_cons_of_length_eq_add_one hx
    obtain ⟨y, ys, rfl⟩ := List.exists_cons_of_length_eq_add_one hy
    have hroll := RunsOn.of_runsAs ((runsAs_roll cfg slots ((x :: xs).map le) (le y)
      (d := n + 1) (by simpa using hx)).frame (ys.map le ++ rest)) alt
    have hjoin := RunsOn.of_runsAs ((hop x y).frame (xs.map le ++ (ys.map le ++ rest))) alt
    have hsave := runsOn_toAlt cfg slots (le (f x y)) (xs.map le ++ (ys.map le ++ rest)) alt
    have hrest := ih xs ys (le (f x y) :: alt) (by simpa using hx) (by simpa using hy)
    rw [List.map_append, List.append_assoc] at hrest
    have hitems : (x :: xs ++ y :: ys).map le ++ rest =
        (x :: xs).map le ++ [le y] ++ (ys.map le ++ rest) := by simp
    have hleft : ((List.zipWith f (x :: xs) (y :: ys)).map le).reverse ++ alt =
        ((List.zipWith f xs ys).map le).reverse ++ le (f x y) :: alt := by simp
    rw [List.range_succ, List.reverse_append, List.reverse_singleton, List.singleton_append,
      List.flatMap_cons, hitems, hleft]
    exact ((hroll.append_ok hjoin).append_ok hsave).append_ok hrest

end Pieces

end Runar.StackLower
