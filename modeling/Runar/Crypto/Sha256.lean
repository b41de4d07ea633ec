/-
  Crypto/Sha256.lean --- SHA-256.

  WHAT THIS FILE IS FOR.  The hash as FIPS 180-4 defines it, on words of 32 bits: the
  schedule of a block, the 64 rounds, and the padding of a message.  The schedule is kept
  with its last word first, as each word is made from the sixteen before it.  The file
  names no program.
-/
import Runar.Script.ScriptNum

set_option autoImplicit false

namespace Runar.Crypto.Sha256

open Script

abbrev Word : Type := BitVec 32

/-- A word read from bytes, the most significant first. -/
def ofBytes (bytes : Bytes) : Word := BitVec.ofNat 32 (leNat bytes.reverse)

/-- The bytes of a word, the most significant first. -/
def toBytes (w : Word) : Bytes := (leBytes 4 w.toNat).reverse

def bigSigma0 (x : Word) : Word := x.rotateRight 2 ^^^ x.rotateRight 13 ^^^ x.rotateRight 22
def bigSigma1 (x : Word) : Word := x.rotateRight 6 ^^^ x.rotateRight 11 ^^^ x.rotateRight 25
def smallSigma0 (x : Word) : Word := x.rotateRight 7 ^^^ x.rotateRight 18 ^^^ x >>> 3
def smallSigma1 (x : Word) : Word := x.rotateRight 17 ^^^ x.rotateRight 19 ^^^ x >>> 10

def ch (x y z : Word) : Word := (x &&& y) ^^^ (~~~x &&& z)
def maj (x y z : Word) : Word := (x &&& y) ^^^ (x &&& z) ^^^ (y &&& z)

/-- The round constants. -/
def constants : List Word :=
  [0x428a2f98, 0x71374491, 0xb5c0fbcf, 0xe9b5dba5, 0x3956c25b, 0x59f111f1, 0x923f82a4, 0xab1c5ed5,
   0xd807aa98, 0x12835b01, 0x243185be, 0x550c7dc3, 0x72be5d74, 0x80deb1fe, 0x9bdc06a7, 0xc19bf174,
   0xe49b69c1, 0xefbe4786, 0x0fc19dc6, 0x240ca1cc, 0x2de92c6f, 0x4a7484aa, 0x5cb0a9dc, 0x76f988da,
   0x983e5152, 0xa831c66d, 0xb00327c8, 0xbf597fc7, 0xc6e00bf3, 0xd5a79147, 0x06ca6351, 0x14292967,
   0x27b70a85, 0x2e1b2138, 0x4d2c6dfc, 0x53380d13, 0x650a7354, 0x766a0abb, 0x81c2c92e, 0x92722c85,
   0xa2bfe8a1, 0xa81a664b, 0xc24b8b70, 0xc76c51a3, 0xd192e819, 0xd6990624, 0xf40e3585, 0x106aa070,
   0x19a4c116, 0x1e376c08, 0x2748774c, 0x34b0bcb5, 0x391c0cb3, 0x4ed8aa4a, 0x5b9cca4f, 0x682e6ff3,
   0x748f82ee, 0x78a5636f, 0x84c87814, 0x8cc70208, 0x90befffa, 0xa4506ceb, 0xbef9a3f7, 0xc67178f2]

/-- The working variables, and the value that is carried from block to block. -/
structure State where
  a : Word
  b : Word
  c : Word
  d : Word
  e : Word
  f : Word
  g : Word
  h : Word
  deriving DecidableEq, Repr

namespace State

def words (s : State) : List Word := [s.a, s.b, s.c, s.d, s.e, s.f, s.g, s.h]

def bytes (s : State) : Bytes := s.words.flatMap toBytes

def add (s t : State) : State :=
  ⟨s.a + t.a, s.b + t.b, s.c + t.c, s.d + t.d, s.e + t.e, s.f + t.f, s.g + t.g, s.h + t.h⟩

end State

/-- The value before the first block. -/
def initial : State :=
  ⟨0x6a09e667, 0xbb67ae85, 0x3c6ef372, 0xa54ff53a, 0x510e527f, 0x9b05688c, 0x1f83d9ab, 0x5be0cd19⟩

/-- The words of a block. -/
def blockWords (block : Bytes) : List Word :=
  (List.range 16).map fun i => ofBytes ((block.drop (4 * i)).take 4)

/-- The next word of the schedule, from those before it, the last one first. -/
def nextWord (ws : List Word) : Word :=
  smallSigma1 (ws.getD 1 0) + ws.getD 6 0 + smallSigma0 (ws.getD 14 0) + ws.getD 15 0

/-- The schedule after some words were added, the last one first. -/
def schedule (block : Bytes) : Nat → List Word
  | 0 => (blockWords block).reverse
  | n + 1 => nextWord (schedule block n) :: schedule block n

/-- Word `t` of the schedule. -/
def scheduleWord (block : Bytes) (t : Nat) : Word := (schedule block 48).getD (63 - t) 0

/-- One round. -/
def round (s : State) (k w : Word) : State :=
  let t1 := s.h + bigSigma1 s.e + ch s.e s.f s.g + k + w
  let t2 := bigSigma0 s.a + maj s.a s.b s.c
  ⟨t1 + t2, s.a, s.b, s.c, s.d + t1, s.e, s.f, s.g⟩

/-- The working variables after some rounds. -/
def rounds (s : State) (block : Bytes) : Nat → State
  | 0 => s
  | t + 1 => round (rounds s block t) (constants.getD t 0) (scheduleWord block t)

/-- The value after a block. -/
def compress (s : State) (block : Bytes) : State := s.add (rounds s block 64)

/-- What padding puts behind the last bytes of a message of `bits` bits: a one bit, zeros, and
the length. -/
def padded (last : Bytes) (bits : Nat) : Bytes :=
  last ++ [0x80] ++ List.replicate ((119 - last.length % 64) % 64) 0 ++ (leBytes 8 bits).reverse

/-- The message with its padding. -/
def pad (msg : Bytes) : Bytes := padded msg (8 * msg.length)

/-- The blocks of 64 bytes. -/
def blocks (bytes : Bytes) : List Bytes :=
  (List.range (bytes.length / 64)).map fun i => (bytes.drop (64 * i)).take 64

def digest (msg : Bytes) : Bytes := ((blocks (pad msg)).foldl compress initial).bytes

theorem length_digest (msg : Bytes) : (digest msg).length = 32 := by
  have hword : ∀ w : Word, (toBytes w).length = 4 := fun w => by
    rw [toBytes, List.length_reverse, length_leBytes]
  simp [digest, State.bytes, State.words, hword]

/-- Whole blocks in front stay as they are. -/
theorem blocks_append {block : Bytes} (h : block.length = 64) (bytes : Bytes) :
    blocks (block ++ bytes) = block :: blocks bytes := by
  have hcount : (block ++ bytes).length / 64 = bytes.length / 64 + 1 := by
    rw [List.length_append, h]
    omega
  rw [blocks, hcount, List.range_succ_eq_map, List.map_cons, List.map_map, Nat.mul_zero,
    List.drop_zero, ← h, List.take_left, h, blocks]
  refine congrArg (block :: ·) (List.map_congr_left fun i _ => ?_)
  show ((block ++ bytes).drop (64 * (i + 1))).take 64 = (bytes.drop (64 * i)).take 64
  rw [List.drop_append, List.drop_eq_nil_of_le (by omega), List.nil_append, h,
    show 64 * (i + 1) - 64 = 64 * i by omega]

theorem blocks_flatten_append {bs : List Bytes} (h : ∀ b ∈ bs, b.length = 64) (bytes : Bytes) :
    blocks (bs.flatten ++ bytes) = bs ++ blocks bytes := by
  induction bs with
  | nil => rfl
  | cons b bs ih =>
    obtain ⟨hb, hbs⟩ := List.forall_mem_cons.mp h
    rw [List.flatten_cons, List.append_assoc, blocks_append hb, ih hbs, List.cons_append]

theorem length_flatten_of_blocks {bs : List Bytes} (h : ∀ b ∈ bs, b.length = 64) :
    bs.flatten.length = 64 * bs.length := by
  induction bs with
  | nil => rfl
  | cons b bs ih =>
    obtain ⟨hb, hbs⟩ := List.forall_mem_cons.mp h
    rw [List.flatten_cons, List.length_append, hb, ih hbs, List.length_cons]
    omega

/-- Whole blocks in front of a message are compressed as they are, and the rest is padded. -/
theorem digest_flatten_append {bs : List Bytes} (h : ∀ b ∈ bs, b.length = 64) (last : Bytes) :
    digest (bs.flatten ++ last) =
      ((blocks (padded last (8 * (bs.flatten ++ last).length))).foldl compress
        (bs.foldl compress initial)).bytes := by
  have hmod : (bs.flatten ++ last).length % 64 = last.length % 64 := by
    rw [List.length_append, length_flatten_of_blocks h]
    omega
  have hpad : pad (bs.flatten ++ last) =
      bs.flatten ++ padded last (8 * (bs.flatten ++ last).length) := by
    rw [pad, padded, padded, hmod]
    simp only [List.append_assoc]
  rw [digest, hpad, blocks_flatten_append h, List.foldl_append]

end Runar.Crypto.Sha256
