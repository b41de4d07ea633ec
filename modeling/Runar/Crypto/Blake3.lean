/-
  Crypto/Blake3.lean --- the compression function of BLAKE3.

  WHAT THIS FILE IS FOR.  BLAKE3 on words of 32 bits: the quarter round, the seven rounds
  with the permutation of the message words between them, and the digest of a message that
  fits one block, which is the first, the last and the root block at once.  The file names
  no program.
-/
import Runar.Script.ScriptNum

set_option autoImplicit false

namespace Runar.Crypto.Blake3

open Script

abbrev Word : Type := BitVec 32

/-- The bytes of a word, the least significant first. -/
def toBytes (w : Word) : Bytes := leBytes 4 w.toNat

def ofBytes (bytes : Bytes) : Word := BitVec.ofNat 32 (leNat bytes)

def iv : List Word :=
  [0x6a09e667, 0xbb67ae85, 0x3c6ef372, 0xa54ff53a, 0x510e527f, 0x9b05688c, 0x1f83d9ab, 0x5be0cd19]

def permutation : List Nat := [2, 6, 3, 10, 7, 0, 4, 13, 1, 11, 12, 5, 9, 14, 15, 8]

/-- The four words of a quarter round. -/
structure Quarter where
  a : Word
  b : Word
  c : Word
  d : Word
  deriving DecidableEq, Repr

/-- Half a quarter round, with one word of the message. -/
def Quarter.half (q : Quarter) (m : Word) (rotD rotB : Nat) : Quarter :=
  let a := q.a + q.b + m
  let d := (q.d ^^^ a).rotateRight rotD
  let c := q.c + d
  let b := (q.b ^^^ c).rotateRight rotB
  ⟨a, b, c, d⟩

def Quarter.mix (q : Quarter) (x y : Word) : Quarter := (q.half x 16 12).half y 8 7

/-- Where a quarter round works: four words of the state and two of the message. -/
structure Call where
  a : Nat
  b : Nat
  c : Nat
  d : Nat
  x : Nat
  y : Nat
  deriving DecidableEq, Repr

/-- The quarter round at four words of the state. -/
def mixAt (m v : List Word) (call : Call) : List Word :=
  let q := Quarter.mix ⟨v.getD call.a 0, v.getD call.b 0, v.getD call.c 0, v.getD call.d 0⟩
    (m.getD call.x 0) (m.getD call.y 0)
  (((v.set call.a q.a).set call.b q.b).set call.c q.c).set call.d q.d

/-- The quarter rounds of a round, by columns and then by diagonals, which take the words of the
message in the order `s`. -/
def calls (s : List Nat) : List Call :=
  [⟨0, 4, 8, 12, s.getD 0 0, s.getD 1 0⟩, ⟨1, 5, 9, 13, s.getD 2 0, s.getD 3 0⟩,
   ⟨2, 6, 10, 14, s.getD 4 0, s.getD 5 0⟩, ⟨3, 7, 11, 15, s.getD 6 0, s.getD 7 0⟩,
   ⟨0, 5, 10, 15, s.getD 8 0, s.getD 9 0⟩, ⟨1, 6, 11, 12, s.getD 10 0, s.getD 11 0⟩,
   ⟨2, 7, 8, 13, s.getD 12 0, s.getD 13 0⟩, ⟨3, 4, 9, 14, s.getD 14 0, s.getD 15 0⟩]

def round (v m : List Word) : List Word := (calls (List.range 16)).foldl (mixAt m) v

def permute (m : List Word) : List Word := permutation.map fun i => m.getD i 0

/-- Rounds with the message permuted after each. -/
def rounds (v m : List Word) : Nat → List Word
  | 0 => v
  | n + 1 => rounds (round v m) (permute m) n

/-- The words before the rounds. -/
def start (cv : List Word) (counterLow counterHigh length flags : Word) : List Word :=
  cv ++ iv.take 4 ++ [counterLow, counterHigh, length, flags]

/-- The first eight words of the output. -/
def compress (cv m : List Word) (counterLow counterHigh length flags : Word) : List Word :=
  let v := rounds (start cv counterLow counterHigh length flags) m 7
  (List.range 8).map fun i => v.getD i 0 ^^^ v.getD (i + 8) 0

/-- The flags of a block that starts a chunk, ends it and is the root. -/
def rootFlags : Word := 1 ||| 2 ||| 8

/-- The words of a byte string, four bytes each. -/
def words (bytes : Bytes) (n : Nat) : List Word :=
  (List.range n).map fun i => ofBytes ((bytes.drop (4 * i)).take 4)

/-- The bytes of the compression of a block that is a message of its own. -/
def compressRoot (cv block : Bytes) (length : Nat) : Bytes :=
  (compress (words cv 8) (words block 16) 0 0 (BitVec.ofNat 32 length) rootFlags).flatMap toBytes

/-- The digest of a message of at most 64 bytes. -/
def digest (msg : Bytes) : Bytes :=
  compressRoot (iv.flatMap toBytes) (msg ++ List.replicate (64 - msg.length) 0) msg.length

end Runar.Crypto.Blake3
