/-
  Logic/Utf8.lean --- UTF-8 with replacement.

  WHAT THIS FILE IS FOR.  A decoder of UTF-8 never fails: where the bytes are not
  the encoding of a character it yields the replacement character and goes on,
  with the byte that did not fit read again.  Decoding gives back every text that
  was encoded.  It names no program.
-/
import Mathlib.Data.Nat.Notation

set_option autoImplicit false

namespace Runar.Logic

/-! ## Encoding -/

/-- The code points that characters have: no surrogates. -/
def IsScalar (c : ℕ) : Prop := c < 0xd800 ∨ 0xe000 ≤ c ∧ c < 0x110000

/-- The bytes of a code point. -/
def utf8Bytes (c : ℕ) : List ℕ :=
  if c < 0x80 then [c]
  else if c < 0x800 then [0xc0 + c / 64, 0x80 + c % 64]
  else if c < 0x10000 then [0xe0 + c / 4096, 0x80 + c / 64 % 64, 0x80 + c % 64]
  else [0xf0 + c / 262144, 0x80 + c / 4096 % 64, 0x80 + c / 64 % 64, 0x80 + c % 64]

def utf8Encode (text : List ℕ) : List ℕ := text.flatMap utf8Bytes

/-! ## Decoding -/

/-- A character whose first bytes were read: its code point so far, how many bytes are to
come, and the least and the greatest the next one may be. -/
structure Unfinished where
  codePoint : ℕ
  needed : ℕ
  lower : ℕ
  upper : ℕ

/-- What stands for bytes that encode no character. -/
def replacement : ℕ := 0xfffd

/-- A byte at which no character is unfinished. -/
def utf8First (b : ℕ) : List ℕ × Option Unfinished :=
  if b ≤ 0x7f then ([b], none)
  else if 0xc2 ≤ b ∧ b ≤ 0xdf then ([], some ⟨b % 32, 1, 0x80, 0xbf⟩)
  else if 0xe0 ≤ b ∧ b ≤ 0xef then
    ([], some ⟨b % 16, 2, if b = 0xe0 then 0xa0 else 0x80, if b = 0xed then 0x9f else 0xbf⟩)
  else if 0xf0 ≤ b ∧ b ≤ 0xf4 then
    ([], some ⟨b % 8, 3, if b = 0xf0 then 0x90 else 0x80, if b = 0xf4 then 0x8f else 0xbf⟩)
  else ([replacement], none)

def utf8Decode : Option Unfinished → List ℕ → List ℕ
  | none, [] => []
  | some _, [] => [replacement]
  | none, b :: rest => (utf8First b).1 ++ utf8Decode (utf8First b).2 rest
  | some c, b :: rest =>
      if c.lower ≤ b ∧ b ≤ c.upper then
        let codePoint := c.codePoint * 64 + b % 64
        if c.needed = 1 then codePoint :: utf8Decode none rest
        else utf8Decode (some ⟨codePoint, c.needed - 1, 0x80, 0xbf⟩) rest
      else replacement :: ((utf8First b).1 ++ utf8Decode (utf8First b).2 rest)

/-! ## Round trip -/

section RoundTrip

variable {c : ℕ} {rest : List ℕ}

/-- A byte that the unfinished character takes, with more to come. -/
theorem utf8Decode_more {u : Unfinished} {b : ℕ} (hlower : u.lower ≤ b) (hupper : b ≤ u.upper)
    (hneeded : u.needed ≠ 1) : utf8Decode (some u) (b :: rest) =
      utf8Decode (some ⟨u.codePoint * 64 + b % 64, u.needed - 1, 0x80, 0xbf⟩) rest := by
  rw [utf8Decode, if_pos ⟨hlower, hupper⟩]
  exact if_neg hneeded

/-- The last byte of a character. -/
theorem utf8Decode_last {u : Unfinished} {b : ℕ} (hlower : u.lower ≤ b) (hupper : b ≤ u.upper)
    (hneeded : u.needed = 1) : utf8Decode (some u) (b :: rest) =
      (u.codePoint * 64 + b % 64) :: utf8Decode none rest := by
  rw [utf8Decode, if_pos ⟨hlower, hupper⟩]
  exact if_pos hneeded

theorem utf8Decode_bytes (h : IsScalar c) :
    utf8Decode none (utf8Bytes c ++ rest) = c :: utf8Decode none rest := by
  unfold IsScalar at h
  rw [utf8Bytes]
  split
  · rw [List.singleton_append, utf8Decode, utf8First, if_pos (by omega)]
    rfl
  split
  · rw [List.cons_append, utf8Decode, utf8First, if_neg (by omega), if_pos (by omega),
      List.nil_append]
    dsimp only
    rw [List.singleton_append, utf8Decode_last (by dsimp only; omega) (by dsimp only; omega) rfl]
    exact congrArg (· :: _) (by dsimp only; omega)
  split
  · rw [List.cons_append, utf8Decode, utf8First, if_neg (by omega), if_neg (by omega),
      if_pos (by omega), List.nil_append]
    dsimp only
    rw [List.cons_append, List.singleton_append,
      utf8Decode_more (by dsimp only; split <;> omega) (by dsimp only; split <;> omega)
        (by dsimp only; omega),
      utf8Decode_last (by dsimp only; omega) (by dsimp only; omega) rfl]
    exact congrArg (· :: _) (by dsimp only; omega)
  · rw [List.cons_append, utf8Decode, utf8First, if_neg (by omega), if_neg (by omega),
      if_neg (by omega), if_pos (by omega), List.nil_append]
    dsimp only
    rw [List.cons_append, List.cons_append, List.singleton_append,
      utf8Decode_more (by dsimp only; split <;> omega) (by dsimp only; split <;> omega)
        (by dsimp only; omega),
      utf8Decode_more (by dsimp only; omega) (by dsimp only; omega) (by dsimp only; omega),
      utf8Decode_last (by dsimp only; omega) (by dsimp only; omega) rfl]
    exact congrArg (· :: _) (by dsimp only; omega)

end RoundTrip

/-- Every text is decoded from its encoding. -/
theorem utf8Decode_encode {text : List ℕ} (h : ∀ c ∈ text, IsScalar c) :
    utf8Decode none (utf8Encode text) = text := by
  induction text with
  | nil => rfl
  | cons c text ih =>
    obtain ⟨hc, htext⟩ := List.forall_mem_cons.mp h
    rw [utf8Encode, List.flatMap_cons, utf8Decode_bytes hc]
    exact congrArg (c :: ·) (ih htext)

theorem utf8Bytes_lt {c : ℕ} (h : IsScalar c) : ∀ b ∈ utf8Bytes c, b < 256 := by
  unfold IsScalar at h
  rw [utf8Bytes]
  split
  · simpa using by omega
  split
  · simp only [List.forall_mem_cons]
    exact ⟨by omega, by omega, fun _ h => (nomatch h)⟩
  split
  · simp only [List.forall_mem_cons]
    exact ⟨by omega, by omega, by omega, fun _ h => (nomatch h)⟩
  · simp only [List.forall_mem_cons]
    exact ⟨by omega, by omega, by omega, by omega, fun _ h => (nomatch h)⟩

end Runar.Logic
