/-
  Decompiler/Tokens.lean --- when the tokens tile the script.

  WHAT THIS FILE IS FOR.  Both tokenisers read the length after an OP_PUSHDATA4 as a signed
  word.  A length from 2^31 on moves the cursor back, and then the opcode has no size, or
  less.  The last four lengths are the exception: they move the cursor back by less than the
  five bytes of the push, and the tokens still tile the script.

  THE INPUTS.  `Reaches` walks over a script by what its bytes announce; the tokens tile it
  exactly if the walk reaches no push with one of the other lengths.
-/
import Runar.Decompiler.Disasm

set_option autoImplicit false

namespace Runar.Decompiler

open Script Logic Testing
open Sdk.Codec (int32 or_shiftLeft)

/-! ## What bytes announce -/

/-- A push opcode with its length bytes, and the length they give. -/
inductive Announces : Bytes → Nat → Prop
  | direct {b : UInt8} : 0x01 ≤ b → b ≤ 0x4b → Announces [b] b.toNat
  | pushData1 (n : UInt8) : Announces [0x4c, n] n.toNat
  | pushData2 (b0 b1 : UInt8) : Announces [0x4d, b0, b1] (leNat [b0, b1])
  | pushData4 {b0 b1 b2 b3 : UInt8} : leNat [b0, b1, b2, b3] < 2 ^ 31 →
      Announces [0x4e, b0, b1, b2, b3] (leNat [b0, b1, b2, b3])

/-- The walk over whole opcodes and pushes comes to the rest of a text.  After one of the last
four lengths it goes on among the length bytes. -/
inductive Reaches : Bytes → Bytes → Prop
  | here (text : Bytes) : Reaches text text
  | op {b : UInt8} {text rest : Bytes} : b = 0x00 ∨ 0x4e < b → Reaches text rest →
      Reaches (b :: text) rest
  | push {head data text rest : Bytes} : Announces head data.length → Reaches text rest →
      Reaches (head ++ (data ++ text)) rest
  | wrapped {len text rest : Bytes} : len.length = 4 → 2 ^ 32 - 4 ≤ leNat len →
      Reaches ((len ++ text).drop (leNat len + 4 - 2 ^ 32)) rest →
      Reaches (0x4e :: (len ++ text)) rest

/-- A push whose length moves the cursor back to where it starts, or further. -/
def GoesBack (text : Bytes) : Prop :=
  ∃ len rest, len.length = 4 ∧ text = 0x4e :: (len ++ rest) ∧ 2 ^ 31 ≤ leNat len ∧
    leNat len < 2 ^ 32 - 4

/-- No push of a script moves the cursor back. -/
def Advances (script : Bytes) : Prop := ∀ rest, Reaches script rest → ¬ GoesBack rest

theorem Reaches.trans {a b c : Bytes} (h : Reaches a b) (h' : Reaches b c) : Reaches a c := by
  induction h with
  | here => exact h'
  | op hcode _ ih => exact .op hcode (ih h')
  | push hhead _ ih => exact .push hhead (ih h')
  | wrapped hlen hvalue _ ih => exact .wrapped hlen hvalue (ih h')

/-- A text that is not over starts with an opcode, a push, a push without all of its length
bytes, or a push with a length from 2^31 on. -/
theorem cases_text (b : UInt8) (text : Bytes) :
    (b = 0x00 ∨ 0x4e < b) ∨ (∃ head n rest, Announces head n ∧ b :: text = head ++ rest) ∨
      (b = 0x4c ∧ text.length < 1 ∨ b = 0x4d ∧ text.length < 2 ∨ b = 0x4e ∧ text.length < 4) ∨
      b = 0x4e ∧ ∃ len rest, len.length = 4 ∧ text = len ++ rest ∧ 2 ^ 31 ≤ leNat len := by
  by_cases hop : b = 0x00 ∨ 0x4e < b
  · exact .inl hop
  refine .inr ?_
  by_cases hdirect : 0x01 ≤ b ∧ b ≤ 0x4b
  · exact .inl ⟨[b], _, text, .direct hdirect.1 hdirect.2, rfl⟩
  have hb : b = 0x4c ∨ b = 0x4d ∨ b = 0x4e := by
    simp only [← UInt8.toNat_inj, UInt8.lt_iff_toNat_lt, UInt8.le_iff_toNat_le] at hop hdirect ⊢
    simp at hop hdirect ⊢
    omega
  rcases hb with rfl | rfl | rfl
  · match text with
    | [] => exact .inr (.inl (.inl ⟨rfl, Nat.one_pos⟩))
    | n :: rest => exact .inl ⟨[0x4c, n], _, rest, .pushData1 n, rfl⟩
  · match text with
    | [] | [_] => exact .inr (.inl (.inr (.inl ⟨rfl, by simp⟩)))
    | b0 :: b1 :: rest => exact .inl ⟨[0x4d, b0, b1], _, rest, .pushData2 b0 b1, rfl⟩
  · match text with
    | [] | [_] | [_, _] | [_, _, _] => exact .inr (.inl (.inr (.inr ⟨rfl, by simp⟩)))
    | b0 :: b1 :: b2 :: b3 :: rest =>
      by_cases hlt : leNat [b0, b1, b2, b3] < 2 ^ 31
      · exact .inl ⟨[0x4e, b0, b1, b2, b3], _, rest, .pushData4 hlt, rfl⟩
      · exact .inr (.inr ⟨rfl, [b0, b1, b2, b3], rest, rfl, rfl, not_lt.mp hlt⟩)

/-! ## Reading where the text is behind others -/

section Reading

variable (before : Bytes)

theorem byteAt_append (text : Bytes) (k : Nat) :
    byteAt (before ++ text) (before.length + k) = text[k]? := by
  have hplace : ((before.length : Int) + k).toNat = before.length + k := by omega
  rw [byteAt, if_neg (by omega), hplace, List.getElem?_append_right (Nat.le_add_right ..),
    Nat.add_sub_cancel_left]

theorem byteAt_head (b : UInt8) (text : Bytes) :
    byteAt (before ++ b :: text) before.length = some b :=
  byteAt_append before (b :: text) 0

theorem numberAt_append {text : Bytes} {k : Nat} {b : UInt8} (h : text[k]? = some b) {i : Int}
    (hi : i = before.length + k) : numberAt (before ++ text) i = b.toNat := by
  rw [hi, numberAt, byteAt_append, h]
  rfl

theorem slice_append (mid after : Bytes) {stop : Int}
    (hstop : stop = before.length + mid.length) :
    slice (before ++ (mid ++ after)) before.length stop = mid := by
  subst hstop
  have hplace : ((before.length : Int) + mid.length).toNat - before.length = mid.length := by omega
  rw [slice]
  dsimp only
  rw [if_neg (by omega), if_neg (by omega), Int.toNat_natCast, List.drop_left, hplace,
    List.take_left]

theorem slice_backwards (script : Bytes) {start stop : Int} (hstop : 0 ≤ stop)
    (hback : stop ≤ start) : slice script start stop = [] := by
  rw [slice]
  dsimp only
  rw [if_neg (by omega), if_neg (by omega), show stop.toNat - start.toNat = 0 by omega,
    List.take_zero]

theorem pushLen2_append (b b0 b1 : UInt8) (rest : Bytes) :
    pushLen2 (before ++ b :: b0 :: b1 :: rest) (before.length + 1) = leNat [b0, b1] := by
  have h0 := b0.toNat_lt
  have h1 := b1.toNat_lt
  have hread {k : Nat} {c : UInt8} (h : (b :: b0 :: b1 :: rest)[k]? = some c) {i : Int}
      (hi : i = before.length + k) := numberAt_append before h hi
  rw [pushLen2, hread (k := 1) (i := before.length + 1) rfl rfl, hread (k := 2) rfl (by omega),
    or_shiftLeft 8 h0]
  simp only [leNat]
  omega

/-- A length of four bytes is read as a signed word. -/
theorem pushLen4_append (b : UInt8) {len : Bytes} (hlen : len.length = 4) (rest : Bytes) :
    pushLen4 (before ++ b :: (len ++ rest)) (before.length + 1) =
      if leNat len < 2 ^ 31 then (leNat len : Int) else leNat len - 2 ^ 32 := by
  match len, hlen with
  | [b0, b1, b2, b3], _ =>
    have h0 := b0.toNat_lt
    have h1 := b1.toNat_lt
    have h2 := b2.toNat_lt
    have h3 := b3.toNat_lt
    have hread {k : Nat} {c : UInt8} (h : (b :: ([b0, b1, b2, b3] ++ rest))[k]? = some c) {i : Int}
        (hi : i = before.length + k) := numberAt_append before h hi
    have hword : leNat [b0, b1, b2, b3] =
        ((b0.toNat ||| b1.toNat <<< 8) ||| b2.toNat <<< 16) ||| b3.toNat <<< 24 := by
      rw [or_shiftLeft 8 h0, or_shiftLeft 16 (by omega), or_shiftLeft 24 (by omega)]
      simp only [leNat]
      omega
    rw [pushLen4, hread (k := 1) (i := before.length + 1) rfl rfl, hread (k := 2) rfl (by omega),
      hread (k := 3) rfl (by omega), hread (k := 4) rfl (by omega), int32, hword]

end Reading

/-! ## Tokens -/

/-- What an opcode of either tokeniser says of the script. -/
structure Token where
  span : Span
  byte : UInt8
  data : Option Bytes

def parsedToken (op : ParsedOpcode) : Token :=
  ⟨⟨op.offset, op.offset + op.size⟩, op.opcode, op.data⟩

def Op.token (op : Op) : Token := ⟨⟨op.offset, op.offset + op.size⟩, op.byte, op.data⟩

/-- The opcode is the first of the bytes that the token stands for, and the data their end. -/
def Token.ReadFrom (script : Bytes) (token : Token) : Prop :=
  (token.span.of script).head? = some token.byte ∧
    ∀ data ∈ token.data, data <:+ token.span.of script

/-- The offsets are consecutive from zero, the sizes are positive and come to the length of
the script, and the bytes of the tokens, one after another, are the script. -/
structure TilesScript (script : Bytes) (tokens : List Token) : Prop where
  tiles : Tiles (tokens.map Token.span) 0 script.length
  positive : ∀ token ∈ tokens, token.span.start < token.span.stop
  readFrom : ∀ token ∈ tokens, token.ReadFrom script
  bytes : (tokens.map fun token => token.span.of script).flatten = script

/-- A token is cut from the front of a text, and what is left is walked to. -/
structure Cuts (before text : Bytes) (token : Token) (after : Option Int) (taken rest : Bytes) :
    Prop where
  text_eq : text = taken ++ rest
  span : token.span = ⟨before.length, before.length + taken.length⟩
  head : taken.head? = some token.byte
  data : ∀ data ∈ token.data, data <:+ taken
  reaches : rest ≠ [] → Reaches text rest
  goesOn : after = some (before.length + taken.length : Int) ∨ after = none ∧ rest = []

section Cutting

variable {τ : Type} {script before text : Bytes} {token : τ → Token}

/-- A token that is cut is a good one, and the walk comes to its end. -/
theorem Cuts.takes {op : τ} {after : Option Int} {taken rest : Bytes}
    (h : Cuts before text (token op) after taken rest) (hscript : script = before ++ text) :
    Takes (fun op => (token op).span) (fun op => (token op).ReadFrom script) script.length
      before.length op after := by
  obtain ⟨rfl, hspan, hhead, hdata, -, hgoesOn⟩ := h
  have hpos : 0 < taken.length := List.length_pos_of_ne_nil (by rintro rfl; exact nomatch hhead)
  have hlength : script.length = before.length + (taken.length + rest.length) := by
    rw [hscript, List.length_append, List.length_append]
  have hof : (token op).span.of script = taken := by
    have hsize : ((before.length : Int) + taken.length - before.length).toNat = taken.length := by
      omega
    rw [hspan, hscript, Span.of]
    dsimp only
    rw [hsize, Int.toNat_natCast, List.drop_left, List.take_left]
  refine ⟨congrArg Span.start hspan, ?_, ?_, ⟨by rw [hof, hhead], fun d hd => ?_⟩, ?_⟩
  · rw [hspan]
    dsimp only
    omega
  · rw [hspan]
    dsimp only
    omega
  · rw [hof]
    exact hdata d hd
  · rw [hspan]
    rcases hgoesOn with hnext | ⟨hnone, rfl⟩
    · exact .inl hnext
    · exact .inr ⟨hnone, by rw [hlength, List.length_nil]; dsimp only; omega⟩

/-- If every text that does not go back throws or has a token cut from it, the tokens tile a
script that advances. -/
theorem tiles_of_cuts {step : Int → Except Thrown (τ × Option Int)} (allowed : Thrown → Prop)
    (hcut : ∀ before text, script = before ++ text → text ≠ [] → ¬ GoesBack text →
      (∃ e, step before.length = .error e ∧ allowed e) ∨
        ∃ op after taken rest, step before.length = .ok (op, after) ∧
          Cuts before text (token op) after taken rest)
    (hscript : Advances script) :
    (∃ e, Scans step script.length 0 (.error e) ∧ allowed e) ∨
      ∃ ops, Scans step script.length 0 (.ok ops) ∧ TilesScript script (ops.map token) := by
  have hround : ∀ j : Int, (∃ before text, script = before ++ text ∧ j = before.length ∧
      Reaches script text) → j < script.length →
      (∃ e, step j = .error e ∧ allowed e) ∨ ∃ op after, step j = .ok (op, after) ∧
        Takes (fun op => (token op).span) (fun op => (token op).ReadFrom script) script.length
          j op after ∧
        ((token op).span.stop < script.length → ∃ before text, script = before ++ text ∧
          (token op).span.stop = before.length ∧ Reaches script text) := by
    rintro j ⟨before, text, hsplit, rfl, hreach⟩ hlt
    have hne : text ≠ [] := by
      rintro rfl
      rw [hsplit, List.append_nil] at hlt
      exact lt_irrefl _ hlt
    refine (hcut before text hsplit hne (hscript text hreach)).imp id ?_
    rintro ⟨op, after, taken, rest, hstep, hcuts⟩
    refine ⟨op, after, hstep, hcuts.takes hsplit, fun hmore => ?_⟩
    obtain ⟨rfl, hspan, -, -, hreaches, -⟩ := hcuts
    rw [hspan] at hmore ⊢
    refine ⟨before ++ taken, rest, by rw [hsplit, List.append_assoc], ?_, hreach.trans ?_⟩
    · rw [List.length_append]
      exact (Nat.cast_add ..).symm
    · refine hreaches fun hnil => ?_
      rw [hsplit, hnil, List.append_nil, List.length_append] at hmore
      dsimp only at hmore
      omega
  have hscan := scans_or_throws _ _ allowed _ hround (Int.natCast_nonneg _)
    (fun _ => ⟨[], script, rfl, rfl, .here script⟩)
  refine hscan.imp id ?_
  rintro ⟨ops, hops, htiles, hall⟩
  refine ⟨ops, hops, ?_, ?_, ?_, ?_⟩
  · rwa [List.map_map]
  · exact List.forall_mem_map.mpr fun op hop => (hall op hop).2
  · exact List.forall_mem_map.mpr fun op hop => (hall op hop).1
  · have hflat := htiles.flatten le_rfl script
    rw [Span.of_all, List.map_map] at hflat
    rwa [List.map_map]

end Cutting

/-! ## The rounds -/

section Rounds

variable (before : Bytes)

/-- A push with its announced data, or what there is of it. -/
theorem cuts_push {head : Bytes} {n : Nat} (hhead : Announces head n) (rest : Bytes)
    (token : Token) {size : Nat} (hsize : size = head.length + min n rest.length)
    (hspan : token.span = ⟨before.length, before.length + size⟩)
    (hbyte : head.head? = some token.byte) (hdata : token.data = some (rest.take n)) :
    Cuts before (head ++ rest) token (some (before.length + size : Int)) (head ++ rest.take n)
      (rest.drop n) := by
  have hlength : (head ++ rest.take n).length = size := by
    rw [List.length_append, List.length_take, hsize]
  refine ⟨by rw [List.append_assoc, List.take_append_drop], by rw [hlength, hspan], ?_, ?_, ?_,
    .inl (by rw [hlength])⟩
  · rw [List.head?_append, hbyte]
    rfl
  · rw [hdata]
    rintro d ⟨⟩
    exact List.suffix_append ..
  · intro hmore
    have hlt : n < rest.length := by
      by_contra hge
      exact hmore (List.drop_eq_nil_of_le (not_lt.mp hge))
    have hall : (rest.take n).length = n := List.length_take_of_le hlt.le
    have hreach := Reaches.push (hall.symm ▸ hhead) (.here (rest.drop n))
    rwa [List.take_append_drop] at hreach

/-- An opcode without data. -/
theorem cuts_op {b : UInt8} (hcode : b = 0x00 ∨ 0x4e < b) (text : Bytes) {token : Token}
    (hspan : token.span = ⟨before.length, before.length + 1⟩) (hbyte : token.byte = b)
    (hdata : token.data = none) :
    Cuts before (b :: text) token (some (before.length + 1 : Int)) [b] text := by
  refine ⟨rfl, hspan, congrArg some hbyte.symm, ?_, fun _ => .op hcode (.here text), .inl rfl⟩
  rw [hdata]
  exact fun d hd => (nomatch hd)

/-- One of the last four lengths. -/
theorem cuts_wrapped {len : Bytes} (hlen : len.length = 4) (hvalue : 2 ^ 32 - 4 ≤ leNat len)
    (rest : Bytes) (token : Token) {size : Nat} (hsize : (size : Int) = 5 + (leNat len - 2 ^ 32))
    (hspan : token.span = ⟨before.length, before.length + size⟩) (hbyte : token.byte = 0x4e)
    (hdata : token.data = some []) :
    Cuts before (0x4e :: (len ++ rest)) token (some (before.length + size : Int))
      (0x4e :: (len ++ rest).take (size - 1)) ((len ++ rest).drop (size - 1)) := by
  have hlt := leNat_lt len
  rw [hlen] at hlt
  have hlength : (0x4e :: (len ++ rest).take (size - 1)).length = size := by
    rw [List.length_cons, List.length_take, List.length_append, hlen]
    omega
  refine ⟨by rw [List.cons_append, List.take_append_drop], by rw [hlength, hspan],
    congrArg some hbyte.symm, ?_, fun _ => .wrapped hlen hvalue ?_, .inl (by rw [hlength])⟩
  · rw [hdata]
    rintro d ⟨⟩
    exact List.nil_suffix
  · rw [show leNat len + 4 - 2 ^ 32 = size - 1 by omega]
    exact .here _

end Rounds

/-! ## The rounds of the parser -/

section Parser

variable (before : Bytes)

/-- A push with a length of four bytes, whatever its length. -/
theorem parseStep_four {len : Bytes} (hlen : len.length = 4) (rest : Bytes) :
    parseStep (before ++ 0x4e :: (len ++ rest)) before.length =
      .ok (parsePush (before ++ 0x4e :: (len ++ rest)) before.length 0x4e "OP_PUSHDATA4"
        .pushdata4 5 (if leNat len < 2 ^ 31 then (leNat len : Int) else leNat len - 2 ^ 32)) := by
  have hlength : ¬ (before.length : Int) + 4 ≥ (before ++ 0x4e :: (len ++ rest)).length := by
    simp only [List.length_append, List.length_cons, hlen]
    omega
  rw [parseStep, byteAt_head]
  dsimp only
  rw [if_neg (by decide), if_neg (by decide), if_neg (by decide), if_neg (by decide), if_pos rfl,
    if_neg hlength, pushLen4_append before 0x4e hlen]

theorem parseStep_push {head : Bytes} {n : Nat} (hhead : Announces head n) (rest : Bytes) :
    ∃ b name pushEncoding, head.head? = some b ∧
      parseStep (before ++ (head ++ rest)) before.length =
        .ok (parsePush (before ++ (head ++ rest)) before.length b name pushEncoding head.length
          n) := by
  cases hhead with
  | @direct b hlow hhigh =>
    refine ⟨b, "PUSH_" ++ toString b.toNat, .direct, rfl, ?_⟩
    have hzero : b ≠ 0x00 := by rintro rfl; exact absurd hlow (by decide)
    rw [parseStep, List.singleton_append, byteAt_head]
    dsimp only
    rw [if_neg hzero, if_pos ⟨hlow, hhigh⟩]
    rfl
  | pushData1 n =>
    refine ⟨0x4c, "OP_PUSHDATA1", .pushdata1, rfl, ?_⟩
    have hread : numberAt (before ++ 0x4c :: n :: rest) (before.length + 1) = n.toNat :=
      numberAt_append before (k := 1) rfl rfl
    have hlength : ¬ (before.length : Int) + 1 ≥ (before ++ 0x4c :: n :: rest).length := by
      simp only [List.length_append, List.length_cons]
      omega
    show parseStep (before ++ 0x4c :: n :: rest) _ = _
    rw [parseStep, byteAt_head]
    dsimp only
    rw [if_neg (by decide), if_neg (by decide), if_pos rfl, if_neg hlength, hread]
    rfl
  | pushData2 b0 b1 =>
    refine ⟨0x4d, "OP_PUSHDATA2", .pushdata2, rfl, ?_⟩
    have hlength : ¬ (before.length : Int) + 2 ≥ (before ++ 0x4d :: b0 :: b1 :: rest).length := by
      simp only [List.length_append, List.length_cons]
      omega
    show parseStep (before ++ 0x4d :: b0 :: b1 :: rest) _ = _
    rw [parseStep, byteAt_head]
    dsimp only
    rw [if_neg (by decide), if_neg (by decide), if_neg (by decide), if_pos rfl, if_neg hlength,
      pushLen2_append]
    rfl
  | @pushData4 b0 b1 b2 b3 hlt =>
    refine ⟨0x4e, "OP_PUSHDATA4", .pushdata4, rfl, ?_⟩
    show parseStep (before ++ 0x4e :: ([b0, b1, b2, b3] ++ rest)) _ = _
    rw [parseStep_four before rfl, if_pos hlt]
    rfl

/-- The opcode of a push that is read with a length of no sign. -/
theorem cuts_parsePush {head : Bytes} {n : Nat} (hhead : Announces head n) {b : UInt8}
    (hb : head.head? = some b) (rest : Bytes) (name : String) (pushEncoding : PushEncoding) :
    Cuts before (head ++ rest)
      (parsedToken (parsePush (before ++ (head ++ rest)) before.length b name pushEncoding
        head.length n).1)
      (parsePush (before ++ (head ++ rest)) before.length b name pushEncoding head.length n).2
      (head ++ rest.take n) (rest.drop n) := by
  have havailable : min (n : Int) ((before ++ (head ++ rest)).length -
      (before.length + head.length)) = (min n rest.length : Nat) := by
    rw [List.length_append, List.length_append]
    omega
  have hstop : (before.length : Int) + head.length + (min n rest.length : Nat) =
      ((before ++ head).length : Nat) + ((rest.take n).length : Nat) := by
    rw [List.length_append, List.length_take]
    omega
  have hslice := slice_append (before ++ head) (rest.take n) (rest.drop n) hstop
  rw [List.take_append_drop, List.append_assoc, List.length_append, Nat.cast_add] at hslice
  have hcuts := cuts_push before hhead rest
    ⟨⟨before.length, before.length + (head.length + min n rest.length : Nat)⟩, b,
      some (rest.take n)⟩ rfl rfl hb rfl
  unfold parsePush parsedToken
  dsimp only
  rw [havailable, hslice, Int.add_assoc, ← Nat.cast_add]
  exact hcuts

/-- An opcode without data. -/
theorem parseStep_op {b : UInt8} (hcode : b = 0x00 ∨ 0x4e < b) (text : Bytes) :
    ∃ op, parseStep (before ++ b :: text) before.length = .ok (op, some (before.length + 1)) ∧
      parsedToken op = ⟨⟨before.length, before.length + 1⟩, b, none⟩ := by
  rw [parseStep, byteAt_head]
  dsimp only
  rcases hcode with rfl | hcode
  · exact ⟨_, rfl, rfl⟩
  · rw [UInt8.lt_iff_toNat_lt] at hcode
    have hne {k : UInt8} (hk : k.toNat ≤ 0x4e) : b ≠ k := by
      rintro rfl
      exact absurd hcode (Nat.not_lt.mpr hk)
    have hdirect : ¬ (0x01 ≤ b ∧ b ≤ 0x4b) := fun h =>
      absurd (Nat.lt_of_lt_of_le hcode (UInt8.le_iff_toNat_le.mp h.2)) (by decide)
    rw [if_neg (hne (by decide)), if_neg hdirect, if_neg (hne (by decide)),
      if_neg (hne (by decide)), if_neg (hne (by decide))]
    split
    · exact ⟨_, rfl, rfl⟩
    split
    · exact ⟨_, rfl, rfl⟩
    · exact ⟨_, rfl, rfl⟩

/-- A push without all of its length bytes has the rest of the script. -/
theorem parseStep_short {b : UInt8} {text : Bytes}
    (hshort : b = 0x4c ∧ text.length < 1 ∨ b = 0x4d ∧ text.length < 2 ∨
      b = 0x4e ∧ text.length < 4) :
    ∃ op, parseStep (before ++ b :: text) before.length = .ok (op, none) ∧
      parsedToken op = ⟨⟨before.length, before.length + (text.length + 1 : Nat)⟩, b, none⟩ := by
  have hlength : ((before ++ b :: text).length : Int) =
      before.length + (text.length + 1 : Nat) := by
    rw [List.length_append, List.length_cons]
    exact Nat.cast_add ..
  have hsize : (before.length : Int) + ((before.length + (text.length + 1 : Nat)) -
      before.length) = before.length + (text.length + 1 : Nat) := by omega
  rw [parseStep, byteAt_head, hlength]
  dsimp only
  rcases hshort with ⟨rfl, hlt⟩ | ⟨rfl, hlt⟩ | ⟨rfl, hlt⟩
  · obtain rfl := List.length_eq_zero_iff.mp (Nat.lt_one_iff.mp hlt)
    rw [if_neg (by decide), if_neg (by decide), if_pos rfl, if_pos (by rw [List.length_nil]; omega)]
    exact ⟨_, rfl, rfl⟩
  · rw [if_neg (by decide), if_neg (by decide), if_neg (by decide), if_pos rfl, if_pos (by omega)]
    exact ⟨_, rfl, by rw [parsedToken]; dsimp only; rw [hsize]⟩
  · rw [if_neg (by decide), if_neg (by decide), if_neg (by decide), if_neg (by decide),
      if_pos rfl, if_pos (by omega)]
    exact ⟨_, rfl, by rw [parsedToken]; dsimp only; rw [hsize]⟩

/-- The opcode of a push with one of the last four lengths. -/
theorem cuts_parsePush_wrapped {len : Bytes} (hlen : len.length = 4)
    (hlast : 2 ^ 32 - 4 ≤ leNat len) (rest : Bytes) :
    Cuts before (0x4e :: (len ++ rest))
      (parsedToken (parsePush (before ++ 0x4e :: (len ++ rest)) before.length 0x4e "OP_PUSHDATA4"
        .pushdata4 5 (leNat len - 2 ^ 32)).1)
      (parsePush (before ++ 0x4e :: (len ++ rest)) before.length 0x4e "OP_PUSHDATA4"
        .pushdata4 5 (leNat len - 2 ^ 32)).2
      (0x4e :: (len ++ rest).take (leNat len + 5 - 2 ^ 32 - 1))
      ((len ++ rest).drop (leNat len + 5 - 2 ^ 32 - 1)) := by
  have hlt := leNat_lt len
  rw [hlen] at hlt
  have hsize : ((leNat len + 5 - 2 ^ 32 : Nat) : Int) = 5 + (leNat len - 2 ^ 32) := by omega
  have hmin : min ((leNat len : Int) - 2 ^ 32) (((before ++ 0x4e :: (len ++ rest)).length : Int) -
      (before.length + 5)) = leNat len - 2 ^ 32 := by
    rw [List.length_append, List.length_cons, List.length_append, hlen]
    omega
  have hslice := slice_backwards (before ++ 0x4e :: (len ++ rest))
    (show (0 : Int) ≤ before.length + 5 + (leNat len - 2 ^ 32) by omega)
    (show (before.length : Int) + 5 + (leNat len - 2 ^ 32) ≤ before.length + 5 by omega)
  have hcuts := cuts_wrapped before hlen hlast rest
    ⟨⟨before.length, before.length + (leNat len + 5 - 2 ^ 32 : Nat)⟩, 0x4e, some []⟩ hsize rfl rfl
    rfl
  unfold parsePush parsedToken
  dsimp only
  rw [hmin, hslice, Int.add_assoc, ← hsize]
  exact hcuts

/-- A text that does not go back has an opcode cut from it. -/
theorem parseStep_cuts {text : Bytes} (hne : text ≠ []) (hback : ¬ GoesBack text) :
    ∃ op after taken rest, parseStep (before ++ text) before.length = .ok (op, after) ∧
      Cuts before text (parsedToken op) after taken rest := by
  obtain ⟨b, text, rfl⟩ := List.exists_cons_of_ne_nil hne
  rcases cases_text b text with hop | ⟨head, n, rest, hhead, heq⟩ | hshort |
    ⟨rfl, len, rest, hlen, rfl, hvalue⟩
  · obtain ⟨op, hstep, htoken⟩ := parseStep_op before hop text
    exact ⟨op, _, [b], text, hstep, htoken ▸ cuts_op before hop text rfl rfl rfl⟩
  · obtain ⟨b', name, pushEncoding, hb, hstep⟩ := parseStep_push before hhead rest
    rw [heq]
    exact ⟨_, _, _, _, hstep, cuts_parsePush before hhead hb rest name pushEncoding⟩
  · obtain ⟨op, hstep, htoken⟩ := parseStep_short before hshort
    refine ⟨op, none, b :: text, [], hstep, ?_⟩
    rw [htoken]
    exact ⟨(List.append_nil _).symm, rfl, rfl, fun d hd => (nomatch hd), fun h => absurd rfl h,
      .inr ⟨rfl, rfl⟩⟩
  · have hlast : 2 ^ 32 - 4 ≤ leNat len := by
      by_contra hlt
      exact hback ⟨len, rest, hlen, rfl, hvalue, not_le.mp hlt⟩
    have hstep := parseStep_four before hlen rest
    rw [if_neg (Nat.not_lt.mpr hvalue)] at hstep
    exact ⟨_, _, _, _, hstep, cuts_parsePush_wrapped before hlen hlast rest⟩

end Parser

/-! ## The rounds of the disassembler -/

section Disassembler

variable (before : Bytes)

theorem disasmStep_four {len : Bytes} (hlen : len.length = 4) (rest : Bytes) :
    disasmStep (before ++ 0x4e :: (len ++ rest)) before.length =
      takePush (before ++ 0x4e :: (len ++ rest)) before.length "OP_PUSHDATA4" 0x4e 5
        (if leNat len < 2 ^ 31 then (leNat len : Int) else leNat len - 2 ^ 32)
        "OP_PUSHDATA4 payload" "" := by
  have hlength : ¬ (before.length : Int) + 5 > (before ++ 0x4e :: (len ++ rest)).length := by
    simp only [List.length_append, List.length_cons, hlen]
    omega
  rw [disasmStep, byteAt_head]
  dsimp only
  rw [if_neg (by decide), if_neg (by decide), if_neg (by decide), if_neg (by decide), if_pos rfl,
    if_neg hlength, pushLen4_append before 0x4e hlen]

/-- The name of a push opcode. -/
def pushName (b : UInt8) : String :=
  if b ≤ 0x4b then "OP_PUSHBYTES_" ++ toString b.toNat
  else if b = 0x4c then "OP_PUSHDATA1"
  else if b = 0x4d then "OP_PUSHDATA2"
  else "OP_PUSHDATA4"

theorem disasmStep_push {head : Bytes} {n : Nat} (hhead : Announces head n) (rest : Bytes) :
    ∃ b what unit, head.head? = some b ∧
      disasmStep (before ++ (head ++ rest)) before.length =
        takePush (before ++ (head ++ rest)) before.length (pushName b) b head.length n what
          unit := by
  cases hhead with
  | @direct b hlow hhigh =>
    refine ⟨b, "direct push", " bytes", rfl, ?_⟩
    rw [pushName, if_pos hhigh]
    have hzero : b ≠ 0x00 := by rintro rfl; exact absurd hlow (by decide)
    rw [disasmStep, List.singleton_append, byteAt_head]
    dsimp only
    rw [if_neg hzero, if_pos ⟨hlow, hhigh⟩]
    rfl
  | pushData1 n =>
    refine ⟨0x4c, "OP_PUSHDATA1 payload", "", rfl, ?_⟩
    have hread : numberAt (before ++ 0x4c :: n :: rest) (before.length + 1) = n.toNat :=
      numberAt_append before (k := 1) rfl rfl
    have hlength : ¬ (before.length : Int) + 2 > (before ++ 0x4c :: n :: rest).length := by
      simp only [List.length_append, List.length_cons]
      omega
    show disasmStep (before ++ 0x4c :: n :: rest) _ = _
    rw [disasmStep, byteAt_head]
    dsimp only
    rw [if_neg (by decide), if_neg (by decide), if_pos rfl, if_neg hlength, hread]
    rfl
  | pushData2 b0 b1 =>
    refine ⟨0x4d, "OP_PUSHDATA2 payload", "", rfl, ?_⟩
    have hlength : ¬ (before.length : Int) + 3 > (before ++ 0x4d :: b0 :: b1 :: rest).length := by
      simp only [List.length_append, List.length_cons]
      omega
    show disasmStep (before ++ 0x4d :: b0 :: b1 :: rest) _ = _
    rw [disasmStep, byteAt_head]
    dsimp only
    rw [if_neg (by decide), if_neg (by decide), if_neg (by decide), if_pos rfl, if_neg hlength,
      pushLen2_append]
    rfl
  | @pushData4 b0 b1 b2 b3 hlt =>
    refine ⟨0x4e, "OP_PUSHDATA4 payload", "", rfl, ?_⟩
    show disasmStep (before ++ 0x4e :: ([b0, b1, b2, b3] ++ rest)) _ = _
    rw [disasmStep_four before rfl, if_pos hlt]
    rfl

/-- A push is taken with all of its data, or it is an error. -/
theorem takePush_cuts {head : Bytes} {n : Nat} (hhead : Announces head n) {b : UInt8}
    (hb : head.head? = some b) (rest : Bytes) (name what unit : String) :
    (∃ message, takePush (before ++ (head ++ rest)) before.length name b head.length n what unit =
        .error (.disasmError message)) ∨
      ∃ op after taken left,
        takePush (before ++ (head ++ rest)) before.length name b head.length n what unit =
          .ok (op, after) ∧ Cuts before (head ++ rest) op.token after taken left := by
  rw [takePush]
  split
  · exact .inl ⟨_, rfl⟩
  · rename_i hfits
    rw [List.length_append, List.length_append] at hfits
    have hmin : min n rest.length = n := by omega
    have hstop : (before.length : Int) + head.length + n =
        ((before ++ head).length : Nat) + ((rest.take n).length : Nat) := by
      rw [List.length_append, List.length_take, hmin]
      omega
    have hslice := slice_append (before ++ head) (rest.take n) (rest.drop n) hstop
    rw [List.take_append_drop, List.append_assoc, List.length_append, Nat.cast_add] at hslice
    refine .inr ⟨_, _, head ++ rest.take n, rest.drop n, rfl, ?_⟩
    unfold Op.token
    dsimp only
    rw [hslice, Int.add_assoc, ← Nat.cast_add]
    exact cuts_push before hhead rest _ (by rw [hmin]) rfl hb rfl

theorem disasmStep_op {b : UInt8} (hcode : b = 0x00 ∨ 0x4e < b) (text : Bytes) :
    ∃ op, disasmStep (before ++ b :: text) before.length = .ok (op, some (before.length + 1)) ∧
      op.token = ⟨⟨before.length, before.length + 1⟩, b, none⟩ := by
  rw [disasmStep, byteAt_head]
  dsimp only
  rcases hcode with rfl | hcode
  · exact ⟨_, rfl, rfl⟩
  · rw [UInt8.lt_iff_toNat_lt] at hcode
    have hne {k : UInt8} (hk : k.toNat ≤ 0x4e) : b ≠ k := by
      rintro rfl
      exact absurd hcode (Nat.not_lt.mpr hk)
    have hdirect : ¬ (0x01 ≤ b ∧ b ≤ 0x4b) := fun h =>
      absurd (Nat.lt_of_lt_of_le hcode (UInt8.le_iff_toNat_le.mp h.2)) (by decide)
    rw [if_neg (hne (by decide)), if_neg hdirect, if_neg (hne (by decide)),
      if_neg (hne (by decide)), if_neg (hne (by decide))]
    exact ⟨_, rfl, rfl⟩

theorem disasmStep_short {b : UInt8} {text : Bytes}
    (hshort : b = 0x4c ∧ text.length < 1 ∨ b = 0x4d ∧ text.length < 2 ∨
      b = 0x4e ∧ text.length < 4) :
    ∃ message, disasmStep (before ++ b :: text) before.length = .error (.disasmError message) := by
  have hlength : ((before ++ b :: text).length : Int) =
      before.length + (text.length + 1 : Nat) := by
    rw [List.length_append, List.length_cons]
    exact Nat.cast_add ..
  rw [disasmStep, byteAt_head, hlength]
  dsimp only
  rcases hshort with ⟨rfl, hlt⟩ | ⟨rfl, hlt⟩ | ⟨rfl, hlt⟩
  · rw [if_neg (by decide), if_neg (by decide), if_pos rfl, if_pos (by omega)]
    exact ⟨_, rfl⟩
  · rw [if_neg (by decide), if_neg (by decide), if_neg (by decide), if_pos rfl, if_pos (by omega)]
    exact ⟨_, rfl⟩
  · rw [if_neg (by decide), if_neg (by decide), if_neg (by decide), if_neg (by decide),
      if_pos rfl, if_pos (by omega)]
    exact ⟨_, rfl⟩

/-- One of the last four lengths is within the script, and there is no data. -/
theorem takePush_wrapped {len : Bytes} (hlen : len.length = 4) (hlast : 2 ^ 32 - 4 ≤ leNat len)
    (rest : Bytes) (name what unit : String) :
    ∃ op after taken left,
      takePush (before ++ 0x4e :: (len ++ rest)) before.length name 0x4e 5 (leNat len - 2 ^ 32)
        what unit = .ok (op, after) ∧
      Cuts before (0x4e :: (len ++ rest)) op.token after taken left := by
  have hlt := leNat_lt len
  rw [hlen] at hlt
  have hsize : ((leNat len + 5 - 2 ^ 32 : Nat) : Int) = 5 + (leNat len - 2 ^ 32) := by omega
  have hfits : ¬ (before.length : Int) + 5 + (leNat len - 2 ^ 32) >
      (before ++ 0x4e :: (len ++ rest)).length := by
    rw [List.length_append, List.length_cons, List.length_append, hlen]
    omega
  have hslice := slice_backwards (before ++ 0x4e :: (len ++ rest))
    (show (0 : Int) ≤ before.length + 5 + (leNat len - 2 ^ 32) by omega)
    (show (before.length : Int) + 5 + (leNat len - 2 ^ 32) ≤ before.length + 5 by omega)
  rw [takePush]
  rw [if_neg hfits, hslice, Int.add_assoc, ← hsize]
  exact ⟨_, _, _, _, rfl, cuts_wrapped before hlen hlast rest _ hsize rfl rfl rfl⟩

theorem disasmStep_cuts {text : Bytes} (hne : text ≠ []) (hback : ¬ GoesBack text) :
    (∃ message, disasmStep (before ++ text) before.length = .error (.disasmError message)) ∨
      ∃ op after taken rest, disasmStep (before ++ text) before.length = .ok (op, after) ∧
        Cuts before text op.token after taken rest := by
  obtain ⟨b, text, rfl⟩ := List.exists_cons_of_ne_nil hne
  rcases cases_text b text with hop | ⟨head, n, rest, hhead, heq⟩ | hshort |
    ⟨rfl, len, rest, hlen, rfl, hvalue⟩
  · obtain ⟨op, hstep, htoken⟩ := disasmStep_op before hop text
    exact .inr ⟨op, _, [b], text, hstep, htoken ▸ cuts_op before hop text rfl rfl rfl⟩
  · obtain ⟨b', what, unit, hb, hstep⟩ := disasmStep_push before hhead rest
    rw [heq, hstep]
    exact takePush_cuts before hhead hb rest (pushName b') what unit
  · exact .inl (disasmStep_short before hshort)
  · have hlast : 2 ^ 32 - 4 ≤ leNat len := by
      by_contra hlt
      exact hback ⟨len, rest, hlen, rfl, hvalue, not_le.mp hlt⟩
    rw [disasmStep_four before hlen, if_neg (Nat.not_lt.mpr hvalue)]
    exact .inr (takePush_wrapped before hlen hlast rest ..)

end Disassembler

/-! ## The tokens of a script -/

/-- The opcodes of the parser tile the script. -/
def ParseTiles (script : Bytes) : Prop :=
  ∃ ops, ParseScriptBytes script (.ok ops) ∧ TilesScript script (ops.map parsedToken)

/-- The opcodes of the disassembler tile the script, or it throws its error. -/
def DisasmTiles (script : Bytes) : Prop :=
  (∃ ops, Disassemble script (.ok ops) ∧ TilesScript script (ops.map Op.token)) ∨
    ∃ message, Disassemble script (.error (.disasmError message))

/-- From a text with a token cut from it the cursor comes where it comes from behind it. -/
theorem comes_of_cuts {before text taken rest target : Bytes} {token : Token} {op : ParsedOpcode}
    {next : Int} (hcuts : Cuts before text token (some next) taken rest)
    (hstep : parseStep (before ++ text) before.length = .ok (op, some next))
    (hrest : ∃ past, before ++ taken ++ rest = past ++ target ∧
      Comes (parseStep (before ++ taken ++ rest)) (before ++ taken ++ rest).length
        (before ++ taken).length past.length) :
    ∃ past, before ++ text = past ++ target ∧
      Comes (parseStep (before ++ text)) (before ++ text).length before.length past.length := by
  obtain ⟨rfl, -, hhead, -, -, hgoesOn⟩ := hcuts
  have hlength : ((before ++ taken).length : Int) = before.length + taken.length := by
    rw [List.length_append, Nat.cast_add]
  rw [List.append_assoc, hlength] at hrest
  obtain ⟨past, hpast, hcomes⟩ := hrest
  have hpos : 0 < taken.length := List.length_pos_of_ne_nil (by rintro rfl; exact nomatch hhead)
  have hlt : (before.length : Int) < (before ++ (taken ++ rest)).length := by
    rw [List.length_append, List.length_append]
    omega
  obtain rfl : next = before.length + taken.length :=
    hgoesOn.elim Option.some.inj fun h => nomatch h.1
  exact ⟨past, hpast, .round hlt hstep hcomes⟩

/-- Where the walk comes, the cursor of the parser comes. -/
theorem comes_of_reaches {text rest : Bytes} (h : Reaches text rest) (before : Bytes) :
    ∃ past, before ++ text = past ++ rest ∧
      Comes (parseStep (before ++ text)) (before ++ text).length before.length past.length := by
  induction h generalizing before with
  | here text => exact ⟨before, rfl, .here _⟩
  | @op b text rest hcode hrest ih =>
    obtain ⟨op, hstep, -⟩ := parseStep_op before hcode text
    have hcuts : Cuts before (b :: text) ⟨_, b, none⟩ _ _ _ :=
      cuts_op before hcode text rfl rfl rfl
    exact comes_of_cuts hcuts hstep (ih _)
  | @push head data text rest hhead hrest ih =>
    obtain ⟨b, name, pushEncoding, hb, hstep⟩ := parseStep_push before hhead (data ++ text)
    have hcuts := cuts_parsePush before hhead hb (data ++ text) name pushEncoding
    rw [List.drop_left] at hcuts
    exact comes_of_cuts hcuts hstep (ih _)
  | @wrapped len text rest hlen hvalue hrest ih =>
    have hcuts := cuts_parsePush_wrapped before hlen hvalue text
    rw [show leNat len + 5 - 2 ^ 32 - 1 = leNat len + 4 - 2 ^ 32 by omega] at hcuts
    have hstep := parseStep_four before hlen text
    rw [if_neg (by omega)] at hstep
    exact comes_of_cuts hcuts hstep (ih _)

/-- Where a push goes back, the opcodes the parser returns do not tile the script. -/
theorem ParseTiles.advances {script : Bytes} (h : ParseTiles script) : Advances script := by
  rintro rest hreach ⟨len, left, hlen, rfl, hvalue, hback⟩
  obtain ⟨ops, hops, htiles⟩ := h
  obtain ⟨past, hsplit, hcomes⟩ := comes_of_reaches hreach []
  rw [List.nil_append] at hsplit hcomes
  subst hsplit
  have hstep := parseStep_four past hlen left
  rw [if_neg (Nat.not_lt.mpr hvalue)] at hstep
  have hmem := hops.mem hcomes (by rw [List.length_append, List.length_cons]; omega) hstep
  have hpos := htiles.positive _ (List.mem_map_of_mem hmem)
  dsimp only [parsedToken, parsePush] at hpos
  omega

/-- Both tokenisers tile a script exactly if no push of it goes back. -/
theorem tokenisers_tile_iff (script : Bytes) :
    ParseTiles script ∧ DisasmTiles script ↔ Advances script := by
  refine ⟨fun h => h.1.advances, fun h => ⟨?_, ?_⟩⟩
  · refine (tiles_of_cuts (fun _ => False) (fun before text hscript hne hback => ?_) h)
      |>.resolve_left fun ⟨_, _, hfalse⟩ => hfalse
    subst hscript
    exact .inr (parseStep_cuts before hne hback)
  · refine (Or.comm.mp (tiles_of_cuts (fun e => ∃ message, e = .disasmError message)
      (fun before text hscript hne hback => ?_) h)).imp id ?_
    · subst hscript
      exact (disasmStep_cuts before hne hback).imp
        (fun ⟨message, hstep⟩ => ⟨_, hstep, message, rfl⟩) id
    rintro ⟨_, hthrows, message, rfl⟩
    exact ⟨message, hthrows⟩

/-- After a length of minus five the cursor is where it was. -/
theorem not_tokenisers_tile : ¬ ∀ script : Bytes, ParseTiles script ∧ DisasmTiles script := by
  intro h
  obtain ⟨ops, ⟨fuel, hscan⟩, -⟩ := (h [0x4e, 0xfb, 0xff, 0xff, 0xff]).1
  have hstep : ∃ op, parseStep [0x4e, 0xfb, 0xff, 0xff, 0xff] 0 = .ok (op, some 0) := ⟨_, rfl⟩
  obtain ⟨op, hstep⟩ := hstep
  have hforever (fuel : Nat) :
      scan (parseStep [0x4e, 0xfb, 0xff, 0xff, 0xff]) 5 fuel 0 = none := by
    induction fuel with
    | zero => rfl
    | succ fuel ih => rw [scan, if_pos (by decide), hstep]; dsimp only; rw [ih]; rfl
  cases (hforever fuel).symm.trans hscan

end Runar.Decompiler
