/-
  Sdk/OpReturn.lean --- where the state section of a script begins.

  WHAT THIS FILE IS FOR.  The state of a contract stands after the first OP_RETURN at an
  opcode boundary of its script.  `findLastOpReturn` walks over the text of a script,
  which may come from anyone, opcode by opcode, and skips the data of pushes by the
  lengths it reads.

  THE WALK.  A length of four bytes is read as a signed word, so the walk may go back, and
  to places before the text, which count from its end.
-/
import Runar.Logic.Orbit
import Runar.Sdk.StateRoundTrip
import Mathlib.Data.Int.Interval

set_option autoImplicit false

namespace Runar.Sdk

open Script Codec Logic

/-! ## The walk -/

/-- The length after an OP_PUSHDATA4 at an offset. -/
def pushLen4 (hex : HexText) (offset : Int) : Int :=
  int32 ((byteAt hex offset 2).getD 0) ((byteAt hex offset 4).getD 0)
    ((byteAt hex offset 6).getD 0) ((byteAt hex offset 8).getD 0)

/-- One round of the loop: the result, or the next offset. -/
def opReturnStep (hex : HexText) (offset : Int) : Int ⊕ Int :=
  if offset + 2 ≤ hex.length then
    match byteAt hex offset 0 with
    -- what is no number is none of the opcodes
    | none => .inr (offset + 2)
    | some opcode =>
        if opcode = 0x6a then .inl offset
        else if 0x01 ≤ opcode ∧ opcode ≤ 0x4b then .inr (offset + (2 + opcode * 2))
        else if opcode = 0x4c then
          if offset + 4 > hex.length then .inl (-1)
          else
            match byteAt hex offset 2 with
            -- the offset is no number, and the loop ends
            | none => .inl (-1)
            | some pushLen => .inr (offset + (4 + pushLen * 2))
        else if opcode = 0x4d then
          if offset + 6 > hex.length then .inl (-1)
          else
            let lo := (byteAt hex offset 2).getD 0
            let hi := (byteAt hex offset 4).getD 0
            .inr (offset + (6 + (lo ||| hi <<< 8 : Nat) * 2))
        else if opcode = 0x4e then
          if offset + 10 > hex.length then .inl (-1)
          else .inr (offset + (10 + pushLen4 hex offset * 2))
        else .inr (offset + 2)
  else .inl (-1)

/-- The loop, for some rounds at most. -/
def walkOpReturn (hex : HexText) : Nat → Int → Option Int
  | 0, _ => none
  | fuel + 1, offset =>
      match opReturnStep hex offset with
      | .inl result => some result
      | .inr offset => walkOpReturn hex fuel offset

/-- `findLastOpReturn` returns `result`. -/
def FindsLastOpReturn (hex : HexText) (result : Int) : Prop :=
  ∃ fuel, walkOpReturn hex fuel 0 = some result

/-- The offsets the walk goes through. -/
def nextOffset (hex : HexText) (offset : Int) : Option Int := (opReturnStep hex offset).getRight?

theorem walk_terminates_iff {hex : HexText} {offset : Int} :
    (∃ fuel result, walkOpReturn hex fuel offset = some result) ↔
      Halts (nextOffset hex) offset := by
  constructor
  · rintro ⟨fuel, result, h⟩
    induction fuel generalizing offset with
    | zero => cases h
    | succ fuel ih =>
      rw [walkOpReturn] at h
      cases hstep : opReturnStep hex offset with
      | inl r => exact ⟨1, by rw [orbit, orbit]; simp [nextOffset, hstep]⟩
      | inr next =>
        rw [hstep] at h
        exact (halts_of_step (by rw [nextOffset, hstep]; rfl)).mpr (ih h)
  · rintro ⟨n, hn⟩
    induction n generalizing offset with
    | zero => cases hn
    | succ n ih =>
      cases hstep : opReturnStep hex offset with
      | inl r => exact ⟨1, r, by rw [walkOpReturn, hstep]⟩
      | inr next =>
        rw [orbit_succ (s := next) (by rw [nextOffset, hstep]; rfl)] at hn
        obtain ⟨fuel, result, h⟩ := ih hn
        exact ⟨fuel + 1, result, by rw [walkOpReturn, hstep]; exact h⟩

/-- The loop returns one result, however many rounds it is given. -/
theorem FindsLastOpReturn.unique {hex : HexText} {result result' : Int}
    (h : FindsLastOpReturn hex result) (h' : FindsLastOpReturn hex result') : result = result' := by
  obtain ⟨fuel, hfuel⟩ := h
  obtain ⟨fuel', hfuel'⟩ := h'
  generalize (0 : Int) = offset at hfuel hfuel'
  induction fuel generalizing fuel' offset with
  | zero => exact nomatch hfuel
  | succ fuel ih =>
    cases fuel' with
    | zero => exact nomatch hfuel'
    | succ fuel' =>
      rw [walkOpReturn] at hfuel hfuel'
      cases hstep : opReturnStep hex offset with
      | inl r =>
        rw [hstep] at hfuel hfuel'
        exact (Option.some.inj hfuel).symm.trans (Option.some.inj hfuel')
      | inr next =>
        rw [hstep] at hfuel hfuel'
        exact ih fuel' next hfuel hfuel'

/-! ## Where the walk can go -/

/-- An OP_PUSHDATA4 whose length takes the walk no further. -/
def GoesBack (hex : HexText) (offset : Int) : Prop :=
  byteAt hex offset 0 = some 0x4e ∧ pushLen4 hex offset ≤ -5

section Bounds

variable {hex : HexText} {offset next : Int}

/-- Two characters past the start of the text there is nothing to read. -/
theorem byteAt_before (h : offset ≤ -(hex.length : Int) - 2) : byteAt hex offset 0 = none := by
  have hslice : slice hex (offset + 0) (offset + 0 + 2) = [] := by
    by_cases hempty : hex = []
    · rw [hempty, slice, List.drop_nil, List.take_nil]
    · have hpos := List.length_pos_of_ne_nil hempty
      have hstop : offset + 0 + 2 < 0 := by omega
      rw [slice]
      dsimp only
      rw [if_pos hstop, show ((hex.length : Int) + (offset + 0 + 2)).toNat = 0 by omega,
        Nat.zero_sub, List.take_zero]
  rw [byteAt, hslice]
  rfl

theorem int32_ge (b0 b1 b2 b3 : Nat) : -2 ^ 32 ≤ int32 b0 b1 b2 b3 := by
  unfold int32
  dsimp only
  split <;> omega

/-- A step goes on by at least two characters, unless an OP_PUSHDATA4 takes it back. -/
theorem nextOffset_cases (h : nextOffset hex offset = some next) :
    offset + 2 ≤ hex.length ∧
      (offset < next ∨
        GoesBack hex offset ∧ offset ≤ hex.length ∧
          next = offset + (10 + pushLen4 hex offset * 2)) := by
  unfold nextOffset opReturnStep at h
  split at h
  case isFalse => exact nomatch h
  rename_i hlen
  refine ⟨hlen, ?_⟩
  cases hbyte : byteAt hex offset 0 with
  | none =>
    rw [hbyte] at h
    cases h
    exact .inl (by omega)
  | some opcode =>
    rw [hbyte] at h
    dsimp only at h
    split at h
    · exact nomatch h
    split at h
    · cases h
      exact .inl (by omega)
    split at h
    · split at h
      · exact nomatch h
      cases hpush : byteAt hex offset 2 with
      | none =>
        rw [hpush] at h
        exact nomatch h
      | some pushLen =>
        rw [hpush] at h
        cases h
        exact .inl (by omega)
    split at h
    · split at h
      · exact nomatch h
      · cases h
        exact .inl (by omega)
    split at h
    · split at h
      · exact nomatch h
      rename_i hcode _
      cases h
      by_cases hback : pushLen4 hex offset ≤ -5
      · exact .inr ⟨⟨by rw [hbyte, hcode], hback⟩, by omega, rfl⟩
      · exact .inl (by omega)
    · cases h
      exact .inl (by omega)

/-- The walk stays near the text. -/
theorem orbit_bounds {n : Nat} (h : orbit (nextOffset hex) 0 n = some offset) :
    -(hex.length : Int) - 2 ^ 34 ≤ offset := by
  induction n generalizing offset with
  | zero =>
    cases h
    omega
  | succ n ih =>
    have hstep : (orbit (nextOffset hex) 0 n).bind (nextOffset hex) = some offset := h
    obtain ⟨last, hlast, hnext⟩ := Option.bind_eq_some_iff.mp hstep
    have hbound := ih hlast
    obtain ⟨-, hforward | ⟨hback, -, rfl⟩⟩ := nextOffset_cases hnext
    · omega
    · have hread : ¬ last ≤ -(hex.length : Int) - 2 := fun hle =>
        nomatch hback.1.symm.trans (byteAt_before hle)
      have hge := int32_ge ((byteAt hex last 2).getD 0) ((byteAt hex last 4).getD 0)
        ((byteAt hex last 6).getD 0) ((byteAt hex last 8).getD 0)
      unfold pushLen4
      omega

/-- The walk goes on for ever exactly if it comes twice to one OP_PUSHDATA4 that does not
take it further. -/
theorem terminates_iff :
    (∃ result, FindsLastOpReturn hex result) ↔
      ¬ ∃ offset, GoesBack hex offset ∧ ComesTwice (nextOffset hex) 0 offset := by
  have hhalts : (∃ result, FindsLastOpReturn hex result) ↔ Halts (nextOffset hex) 0 := by
    rw [← walk_terminates_iff]
    exact exists_comm
  rw [hhalts]
  constructor
  · rintro h ⟨offset, -, htwice⟩
    exact htwice.not_halts h
  · intro hno
    by_contra hhalts
    have hin : ∀ n s, orbit (nextOffset hex) 0 n = some s →
        s ∈ Set.Icc (-(hex.length : Int) - 2 ^ 34) (hex.length : Int) := by
      intro n s hs
      refine ⟨orbit_bounds hs, ?_⟩
      cases hnext : nextOffset hex s with
      | none =>
        refine absurd ⟨n + 1, ?_⟩ hhalts
        rw [orbit, hs]
        exact hnext
      | some next =>
        have hend := (nextOffset_cases hnext).1
        omega
    obtain ⟨_, htwice⟩ := comesTwice_of_not_halts (Set.finite_Icc _ _) hin hhalts
    obtain ⟨s, t, htwice, hstep, hle⟩ := htwice.exists_not_advance (f := id)
    obtain ⟨-, hforward | ⟨hback, -⟩⟩ := nextOffset_cases hstep
    · exact absurd hle (Int.not_le.mpr hforward)
    · exact hno ⟨s, hback, htwice⟩

end Bounds

/-! ## Scripts of well-formed code -/

/-- Two digits and the byte they are. -/
def IsByte (text : HexText) (n : Nat) : Prop :=
  ∃ high low h l, text = [high, low] ∧ hexDigit? high = some h ∧ hexDigit? low = some l ∧
    n = 16 * h + l

/-- The text of one opcode other than OP_RETURN, or of one push with its data.  No text of
JavaScript has room for the data of a push of `2 ^ 31` bytes. -/
inductive Element : HexText → Prop
  | op {head : HexText} {n : Nat} (hhead : IsByte head n) (hcode : n = 0 ∨ 0x4e < n)
      (hreturn : n ≠ 0x6a) : Element head
  | push {head data : HexText} {n : Nat} (hhead : IsByte head n) (hcode : 1 ≤ n ∧ n ≤ 0x4b)
      (hdata : data.length = 2 * n) : Element (head ++ data)
  | pushData1 {head b0 data : HexText} {n0 : Nat} (hhead : IsByte head 0x4c) (h0 : IsByte b0 n0)
      (hdata : data.length = 2 * n0) : Element (head ++ (b0 ++ data))
  | pushData2 {head b0 b1 data : HexText} {n0 n1 : Nat} (hhead : IsByte head 0x4d)
      (h0 : IsByte b0 n0) (h1 : IsByte b1 n1) (hdata : data.length = 2 * (n0 + n1 * 256)) :
      Element (head ++ (b0 ++ (b1 ++ data)))
  | pushData4 {head b0 b1 b2 b3 data : HexText} {n0 n1 n2 n3 : Nat} (hhead : IsByte head 0x4e)
      (h0 : IsByte b0 n0) (h1 : IsByte b1 n1) (h2 : IsByte b2 n2) (h3 : IsByte b3 n3)
      (hdata : data.length = 2 * (n0 + n1 * 256 + n2 * 65536 + n3 * 16777216))
      (hlength : data.length < 2 ^ 32) :
      Element (head ++ (b0 ++ (b1 ++ (b2 ++ (b3 ++ data)))))

section Elements

variable {text : HexText} {n : Nat}

theorem hexDigit?_lt {c : Char} {d : Nat} (h : hexDigit? c = some d) : d < 16 := by
  unfold hexDigit? at h
  have hval : ∀ x : Char, x.toNat = x.val.toNat := fun _ => rfl
  have hle : ∀ x y : Char, x ≤ y ↔ x.val.toNat ≤ y.val.toNat := fun _ _ => Iff.rfl
  simp only [hle, hval] at h
  have h9 : ('9' : Char).val.toNat = 57 := rfl
  have h0 : ('0' : Char).val.toNat = 48 := rfl
  have ha : ('a' : Char).val.toNat = 97 := rfl
  have hf : ('f' : Char).val.toNat = 102 := rfl
  have hA : ('A' : Char).val.toNat = 65 := rfl
  have hF : ('F' : Char).val.toNat = 70 := rfl
  split at h
  · cases h
    omega
  split at h
  · cases h
    omega
  split at h
  · cases h
    omega
  · exact nomatch h

theorem IsByte.length (h : IsByte text n) : text.length = 2 := by
  obtain ⟨_, _, _, _, rfl, -⟩ := h
  rfl

theorem IsByte.lt (h : IsByte text n) : n < 256 := by
  obtain ⟨_, _, _, _, -, hhigh, hlow, rfl⟩ := h
  have := hexDigit?_lt hhigh
  have := hexDigit?_lt hlow
  omega

/-- A byte is read wherever it stands. -/
theorem IsByte.read (h : IsByte text n) (before lead after : HexText) {place : Int}
    (hplace : place = lead.length) :
    byteAt (before ++ (lead ++ (text ++ after))) before.length place = some n := by
  subst hplace
  have hslice := slice_append (before ++ lead) text after
    (show (before.length : Int) + lead.length = (before ++ lead).length by
      rw [List.length_append]; rfl)
    (show (before.length : Int) + lead.length + 2 = (before ++ lead).length + text.length by
      rw [List.length_append, h.length]; rfl)
  rw [List.append_assoc] at hslice
  rw [byteAt, hslice]
  obtain ⟨high, low, _, _, rfl, hhigh, hlow, rfl⟩ := h
  show parseByte high low = _
  rw [parseByte, hhigh, hlow]

theorem int32_bytes_of_lt {n0 n1 n2 n3 : Nat} (h0 : n0 < 256) (h1 : n1 < 256) (h2 : n2 < 256)
    (h : n0 + n1 * 256 + n2 * 65536 + n3 * 16777216 < 2 ^ 31) :
    int32 n0 n1 n2 n3 = (n0 + n1 * 256 + n2 * 65536 + n3 * 16777216 : Nat) := by
  have hbytes := int32_bytes h
  rw [show (n0 + n1 * 256 + n2 * 65536 + n3 * 16777216) % 256 = n0 by omega,
    show (n0 + n1 * 256 + n2 * 65536 + n3 * 16777216) / 256 % 256 = n1 by omega,
    show (n0 + n1 * 256 + n2 * 65536 + n3 * 16777216) / 65536 % 256 = n2 by omega,
    show (n0 + n1 * 256 + n2 * 65536 + n3 * 16777216) / 16777216 % 256 = n3 by omega] at hbytes
  exact hbytes

/-- From the start of an element the walk goes to its end. -/
theorem Element.step (h : Element text) (before after : HexText) :
    opReturnStep (before ++ (text ++ after)) before.length =
      .inr ((before ++ text).length : Int) := by
  cases h with
  | op hhead hcode hreturn =>
    have hread : byteAt (before ++ (text ++ after)) before.length 0 = some _ :=
      hhead.read before [] after rfl
    have hlen := hhead.length
    have hend : (before.length : Int) + 2 ≤ (before ++ (text ++ after)).length := by
      simp only [List.length_append, hlen]
      push_cast
      omega
    rw [opReturnStep, if_pos hend, hread]
    dsimp only
    rw [if_neg hreturn, if_neg (by omega), if_neg (by omega), if_neg (by omega),
      if_neg (by omega), List.length_append, hlen]
    rfl
  | @push head data n hhead hcode hdata =>
    have hread : byteAt (before ++ (head ++ (data ++ after))) before.length 0 = some n :=
      hhead.read before [] (data ++ after) rfl
    have hlen := hhead.length
    have hend : (before.length : Int) + 2 ≤ (before ++ (head ++ (data ++ after))).length := by
      simp only [List.length_append, hlen]
      push_cast
      omega
    rw [List.append_assoc, opReturnStep, if_pos hend, hread]
    dsimp only
    rw [if_neg (by omega), if_pos hcode]
    simp only [List.length_append, hlen, hdata]
    push_cast
    congr 1
    omega
  | @pushData1 head b0 data n0 hhead h0 hdata =>
    have hread : byteAt (before ++ (head ++ (b0 ++ (data ++ after)))) before.length 0 = some 0x4c :=
      hhead.read before [] _ rfl
    have hlen := hhead.length
    have hlen0 := h0.length
    have hread0 := h0.read before head (data ++ after)
      (show (2 : Int) = head.length by rw [hlen]; rfl)
    have hend : (before.length : Int) + 4 ≤
        (before ++ (head ++ (b0 ++ (data ++ after)))).length := by
      simp only [List.length_append, hlen, hlen0]
      push_cast
      omega
    rw [List.append_assoc, List.append_assoc, opReturnStep, if_pos (by omega), hread]
    dsimp only
    rw [if_neg (by decide), if_neg (by decide), if_pos rfl, if_neg (by omega), hread0]
    dsimp only
    simp only [List.length_append, hlen, hlen0, hdata]
    push_cast
    congr 1
    omega
  | @pushData2 head b0 b1 data n0 n1 hhead h0 h1 hdata =>
    have hread : byteAt (before ++ (head ++ (b0 ++ (b1 ++ (data ++ after))))) before.length 0 =
        some 0x4d := hhead.read before [] _ rfl
    have hlen := hhead.length
    have hlen0 := h0.length
    have hlen1 := h1.length
    have hread0 := h0.read before head (b1 ++ (data ++ after))
      (show (2 : Int) = head.length by rw [hlen]; rfl)
    have hread1 := h1.read before (head ++ b0) (data ++ after)
      (show (4 : Int) = (head ++ b0).length by rw [List.length_append, hlen, hlen0]; rfl)
    rw [List.append_assoc] at hread1
    have hend : (before.length : Int) + 6 ≤
        (before ++ (head ++ (b0 ++ (b1 ++ (data ++ after))))).length := by
      simp only [List.length_append, hlen, hlen0, hlen1]
      push_cast
      omega
    rw [List.append_assoc, List.append_assoc, List.append_assoc, opReturnStep,
      if_pos (by omega), hread]
    dsimp only
    rw [if_neg (by decide), if_neg (by decide), if_neg (by decide), if_pos rfl,
      if_neg (by omega), hread0, hread1, Option.getD_some, Option.getD_some,
      or_shiftLeft 8 h0.lt]
    simp only [List.length_append, hlen, hlen0, hlen1, hdata]
    push_cast
    congr 1
    omega
  | @pushData4 head b0 b1 b2 b3 data n0 n1 n2 n3 hhead h0 h1 h2 h3 hdata hlength =>
    have hread : byteAt (before ++ (head ++ (b0 ++ (b1 ++ (b2 ++ (b3 ++ (data ++ after)))))))
        before.length 0 = some 0x4e := hhead.read before [] _ rfl
    have hlen := hhead.length
    have hlen0 := h0.length
    have hlen1 := h1.length
    have hlen2 := h2.length
    have hlen3 := h3.length
    have hread0 := h0.read before head (b1 ++ (b2 ++ (b3 ++ (data ++ after))))
      (show (2 : Int) = head.length by rw [hlen]; rfl)
    have hread1 := h1.read before (head ++ b0) (b2 ++ (b3 ++ (data ++ after)))
      (show (4 : Int) = (head ++ b0).length by simp only [List.length_append, hlen, hlen0]; rfl)
    have hread2 := h2.read before (head ++ (b0 ++ b1)) (b3 ++ (data ++ after))
      (show (6 : Int) = (head ++ (b0 ++ b1)).length by
        simp only [List.length_append, hlen, hlen0, hlen1]; rfl)
    have hread3 := h3.read before (head ++ (b0 ++ (b1 ++ b2))) (data ++ after)
      (show (8 : Int) = (head ++ (b0 ++ (b1 ++ b2))).length by
        simp only [List.length_append, hlen, hlen0, hlen1, hlen2]; rfl)
    simp only [List.append_assoc] at hread1 hread2 hread3
    have hsum : n0 + n1 * 256 + n2 * 65536 + n3 * 16777216 < 2 ^ 31 := by omega
    have hpush : pushLen4 (before ++ (head ++ (b0 ++ (b1 ++ (b2 ++ (b3 ++ (data ++ after)))))))
        before.length = (n0 + n1 * 256 + n2 * 65536 + n3 * 16777216 : Nat) := by
      rw [pushLen4, hread0, hread1, hread2, hread3]
      exact int32_bytes_of_lt h0.lt h1.lt h2.lt hsum
    have hend : (before.length : Int) + 10 ≤
        (before ++ (head ++ (b0 ++ (b1 ++ (b2 ++ (b3 ++ (data ++ after))))))).length := by
      simp only [List.length_append, hlen, hlen0, hlen1, hlen2, hlen3]
      push_cast
      omega
    simp only [List.append_assoc]
    rw [opReturnStep, if_pos (by omega), hread]
    dsimp only
    rw [if_neg (by decide), if_neg (by decide), if_neg (by decide), if_neg (by decide),
      if_pos rfl, if_neg (by omega), hpush]
    simp only [List.length_append, hlen, hlen0, hlen1, hlen2, hlen3, hdata]
    push_cast
    congr 1
    omega

/-- The walk comes to the end of the code, and stops at the OP_RETURN there. -/
theorem walk_elements {code : List HexText} (hcode : ∀ e ∈ code, Element e) {ret : HexText}
    (hret : IsByte ret 0x6a) (before state : HexText) :
    walkOpReturn (before ++ (code.flatten ++ (ret ++ state))) (code.length + 1) before.length =
      some ((before ++ code.flatten).length : Int) := by
  induction code generalizing before with
  | nil =>
    have hread : byteAt (before ++ (ret ++ state)) before.length 0 = some 0x6a :=
      hret.read before [] state rfl
    have hlen := hret.length
    rw [List.length_nil, List.flatten_nil, List.nil_append, List.append_nil, walkOpReturn,
      opReturnStep, if_pos (by simp only [List.length_append, hlen]; push_cast; omega), hread]
    rfl
  | cons e code ih =>
    obtain ⟨he, hcode⟩ := List.forall_mem_cons.mp hcode
    have hstep := he.step before (code.flatten ++ (ret ++ state))
    have hrest := ih hcode (before ++ e)
    rw [List.append_assoc] at hrest
    rw [List.flatten_cons, List.append_assoc, List.length_cons, walkOpReturn, hstep]
    rw [← List.append_assoc before e code.flatten, ← hrest]

/-- Without an OP_RETURN it comes to the end of the script. -/
theorem walk_elements_end {code : List HexText} (hcode : ∀ e ∈ code, Element e)
    (before : HexText) :
    walkOpReturn (before ++ code.flatten) (code.length + 1) before.length = some (-1) := by
  induction code generalizing before with
  | nil =>
    rw [List.length_nil, List.flatten_nil, List.append_nil, walkOpReturn, opReturnStep,
      if_neg (by omega)]
  | cons e code ih =>
    obtain ⟨he, hcode⟩ := List.forall_mem_cons.mp hcode
    have hstep := he.step before code.flatten
    have hrest := ih hcode (before ++ e)
    rw [List.append_assoc] at hrest
    rw [List.flatten_cons, List.length_cons, walkOpReturn, hstep]
    exact hrest

end Elements

/-! ## What the walk finds -/

/-- The walk comes to an end, and on a script of well-formed code, an OP_RETURN and a state
it returns the offset of that OP_RETURN. -/
def FindsState (hex : HexText) : Prop :=
  (∃ result, FindsLastOpReturn hex result) ∧
    ∀ (code : List HexText) (ret state : HexText), (∀ e ∈ code, Element e) → IsByte ret 0x6a →
      hex = code.flatten ++ (ret ++ state) → FindsLastOpReturn hex code.flatten.length

/-- The walk finds the state of every text on which it does not come twice to an
OP_PUSHDATA4 whose length is read as `-5` or less. -/
theorem findsState_iff (hex : HexText) :
    FindsState hex ↔ ¬ ∃ offset, GoesBack hex offset ∧ ComesTwice (nextOffset hex) 0 offset := by
  rw [← terminates_iff]
  refine ⟨And.left, fun hends => ⟨hends, ?_⟩⟩
  rintro code ret state hcode hret rfl
  exact ⟨code.length + 1, walk_elements hcode hret [] state⟩

/-- A push of `-5` bytes is its own successor. -/
theorem not_findsState_pushData4 : ¬ FindsState "4efbffffff".toList := by
  rintro ⟨hends, -⟩
  exact terminates_iff.mp hends ⟨0, ⟨by decide, by decide⟩, 0, 1, by decide, by decide, by decide⟩

end Runar.Sdk
