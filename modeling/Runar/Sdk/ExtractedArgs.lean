/-
  Sdk/ExtractedArgs.lean --- the arguments read off a deployed script.

  WHAT THIS FILE IS FOR.  An argument is pushed in one of five forms, and the reader of
  elements ends where each of them does.  So the walk over the slots stays in step with
  the script: the shift it has gathered is what the pushes behind it are longer than
  their placeholders.  A parameter without a slot is not in the script.
-/
import Runar.Sdk.ScriptUtils
import Runar.Sdk.TemplateHash
import Runar.Sdk.Failures

set_option autoImplicit false

namespace Runar.Sdk

open Script Artifact Logic Codec

/-! ## One push -/

theorem isByte_hexNumber {k : Nat} (h : k < 256) : IsByte (hexNumber k) k := by
  refine ⟨_, _, _, _, hexNumber_of_lt h, hexDigit?_digitChar (by omega),
    hexDigit?_digitChar (by omega), by omega⟩

theorem read_opcode {k : Nat} (hk : k = 0 ∨ 0x4e < k) (hlt : k < 256) (before after : HexText) :
    readScriptElement (before ++ (hexNumber k ++ after)) (some before.length) =
      ⟨[], some 2, some k⟩ := by
  have hbyte : byteAt (before ++ (hexNumber k ++ after)) before.length 0 = some k :=
    (isByte_hexNumber hlt).read before [] after rfl
  rw [readScriptElement, hbyte]
  dsimp only
  by_cases hzero : k = 0
  · rw [if_pos hzero]
  · rw [if_neg hzero, if_neg (by omega), if_neg (by omega), if_neg (by omega), if_neg (by omega)]

/-- A push with a header is read to its end. -/
theorem read_pushHeader {len : Nat} {data : HexText} (hpos : 0 < len) (hlt : len < 2 ^ 31)
    (hdata : data.length = 2 * len) (before after : HexText) :
    ∃ opcode, 1 ≤ opcode ∧ opcode ≤ 0x4e ∧
      readScriptElement (before ++ (pushHeader len ++ data ++ after)) (some before.length) =
        ⟨data, some (pushHeader len ++ data).length, some opcode⟩ := by
  have hcut (head : HexText) (start : Int) (chars : Int) (hstart : start = head.length)
      (hchars : chars = data.length) :
      slice (before ++ (head ++ data ++ after)) (before.length + start)
        (before.length + start + chars) = data := by
    have h := slice_append (before ++ head) data after
      (show (before.length : Int) + start = (before ++ head).length by
        rw [List.length_append, hstart]; rfl)
      (show (before.length : Int) + start + chars = (before ++ head).length + data.length by
        rw [List.length_append, hstart, hchars]; rfl)
    rwa [List.append_assoc, ← List.append_assoc head] at h
  have htwo {k : Nat} (hk : k < 256) : (hexNumber k).length = 2 := length_hexNumber_of_lt hk
  have hmod (k : Nat) : k % 256 < 256 := Nat.mod_lt _ (by decide)
  unfold pushHeader
  split
  · rename_i h
    have hbyte : byteAt (before ++ (hexNumber len ++ data ++ after)) before.length 0 =
        some len := by
      rw [List.append_assoc]
      exact (isByte_hexNumber (by omega)).read before [] (data ++ after) rfl
    refine ⟨len, hpos, by omega, ?_⟩
    rw [readScriptElement, hbyte]
    dsimp only
    rw [if_neg (by omega), if_pos ⟨hpos, h⟩,
      hcut (hexNumber len) 2 (len * 2) (by rw [htwo (by omega)]; rfl) (by omega),
      List.length_append, htwo (by omega), hdata]
    congr 2
    push_cast
    omega
  split
  · rename_i h
    have hlen : len < 256 := by omega
    have hfirst : byteAt (before ++ (['4', 'c'] ++ hexNumber len ++ data ++ after))
        before.length 0 = some 0x4c := by
      rw [List.append_assoc, List.append_assoc]
      exact (isByte_hexNumber (k := 0x4c) (by decide)).read before [] _ rfl
    have hsecond : byteAt (before ++ (['4', 'c'] ++ hexNumber len ++ data ++ after))
        before.length 2 = some len := by
      rw [List.append_assoc, List.append_assoc]
      exact (isByte_hexNumber hlen).read before ['4', 'c'] _ rfl
    refine ⟨0x4c, by decide, by decide, ?_⟩
    rw [readScriptElement, hfirst]
    dsimp only
    rw [if_neg (by decide), if_neg (by decide), if_pos rfl, hsecond]
    dsimp only
    have hhead : (['4', 'c'] ++ hexNumber len).length = 4 := by
      rw [List.length_append, htwo hlen]; rfl
    rw [hcut (['4', 'c'] ++ hexNumber len) 4 (len * 2) (by rw [hhead]; rfl) (by omega),
      List.length_append, hhead, hdata]
    congr 2
    push_cast
    omega
  split
  · rename_i h
    have hfirst : byteAt (before ++ (['4', 'd'] ++ hexNumber (len % 256) ++
        hexNumber (len / 256 % 256) ++ data ++ after)) before.length 0 = some 0x4d := by
      simp only [List.append_assoc]
      exact (isByte_hexNumber (k := 0x4d) (by decide)).read before [] _ rfl
    have hlo : byteAt (before ++ (['4', 'd'] ++ hexNumber (len % 256) ++
        hexNumber (len / 256 % 256) ++ data ++ after)) before.length 2 = some (len % 256) := by
      simp only [List.append_assoc]
      exact (isByte_hexNumber (hmod len)).read before ['4', 'd'] _ rfl
    have hhi : byteAt (before ++ (['4', 'd'] ++ hexNumber (len % 256) ++
        hexNumber (len / 256 % 256) ++ data ++ after)) before.length 4 =
        some (len / 256 % 256) := by
      have hread := (isByte_hexNumber (hmod (len / 256))).read before
        (['4', 'd'] ++ hexNumber (len % 256)) (data ++ after)
        (show (4 : Int) = (['4', 'd'] ++ hexNumber (len % 256)).length by
          rw [List.length_append, htwo (hmod len)]; rfl)
      simp only [List.append_assoc] at hread ⊢
      exact hread
    refine ⟨0x4d, by decide, by decide, ?_⟩
    rw [readScriptElement, hfirst]
    dsimp only
    rw [if_neg (by decide), if_neg (by decide), if_neg (by decide), if_pos rfl, hlo, hhi,
      Option.getD_some, Option.getD_some, or_shiftLeft 8 (hmod len)]
    have hhead :
        (['4', 'd'] ++ hexNumber (len % 256) ++ hexNumber (len / 256 % 256)).length = 6 := by
      rw [List.length_append, List.length_append, htwo (hmod len), htwo (hmod (len / 256))]; rfl
    have hsum : len % 256 + len / 256 % 256 * 2 ^ 8 = len := by omega
    rw [hsum, hcut (['4', 'd'] ++ hexNumber (len % 256) ++ hexNumber (len / 256 % 256)) 6 (len * 2)
      (by rw [hhead]; rfl) (by omega), List.length_append, hhead, hdata]
    congr 2
    push_cast
    omega
  · rename_i h
    have hhead : (['4', 'e'] ++ hexNumber (len % 256) ++ hexNumber (len / 256 % 256) ++
        hexNumber (len / 65536 % 256) ++ hexNumber (len / 16777216 % 256)).length = 10 := by
      simp only [List.length_append, htwo (hmod _)]; rfl
    have hfirst : byteAt (before ++ (['4', 'e'] ++ hexNumber (len % 256) ++
        hexNumber (len / 256 % 256) ++ hexNumber (len / 65536 % 256) ++
        hexNumber (len / 16777216 % 256) ++ data ++ after)) before.length 0 = some 0x4e := by
      simp only [List.append_assoc]
      exact (isByte_hexNumber (k := 0x4e) (by decide)).read before [] _ rfl
    have h0 : byteAt (before ++ (['4', 'e'] ++ hexNumber (len % 256) ++
        hexNumber (len / 256 % 256) ++ hexNumber (len / 65536 % 256) ++
        hexNumber (len / 16777216 % 256) ++ data ++ after)) before.length 2 =
        some (len % 256) := by
      simp only [List.append_assoc]
      exact (isByte_hexNumber (hmod len)).read before ['4', 'e'] _ rfl
    have h1 : byteAt (before ++ (['4', 'e'] ++ hexNumber (len % 256) ++
        hexNumber (len / 256 % 256) ++ hexNumber (len / 65536 % 256) ++
        hexNumber (len / 16777216 % 256) ++ data ++ after)) before.length 4 =
        some (len / 256 % 256) := by
      have hread := (isByte_hexNumber (hmod (len / 256))).read before
        (['4', 'e'] ++ hexNumber (len % 256)) (hexNumber (len / 65536 % 256) ++
          (hexNumber (len / 16777216 % 256) ++ (data ++ after)))
        (show (4 : Int) = (['4', 'e'] ++ hexNumber (len % 256)).length by
          simp only [List.length_append, htwo (hmod _)]; rfl)
      simp only [List.append_assoc] at hread ⊢
      exact hread
    have h2 : byteAt (before ++ (['4', 'e'] ++ hexNumber (len % 256) ++
        hexNumber (len / 256 % 256) ++ hexNumber (len / 65536 % 256) ++
        hexNumber (len / 16777216 % 256) ++ data ++ after)) before.length 6 =
        some (len / 65536 % 256) := by
      have hread := (isByte_hexNumber (hmod (len / 65536))).read before
        (['4', 'e'] ++ hexNumber (len % 256) ++ hexNumber (len / 256 % 256))
        (hexNumber (len / 16777216 % 256) ++ (data ++ after))
        (show (6 : Int) = (['4', 'e'] ++ hexNumber (len % 256) ++
            hexNumber (len / 256 % 256)).length by
          simp only [List.length_append, htwo (hmod _)]; rfl)
      simp only [List.append_assoc] at hread ⊢
      exact hread
    have h3 : byteAt (before ++ (['4', 'e'] ++ hexNumber (len % 256) ++
        hexNumber (len / 256 % 256) ++ hexNumber (len / 65536 % 256) ++
        hexNumber (len / 16777216 % 256) ++ data ++ after)) before.length 8 =
        some (len / 16777216 % 256) := by
      have hread := (isByte_hexNumber (hmod (len / 16777216))).read before
        (['4', 'e'] ++ hexNumber (len % 256) ++ hexNumber (len / 256 % 256) ++
          hexNumber (len / 65536 % 256)) (data ++ after)
        (show (8 : Int) = (['4', 'e'] ++ hexNumber (len % 256) ++
            hexNumber (len / 256 % 256) ++ hexNumber (len / 65536 % 256)).length by
          simp only [List.length_append, htwo (hmod _)]; rfl)
      simp only [List.append_assoc] at hread ⊢
      exact hread
    refine ⟨0x4e, by decide, by decide, ?_⟩
    rw [readScriptElement, hfirst]
    dsimp only
    rw [if_neg (by decide), if_neg (by decide), if_neg (by decide), if_neg (by decide), if_pos rfl,
      pushLen4, h0, h1, h2, h3, Option.getD_some, Option.getD_some, Option.getD_some,
      Option.getD_some, int32_bytes hlt, hcut _ 10 (len * 2) (by rw [hhead]; rfl) (by omega),
      List.length_append, hhead, hdata]
    congr 2
    push_cast
    omega

/-- A push with a header is one element. -/
theorem element_pushHeader {len : Nat} {data : HexText} (hpos : 0 < len) (hlt : len < 2 ^ 31)
    (hdata : data.length = 2 * len) : Element (pushHeader len ++ data) := by
  have hmod (k : Nat) : IsByte (hexNumber (k % 256)) (k % 256) :=
    isByte_hexNumber (Nat.mod_lt _ (by decide))
  have hhead (k : Nat) (hk : k < 256) : IsByte (hexNumber k) k := isByte_hexNumber hk
  unfold pushHeader
  split
  · exact .push (hhead len (by omega)) ⟨hpos, by omega⟩ hdata
  split
  · rw [List.append_assoc]
    exact .pushData1 (hhead 0x4c (by decide)) (hhead len (by omega)) hdata
  split
  · simp only [List.append_assoc]
    exact .pushData2 (hhead 0x4d (by decide)) (hmod len) (hmod (len / 256)) (by omega)
  · simp only [List.append_assoc]
    exact .pushData4 (hhead 0x4e (by decide)) (hmod len) (hmod (len / 256)) (hmod (len / 65536))
      (hmod (len / 16777216)) (by omega) (by omega)

/-! ## One argument -/

/-- A value read back is the argument, or a text of the same bytes. -/
inductive SameValue : JsValue → JsValue → Prop
  | refl (value : JsValue) : SameValue value value
  | bytes {text text' : HexText} {bytes : Bytes} (h : IsHexOf text bytes)
      (h' : IsHexOf text' bytes) : SameValue (.string text) (.string text')

/-- A value of a parameter's type.  A text has digits, and a number fits the memory. -/
structure WellTyped (type : FieldType) (value : JsValue) : Prop where
  typed : HasFieldType type value
  digits : ∀ text, value = .string text → ∃ bytes, IsHexOf text bytes
  short : ∀ n, value = .bigint n → (encodeNum n).length < 2 ^ 31

/-- The types whose values are read back: numbers, and byte strings.  A boolean is read as
a text, and so is a number of a Rabin type. -/
def ReadsBack : FieldType → Prop
  | .primitive .boolean => False
  | .primitive type => ¬ IsRabin type
  | .fixedArray _ _ => False

/-- Wherever the push of an argument stands, it is one element that gives the argument. -/
structure Recoverable (type : FieldType) (arg : JsValue) : Prop where
  element : Element (encodeArg arg)
  whole : (encodeArg arg).length % 2 = 0
  read : ∀ before after : HexText, ∃ dataHex opcode value,
    readScriptElement (before ++ (encodeArg arg ++ after)) (some before.length) =
        ⟨dataHex, some (encodeArg arg).length, opcode⟩ ∧
      interpretScriptElement opcode dataHex type = .ok value ∧ SameValue value arg

section Arguments

variable {type : FieldType} {arg value : JsValue}

/-- An argument with an opcode of its own. -/
theorem recoverable_opcode {k : Nat} (hencode : encodeArg arg = hexNumber k)
    (hk : k = 0 ∨ 0x4e < k) (hlt : k < 256) (hreturn : k ≠ 0x6a)
    (hvalue : interpretScriptElement (some k) [] type = .ok value) (hsame : SameValue value arg) :
    Recoverable type arg := by
  have htwo : (hexNumber k).length = 2 := length_hexNumber_of_lt hlt
  refine ⟨?_, ?_, fun before after => ⟨[], some k, value, ?_, hvalue, hsame⟩⟩
  · rw [hencode]
    exact .op (isByte_hexNumber hlt) hk hreturn
  · rw [hencode, htwo]
  · rw [hencode, htwo, read_opcode hk hlt]
    rfl

/-- An argument that is pushed as data. -/
theorem recoverable_push {len : Nat} {data : HexText}
    (hencode : encodeArg arg = pushHeader len ++ data) (hpos : 0 < len) (hlt : len < 2 ^ 31) (hdata : data.length = 2 * len)
    (hvalue : ∀ opcode, 1 ≤ opcode → opcode ≤ 0x4e →
      interpretScriptElement (some opcode) data type = .ok value)
    (hsame : SameValue value arg) : Recoverable type arg := by
  have hheader := headerBytes_pushHeader len data
  refine ⟨?_, ?_, fun before after => ?_⟩
  · rw [hencode]
    exact element_pushHeader hpos hlt hdata
  · rw [hencode, List.length_append]
    omega
  · obtain ⟨opcode, hlow, hhigh, hread⟩ := read_pushHeader hpos hlt hdata before after
    refine ⟨data, some opcode, value, ?_, hvalue opcode hlow hhigh, hsame⟩
    rw [hencode, hread]

theorem recoverable_bigint {n : Int} (hshort : (encodeNum n).length < 2 ^ 31) :
    Recoverable (.primitive .bigint) (.bigint n) := by
  by_cases hopcode : HasOpcode n
  · rcases hopcode with rfl | hsmall | rfl
    · exact recoverable_opcode (k := 0) rfl (.inl rfl) (by decide) (by decide) rfl (.refl _)
    · obtain ⟨k, rfl⟩ := Int.eq_ofNat_of_zero_le (by omega : 0 ≤ n)
      have hvalue : interpretScriptElement (some (0x50 + k)) [] (.primitive .bigint) =
          .ok (.bigint k) := by
        rw [interpretScriptElement, if_neg (by omega), if_pos (by omega), Nat.add_sub_cancel_left]
      exact recoverable_opcode (encodeScriptNumber_small hsmall) (.inr (by simp; omega))
        (by simp; omega) (by simp; omega) hvalue (.refl _)
    · exact recoverable_opcode (k := 0x4f) rfl (.inr (by decide)) (by decide) (by decide) rfl
        (.refl _)
  · obtain ⟨hpos, hencode⟩ := encodeScriptNumber_push hopcode
    refine recoverable_push hencode hpos hshort (length_toHex _) (fun opcode hlow hhigh => ?_)
      (.refl _)
    rw [interpretScriptElement, if_neg (by omega), if_neg (by omega), if_neg (by omega),
      decodeScriptNumber, decodeNum2Bin_toHex, decodeNum_encodeNum]
    rfl

/-- What an element of bytes is read as. -/
theorem interpret_bytes (hbigint : type ≠ .primitive .bigint) (opcode : Nat) (dataHex : HexText) :
    interpretScriptElement (some opcode) dataHex type =
      if 0x51 ≤ opcode ∧ opcode ≤ 0x60 then .ok (.string (hexNumber (opcode - 0x50)))
      else if opcode = 0x4f then .ok (.string ['8', '1'])
      else .ok (.string dataHex) := by
  unfold interpretScriptElement
  split
  · exact absurd rfl hbigint
  · rfl

theorem isHexOf_byte {high low : Char} {n : Nat} (h : IsByte [high, low] n) :
    IsHexOf [high, low] [n.toUInt8] := by
  obtain ⟨_, _, h, l, heq, hhigh, hlow, rfl⟩ := h
  obtain ⟨rfl, rfl⟩ : high = _ ∧ low = _ := by simpa using heq
  rw [IsHexOf, List.length_singleton, readBytes, hhigh, hlow]
  rfl

/-- The digits of a byte are those of the byte. -/
theorem isByte_of_isHexOf {high low : Char} {bytes : Bytes} (h : IsHexOf [high, low] bytes) :
    ∃ n, IsByte [high, low] n ∧ parseByte high low = some n := by
  have hlen := h.length_eq
  obtain ⟨b, rfl⟩ := List.length_eq_one_iff.mp (show bytes.length = 1 by
    simp only [List.length_cons, List.length_nil] at hlen
    omega)
  rw [IsHexOf, List.length_singleton, readBytes] at h
  cases hhigh : hexDigit? high with
  | none => rw [hhigh] at h; cases h
  | some a =>
    cases hlow : hexDigit? low with
    | none => rw [hhigh, hlow] at h; cases h
    | some c =>
      refine ⟨16 * a + c, ⟨high, low, a, c, rfl, hhigh, hlow, rfl⟩, ?_⟩
      rw [parseByte, hhigh, hlow]

theorem recoverable_text {text : HexText} {bytes : Bytes} (hbigint : type ≠ .primitive .bigint)
    (hhex : IsHexOf text bytes) (hlt : text.length < 2 ^ 32) :
    Recoverable type (.string text) := by
  have hlen := hhex.length_eq
  by_cases hnil : text = []
  · subst hnil
    have hvalue : interpretScriptElement (some 0) [] type = .ok (.string []) := by
      rw [interpret_bytes hbigint]
      rfl
    exact recoverable_opcode rfl (.inl rfl) (by decide) (by decide) hvalue (.bytes hhex hhex)
  by_cases hmin : ∃ high low push, text = [high, low] ∧
      (parseByte high low).bind minimalPush = some push
  · -- a byte with an opcode of its own comes back in lower case
    obtain ⟨high, low, push, rfl, hpush⟩ := hmin
    obtain ⟨n, hbyte, hparse⟩ := isByte_of_isHexOf hhex
    have hencode : encodeArg (.string [high, low]) = push := by
      show encodePushData [high, low] = push
      rw [encodePushData, hpush]
      rfl
    rw [hparse, Option.bind_some, minimalPush] at hpush
    have hsame (digits : HexText) (h : IsHexOf digits [n.toUInt8]) :
        SameValue (.string digits) (.string [high, low]) := .bytes h (isHexOf_byte hbyte)
    split at hpush
    · rename_i hrange
      obtain rfl := Option.some.inj hpush
      refine recoverable_opcode hencode (.inr (by omega)) (by omega) (by omega) ?_
        (hsame (hexNumber n) ?_)
      · rw [interpret_bytes hbigint, if_pos (by omega), Nat.add_sub_cancel_left]
      · obtain ⟨a, c, hdigits⟩ : ∃ a c, hexNumber n = [a, c] :=
          ⟨_, _, hexNumber_of_lt (by omega)⟩
        rw [hdigits]
        exact isHexOf_byte (hdigits ▸ isByte_hexNumber (by omega))
    · split at hpush
      · rename_i heq
        obtain rfl := Option.some.inj hpush
        subst heq
        refine recoverable_opcode (k := 0x4f) hencode (.inr (by decide)) (by decide) (by decide) ?_
          (hsame ['8', '1'] (isHexOf_byte (isByte_hexNumber (k := 0x81) (by decide))))
        rw [interpret_bytes hbigint]
        rfl
      · cases hpush
  · have hpos : 0 < text.length := List.length_pos_of_ne_nil hnil
    have hno : ∀ high low, text = [high, low] → (parseByte high low).bind minimalPush = none := by
      intro high low htext
      cases hpush : (parseByte high low).bind minimalPush with
      | none => rfl
      | some push => exact absurd ⟨high, low, push, htext, hpush⟩ hmin
    have hencode : encodeArg (.string text) = pushHeader (text.length / 2) ++ text := by
      show encodePushData text = _
      rw [encodePushData_eq hnil hno, encodePushDataState_eq (by omega)]
    refine recoverable_push hencode (by omega) (by omega) (by omega) (fun opcode hlow hhigh => ?_)
      (.bytes hhex hhex)
    rw [interpret_bytes hbigint, if_neg (by omega), if_neg (by omega)]

/-- A well-typed argument of a type that is read back can be recovered. -/
theorem WellTyped.recoverable (h : WellTyped type arg) (htype : ReadsBack type) :
    Recoverable type arg := by
  obtain ⟨htyped, hdigits, hshort⟩ := h
  cases type with
  | fixedArray _ _ => exact htype.elim
  | primitive type =>
    have htext (hbigint : type ≠ .bigint)
        (h : ∃ text, arg = .string text ∧ IsByteText (byteSize type) text) :
        Recoverable (.primitive type) arg := by
      obtain ⟨text, rfl, hbytes⟩ := h
      obtain ⟨bytes, hhex⟩ := hdigits text rfl
      refine recoverable_text (fun heq => hbigint ?_) hhex hbytes.length
      simpa using heq
    cases type with
    | bigint =>
      obtain ⟨n, rfl⟩ := htyped
      exact recoverable_bigint (hshort n rfl)
    | boolean => exact htype.elim
    | RabinSig => exact absurd (.inl rfl) htype
    | RabinPubKey => exact absurd (.inr rfl) htype
    | _ => exact htext (by decide) htyped

end Arguments

/-! ## The template with its slots filled in -/

section Walk

variable {artifact : RunarArtifact} {args : List JsValue}

/-- What replaces the placeholders of the slots. -/
def subsOf (args : List JsValue) (slots : List ConstructorSlot) : List Substitution :=
  slots.map fun slot => ⟨slot.byteOffset, encodeArg (argAt args slot.paramIndex), none⟩

/-- The template from a position on, its slots filled in. -/
def filledFrom (args : List JsValue) (pos : Nat) (rest : HexText) (slots : List ConstructorSlot) :
    HexText :=
  cutFilled (cutsFrom args pos rest (subsOf args slots)).1
    (cutsFrom args pos rest (subsOf args slots)).2

theorem filledFrom_nil (args : List JsValue) (pos : Nat) (rest : HexText) :
    filledFrom args pos rest [] = rest := rfl

theorem filledFrom_cons (args : List JsValue) (pos : Nat) (rest : HexText) (slot : ConstructorSlot)
    (slots : List ConstructorSlot) :
    filledFrom args pos rest (slot :: slots) =
      rest.take (2 * slot.byteOffset - pos) ++ (encodeArg (argAt args slot.paramIndex) ++
        filledFrom args (2 * slot.byteOffset + 2) (rest.drop (2 * slot.byteOffset - pos + 2))
          slots) := by
  have hfill (lead text : HexText) : (Cut.mk lead text none).fill = text := List.append_nil text
  rw [filledFrom, subsOf, List.map_cons, cutsFrom]
  dsimp only
  rw [cutFilled]
  exact congrArg (_ ++ ·) (congrArg (· ++ _) (hfill _ _))

theorem fit_subsOf (hwhole : ∀ slot ∈ artifact.constructorSlots,
      (encodeArg (argAt args slot.paramIndex)).length % 2 = 0) {slots : List ConstructorSlot}
    (hsub : ∀ slot ∈ slots, slot ∈ artifact.constructorSlots) :
    ∀ sub ∈ subsOf args slots, Fit args sub := by
  intro sub hmem
  obtain ⟨slot, hslot, rfl⟩ := List.mem_map.mp hmem
  exact ⟨hwhole slot (hsub slot hslot), fun _ _ h => (nomatch h)⟩

/-! ## The walk over the slots -/

/-- What the walk has found: the value of every parameter it has come to, and no other. -/
structure Found (artifact : RunarArtifact) (args : List JsValue) (st : Extraction) : Prop where
  assigned : ∀ i ∈ st.assigned, ∀ param, artifact.constructorParams[i]? = some param →
    ∃ value, st.result param.name = some value ∧ SameValue value (argAt args i)
  only : ∀ name value, st.result name = some value → ∃ i ∈ st.assigned, ∃ param,
    artifact.constructorParams[i]? = some param ∧ param.name = name

/-- Parameters of one name are one parameter. -/
theorem param_inj (hnames : (artifact.constructorParams.map (·.name)).Nodup) {i j : Nat}
    {p q : ABIParam} (hp : artifact.constructorParams[i]? = some p)
    (hq : artifact.constructorParams[j]? = some q) (hname : p.name = q.name) : i = j := by
  have hget : (artifact.constructorParams.map (·.name))[i]? =
      (artifact.constructorParams.map (·.name))[j]? := by
    rw [List.getElem?_map, List.getElem?_map, hp, hq, Option.map_some, Option.map_some, hname]
  obtain ⟨hlt, -⟩ := List.getElem?_eq_some_iff.mp hp
  exact (List.getElem?_inj (by rwa [List.length_map]) hnames).mp hget

theorem extractSlot_ok (hnames : (artifact.constructorParams.map (·.name)).Nodup)
    {codeHex before after : HexText} {st : Extraction} {slot : ConstructorSlot} {shift : Int}
    {param : ABIParam} (hparam : artifact.constructorParams[slot.paramIndex]? = some param)
    (hrec : Recoverable param.type (argAt args slot.paramIndex))
    (hcode : codeHex = before ++ (encodeArg (argAt args slot.paramIndex) ++ after))
    (hshift : st.cumulativeShift = some shift)
    (hplace : (slot.byteOffset + shift) * 2 = before.length) (hfound : Found artifact args st) :
    ∃ st', extractSlot artifact codeHex st slot = .ok st' ∧ Found artifact args st' ∧
      st'.cumulativeShift =
        some (shift + ((encodeArg (argAt args slot.paramIndex)).length / 2 - 1)) ∧
      ∀ i, i ∈ st'.assigned ↔ i = slot.paramIndex ∨ i ∈ st.assigned := by
  obtain ⟨dataHex, opcode, value, hread, hvalue, hsame⟩ := hrec.read before after
  have helem : readScriptElement codeHex
      (st.cumulativeShift.map fun shift => (slot.byteOffset + shift) * 2) =
      ⟨dataHex, some (encodeArg (argAt args slot.paramIndex)).length, opcode⟩ := by
    rw [hshift, Option.map_some, hplace, hcode, hread]
  by_cases hmem : slot.paramIndex ∈ st.assigned
  · refine ⟨⟨st.result, st.assigned,
        some (shift + ((encodeArg (argAt args slot.paramIndex)).length / 2 - 1))⟩, ?_,
      ⟨hfound.assigned, hfound.only⟩, rfl, fun i => ?_⟩
    · rw [extractSlot, helem, if_pos hmem, hshift]
      rfl
    · exact ⟨.inr, fun h => h.elim (fun heq => heq ▸ hmem) id⟩
  · refine ⟨{ result := st.result.set param.name value,
              assigned := slot.paramIndex :: st.assigned, cumulativeShift := _ },
      ?_, ⟨?_, ?_⟩, rfl, fun i => List.mem_cons⟩
    · rw [extractSlot, helem, if_neg hmem, hshift, hparam]
      dsimp only
      rw [hvalue]
      rfl
    · -- another parameter has another name
      intro i hi p hp
      by_cases heq : i = slot.paramIndex
      · subst heq
        obtain rfl := Option.some.inj (hparam.symm.trans hp)
        exact ⟨value, if_pos rfl, hsame⟩
      · obtain ⟨v, hv, hsame'⟩ := hfound.assigned i ((List.mem_cons.mp hi).resolve_left heq) p hp
        refine ⟨v, ?_, hsame'⟩
        show (if p.name = param.name then some value else st.result p.name) = some v
        rw [if_neg fun hname => heq (param_inj hnames hp hparam hname), hv]
    · intro name v hv
      change (if name = param.name then some value else st.result name) = some v at hv
      split at hv
      · rename_i hname
        exact ⟨slot.paramIndex, List.mem_cons_self, param, hparam, hname.symm⟩
      · obtain ⟨i, hi, p, hp, hpname⟩ := hfound.only name v hv
        exact ⟨i, List.mem_cons_of_mem _ hi, p, hp, hpname⟩

/-- Each slot's parameter can be recovered. -/
def SlotsRecoverable (artifact : RunarArtifact) (args : List JsValue)
    (slots : List ConstructorSlot) : Prop :=
  ∀ slot ∈ slots, ∃ param, artifact.constructorParams[slot.paramIndex]? = some param ∧
    Recoverable param.type (argAt args slot.paramIndex)

/-- The walk stays in step with the code, and finds the parameters of the slots. -/
theorem extractSlots_ok (hnames : (artifact.constructorParams.map (·.name)).Nodup)
    {codeHex rest : HexText} (before : HexText) {pos : Nat} {slots : List ConstructorSlot}
    (shift : Int) (st : Extraction) (hslots : SlotsRecoverable artifact args slots)
    (halign : Aligned pos rest (subsOf args slots))
    (hcode : codeHex = before ++ filledFrom args pos rest slots)
    (hshift : st.cumulativeShift = some shift) (hplace : before.length = pos + 2 * shift)
    (hfound : Found artifact args st) :
    ∃ st', extractSlots artifact codeHex slots st = .ok st' ∧ Found artifact args st' ∧
      ∀ i, i ∈ st'.assigned ↔ (∃ slot ∈ slots, slot.paramIndex = i) ∨ i ∈ st.assigned := by
  induction slots generalizing before rest pos st shift with
  | nil =>
    refine ⟨st, rfl, hfound, fun i => ⟨.inr, fun h => h.elim (fun hnone => ?_) id⟩⟩
    obtain ⟨_, hmem, -⟩ := hnone
    exact (List.not_mem_nil hmem).elim
  | cons slot slots ih =>
    obtain ⟨⟨param, hparam, hrec⟩, hrestSlots⟩ := List.forall_mem_cons.mp hslots
    have hhead := halign.head
    have htail := halign.tail
    have hafter := halign.after _ List.mem_cons_self
    dsimp only at hhead htail hafter
    obtain ⟨-, hlead⟩ := hhead
    have hwhole := hrec.whole
    rw [filledFrom_cons, ← List.append_assoc] at hcode
    obtain ⟨st₁, hstep, hfound₁, hshift₁, hassigned₁⟩ :=
      extractSlot_ok hnames hparam hrec hcode hshift
      (by rw [List.length_append, hlead]; push_cast; omega) hfound
    rw [← List.append_assoc] at hcode
    obtain ⟨st₂, hrun, hfound₂, hassigned₂⟩ := ih _ _ _ hrestSlots htail hcode hshift₁
      (by simp only [List.length_append, hlead]; push_cast; omega) hfound₁
    refine ⟨st₂, ?_, hfound₂, fun i => ?_⟩
    · rw [extractSlots, hstep]
      exact hrun
    · rw [hassigned₂, hassigned₁]
      constructor
      · rintro (⟨s, hs, rfl⟩ | rfl | h)
        · exact .inl ⟨s, List.mem_cons_of_mem _ hs, rfl⟩
        · exact .inl ⟨slot, List.mem_cons_self, rfl⟩
        · exact .inr h
      · rintro (⟨s, hs, rfl⟩ | h)
        · rcases List.mem_cons.mp hs with rfl | hs
          · exact .inr (.inl rfl)
          · exact .inl ⟨s, hs, rfl⟩
        · exact .inr (.inr h)

/-! ## The texts between the slots -/

theorem distinctOffsets_eq {slots : List ConstructorSlot} {seen : List Nat}
    (hsorted : slots.Pairwise fun a b => a.byteOffset < b.byteOffset)
    (hseen : ∀ slot ∈ slots, slot.byteOffset ∉ seen) : distinctOffsets slots seen = slots := by
  induction slots generalizing seen with
  | nil => rfl
  | cons slot slots ih =>
    obtain ⟨hhead, hsorted⟩ := List.pairwise_cons.mp hsorted
    rw [distinctOffsets, if_neg (hseen slot List.mem_cons_self), ih hsorted]
    intro other hother hmem
    rcases List.mem_cons.mp hmem with heq | hmem
    · exact absurd heq (Nat.ne_of_gt (hhead other hother))
    · exact hseen other (List.mem_cons_of_mem _ hother) hmem

/-- The texts between the slots are those of the template. -/
theorem matchSlots_ok {template codeHex rest : HexText} (front before : HexText) {pos : Nat}
    {slots : List ConstructorSlot} (hslots : SlotsRecoverable artifact args slots)
    (halign : Aligned pos rest (subsOf args slots)) (htemplate : template = front ++ rest)
    (hfront : front.length = pos) (hcode : codeHex = before ++ filledFrom args pos rest slots) :
    matchSlots template codeHex slots pos (some before.length) = true := by
  induction slots generalizing front before rest pos with
  | nil =>
    have hrest : sliceFrom codeHex (some before.length) = rest := by
      have h := slice_append before rest [] rfl rfl
      rw [List.append_nil] at h
      rw [filledFrom_nil] at hcode
      rw [sliceFrom, hcode, List.length_append]
      exact_mod_cast h
    rw [matchSlots, hrest, htemplate, ← hfront, List.drop_left]
    exact decide_eq_true rfl
  | cons slot slots ih =>
    obtain ⟨⟨param, -, hrec⟩, hrestSlots⟩ := List.forall_mem_cons.mp hslots
    have hhead := halign.head
    have htail := halign.tail
    have hafter := halign.after _ List.mem_cons_self
    dsimp only at hhead htail hafter
    obtain ⟨hrest, hlead⟩ := hhead
    rw [filledFrom_cons] at hcode
    have hsegment : slice template pos ((slot.byteOffset * 2 : Nat) : Int) =
        rest.take (2 * slot.byteOffset - pos) := by
      rw [htemplate]
      conv_lhs => rw [hrest]
      refine slice_append front _ _ (by rw [hfront]) ?_
      rw [List.length_take_of_le (by rw [← hlead]; exact List.length_take_le' _ _), hfront]
      push_cast
      omega
    have hcodeSegment : sliceAt codeHex (rest.take (2 * slot.byteOffset - pos)).length
        (some before.length) = rest.take (2 * slot.byteOffset - pos) := by
      rw [sliceAt, hcode]
      exact slice_append before _ _ rfl rfl
    rw [← List.append_assoc] at hcode
    obtain ⟨dataHex, opcode, value, hread, -, -⟩ :=
      hrec.read (before ++ rest.take (2 * slot.byteOffset - pos))
        (filledFrom args (2 * slot.byteOffset + 2) (rest.drop (2 * slot.byteOffset - pos + 2))
          slots)
    rw [← hcode] at hread
    have helem : (before.length : Int) + (rest.take (2 * slot.byteOffset - pos)).length =
        (before ++ rest.take (2 * slot.byteOffset - pos)).length := by
      rw [List.length_append]
      rfl
    rw [matchSlots]
    dsimp only
    rw [hsegment, if_neg (not_not_intro hcodeSegment.symm), Option.map_some, helem, hread,
      Option.bind_some, Option.map_some]
    have hnext : ((before ++ rest.take (2 * slot.byteOffset - pos)).length : Int) +
        (encodeArg (argAt args slot.paramIndex)).length =
        (before ++ rest.take (2 * slot.byteOffset - pos) ++
          encodeArg (argAt args slot.paramIndex)).length := by
      exact_mod_cast List.length_append.symm
    have htwice : slot.byteOffset * 2 + 2 = 2 * slot.byteOffset + 2 := by omega
    rw [hnext, htwice]
    rw [← List.append_assoc] at hcode
    refine ih (front ++ rest.take (2 * slot.byteOffset - pos) ++ ['0', '0']) _ hrestSlots htail
      ?_ ?_ hcode
    · rw [List.append_assoc, List.append_assoc, ← hrest, htemplate]
    · rw [List.length_append, List.length_append, hfront, hlead]
      show pos + _ + 2 = _
      omega

end Walk

/-! ## The code of a deployed script -/

/-- The SDK fills the slots in, whatever order they are listed in. -/
theorem buildCodeScript_filled {artifact : RunarArtifact} {args : List JsValue}
    (hslots : artifact.constructorSlots ≠ []) (hseps : artifact.codeSepIndexSlots = [])
    (halign : Aligned 0 artifact.script (subsOf args (slotsAscending artifact)))
    (hfit : ∀ sub ∈ subsOf args (slotsAscending artifact), Fit args sub) :
    buildCodeScript artifact args =
      filledFrom args 0 artifact.script (slotsAscending artifact) := by
  obtain ⟨hblanked, hholes⟩ := cuts_template halign hfit
  have hsubs : substitutions artifact args = artifact.constructorSlots.map fun slot =>
      (slot.byteOffset, encodeArg (argAt args slot.paramIndex)) := by
    rw [substitutions, resolvedCodeSepSlotValues, hseps, List.mergeSort_nil]
    exact List.append_nil _
  have hperm : ((substitutions artifact args).map fun sub => (2 * sub.1, sub.2)).Perm
      (holesFrom Artifact.placeholder 0 (cutSegments
        (cutsFrom args 0 artifact.script (subsOf args (slotsAscending artifact))).1
        (cutsFrom args 0 artifact.script (subsOf args (slotsAscending artifact))).2)) := by
    rw [hholes, hsubs, subsOf, List.map_map, List.map_map]
    exact ((List.mergeSort_perm _ _).map _).symm
  have hsort : ((substitutions artifact args).mergeSort (·.1 ≥ ·.1)).map
      (fun sub => (2 * sub.1, sub.2)) =
      ((substitutions artifact args).map fun sub => (2 * sub.1, sub.2)).mergeSort
        (·.1 ≥ ·.1) := by
    refine List.map_mergeSort fun a _ b _ => ?_
    exact decide_eq_decide.mpr (by omega)
  have hfill := foldl_replaceBlank_sorted (List.cons_ne_nil '0' ['0']) _ hperm
  rw [filled_cutSegments, ← hsort, List.foldl_map] at hfill
  change List.foldl _ (blanked Artifact.placeholder _) _ = _ at hfill
  rw [hblanked] at hfill
  rw [buildCodeScript, if_pos (.inl hslots)]
  exact hfill

/-- Whole opcodes and pushes, none of them an OP_RETURN. -/
def IsCode (text : HexText) : Prop :=
  ∃ elements : List HexText, (∀ e ∈ elements, Element e) ∧ text = elements.flatten

theorem IsCode.append {text text' : HexText} (h : IsCode text) (h' : IsCode text') :
    IsCode (text ++ text') := by
  obtain ⟨elements, helements, rfl⟩ := h
  obtain ⟨elements', helements', rfl⟩ := h'
  exact ⟨elements ++ elements', List.forall_mem_append.mpr ⟨helements, helements'⟩,
    List.flatten_append.symm⟩

theorem IsCode.of_element {text : HexText} (h : Element text) : IsCode text :=
  ⟨[text], List.forall_mem_singleton.mpr h, (List.append_nil text).symm⟩

/-- The template has whole opcodes and pushes between its slots. -/
def WholeBetween : Nat → HexText → List ConstructorSlot → Prop
  | _, rest, [] => IsCode rest
  | pos, rest, slot :: slots =>
      IsCode (rest.take (2 * slot.byteOffset - pos)) ∧
        WholeBetween (2 * slot.byteOffset + 2) (rest.drop (2 * slot.byteOffset - pos + 2)) slots

theorem isCode_filledFrom {artifact : RunarArtifact} {args : List JsValue} {pos : Nat}
    {rest : HexText} {slots : List ConstructorSlot} (hslots : SlotsRecoverable artifact args slots)
    (hwhole : WholeBetween pos rest slots) : IsCode (filledFrom args pos rest slots) := by
  induction slots generalizing pos rest with
  | nil => exact hwhole
  | cons slot slots ih =>
    obtain ⟨⟨param, -, hrec⟩, hrestSlots⟩ := List.forall_mem_cons.mp hslots
    rw [filledFrom_cons]
    exact hwhole.1.append ((IsCode.of_element hrec.element).append (ih hrestSlots hwhole.2))

/-- The code of a script is found before its state, and where there is none. -/
theorem codeHexOf_code {artifact : RunarArtifact} {code script state : HexText}
    (hcode : artifact.stateFields ≠ [] → IsCode code)
    (hscript : script = code ∨ artifact.stateFields ≠ [] ∧ script = code ++ ['6', 'a'] ++ state) :
    ∃ fuel, codeHexOf fuel artifact script = some code := by
  by_cases hfields : artifact.stateFields = []
  · refine ⟨0, ?_⟩
    rw [codeHexOf, if_pos hfields, hscript.resolve_right fun h => h.1 hfields]
  · obtain ⟨elements, helements, rfl⟩ := hcode hfields
    refine ⟨elements.length + 1, ?_⟩
    rw [codeHexOf, if_neg hfields]
    rcases hscript with rfl | ⟨-, rfl⟩
    · have hwalk := walk_elements_end helements []
      rw [List.nil_append] at hwalk
      change walkOpReturn _ _ 0 = _ at hwalk
      rw [hwalk]
      rfl
    · have hwalk := walk_elements helements (isByte_hexNumber (k := 0x6a) (by decide)) [] state
      rw [List.nil_append, ← List.append_assoc] at hwalk
      change walkOpReturn (elements.flatten ++ ['6', 'a'] ++ state) _ 0 = _ at hwalk
      have hcut : slice ([] ++ (elements.flatten ++ (['6', 'a'] ++ state))) 0
          elements.flatten.length = elements.flatten :=
        slice_append [] elements.flatten (['6', 'a'] ++ state) rfl (by simp)
      rw [List.nil_append, ← List.append_assoc] at hcut
      have hfound : ((elements.flatten.length : Nat) : Int) ≠ -1 := by omega
      rw [hwalk, Option.map_some, List.nil_append, if_pos hfound, hcut]

/-! ## Deployment -/

/-- `script` is the locking script of a new contract. -/
def Deploys (tools : Toolbox) (artifact : RunarArtifact) (args : List JsValue)
    (script : HexText) : Prop :=
  ∃ self, newRunarContract artifact args = .ok self ∧ getLockingScript tools self = .ok script

/-- The compiler's promises: every slot is a placeholder of the template, at an offset of its
own and for a parameter, parameters have names of their own, and a contract with state has no
OP_RETURN in its code. -/
structure Placed (artifact : RunarArtifact) : Prop where
  apart : (artifact.constructorSlots.map (·.byteOffset)).Nodup
  blank : ∀ slot ∈ artifact.constructorSlots,
    (artifact.script.drop (2 * slot.byteOffset)).take 2 = ['0', '0']
  params : ∀ slot ∈ artifact.constructorSlots,
    slot.paramIndex < artifact.constructorParams.length
  names : (artifact.constructorParams.map (·.name)).Nodup
  whole : artifact.stateFields ≠ [] → WholeBetween 0 artifact.script (slotsAscending artifact)

/-- From the script the arguments of the wanted parameters are recovered, and no others, and
the script is recognised. -/
def Recovers (artifact : RunarArtifact) (args : List JsValue) (script : HexText)
    (Wanted : Nat → Prop) : Prop :=
  ∃ fuel result, extractConstructorArgs fuel artifact script = some (.ok result) ∧
    (∀ i param, Wanted i → artifact.constructorParams[i]? = some param →
      ∃ value, result param.name = some value ∧ SameValue value (argAt args i)) ∧
    (∀ name value, result name = some value →
      ∃ i param, Wanted i ∧ artifact.constructorParams[i]? = some param ∧ param.name = name) ∧
    matchesArtifact fuel artifact script = some true

section Deployment

variable {tools : Toolbox} {artifact : RunarArtifact} {args : List JsValue} {script : HexText}

/-- The parts of a deployed script. -/
theorem Deploys.parts (h : Deploys tools artifact args script) :
    ∃ state, script = buildCodeScript artifact args ∨
      artifact.stateFields ≠ [] ∧
        script = buildCodeScript artifact args ++ ['6', 'a'] ++ state := by
  obtain ⟨self, hself, hscript⟩ := h
  rw [newRunarContract] at hself
  split at hself
  · exact nomatch hself
  obtain rfl := Except.ok.inj hself
  rw [getLockingScript] at hscript
  dsimp only [envelopeOf] at hscript
  rw [Option.map_none, Option.getD_none, List.append_nil] at hscript
  split at hscript
  · exact ⟨[], .inl (Except.ok.inj hscript).symm⟩
  · rename_i hfields
    cases hstate : tools.serializeState artifact.stateFields
        (initialState artifact.constructorParams artifact.stateFields args) with
    | error e => rw [hstate] at hscript; exact nomatch hscript
    | ok state =>
      rw [hstate] at hscript
      have hscript := Except.ok.inj hscript
      refine ⟨state, ?_⟩
      split at hscript
      · exact .inl hscript.symm
      · exact .inr ⟨hfields, hscript.symm⟩

theorem slotsRecoverable (hplaced : Placed artifact)
    (htyped : List.Forall₂ (fun param value => WellTyped param.type value)
      artifact.constructorParams args)
    (htypes : ∀ slot ∈ artifact.constructorSlots, ∀ param,
      artifact.constructorParams[slot.paramIndex]? = some param → ReadsBack param.type) :
    SlotsRecoverable artifact args artifact.constructorSlots := by
  intro slot hslot
  have hlt := hplaced.params slot hslot
  have hlt' : slot.paramIndex < args.length := htyped.length_eq ▸ hlt
  have hparam := List.getElem?_eq_getElem hlt
  refine ⟨_, hparam, WellTyped.recoverable ?_ (htypes slot hslot _ hparam)⟩
  have harg : argAt args slot.paramIndex = args[slot.paramIndex] := by
    rw [argAt, List.getElem?_eq_getElem hlt']
    rfl
  rw [harg]
  exact htyped.get hlt hlt'

end Deployment

/-! ## A parameter the code does not use -/

/-- A contract of two numbers whose code compares with the first. -/
def pairArtifact : RunarArtifact where
  contractName := "Pair"
  parentClass := some "SmartContract"
  constructorParams := [⟨"a", .primitive .bigint⟩, ⟨"b", .primitive .bigint⟩]
  methods := [⟨"unlock", [⟨"x", .primitive .bigint⟩], true, none, none⟩]
  script := "009c".toList
  stateFields := []
  constructorSlots := [⟨0, 0⟩]
  codeSepIndexSlots := []
  codeSeparatorIndex := none
  codeSeparatorIndices := none
  anf := none

theorem placed_pairArtifact : Placed pairArtifact where
  apart := by decide
  blank := by decide
  params := by decide
  names := by decide
  whole h := absurd rfl h

def pairArgs : List JsValue := [.bigint 5, .bigint 6]

theorem wellTyped_pairArgs : List.Forall₂ (fun param value => WellTyped param.type value)
    pairArtifact.constructorParams pairArgs := by
  have hnumber (n : Int) (hn : (encodeNum n).length < 2 ^ 31) :
      WellTyped (.primitive .bigint) (.bigint n) :=
    ⟨⟨n, rfl⟩, fun _ h => (nomatch h), fun m hm => by
      obtain rfl : n = m := by simpa using hm
      exact hn⟩
  exact .cons (hnumber 5 (by decide)) (.cons (hnumber 6 (by decide)) .nil)

theorem buildCodeScript_pair : buildCodeScript pairArtifact pairArgs = "559c".toList := by
  have hsubs : substitutions pairArtifact pairArgs = [(0, ['5', '5'])] := by
    rw [substitutions, resolvedCodeSepSlotValues]
    simp only [pairArtifact, List.mergeSort_nil]
    decide
  rw [buildCodeScript, if_pos (.inl (List.cons_ne_nil _ _)), hsubs, List.mergeSort_singleton]
  decide

theorem deploys_pair : Deploys counterTools pairArtifact pairArgs "559c".toList := by
  refine ⟨_, rfl, ?_⟩
  rw [getLockingScript]
  dsimp only [envelopeOf]
  rw [buildCodeScript_pair]
  rfl

end Runar.Sdk
