/-
  Sdk/StateRoundTrip.lean --- what is read back is what was written.

  WHAT THIS FILE IS FOR.  The writer and the reader of the state section keep offsets of
  their own.  A scalar is read back from wherever it was written, whatever stands before
  and after it, and this composes over the elements of an array and over the fields.
  A bigint field is a word of eight bytes: a number that does not fit is refused.
-/
import Runar.Sdk.SlotLayout
import Runar.Sdk.StateCodec

set_option autoImplicit false

namespace Runar.Sdk.Codec

open Script Artifact

/-! ## Values of a type -/

/-- How many bytes the values of a byte string type have, where the type says so. -/
def byteSize : PrimitiveType → Option Nat
  | .PubKey => some 33
  | .Addr | .Ripemd160 => some 20
  | .Sha256 => some 32
  | .Point | .P256Point => some 64
  | .P384Point => some 96
  | _ => none

/-- A byte string: two characters a byte.  No text of JavaScript is as long as 2 ^ 32. -/
structure IsByteText (size : Option Nat) (text : HexText) : Prop where
  whole : text.length % 2 = 0
  length : text.length < 2 ^ 32
  sized : ∀ n ∈ size, text.length = 2 * n

/-- A value of a scalar type. -/
def HasType : PrimitiveType → JsValue → Prop
  | .bigint, value | .RabinSig, value | .RabinPubKey, value => ∃ n, value = .bigint n
  | .boolean, value => ∃ b, value = .boolean b
  | type, value => ∃ text, value = .string text ∧ IsByteText (byteSize type) text

/-- A value of a field's type: an array of the given length at each level. -/
def HasFieldType : FieldType → JsValue → Prop
  | .primitive type, value => HasType type value
  | .fixedArray elementType length, value =>
      ∃ elements, value = .array elements ∧ elements.length = length ∧
        ∀ element ∈ elements, HasFieldType elementType element

/-- A number fits the word of a bigint field. -/
def InRange (type : PrimitiveType) (value : JsValue) : Prop :=
  type = .bigint → ∀ n, value = .bigint n → Fits 8 n

/-- The types whose values are framed as decimal text. -/
def IsRabin (type : PrimitiveType) : Prop := type = .RabinSig ∨ type = .RabinPubKey

/-! ## Texts -/

section Texts

theorem parseByte_hexNumber (b : UInt8) :
    ∃ high low, hexNumber b.toNat = [high, low] ∧ parseByte high low = some b.toNat := by
  have hb : b.toNat < 256 := b.toNat_lt
  refine ⟨_, _, hexNumber_of_lt hb, ?_⟩
  rw [parseByte, hexDigit?_digitChar (by omega), hexDigit?_digitChar (by omega)]
  exact congrArg some (by omega)

theorem textBytes_toHex (bytes : Bytes) :
    textBytes (toHex bytes) = bytes.map fun b => some b.toNat := by
  induction bytes with
  | nil => rfl
  | cons b bytes ih =>
    obtain ⟨high, low, htext, hparse⟩ := parseByte_hexNumber b
    rw [toHex_cons, htext, List.map_cons, ← ih, ← hparse]
    rfl

/-- The bytes of a number, from the last down. -/
theorem foldlM_bytes (bytes : Bytes) (start : Nat) :
    (bytes.reverse.map fun b => some b.toNat).foldlM
        (fun result byte => byte.map fun b => result <<< 8 ||| b) start =
      some (leNat bytes + 256 ^ bytes.length * start) := by
  induction bytes generalizing start with
  | nil => simp
  | cons b bytes ih =>
    rw [List.reverse_cons, List.map_append, List.foldlM_append, ih]
    have hor : (leNat bytes + 256 ^ bytes.length * start) <<< 8 ||| b.toNat =
        b.toNat + 256 * (leNat bytes + 256 ^ bytes.length * start) := by
      rw [← Nat.shiftLeft_add_eq_or_of_lt (i := 8) b.toNat_lt, Nat.shiftLeft_eq]
      omega
    rw [leNat_cons, List.length_cons, Nat.pow_succ']
    show some ((leNat bytes + 256 ^ bytes.length * start) <<< 8 ||| b.toNat) = _
    rw [hor]
    congr 1
    ring

/-- The SDK reads a word as the script does. -/
theorem decodeNum2Bin_toHex (bytes : Bytes) :
    decodeNum2Bin (toHex bytes) = .ok (decodeNum bytes) := by
  rcases List.eq_nil_or_concat bytes with rfl | ⟨front, last, rfl⟩
  · rfl
  rw [List.concat_eq_append]
  have hlen : (front ++ [last]).length = front.length + 1 := List.length_append
  have hlow : ∀ b : Fin 256, b.val &&& 0x7f = b.val % 128 ∧
      (b.val &&& 0x80 ≠ 0 ↔ 128 ≤ b.val) := by decide +kernel
  obtain ⟨hlow, hsign⟩ := hlow ⟨last.toNat, last.toNat_lt⟩
  have hlast : last.toNat < 256 := last.toNat_lt
  have hfront := leNat_lt front
  have hpos : 0 < 256 ^ front.length := by positivity
  have hvalue : leNat (front ++ [last]) = leNat front + 256 ^ front.length * last.toNat := by
    rw [leNat_append, leNat_cons, leNat_nil, Nat.mul_zero, Nat.add_zero]
  have hrev : (textBytes (toHex (front ++ [last]))).reverse =
      some last.toNat :: front.reverse.map fun b => some b.toNat := by
    rw [textBytes_toHex, ← List.map_reverse, List.reverse_append]
    rfl
  unfold decodeNum2Bin
  rw [hrev]
  dsimp only
  rw [Option.getD_some, foldlM_bytes, decodeNum_of_length hlen, hvalue, signBit_succ, hlow]
  dsimp only
  by_cases hhigh : 128 ≤ last.toNat
  · obtain ⟨low, hlow⟩ := Nat.exists_eq_add_of_le hhigh
    have hmod : last.toNat % 128 = low := by omega
    have hproduct : 256 ^ front.length * last.toNat =
        128 * 256 ^ front.length + 256 ^ front.length * low := by
      rw [hlow]
      ring
    have hge : ¬ leNat front + 256 ^ front.length * last.toNat < 128 * 256 ^ front.length := by
      omega
    have hsub : leNat front + 256 ^ front.length * last.toNat - 128 * 256 ^ front.length =
        leNat front + 256 ^ front.length * low := by omega
    rw [if_neg hge, hsub, hmod, if_pos (hsign.mpr hhigh)]
    split
    · rename_i hzero
      rw [hzero]
      rfl
    · rfl
  · have hmod : last.toNat % 128 = last.toNat := Nat.mod_eq_of_lt (by omega)
    have hlt : leNat front + 256 ^ front.length * last.toNat < 128 * 256 ^ front.length := by
      have hle : 256 ^ front.length * last.toNat ≤ 256 ^ front.length * 127 :=
        Nat.mul_le_mul_left _ (by omega)
      omega
    rw [if_pos hlt, hmod, if_neg (mt hsign.mp hhigh)]
    split
    · rename_i hzero
      rw [hzero]
      rfl
    · rfl

/-- A part of a text that stands after a known part. -/
theorem slice_append (before text after : HexText) {start stop : Int}
    (hstart : start = before.length) (hstop : stop = before.length + text.length) :
    slice (before ++ (text ++ after)) start stop = text := by
  subst hstart hstop
  have hplace : ∀ n : Nat, ¬ (n : Int) < 0 := by omega
  rw [slice]
  dsimp only
  rw [if_neg (hplace _), if_neg (by omega), Int.toNat_natCast]
  have hlen : ((before.length : Int) + text.length).toNat - before.length = text.length := by omega
  rw [hlen, List.drop_left, List.take_left]

/-- The byte of a number that stands some characters after an offset. -/
theorem byteAt_append (before lead : HexText) {k : Nat} (h : k < 256) (after : HexText)
    {place : Int} (hplace : place = lead.length) :
    byteAt (before ++ (lead ++ (hexNumber k ++ after))) before.length place = some k := by
  subst hplace
  have hslice := slice_append (before ++ lead) (hexNumber k) after
    (show (before.length : Int) + lead.length = (before ++ lead).length by
      rw [List.length_append]; rfl)
    (show (before.length : Int) + lead.length + 2 = (before ++ lead).length +
      (hexNumber k).length by rw [List.length_append, length_hexNumber_of_lt h]; rfl)
  rw [List.append_assoc] at hslice
  rw [byteAt, hslice, hexNumber_of_lt h]
  show parseByte _ _ = _
  rw [parseByte, hexDigit?_digitChar (by omega), hexDigit?_digitChar (by omega)]
  exact congrArg some (Nat.div_add_mod k 16)

theorem byteAt_zero (before : HexText) {k : Nat} (h : k < 256) (after : HexText) :
    byteAt (before ++ (hexNumber k ++ after)) before.length 0 = some k :=
  byteAt_append before [] h after rfl

end Texts

/-! ## One value -/

/-- A value is read back from wherever its text was written. -/
structure ReadsBack (type : PrimitiveType) (value : JsValue) (text : HexText) : Prop where
  whole : text.length % 2 = 0
  read : ∀ before after label,
    decodeStateValue (before ++ (text ++ after)) before.length type label =
      .ok (value, text.length)

section Scalars

theorem need_ok {hex : HexText} {offset chars : Int} (h : offset + chars ≤ hex.length)
    (label what : String) : need hex offset label chars what = .ok () :=
  if_neg (by omega)

/-- The payload of a push, past its header. -/
theorem payload_append (before header text after : HexText) (label what : String)
    {start dataLen : Int} (hstart : start = header.length) (hlen : dataLen = text.length) :
    payload (before ++ (header ++ (text ++ after))) before.length label start dataLen what =
      .ok (text, ((header ++ text).length : Nat)) := by
  subst hstart hlen
  have hslice := slice_append (before ++ header) text after
    (show (before.length : Int) + header.length = (before ++ header).length by
      rw [List.length_append]; rfl)
    (show (before.length : Int) + header.length + text.length =
      (before ++ header).length + text.length by rw [List.length_append]; rfl)
  rw [List.append_assoc] at hslice
  unfold payload
  rw [need_ok (by simp only [List.length_append]; push_cast; omega), ok_bind, hslice,
    List.length_append]
  rfl

/-- Bytes joined to a word are their sum. -/
theorem or_shiftLeft {low high : Nat} (k : Nat) (h : low < 2 ^ k) :
    low ||| high <<< k = low + high * 2 ^ k := by
  rw [Nat.or_comm, ← Nat.shiftLeft_add_eq_or_of_lt h, Nat.shiftLeft_eq, Nat.add_comm]

theorem int32_bytes {n : Nat} (h : n < 2 ^ 31) :
    int32 (n % 256) (n / 256 % 256) (n / 65536 % 256) (n / 16777216 % 256) = n := by
  have htwo : n % 256 ||| (n / 256 % 256) <<< 8 = n % 65536 := by
    rw [or_shiftLeft 8 (by omega)]
    omega
  have hthree : n % 65536 ||| (n / 65536 % 256) <<< 16 = n % 16777216 := by
    rw [or_shiftLeft 16 (by omega)]
    omega
  have hfour : n % 16777216 ||| (n / 16777216 % 256) <<< 24 = n := by
    rw [or_shiftLeft 24 (by omega)]
    omega
  unfold int32
  rw [htwo, hthree, hfour]
  exact if_pos h

section Framed

variable {n : Nat} {text : HexText} (hchars : text.length = 2 * n) (before after : HexText)
  (label : String)

include hchars

theorem decode_direct (h : n ≤ 75) :
    decodePushData (before ++ (hexNumber n ++ (text ++ after))) before.length label =
      .ok (text, ((hexNumber n ++ text).length : Nat)) := by
  have hhead : (hexNumber n).length = 2 := length_hexNumber_of_lt (by omega)
  have hopcode : byteAt (before ++ (hexNumber n ++ (text ++ after))) before.length 0 = some n :=
    byteAt_zero before (by omega) (text ++ after)
  unfold decodePushData
  rw [need_ok (by simp only [List.length_append, hhead]; push_cast; omega), ok_bind, hopcode]
  dsimp only
  rw [if_pos h, payload_append before (hexNumber n) text after label _ (by rw [hhead]; rfl)
    (by omega)]

theorem decode_pushData1 (h : n < 256) :
    decodePushData (before ++ (hexNumber 0x4c ++ (hexNumber n ++ (text ++ after)))) before.length
        label = .ok (text, ((hexNumber 0x4c ++ hexNumber n ++ text).length : Nat)) := by
  have hcode : (hexNumber 0x4c).length = 2 := length_hexNumber_of_lt (by omega)
  have hhead : (hexNumber n).length = 2 := length_hexNumber_of_lt h
  have hopcode : byteAt (before ++ (hexNumber 0x4c ++ (hexNumber n ++ (text ++ after))))
      before.length 0 = some 0x4c :=
    byteAt_zero before (by decide) _
  have hlen := byteAt_append before (hexNumber 0x4c) h (text ++ after)
    (show (2 : Int) = (hexNumber 0x4c).length by rw [hcode]; rfl)
  have hpayload := payload_append before (hexNumber 0x4c ++ hexNumber n) text after label
    "OP_PUSHDATA1 payload" (show (4 : Int) = _ by rw [List.length_append, hcode, hhead]; rfl)
    (show (n : Int) * 2 = text.length by omega)
  rw [List.append_assoc] at hpayload
  have hneed : ∀ chars : Int, chars ≤ 4 → ∀ what : String,
      need (before ++ (hexNumber 0x4c ++ (hexNumber n ++ (text ++ after)))) before.length label
        chars what = .ok () := by
    intro chars hle what
    refine need_ok ?_ label what
    simp only [List.length_append, hcode, hhead]
    push_cast
    omega
  unfold decodePushData
  rw [hneed 2 (by decide), ok_bind, hopcode]
  dsimp only
  rw [if_neg (show ¬ 0x4c ≤ 75 by decide), if_pos (Eq.refl 0x4c), hneed 4 (by decide), ok_bind,
    hlen]
  exact hpayload

theorem decode_pushData2 (h : n < 65536) :
    decodePushData (before ++ (hexNumber 0x4d ++ (hexNumber (n % 256) ++
        (hexNumber (n / 256 % 256) ++ (text ++ after))))) before.length label =
      .ok (text, ((hexNumber 0x4d ++ (hexNumber (n % 256) ++ hexNumber (n / 256 % 256)) ++
        text).length : Nat)) := by
  have hcode : ∀ k, k < 256 → (hexNumber k).length = 2 := fun k hk => length_hexNumber_of_lt hk
  have hopcode : byteAt (before ++ (hexNumber 0x4d ++ (hexNumber (n % 256) ++
      (hexNumber (n / 256 % 256) ++ (text ++ after))))) before.length 0 = some 0x4d :=
    byteAt_zero before (by decide) _
  have hlow := byteAt_append before (hexNumber 0x4d) (show n % 256 < 256 by omega)
    (hexNumber (n / 256 % 256) ++ (text ++ after))
    (show (2 : Int) = _ by rw [hcode _ (by omega)]; rfl)
  have hhigh := byteAt_append before (hexNumber 0x4d ++ hexNumber (n % 256))
    (show n / 256 % 256 < 256 by omega) (text ++ after)
    (show (4 : Int) = _ by
      rw [List.length_append, hcode _ (by omega), hcode _ (by omega)]; rfl)
  have hpayload := payload_append before
    (hexNumber 0x4d ++ (hexNumber (n % 256) ++ hexNumber (n / 256 % 256))) text after label
    "OP_PUSHDATA2 payload"
    (show (6 : Int) = _ by
      rw [List.length_append, List.length_append, hcode _ (by omega), hcode _ (by omega),
        hcode _ (by omega)]; rfl)
    (show (n : Int) * 2 = text.length by omega)
  simp only [List.append_assoc] at hhigh hpayload
  have hneed : ∀ chars : Int, chars ≤ 6 → ∀ what : String,
      need (before ++ (hexNumber 0x4d ++ (hexNumber (n % 256) ++ (hexNumber (n / 256 % 256) ++
        (text ++ after))))) before.length label chars what = .ok () := by
    intro chars hle what
    refine need_ok ?_ label what
    simp only [List.length_append, hcode _ (show 0x4d < 256 by omega),
      hcode _ (show n % 256 < 256 by omega), hcode _ (show n / 256 % 256 < 256 by omega)]
    push_cast
    omega
  have hword : n % 256 ||| (n / 256 % 256) <<< 8 = n := by
    rw [or_shiftLeft 8 (by omega)]
    omega
  unfold decodePushData
  rw [hneed 2 (by decide), ok_bind, hopcode]
  dsimp only
  rw [if_neg (show ¬ 0x4d ≤ 75 by decide), if_neg (show ¬ 0x4d = 0x4c by decide),
    if_pos (Eq.refl 0x4d), hneed 6 (by decide), ok_bind, hlow, hhigh, Option.getD_some,
    Option.getD_some, hword, hpayload]
  simp only [List.append_assoc]

theorem decode_pushData4 (h : n < 2 ^ 31) :
    decodePushData (before ++ (hexNumber 0x4e ++ (hexNumber (n % 256) ++
        (hexNumber (n / 256 % 256) ++ (hexNumber (n / 65536 % 256) ++
          (hexNumber (n / 16777216 % 256) ++ (text ++ after))))))) before.length label =
      .ok (text, ((hexNumber 0x4e ++ (hexNumber (n % 256) ++ (hexNumber (n / 256 % 256) ++
        (hexNumber (n / 65536 % 256) ++ hexNumber (n / 16777216 % 256)))) ++
        text).length : Nat)) := by
  have hcode : ∀ k, k < 256 → (hexNumber k).length = 2 := fun k hk => length_hexNumber_of_lt hk
  have hopcode : byteAt (before ++ (hexNumber 0x4e ++ (hexNumber (n % 256) ++
      (hexNumber (n / 256 % 256) ++ (hexNumber (n / 65536 % 256) ++
        (hexNumber (n / 16777216 % 256) ++ (text ++ after))))))) before.length 0 = some 0x4e :=
    byteAt_zero before (by decide) _
  have h0 := byteAt_append before (hexNumber 0x4e) (show n % 256 < 256 by omega)
    (hexNumber (n / 256 % 256) ++ (hexNumber (n / 65536 % 256) ++
      (hexNumber (n / 16777216 % 256) ++ (text ++ after))))
    (show (2 : Int) = _ by rw [hcode _ (by omega)]; rfl)
  have h1 := byteAt_append before (hexNumber 0x4e ++ hexNumber (n % 256))
    (show n / 256 % 256 < 256 by omega) (hexNumber (n / 65536 % 256) ++
      (hexNumber (n / 16777216 % 256) ++ (text ++ after)))
    (show (4 : Int) = _ by
      rw [List.length_append, hcode _ (by omega), hcode _ (by omega)]; rfl)
  have h2 := byteAt_append before
    (hexNumber 0x4e ++ (hexNumber (n % 256) ++ hexNumber (n / 256 % 256)))
    (show n / 65536 % 256 < 256 by omega) (hexNumber (n / 16777216 % 256) ++ (text ++ after))
    (show (6 : Int) = _ by
      rw [List.length_append, List.length_append, hcode _ (by omega), hcode _ (by omega),
        hcode _ (by omega)]; rfl)
  have h3 := byteAt_append before
    (hexNumber 0x4e ++ (hexNumber (n % 256) ++ (hexNumber (n / 256 % 256) ++
      hexNumber (n / 65536 % 256))))
    (show n / 16777216 % 256 < 256 by omega) (text ++ after)
    (show (8 : Int) = _ by
      rw [List.length_append, List.length_append, List.length_append, hcode _ (by omega),
        hcode _ (by omega), hcode _ (by omega), hcode _ (by omega)]; rfl)
  have hpayload := payload_append before
    (hexNumber 0x4e ++ (hexNumber (n % 256) ++ (hexNumber (n / 256 % 256) ++
      (hexNumber (n / 65536 % 256) ++ hexNumber (n / 16777216 % 256))))) text after label
    "OP_PUSHDATA4 payload"
    (show (10 : Int) = _ by
      rw [List.length_append, List.length_append, List.length_append, List.length_append,
        hcode _ (by omega), hcode _ (by omega), hcode _ (by omega), hcode _ (by omega),
        hcode _ (by omega)]; rfl)
    (show (n : Int) * 2 = text.length by omega)
  simp only [List.append_assoc] at h1 h2 h3 hpayload
  have hneed : ∀ chars : Int, chars ≤ 10 → ∀ what : String,
      need (before ++ (hexNumber 0x4e ++ (hexNumber (n % 256) ++ (hexNumber (n / 256 % 256) ++
        (hexNumber (n / 65536 % 256) ++ (hexNumber (n / 16777216 % 256) ++ (text ++ after)))))))
        before.length label chars what = .ok () := by
    intro chars hle what
    refine need_ok ?_ label what
    simp only [List.length_append, hcode _ (show 0x4e < 256 by omega),
      hcode _ (show n % 256 < 256 by omega), hcode _ (show n / 256 % 256 < 256 by omega),
      hcode _ (show n / 65536 % 256 < 256 by omega),
      hcode _ (show n / 16777216 % 256 < 256 by omega)]
    push_cast
    omega
  unfold decodePushData
  rw [hneed 2 (by decide), ok_bind, hopcode]
  dsimp only
  rw [if_neg (show ¬ 0x4e ≤ 75 by decide), if_neg (show ¬ 0x4e = 0x4c by decide),
    if_neg (show ¬ 0x4e = 0x4d by decide), if_pos (Eq.refl 0x4e), hneed 10 (by decide), ok_bind, h0, h1,
    h2, h3, Option.getD_some, Option.getD_some, Option.getD_some, Option.getD_some, int32_bytes h, hpayload]
  simp only [List.append_assoc]

end Framed

/-- Framed text is read back. -/
theorem decodePushData_append {text : HexText} (hwhole : text.length % 2 = 0)
    (hlength : text.length < 2 ^ 32) (before after : HexText) (label : String) :
    decodePushData (before ++ (encodeText text ++ after)) before.length label =
      .ok (text, (encodeText text).length) := by
  have hencode : encodeText text = pushHeader (text.length / 2) ++ text := by
    rw [← encodePushDataState_eq hwhole]
    unfold encodeText
    split
    · rename_i hnil
      rw [List.eq_nil_of_length_eq_zero hnil]
      rfl
    · rfl
  have hchars : text.length = 2 * (text.length / 2) := by omega
  have hop : ∀ k, k < 256 → [(k / 16).digitChar, (k % 16).digitChar] = hexNumber k :=
    fun k hk => (hexNumber_of_lt hk).symm
  have h4c : (['4', 'c'] : HexText) = hexNumber 0x4c := hop 0x4c (by decide)
  have h4d : (['4', 'd'] : HexText) = hexNumber 0x4d := hop 0x4d (by decide)
  have h4e : (['4', 'e'] : HexText) = hexNumber 0x4e := hop 0x4e (by decide)
  rw [hencode]
  unfold pushHeader
  by_cases h1 : text.length / 2 ≤ 75
  · rw [if_pos h1, List.append_assoc]
    exact decode_direct hchars before after label h1
  rw [if_neg h1]
  by_cases h2 : text.length / 2 ≤ 0xff
  · rw [if_pos h2, h4c]
    have h := decode_pushData1 hchars before after label (by omega)
    simp only [List.append_assoc] at h ⊢
    exact h
  rw [if_neg h2]
  by_cases h3 : text.length / 2 ≤ 0xffff
  · rw [if_pos h3, h4d]
    have h := decode_pushData2 hchars before after label (by omega)
    simp only [List.append_assoc] at h ⊢
    exact h
  · rw [if_neg h3, h4e]
    have h := decode_pushData4 hchars before after label (by omega)
    simp only [List.append_assoc] at h ⊢
    exact h

/-- The value some data of fixed width is read as. -/
def fixedValue (text : HexText) : StateFieldEncoding → Except String JsValue
  | .bool1 => .ok (.boolean (text ≠ ['0', '0']))
  | .num2binLe8 => (decodeNum2Bin text).map .bigint
  | .raw => .ok (.string text)

theorem decodeStateValue_fixed {type : PrimitiveType} {size : Nat} {encoding : StateFieldEncoding}
    (hwidth : stateFieldWidths type = some (size, encoding)) {text : HexText}
    (hsize : text.length = 2 * size) (before after : HexText) (label : String) :
    decodeStateValue (before ++ (text ++ after)) before.length type label =
      (fixedValue text encoding).map fun value => (value, (text.length : Int)) := by
  have hchars : (size : Int) * 2 = text.length := by omega
  have hslice := slice_append before text after rfl
    (show (before.length : Int) + size * 2 = before.length + text.length by omega)
  have hfits : ¬ (before.length : Int) + size * 2 > (before ++ (text ++ after)).length := by
    simp only [List.length_append]
    push_cast
    omega
  unfold decodeStateValue
  rw [hwidth]
  dsimp only
  rw [if_neg hfits, hslice, hchars]
  cases encoding with
  | num2binLe8 =>
    unfold fixedValue
    cases decodeNum2Bin text <;> rfl
  | bool1 => rfl
  | raw => rfl

theorem decodeStateValue_framed {type : PrimitiveType} (hwidth : stateFieldWidths type = none)
    {text : HexText} {size : Option Nat} (h : IsByteText size text) :
    ReadsBack type (.string text) (encodeText text) := by
  have hwhole : (encodeText text).length % 2 = 0 := by
    unfold encodeText
    split
    · rfl
    · rw [encodePushDataState_eq h.whole, List.length_append]
      have hheader : (pushHeader (text.length / 2)).length % 2 = 0 := by
        rw [← headerBytes_pushHeader (text.length / 2) text]
        exact Nat.mul_mod_right 2 _
      have := h.whole
      omega
  refine ⟨hwhole, fun before after label => ?_⟩
  unfold decodeStateValue
  rw [hwidth]
  dsimp only
  rw [decodePushData_append h.whole h.length, ok_bind]

theorem readsBack_raw {type : PrimitiveType} {size : Nat}
    (hwidth : stateFieldWidths type = some (size, .raw)) {text : HexText}
    (h : IsByteText (some size) text) : ReadsBack type (.string text) text :=
  ⟨h.whole, fun before after label => decodeStateValue_fixed hwidth (h.sized size rfl) before after
    label⟩

theorem jsText_string (text : HexText) : jsText (.string text) = text := by rw [jsText]

/-- A value of a type is written, and read back. -/
theorem readsBack_of_hasType {type : PrimitiveType} {value : JsValue} (h : HasType type value)
    (hrange : InRange type value) (hrabin : ¬ IsRabin type) :
    ∃ text, (∀ label, encodeStateValue value type label = .ok text) ∧
      ReadsBack type value text := by
  have hframed : ∀ {type : PrimitiveType} {size : Option Nat} {value : JsValue},
      stateFieldWidths type = none → (∀ text label,
        encodeStateValue (.string text) type label = .ok (encodeText text)) →
      (∃ text, value = .string text ∧ IsByteText size text) →
      ∃ text, (∀ label, encodeStateValue value type label = .ok text) ∧
        ReadsBack type value text := by
    rintro type size value hwidth hencode ⟨text, rfl, htext⟩
    exact ⟨_, hencode text, decodeStateValue_framed hwidth htext⟩
  have hraw : ∀ {type : PrimitiveType} {size : Nat} {value : JsValue},
      stateFieldWidths type = some (size, .raw) → (∀ text label,
        encodeStateValue (.string text) type label = .ok text) →
      (∃ text, value = .string text ∧ IsByteText (some size) text) →
      ∃ text, (∀ label, encodeStateValue value type label = .ok text) ∧
        ReadsBack type value text := by
    rintro type size value hwidth hencode ⟨text, rfl, htext⟩
    exact ⟨_, hencode text, readsBack_raw hwidth htext⟩
  have hdefault : ∀ text : HexText, (.ok (encodeText (jsText (.string text))) :
      Except String HexText) = .ok (encodeText text) := fun text => by rw [jsText_string]
  cases type with
  | bigint =>
    obtain ⟨n, rfl⟩ := h
    have hfits : Fits 8 n := hrange rfl n rfl
    refine ⟨toHex (signedBytes 8 n), fun label => ?_, ?_, fun before after label => ?_⟩
    · show (encodeNum2Bin n 8 label).mapError SerializeError.message = _
      rw [encodeNum2Bin_eq, if_pos hfits]
      rfl
    · rw [length_toHex]
      exact Nat.mul_mod_right 2 _
    · rw [decodeStateValue_fixed rfl (by rw [length_toHex, length_signedBytes]), fixedValue,
        decodeNum2Bin_toHex, decodeNum_signedBytes hfits]
      rfl
  | boolean =>
    obtain ⟨b, rfl⟩ := h
    refine ⟨cond b ['0', '1'] ['0', '0'], fun label => rfl, by cases b <;> rfl,
      fun before after label => ?_⟩
    rw [decodeStateValue_fixed rfl (by cases b <;> rfl)]
    cases b <;> rfl
  | PubKey => exact hraw rfl (fun text _ => congrArg Except.ok (jsText_string text)) h
  | Addr => exact hraw rfl (fun text _ => congrArg Except.ok (jsText_string text)) h
  | Ripemd160 => exact hraw rfl (fun text _ => congrArg Except.ok (jsText_string text)) h
  | Sha256 => exact hraw rfl (fun text _ => congrArg Except.ok (jsText_string text)) h
  | Point => exact hraw rfl (fun text _ => congrArg Except.ok (jsText_string text)) h
  | ByteString => exact hframed rfl (fun text _ => hdefault text) h
  | Sig => exact hframed rfl (fun text _ => hdefault text) h
  | SigHashPreimage => exact hframed rfl (fun text _ => hdefault text) h
  | P256Point => exact hframed rfl (fun text _ => hdefault text) h
  | P384Point => exact hframed rfl (fun text _ => hdefault text) h
  | RabinSig => exact absurd (Or.inl rfl) hrabin
  | RabinPubKey => exact absurd (Or.inr rfl) hrabin

/-- A bigint that does not fit its word is refused. -/
theorem encodeStateValue_outOfRange {type : PrimitiveType} {value : JsValue}
    (h : ¬ InRange type value) (label : String) :
    ∃ error, encodeStateValue value type label = .error error := by
  unfold InRange at h
  push Not at h
  obtain ⟨rfl, n, rfl, hfits⟩ := h
  refine ⟨(SerializeError.outOfRange label n 8).message, ?_⟩
  show (encodeNum2Bin n 8 label).mapError SerializeError.message = _
  rw [encodeNum2Bin_eq, if_neg hfits]
  rfl

end Scalars

/-! ## Arrays -/

/-- The lengths of an array type are positive. -/
def Positive : FieldType → Prop
  | .primitive _ => True
  | .fixedArray elementType length => 0 < length ∧ Positive elementType

section Arrays

theorem dims_fixedArray {elementType : FieldType} {length : Nat} (h : 0 < length) :
    parseFixedArrayDims (.fixedArray elementType length) =
      length :: parseFixedArrayDims elementType := by
  rw [parseFixedArrayDims, if_neg (Nat.ne_of_gt h)]

theorem flattenNested_array (length : Nat) (dims : List Nat) (elements : List JsValue) :
    flattenNested (length :: dims) (.array elements) = elements.flatMap (flattenNested dims) := by
  rw [flattenNested]

/-- The scalars of a value are of the leaf type, as many as the dimensions say. -/
theorem leaves_of_hasFieldType {type : FieldType} (hpos : Positive type) {value : JsValue}
    (h : HasFieldType type value) :
    (flattenNested (parseFixedArrayDims type) value).length = (parseFixedArrayDims type).prod ∧
      ∀ leaf ∈ flattenNested (parseFixedArrayDims type) value,
        HasType (unwrapFixedArrayLeaf type) leaf := by
  induction type generalizing value with
  | primitive type =>
    refine ⟨rfl, fun leaf hmem => ?_⟩
    cases List.mem_singleton.mp hmem
    exact h
  | fixedArray elementType length ih =>
    obtain ⟨elements, rfl, rfl, helements⟩ := h
    rw [dims_fixedArray hpos.1, flattenNested_array, List.prod_cons]
    constructor
    · have hconst : ∀ element ∈ elements,
          (flattenNested (parseFixedArrayDims elementType) element).length =
            (parseFixedArrayDims elementType).prod :=
        fun element hmem => (ih hpos.2 (helements element hmem)).1
      rw [List.length_flatMap, List.map_congr_left hconst, List.map_const',
        List.sum_replicate_nat]
    · intro leaf hmem
      obtain ⟨element, helement, hleaf⟩ := List.mem_flatMap.mp hmem
      exact (ih hpos.2 (helements element helement)).2 leaf hleaf

theorem map_getElem?_range (pre xs post : List JsValue) :
    (List.range xs.length).map (fun i => ((pre ++ (xs ++ post))[pre.length + i]?).getD .undefined) =
      xs := by
  refine List.ext_getElem (by simp) fun i h1 h2 => ?_
  rw [List.getElem_map, List.getElem_range, List.getElem?_append_right (by omega),
    Nat.add_sub_cancel_left, List.getElem?_append_left h2, List.getElem?_eq_getElem h2,
    Option.getD_some]

/-- Grouping the scalars of an array gives the array. -/
theorem regroupNested_flatten {elementType : FieldType} {length : Nat}
    (hpos : Positive (.fixedArray elementType length)) {elements : List JsValue}
    (h : HasFieldType (.fixedArray elementType length) (.array elements)) (pre post : List JsValue) :
    regroupNested (pre ++ (flattenNested (parseFixedArrayDims (.fixedArray elementType length))
        (.array elements) ++ post)) (parseFixedArrayDims (.fixedArray elementType length))
        pre.length =
      (elements, (flattenNested (parseFixedArrayDims (.fixedArray elementType length))
        (.array elements)).length) := by
  induction elementType generalizing length elements pre post with
  | primitive type =>
    obtain ⟨_, hvalue, hlength, -⟩ := h
    cases hvalue
    subst hlength
    have hflat : elements.flatMap (flattenNested []) = elements := List.flatMap_pure_eq_map id
      elements |>.trans (List.map_id elements)
    rw [dims_fixedArray hpos.1, flattenNested_array, parseFixedArrayDims, hflat, regroupNested,
      map_getElem?_range]
  | fixedArray innerType innerLength ih =>
    obtain ⟨_, hvalue, hlength, helements⟩ := h
    cases hvalue
    subst hlength
    rw [dims_fixedArray hpos.1, dims_fixedArray hpos.2.1, flattenNested_array, regroupNested,
      List.foldl_const]
    rw [← dims_fixedArray hpos.2.1]
    -- over the elements already grouped, and the scalars they took
    have hrun : ∀ (rest done : List JsValue),
        (∀ element ∈ rest, HasFieldType (.fixedArray innerType innerLength) element) →
        ∀ taken : List JsValue,
        (fun x : List JsValue × Nat =>
          (x.1 ++ [JsValue.array (regroupNested (pre ++ (taken ++
            (rest.flatMap (flattenNested (parseFixedArrayDims
              (.fixedArray innerType innerLength))) ++ post)))
            (parseFixedArrayDims (.fixedArray innerType innerLength)) (pre.length + x.2)).1],
            x.2 + (regroupNested (pre ++ (taken ++
            (rest.flatMap (flattenNested (parseFixedArrayDims
              (.fixedArray innerType innerLength))) ++ post)))
            (parseFixedArrayDims (.fixedArray innerType innerLength)) (pre.length + x.2)).2))^[
            rest.length] (done, taken.length) =
          (done ++ rest, taken.length + (rest.flatMap (flattenNested (parseFixedArrayDims
            (.fixedArray innerType innerLength)))).length) := by
      intro rest
      induction rest with
      | nil =>
        intro done _ taken
        simp
      | cons element rest ihrest =>
        intro done hrest taken
        have helement := hrest element List.mem_cons_self
        obtain ⟨inner, rfl, -, -⟩ := id helement
        have hgroup := ih hpos.2 helement (pre ++ taken)
          (rest.flatMap (flattenNested (parseFixedArrayDims
            (.fixedArray innerType innerLength))) ++ post)
        have htail := ihrest (done ++ [.array inner])
          (fun other hmem => hrest other (List.mem_cons_of_mem _ hmem))
          (taken ++ flattenNested (parseFixedArrayDims (.fixedArray innerType innerLength))
            (.array inner))
        simp only [List.append_assoc, List.length_append] at hgroup htail
        rw [List.length_cons, Function.iterate_succ_apply, List.flatMap_cons]
        simp only [List.append_assoc, List.length_append]
        rw [hgroup]
        dsimp only
        rw [htail]
        simp [Nat.add_assoc]
    have h := hrun elements [] helements []
    simpa using h

end Arrays

/-! ## All fields -/

section Fields

variable {values : Record}

/-- The elements of an array are written and read back. -/
theorem elements_readBack {leafType : PrimitiveType} (hrabin : ¬ IsRabin leafType)
    {names : List String} (hnames : ∀ n ∈ names, values n = none) {flat leaves : List JsValue}
    {i : Nat} (hleaves : flat.drop i = leaves) (hlength : names.length = leaves.length)
    (htyped : ∀ leaf ∈ leaves, HasType leafType leaf)
    (hrange : ∀ leaf ∈ leaves, InRange leafType leaf) :
    ∃ text, encodeElements values flat leafType i names = .ok text ∧ text.length % 2 = 0 ∧
      ∀ before after name k, decodeElements (before ++ (text ++ after)) leafType name names.length k
        before.length = .ok (leaves, (before.length + text.length : Nat)) := by
  induction names generalizing i leaves with
  | nil =>
    have hnil : leaves = [] := List.eq_nil_of_length_eq_zero hlength.symm
    subst hnil
    exact ⟨[], rfl, rfl, fun before after name k => rfl⟩
  | cons synthName names ih =>
    cases leaves with
    | nil => cases hlength
    | cons leaf leaves =>
      have hget : flat[i]? = some leaf := by
        have h := congrArg List.head? hleaves
        rwa [List.head?_drop] at h
      have htail : flat.drop (i + 1) = leaves := by
        rw [← List.drop_drop, hleaves]
        rfl
      obtain ⟨text, hencode, hread⟩ := readsBack_of_hasType (htyped leaf List.mem_cons_self)
        (hrange leaf List.mem_cons_self) hrabin
      obtain ⟨rest, hrest, heven, hdecode⟩ := ih
        (fun n hmem => hnames n (List.mem_cons_of_mem _ hmem)) htail (Nat.succ.inj hlength)
        (fun other hmem => htyped other (List.mem_cons_of_mem _ hmem))
        (fun other hmem => hrange other (List.mem_cons_of_mem _ hmem))
      refine ⟨text ++ rest, ?_, ?_, fun before after name k => ?_⟩
      · rw [encodeElements, hnames synthName List.mem_cons_self, hget, Option.getD_none, Option.getD_some,
          hencode, ok_bind, hrest, ok_bind]
      · have := hread.whole
        rw [List.length_append]
        omega
      · have hfirst := hread.read before (rest ++ after) (name ++ "[" ++ toString k ++ "]")
        have hnext := hdecode (before ++ text) after name (k + 1)
        rw [List.append_assoc] at hnext
        have hoffset : ((before.length : Int) + text.length) = ((before ++ text).length : Nat) := by
          rw [List.length_append]
          rfl
        rw [List.length_cons, decodeElements, List.append_assoc, hfirst, ok_bind]
        dsimp only
        rw [hoffset, hnext, ok_bind]
        simp only [List.length_append, Nat.add_assoc]

/-- A number in an array does not fit its word. -/
theorem elements_refused {leafType : PrimitiveType} (hrabin : ¬ IsRabin leafType)
    {names : List String} (hnames : ∀ n ∈ names, values n = none) {flat leaves : List JsValue}
    {i : Nat} (hleaves : flat.drop i = leaves) (hlength : names.length = leaves.length)
    (htyped : ∀ leaf ∈ leaves, HasType leafType leaf)
    (hrange : ∃ leaf ∈ leaves, ¬ InRange leafType leaf) :
    ∃ error, encodeElements values flat leafType i names = .error error := by
  induction names generalizing i leaves with
  | nil =>
    have hnil : leaves = [] := List.eq_nil_of_length_eq_zero hlength.symm
    subst hnil
    obtain ⟨leaf, hmem, -⟩ := hrange
    cases hmem
  | cons synthName names ih =>
    cases leaves with
    | nil => cases hlength
    | cons leaf leaves =>
      have hget : flat[i]? = some leaf := by
        have h := congrArg List.head? hleaves
        rwa [List.head?_drop] at h
      have htail : flat.drop (i + 1) = leaves := by
        rw [← List.drop_drop, hleaves]
        rfl
      rw [encodeElements, hnames synthName List.mem_cons_self, hget, Option.getD_none, Option.getD_some]
      by_cases hfirst : InRange leafType leaf
      · obtain ⟨text, hencode, -⟩ := readsBack_of_hasType (htyped leaf List.mem_cons_self)
          hfirst hrabin
        obtain ⟨bad, hmem, hbad⟩ := hrange
        have hrest : ∃ leaf ∈ leaves, ¬ InRange leafType leaf := by
          rcases List.mem_cons.mp hmem with rfl | hmem
          · exact absurd hfirst hbad
          · exact ⟨bad, hmem, hbad⟩
        obtain ⟨error, herror⟩ := ih (fun n hmem => hnames n (List.mem_cons_of_mem _ hmem)) htail
          (Nat.succ.inj hlength) (fun other hmem => htyped other (List.mem_cons_of_mem _ hmem))
          hrest
        exact ⟨error, by rw [hencode, ok_bind, herror]; rfl⟩
      · obtain ⟨error, herror⟩ := encodeStateValue_outOfRange hfirst synthName
        exact ⟨error, by rw [herror]; rfl⟩

/-- A field whose scalars are named as the compiler names them: one name for each, and
none that is the name of a field. -/
structure NamedField (values : Record) (field : StateField) : Prop where
  positive : Positive field.shape.type
  names : ∀ elementType length syntheticNames,
    field.shape = .fixedArray elementType length syntheticNames →
      syntheticNames.length = (parseFixedArrayDims field.shape.type).prod ∧
        ∀ n ∈ syntheticNames, values n = none

/-- The scalars of a field. -/
def fieldScalars (values : Record) (field : StateField) : List JsValue :=
  flattenNested (parseFixedArrayDims field.shape.type) (values.get field.name)

/-- Every number of a field fits its word. -/
def FieldInRange (values : Record) (field : StateField) : Prop :=
  ∀ leaf ∈ fieldScalars values field, InRange (unwrapFixedArrayLeaf field.shape.type) leaf

/-- A field that is written, and read back from wherever it was written. -/
structure FieldReadsBack (values : Record) (field : StateField) (text : HexText) : Prop where
  whole : text.length % 2 = 0
  write : encodeField values field = .ok text
  read : ∀ before after, decodeField (before ++ (text ++ after)) before.length field =
    .ok (values.get field.name, (before.length + text.length : Nat))

variable {field : StateField}

theorem field_readsBack (hnamed : NamedField values field)
    (htyped : HasFieldType field.shape.type (values.get field.name))
    (hrabin : ¬ IsRabin (unwrapFixedArrayLeaf field.shape.type))
    (hrange : FieldInRange values field) : ∃ text, FieldReadsBack values field text := by
  obtain ⟨name, shape, index⟩ := field
  cases shape with
  | scalar type =>
    obtain ⟨text, hencode, hread⟩ := readsBack_of_hasType htyped
      (hrange _ (List.mem_singleton_self _)) hrabin
    refine ⟨text, hread.whole, hencode name, fun before after => ?_⟩
    unfold decodeField
    dsimp only
    rw [hread.read before after name, ok_bind]
    rfl
  | fixedArray elementType length syntheticNames =>
    obtain ⟨hlength, hnames⟩ := hnamed.names _ _ _ rfl
    obtain ⟨hcount, hleaves⟩ := leaves_of_hasFieldType hnamed.positive htyped
    obtain ⟨elements, hvalue, -⟩ := id htyped
    obtain ⟨text, hencode, heven, hdecode⟩ := elements_readBack (i := 0) hrabin hnames
      List.drop_zero (hlength.trans hcount.symm) hleaves hrange
    refine ⟨text, heven, ?_, fun before after => ?_⟩
    · unfold encodeField
      dsimp only at hvalue hencode ⊢
      rw [hvalue] at hencode ⊢
      exact hencode
    · unfold decodeField
      dsimp only at hvalue hdecode htyped ⊢
      rw [hvalue] at hdecode htyped ⊢
      have hgroup := regroupNested_flatten hnamed.positive htyped [] []
      rw [List.nil_append, List.append_nil] at hgroup
      erw [hdecode before after name 0]
      rw [ok_bind]
      dsimp only
      erw [hgroup]

theorem field_refused (hnamed : NamedField values field)
    (htyped : HasFieldType field.shape.type (values.get field.name))
    (hrabin : ¬ IsRabin (unwrapFixedArrayLeaf field.shape.type))
    (hrange : ¬ FieldInRange values field) : ∃ error, encodeField values field = .error error := by
  obtain ⟨name, shape, index⟩ := field
  unfold FieldInRange at hrange
  push Not at hrange
  cases shape with
  | scalar type =>
    obtain ⟨leaf, hmem, hleaf⟩ := hrange
    cases List.mem_singleton.mp hmem
    exact encodeStateValue_outOfRange hleaf name
  | fixedArray elementType length syntheticNames =>
    obtain ⟨hlength, hnames⟩ := hnamed.names _ _ _ rfl
    obtain ⟨hcount, hleaves⟩ := leaves_of_hasFieldType hnamed.positive htyped
    obtain ⟨elements, hvalue, -⟩ := id htyped
    obtain ⟨error, herror⟩ := elements_refused (i := 0) hrabin hnames
      List.drop_zero (hlength.trans hcount.symm) hleaves hrange
    refine ⟨error, ?_⟩
    unfold encodeField
    dsimp only at hvalue herror ⊢
    rw [hvalue] at herror ⊢
    exact herror

/-- The fields of a state, and a record that holds a value of its type under each name and
nothing else. -/
structure Holds (fields : List StateField) (values : Record) : Prop where
  typed : ∀ field ∈ fields, HasFieldType field.shape.type (values.get field.name)
  named : ∀ field ∈ fields, NamedField values field
  present : ∀ name, (values name).isSome ↔ ∃ field ∈ fields, field.name = name

theorem fields_readBack {fields : List StateField}
    (h : ∀ field ∈ fields, ∃ text, FieldReadsBack values field text) :
    ∃ text, encodeFields values fields = .ok text ∧ text.length % 2 = 0 ∧
      ∀ before after result, decodeFields (before ++ (text ++ after)) fields result before.length =
        .ok (fields.foldl (fun result field => result.set field.name (values.get field.name))
          result, (before.length + text.length : Nat)) := by
  induction fields with
  | nil => exact ⟨[], rfl, rfl, fun before after result => rfl⟩
  | cons field fields ih =>
    obtain ⟨text, hfield⟩ := h field List.mem_cons_self
    obtain ⟨rest, hrest, heven, hdecode⟩ := ih fun other hmem => h other (List.mem_cons_of_mem _ hmem)
    refine ⟨text ++ rest, ?_, ?_, fun before after result => ?_⟩
    · rw [encodeFields, hfield.write, ok_bind, hrest, ok_bind]
    · have := hfield.whole
      rw [List.length_append]
      omega
    · have hnext := hdecode (before ++ text) after (result.set field.name (values.get field.name))
      rw [List.append_assoc, List.length_append] at hnext
      rw [decodeFields, List.append_assoc, hfield.read, ok_bind]
      dsimp only
      rw [hnext, List.foldl_cons, List.length_append, Nat.add_assoc]

theorem fields_refused {fields : List StateField}
    (h : ∀ field ∈ fields, (∃ text, FieldReadsBack values field text) ∨
      ∃ error, encodeField values field = .error error)
    (hbad : ∃ field ∈ fields, ∃ error, encodeField values field = .error error) :
    ∃ error, encodeFields values fields = .error error := by
  induction fields with
  | nil =>
    obtain ⟨field, hmem, -⟩ := hbad
    cases hmem
  | cons field fields ih =>
    rw [encodeFields]
    cases hfield : encodeField values field with
    | error error => exact ⟨error, rfl⟩
    | ok text =>
      have hrest : ∃ field ∈ fields, ∃ error, encodeField values field = .error error := by
        obtain ⟨bad, hmem, error, herror⟩ := hbad
        rcases List.mem_cons.mp hmem with rfl | hmem
        · rw [hfield] at herror
          cases herror
        · exact ⟨bad, hmem, error, herror⟩
      obtain ⟨error, herror⟩ := ih (fun other hmem => h other (List.mem_cons_of_mem _ hmem)) hrest
      exact ⟨error, by rw [ok_bind, herror]; rfl⟩

/-- Setting every field of a record to what another record holds. -/
theorem foldl_set (fields : List StateField) (result : Record) (name : String) :
    fields.foldl (fun result field => result.set field.name (values.get field.name)) result name =
      if ∃ field ∈ fields, field.name = name then some (values.get name) else result name := by
  induction fields generalizing result with
  | nil => rw [List.foldl_nil, if_neg (by rintro ⟨field, hmem, -⟩; cases hmem)]
  | cons field fields ih =>
    rw [List.foldl_cons, ih]
    by_cases hlater : ∃ field ∈ fields, field.name = name
    · obtain ⟨other, hmem, hname⟩ := hlater
      rw [if_pos ⟨other, hmem, hname⟩, if_pos ⟨other, List.mem_cons_of_mem _ hmem, hname⟩]
    · rw [if_neg hlater]
      by_cases hfirst : field.name = name
      · subst hfirst
        rw [if_pos ⟨field, List.mem_cons_self, rfl⟩, Record.set, if_pos rfl]
      · have hnone : ¬ ∃ other ∈ field :: fields, other.name = name := by
          rintro ⟨other, hmem, hname⟩
          rcases List.mem_cons.mp hmem with rfl | hmem
          · exact hfirst hname
          · exact hlater ⟨other, hmem, hname⟩
        rw [if_neg hnone, Record.set, if_neg (Ne.symm hfirst)]

theorem foldl_set_of_holds {fields : List StateField} (h : Holds fields values) :
    fields.foldl (fun (result : Record) field => result.set field.name (values.get field.name))
      (fun _ => none) = values := by
  funext name
  rw [foldl_set]
  have hpresent := h.present name
  cases hvalue : values name with
  | none =>
    rw [hvalue] at hpresent
    exact if_neg fun hex => absurd (hpresent.mpr hex) Bool.false_ne_true
  | some value =>
    rw [hvalue] at hpresent
    rw [if_pos (hpresent.mp rfl), Record.get, hvalue]
    rfl

end Fields

/-- No field is of a type whose values are framed as decimal text. -/
def NoRabin (fields : List StateField) : Prop :=
  ∀ field ∈ fields, ¬ IsRabin (unwrapFixedArrayLeaf field.shape.type)

/-- Every number of a bigint field fits its word of eight bytes. -/
def AllInRange (fields : List StateField) (values : Record) : Prop :=
  ∀ field ∈ fields, FieldInRange values field

/-- The record is read back as it was written. -/
def RoundTrips (fields : List StateField) (values : Record) : Prop :=
  ∃ hex, serializeState fields values = .ok hex ∧ deserializeState fields hex = .ok values

/-- A record of state values is read back as it was written if every bigint fits its word,
and is refused otherwise. -/
theorem state_roundTrips_iff {fields : List StateField} (hrabin : NoRabin fields)
    {values : Record} (hholds : Holds fields values) :
    (AllInRange fields values → RoundTrips fields values) ∧
      (¬ AllInRange fields values → ∃ error, serializeState fields values = .error error) := by
  have hsorted : ∀ {field : StateField}, field ∈ fields.mergeSort fieldOrder ↔ field ∈ fields :=
    List.mem_mergeSort
  constructor
  · intro hrange
    have hsortedHolds : Holds (fields.mergeSort fieldOrder) values :=
      ⟨fun field hmem => hholds.typed field (hsorted.mp hmem),
        fun field hmem => hholds.named field (hsorted.mp hmem),
        fun name => (hholds.present name).trans (by simp only [hsorted])⟩
    have hfields : ∀ field ∈ fields.mergeSort fieldOrder, ∃ text, FieldReadsBack values field text :=
      fun field hmem => field_readsBack (hholds.named field (hsorted.mp hmem))
        (hholds.typed field (hsorted.mp hmem)) (hrabin field (hsorted.mp hmem))
        (hrange field (hsorted.mp hmem))
    obtain ⟨text, hencode, heven, hdecode⟩ := fields_readBack hfields
    refine ⟨text, hencode, ?_⟩
    have hread := hdecode [] [] fun _ => none
    rw [List.nil_append, List.append_nil, foldl_set_of_holds hsortedHolds, List.length_nil,
      Nat.zero_add] at hread
    unfold deserializeState
    rw [if_neg (not_not_intro heven)]
    erw [hread]
    rw [ok_bind]
    exact if_neg (not_not_intro rfl)
  · intro hrange
    unfold AllInRange at hrange
    push Not at hrange
    obtain ⟨bad, hbad, hout⟩ := hrange
    refine fields_refused (fun field hmem => ?_) ⟨bad, hsorted.mpr hbad, ?_⟩
    · have hmem := hsorted.mp hmem
      by_cases hin : FieldInRange values field
      · exact .inl (field_readsBack (hholds.named field hmem) (hholds.typed field hmem)
          (hrabin field hmem) hin)
      · exact .inr (field_refused (hholds.named field hmem) (hholds.typed field hmem)
          (hrabin field hmem) hin)
    · exact field_refused (hholds.named bad hbad) (hholds.typed bad hbad) (hrabin bad hbad) hout

/-- A record with one entry. -/
def singleton (name : String) (value : JsValue) : Record :=
  Record.set (fun _ => none) name value

/-- A field whose record holds nothing else. -/
theorem holds_singleton {field : StateField} {value : JsValue} (hpos : Positive field.shape.type)
    (hnames : ∀ elementType length syntheticNames,
      field.shape = .fixedArray elementType length syntheticNames →
        syntheticNames.length = (parseFixedArrayDims field.shape.type).prod ∧
          field.name ∉ syntheticNames)
    (htyped : HasFieldType field.shape.type value) :
    Holds [field] (singleton field.name value) := by
  have hget : (singleton field.name value).get field.name = value := by
    rw [Record.get, singleton, Record.set, if_pos rfl]
    rfl
  have hone : ∀ {other}, other ∈ [field] → other = field := List.mem_singleton.mp
  refine ⟨fun other hmem => ?_, fun other hmem => ?_, fun name => ?_⟩
  · rw [hone hmem, hget]
    exact htyped
  · rw [hone hmem]
    refine ⟨hpos, fun elementType length syntheticNames hshape => ?_⟩
    obtain ⟨hlength, hname⟩ := hnames elementType length syntheticNames hshape
    refine ⟨hlength, fun n hn => ?_⟩
    rw [singleton, Record.set, if_neg]
    rintro rfl
    exact hname hn
  · rw [singleton, Record.set]
    by_cases hname : name = field.name
    · rw [if_pos hname]
      exact ⟨fun _ => ⟨field, List.mem_singleton_self _, hname.symm⟩, fun _ => rfl⟩
    · rw [if_neg hname]
      refine ⟨fun h => absurd h Bool.false_ne_true, ?_⟩
      rintro ⟨other, hmem, hother⟩
      exact absurd ((hone hmem) ▸ hother.symm) hname

/-- A board of two rows of one cell. -/
def boardField : StateField :=
  ⟨"board", .fixedArray (.fixedArray (.primitive .bigint) 1) 2 ["board__0__0", "board__1__0"], 0⟩

def boardValue : JsValue := .array [.array [.bigint 7], .array [.bigint (-1)]]

/-- The board comes back. -/
theorem state_roundTrips_iff_board :
    Holds [boardField] (singleton "board" boardValue) ∧
      (AllInRange [boardField] (singleton "board" boardValue) →
        RoundTrips [boardField] (singleton "board" boardValue)) ∧
      (¬ AllInRange [boardField] (singleton "board" boardValue) →
        ∃ error, serializeState [boardField] (singleton "board" boardValue) = .error error) := by
  have hholds : Holds [boardField] (singleton "board" boardValue) := by
    refine @holds_singleton boardField boardValue ⟨by decide, by decide, trivial⟩ ?_ ?_
    · rintro elementType length syntheticNames hshape
      cases hshape
      exact ⟨rfl, by decide⟩
    · refine ⟨_, rfl, rfl, fun row hrow => ?_⟩
      have hcell : ∃ n, row = .array [.bigint n] := by
        rcases List.mem_cons.mp hrow with rfl | hrow
        · exact ⟨7, rfl⟩
        · exact ⟨-1, List.mem_singleton.mp hrow⟩
      obtain ⟨n, rfl⟩ := hcell
      exact ⟨_, rfl, rfl, fun cell hcell => ⟨n, List.mem_singleton.mp hcell⟩⟩
  have hrabin : NoRabin [boardField] := by
    intro field hmem
    rw [List.mem_singleton.mp hmem]
    rintro (h | h) <;> cases h
  exact ⟨hholds, state_roundTrips_iff hrabin hholds⟩

/-- A counter of 2 ^ 63 is a bigint, and is refused. -/
theorem not_roundTrips_counter :
    Holds [⟨"count", .scalar .bigint, 0⟩] (singleton "count" (.bigint (2 ^ 63))) ∧
      ¬ RoundTrips [⟨"count", .scalar .bigint, 0⟩] (singleton "count" (.bigint (2 ^ 63))) := by
  refine ⟨@holds_singleton ⟨"count", .scalar .bigint, 0⟩ _ trivial
    (fun _ _ _ hshape => by cases hshape) ⟨_, rfl⟩, ?_⟩
  rintro ⟨hex, hserialize, -⟩
  have hout : ¬ InRange .bigint (.bigint (2 ^ 63)) := fun h => absurd (h rfl _ rfl) (by decide)
  obtain ⟨error, herror⟩ := encodeStateValue_outOfRange hout "count"
  rw [serializeState, List.mergeSort_singleton, encodeFields] at hserialize
  have hfield : encodeField (singleton "count" (.bigint (2 ^ 63)))
      ⟨"count", .scalar .bigint, 0⟩ = .error error := herror
  rw [hfield] at hserialize
  cases hserialize

end Runar.Sdk.Codec
