/-
  Artifact/PushEncoding.lean --- the pushes the emitter writes.

  WHAT THIS FILE IS FOR.  A value is pushed by an opcode of its own, or by its bytes behind
  their length.  What is written is read as one push of the value's bytes, whatever follows,
  and no shorter text is.

  THE BOUND.  The longest length that a push can have takes four bytes.
-/
import Runar.Artifact.Dispatch
import Runar.Sdk.Marks

set_option autoImplicit false

namespace Runar.Artifact

open Script
open Sdk (readBytes readSized readPush readPush_hexNumber pushHeader toHex_encodePushData
  isHexOf_toHex toHex_leBytes_two toHex_leBytes_four)

/-! ## Raw bytes -/

/-- Encode a push of raw bytes, as the array form of `asm` does. -/
def encodePushBytesHex (value : Bytes) : HexText :=
  match value with
  | [] => ['0', '0']
  | [b] =>
      if 1 ≤ b ∧ b ≤ 16 then hexNumber (0x50 + b.toNat)
      else if b = 0x81 then ['4', 'f']
      else toHex (encodePushData [b])
  | value => toHex (encodePushData value)

/-- The emitter and the array form push the same bytes alike. -/
theorem encodePushBytesHex_eq (value : Bytes) :
    encodePushBytesHex value = encodePushValue (.bytes value) := by
  match value with
  | [] | [_] | _ :: _ :: _ => rfl

/-! ## What a push is -/

/-- A text is read as one push of an element, whatever follows it. -/
def Pushes (text : HexText) (element : Bytes) : Prop :=
  ∀ rest, readPush (text ++ rest) = some (element, rest)

/-- No shorter text is read as a push of the element. -/
def IsShortest (text : HexText) (element : Bytes) : Prop :=
  ∀ other rest, readPush (other ++ rest) = some (element, rest) → text.length ≤ other.length

/-- Read some pushes, one after another. -/
def readPushes : Nat → HexText → Option (List Bytes × HexText)
  | 0, text => some ([], text)
  | n + 1, text => do
      let (element, text) ← readPush text
      let (elements, text) ← readPushes n text
      some (element :: elements, text)

/-- The elements that an opcode of their own pushes. -/
def HasOpcode (element : Bytes) : Prop :=
  element = [0x81] ∨ ∃ b : UInt8, 1 ≤ b ∧ b ≤ 16 ∧ element = [b]

/-! ## Reading what is written -/

/-- What is read is as long as the text it is read from. -/
theorem length_of_readBytes {n : Nat} {text rest : HexText} {bytes : Bytes}
    (h : readBytes n text = some (bytes, rest)) :
    bytes.length = n ∧ text.length = 2 * n + rest.length := by
  induction n generalizing text bytes with
  | zero =>
    cases h
    exact ⟨rfl, by omega⟩
  | succ n ih =>
    match text, h with
    | high :: low :: text, h =>
      simp only [readBytes, Option.bind_eq_bind, Option.bind_eq_some_iff, Prod.exists] at h
      obtain ⟨_, -, _, -, bytes, rest, hread, hout⟩ := h
      cases hout
      obtain ⟨hbytes, htext⟩ := ih hread
      simp only [List.length_cons]
      exact ⟨by omega, by omega⟩

theorem pushes_hexNumber {b : UInt8} (h : 1 ≤ b ∧ b ≤ 16) :
    Pushes (hexNumber (0x50 + b.toNat)) [b] := by
  intro rest
  have hlow : 1 ≤ b.toNat := UInt8.le_iff_toNat_le.mp h.1
  have hhigh : b.toNat ≤ 16 := UInt8.le_iff_toNat_le.mp h.2
  have hsub : 0x50 + b.toNat - 0x50 = b.toNat := Nat.add_sub_cancel_left ..
  rw [readPush_hexNumber (by omega), if_neg (by omega), if_neg (by omega), if_neg (by omega),
    if_neg (by omega), if_neg (by omega), if_pos (by omega), hsub, Nat.toUInt8_eq,
    UInt8.ofNat_toNat]

theorem readSized_toHex (width n : Nat) (text : HexText) :
    readSized width (toHex (leBytes width n) ++ text) = readBytes (n % 256 ^ width) text := by
  have hlength := (isHexOf_toHex (leBytes width n)).read text
  rw [length_leBytes] at hlength
  simp only [readSized, hlength, leNat_leBytes, Option.bind_eq_bind, Option.bind_some]

/-- A length is read back, as far as its four bytes go. -/
theorem readPush_pushHeader (n : Nat) (text : HexText) :
    readPush (pushHeader n ++ text) = readBytes (n % 2 ^ 32) text := by
  unfold pushHeader
  by_cases h75 : n ≤ 75
  · rw [if_pos h75, readPush_hexNumber (by omega), if_pos (by omega), Nat.mod_eq_of_lt (by omega)]
  rw [if_neg h75]
  by_cases h255 : n ≤ 0xff
  · have hcode := readPush_hexNumber (show 0x4c < 256 by decide) (toHex (leBytes 1 n) ++ text)
    have hword : toHex (leBytes 1 n) = hexNumber n := by
      rw [toHex_leBytes_succ, leBytes_zero, toHex_nil, List.append_nil, Nat.mod_eq_of_lt (by omega)]
    rw [readSized_toHex, hword, Nat.mod_eq_of_lt (by omega)] at hcode
    rw [if_pos h255, List.append_assoc, Nat.mod_eq_of_lt (by omega)]
    exact hcode
  rw [if_neg h255]
  by_cases h65535 : n ≤ 0xffff
  · have hcode := readPush_hexNumber (show 0x4d < 256 by decide) (toHex (leBytes 2 n) ++ text)
    have hword : n % 256 ^ 2 = n % 2 ^ 32 := by omega
    rw [readSized_toHex, toHex_leBytes_two, hword] at hcode
    rw [if_pos h65535]
    simp only [List.append_assoc] at hcode ⊢
    exact hcode
  · have hcode := readPush_hexNumber (show 0x4e < 256 by decide) (toHex (leBytes 4 n) ++ text)
    rw [readSized_toHex, toHex_leBytes_four] at hcode
    rw [if_neg h65535]
    simp only [List.append_assoc] at hcode ⊢
    exact hcode

theorem pushes_encodePushData {data : Bytes} (hne : data ≠ []) (hlen : data.length < 2 ^ 32) :
    Pushes (toHex (encodePushData data)) data := by
  intro rest
  rw [toHex_encodePushData hne, List.append_assoc, readPush_pushHeader, Nat.mod_eq_of_lt hlen]
  exact (isHexOf_toHex data).read rest

/-- The bytes of a value are read back. -/
theorem pushes_encodePushValue {value : PushValue} (hlen : value.toBytes.length < 2 ^ 32) :
    Pushes (encodePushValue value) value.toBytes := by
  rw [← encodePushValue_toBytes]
  match value.toBytes, hlen with
  | [], _ => exact fun rest => readPush_hexNumber (show 0x00 < 256 by decide) rest
  | [b], hlen =>
    show Pushes (if 1 ≤ b ∧ b ≤ 16 then _ else if b = 0x81 then _ else _) _
    by_cases hsmall : 1 ≤ b ∧ b ≤ 16
    · rw [if_pos hsmall]
      exact pushes_hexNumber hsmall
    rw [if_neg hsmall]
    by_cases hneg : b = 0x81
    · rw [if_pos hneg, hneg]
      exact fun rest => readPush_hexNumber (show 0x4f < 256 by decide) rest
    · rw [if_neg hneg]
      exact pushes_encodePushData (List.cons_ne_nil _ _) hlen
  | _ :: _ :: _, hlen => exact pushes_encodePushData (List.cons_ne_nil _ _) hlen

/-- Longer data is cut off. -/
theorem not_pushes_of_long {data : Bytes} (hlong : 2 ^ 32 ≤ data.length) :
    ¬ Pushes (encodePushValue (.bytes data)) data := by
  intro h
  obtain ⟨b, c, tail, rfl⟩ : ∃ b c tail, data = b :: c :: tail := by
    match data, hlong with
    | [], hlong => exact absurd hlong (by decide)
    | [_], hlong => exact absurd hlong (by rw [List.length_singleton]; decide)
    | b :: c :: tail, _ => exact ⟨b, c, tail, rfl⟩
  have hread := h []
  have htext : encodePushValue (.bytes (b :: c :: tail)) =
      toHex (encodePushData (b :: c :: tail)) := rfl
  rw [htext, toHex_encodePushData (List.cons_ne_nil _ _), List.append_assoc, readPush_pushHeader]
    at hread
  obtain ⟨hlen, -⟩ := length_of_readBytes hread
  have hmod := Nat.mod_lt (b :: c :: tail).length (show 0 < 2 ^ 32 by decide)
  omega

/-! ## No shorter push -/

/-- What a text that is read as a push costs: one byte where the element has an opcode of its
own, else the element and a length of the least width that has room for it. -/
theorem cost_of_readPush {text rest : HexText} {element : Bytes}
    (h : readPush text = some (element, rest)) :
    ∃ head, text.length = 2 * head + rest.length ∧ (HasOpcode element ∧ 1 ≤ head ∨
      element.length ≤ 75 ∧ head = 1 + element.length ∨
      element.length ≤ 0xff ∧ head = 2 + element.length ∨
      element.length ≤ 0xffff ∧ head = 3 + element.length ∨ head = 5 + element.length) := by
  have hsized {width : Nat} {text : HexText} (h : readSized width text = some (element, rest)) :
      text.length = 2 * (width + element.length) + rest.length ∧ element.length < 256 ^ width := by
    simp only [readSized, Option.bind_eq_bind, Option.bind_eq_some_iff, Prod.exists] at h
    obtain ⟨length, data, hlength, hdata⟩ := h
    obtain ⟨hwidth, hfirst⟩ := length_of_readBytes hlength
    obtain ⟨hcount, hsecond⟩ := length_of_readBytes hdata
    have hlt := leNat_lt length
    rw [hwidth] at hlt
    exact ⟨by omega, by omega⟩
  simp only [readPush, Option.bind_eq_bind, Option.bind_eq_some_iff, Prod.exists] at h
  obtain ⟨code, data, hcode, hdata⟩ := h
  obtain ⟨-, hfirst⟩ := length_of_readBytes hcode
  split at hdata
  · rename_i hle
    obtain ⟨hcount, hsecond⟩ := length_of_readBytes hdata
    exact ⟨1 + element.length, by omega, .inr (.inl ⟨by omega, rfl⟩)⟩
  split at hdata
  · obtain ⟨hlength, hlt⟩ := hsized hdata
    exact ⟨2 + element.length, by omega, .inr (.inr (.inl ⟨by omega, rfl⟩))⟩
  split at hdata
  · obtain ⟨hlength, hlt⟩ := hsized hdata
    exact ⟨3 + element.length, by omega, .inr (.inr (.inr (.inl ⟨by omega, rfl⟩)))⟩
  split at hdata
  · obtain ⟨hlength, hlt⟩ := hsized hdata
    exact ⟨5 + element.length, by omega, .inr (.inr (.inr (.inr rfl)))⟩
  split at hdata
  · cases hdata
    exact ⟨1, by omega, .inl ⟨.inl rfl, le_rfl⟩⟩
  split at hdata
  · rename_i hrange
    cases hdata
    refine ⟨1, by omega, .inl ⟨.inr ⟨(leNat code - 0x50).toUInt8, ?_, ?_, rfl⟩, le_rfl⟩⟩
    · rw [UInt8.le_iff_toNat_le, Nat.toUInt8_eq, UInt8.toNat_ofNat', Nat.mod_eq_of_lt (by omega)]
      show 1 ≤ _
      omega
    · rw [UInt8.le_iff_toNat_le, Nat.toUInt8_eq, UInt8.toNat_ofNat', Nat.mod_eq_of_lt (by omega)]
      show _ ≤ 16
      omega
  · cases hdata

/-- What the emitter writes costs no more. -/
theorem isShortest_encodePushValue (value : PushValue) :
    IsShortest (encodePushValue value) value.toBytes := by
  intro other rest hread
  obtain ⟨head, hlength, hcost⟩ := cost_of_readPush hread
  rw [List.length_append] at hlength
  have hother : other.length = 2 * head := by omega
  -- the length of what is written, by the element
  have hdata {data : Bytes} (hne : data ≠ []) :
      (toHex (encodePushData data)).length = 2 * ((if data.length ≤ 75 then 1
        else if data.length ≤ 0xff then 2 else if data.length ≤ 0xffff then 3 else 5) +
          data.length) := by
    have hpos := List.length_pos_of_ne_nil hne
    rw [length_toHex, encodePushData]
    rw [if_neg (by omega)]
    split
    · rw [List.length_cons]
      omega
    split
    · rw [List.length_cons, List.length_cons]
      omega
    split
    · rw [List.length_cons, List.length_append, length_leBytes]
      omega
    · rw [List.length_cons, List.length_append, length_leBytes]
      omega
  have hframed {data : Bytes} (hne : data ≠ []) (hno : ¬ HasOpcode data)
      (hcost : HasOpcode data ∧ 1 ≤ head ∨ data.length ≤ 75 ∧ head = 1 + data.length ∨
        data.length ≤ 0xff ∧ head = 2 + data.length ∨
        data.length ≤ 0xffff ∧ head = 3 + data.length ∨ head = 5 + data.length) :
      (toHex (encodePushData data)).length ≤ other.length := by
    rw [hdata hne, hother]
    rcases hcost with ⟨hopcode, -⟩ | hcost | hcost | hcost | hcost
    · exact absurd hopcode hno
    all_goals
      split
      · omega
      split
      · omega
      split <;> omega
  have hpositive : 2 ≤ other.length := by omega
  have hbyte {k : Nat} (hk : k < 256) : (hexNumber k).length ≤ other.length := by
    rw [length_hexNumber_of_lt hk]
    exact hpositive
  rw [← encodePushValue_toBytes]
  match value.toBytes, hcost with
  | [], _ => exact hpositive
  | [b], hcost =>
    show (if 1 ≤ b ∧ b ≤ 16 then _ else if b = 0x81 then _ else _ : HexText).length ≤ _
    by_cases hsmall : 1 ≤ b ∧ b ≤ 16
    · have hhigh : b.toNat ≤ 16 := UInt8.le_iff_toNat_le.mp hsmall.2
      rw [if_pos hsmall]
      exact hbyte (by omega)
    rw [if_neg hsmall]
    by_cases hneg : b = 0x81
    · rw [if_pos hneg]
      exact hpositive
    · rw [if_neg hneg]
      refine hframed (List.cons_ne_nil _ _) ?_ hcost
      rintro (hminus | ⟨c, hlow, hhigh, hc⟩)
      · exact hneg (List.head_eq_of_cons_eq hminus)
      · obtain rfl := List.head_eq_of_cons_eq hc
        exact hsmall ⟨hlow, hhigh⟩
  | b :: c :: tail, hcost =>
    refine hframed (List.cons_ne_nil _ _) ?_ hcost
    rintro (hminus | ⟨d, -, -, hd⟩)
    · exact nomatch hminus
    · exact nomatch hd

/-! ## Several values -/

theorem readPushes_encodePushValue {values : List PushValue}
    (hlen : ∀ value ∈ values, value.toBytes.length < 2 ^ 32) (rest : HexText) :
    readPushes values.length ((values.map encodePushValue).flatten ++ rest) =
      some (values.map PushValue.toBytes, rest) := by
  induction values with
  | nil => rfl
  | cons value values ih =>
    obtain ⟨hvalue, hvalues⟩ := List.forall_mem_cons.mp hlen
    rw [List.map_cons, List.flatten_cons, List.append_assoc, List.length_cons, readPushes,
      pushes_encodePushValue hvalue]
    simp only [Option.bind_eq_bind, Option.bind_some, ih hvalues, List.map_cons]

/-- A number is pushed as the shortest bytes that stand for it. -/
theorem encodeScriptNumber_minimal (n : Int) :
    decodeNum (encodeScriptNumber n) = n ∧ IsMinimal (encodeScriptNumber n) ∧
      ∀ bytes, decodeNum bytes = n → (encodeScriptNumber n).length ≤ bytes.length := by
  rw [encodeScriptNumber_eq]
  refine ⟨decodeNum_encodeNum n, isMinimal_encodeNum n, ?_⟩
  rintro bytes rfl
  exact length_encodeNum_decodeNum_le bytes

/-- Values that a push has room for are read back in order, each from one push, none of which
could be shorter; raw bytes are pushed alike, and numbers by their least bytes. -/
theorem pushEncoding_roundTrips {values : List PushValue}
    (hlen : ∀ value ∈ values, value.toBytes.length < 2 ^ 32) :
    (∀ value ∈ values, Pushes (encodePushValue value) value.toBytes ∧
      IsShortest (encodePushValue value) value.toBytes) ∧
    (∀ rest, readPushes values.length ((values.map encodePushValue).flatten ++ rest) =
      some (values.map PushValue.toBytes, rest)) ∧
    (∀ value, encodePushBytesHex value = encodePushValue (.bytes value)) ∧
    ∀ n, (PushValue.bigint n).toBytes = encodeScriptNumber n ∧
      decodeNum (encodeScriptNumber n) = n ∧ IsMinimal (encodeScriptNumber n) ∧
      ∀ bytes, decodeNum bytes = n → (encodeScriptNumber n).length ≤ bytes.length :=
  ⟨fun value hvalue =>
      ⟨pushes_encodePushValue (hlen value hvalue), isShortest_encodePushValue value⟩,
    readPushes_encodePushValue hlen, encodePushBytesHex_eq,
    fun n => ⟨rfl, encodeScriptNumber_minimal n⟩⟩

theorem pushEncoding_values :
    readPushes 3 ((([.bigint 300, .boolean true, .bytes [0]] : List PushValue).map
      encodePushValue).flatten ++ []) = some ([[0x2c, 0x01], [1], [0]], []) :=
  (@pushEncoding_roundTrips [.bigint 300, .boolean true, .bytes [0]] (by decide +kernel)).2.1 []

/-- No push has room for `2 ^ 32` bytes. -/
theorem not_pushes_values : ¬ ∀ value : PushValue, Pushes (encodePushValue value) value.toBytes :=
  fun h => @not_pushes_of_long (List.replicate (2 ^ 32) 0) (le_of_eq List.length_replicate.symm)
    (h (.bytes _))

end Runar.Artifact
