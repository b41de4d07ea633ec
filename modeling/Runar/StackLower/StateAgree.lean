/-
  StackLower/StateAgree.lean --- the state section on chain and off chain.

  WHAT THIS FILE IS FOR.  The SDK writes the state section of a contract from the
  values of its state fields; the compiled contract rebuilds it from the items on
  its stack, in `get_state_script` and in `add_output`.  A contract whose two
  sections differ cannot be spent.  This file compares them.

  WHERE THEY PART.  Numbers, booleans, the five raw byte types and byte strings up
  to 65535 bytes are written alike.  The SDK has no case for Rabin numbers, which it
  writes as framed decimal text, nor for points on the NIST curves, which it frames;
  and the chain cuts the length of a longer byte string to two bytes.
-/
import Runar.StackLower.StateScript
import Runar.Script.Agree
import Runar.Sdk.State

set_option autoImplicit false

namespace Runar.StackLower

open Script Sdk Artifact

/-! ## Values on the stack -/

/-- A stack item holds a value: a number as a script number, a boolean as zero or
one, bytes as they are. -/
def Holds (type : PrimitiveType) (value : StateValue type) (item : Bytes) : Prop :=
  match type, value with
  | .bigint, n | .RabinSig, n | .RabinPubKey, n => decodeNum item = n
  | .boolean, b => decodeNum item = cond b 1 0
  | .ByteString, bytes | .PubKey, bytes | .Sig, bytes | .Sha256, bytes | .Ripemd160, bytes
  | .Addr, bytes | .SigHashPreimage, bytes | .Point, bytes | .P256Point, bytes
  | .P384Point, bytes => item = bytes

/-- The bytes of a state field on chain, from its value. -/
def chainField (type : PrimitiveType) (value : StateValue type) : Except ScriptError Bytes :=
  match type, value with
  | .bigint, n | .RabinSig, n | .RabinPubKey, n => num2bin n 8
  | .boolean, b => .ok [cond b 1 0]
  | .ByteString, bytes => pushDataEncoding bytes
  | .PubKey, bytes | .Sig, bytes | .Sha256, bytes | .Ripemd160, bytes | .Addr, bytes
  | .SigHashPreimage, bytes | .Point, bytes | .P256Point, bytes | .P384Point, bytes => .ok bytes

theorem num2bin_one_bool (b : Bool) :
    num2bin (cond b 1 0) 1 = (.ok [cond b 1 0] : Except ScriptError Bytes) := by
  cases b with
  | true => rfl
  | false => rfl

/-- What the code makes of an item depends on the value it holds. -/
theorem encodeField_of_holds {type : PrimitiveType} {value : StateValue type} {item : Bytes}
    (h : Holds type value item) : encodeField type item = chainField type value := by
  cases type with
  | bigint | RabinSig | RabinPubKey => exact congrArg (num2bin · 8) h
  | boolean => exact (congrArg (num2bin · 1) h).trans (num2bin_one_bool value)
  | ByteString => exact congrArg pushDataEncoding h
  | _ => exact congrArg Except.ok h

/-! ## One field -/

/-- The values that both sides write, and write alike. -/
def WrittenAlike (type : PrimitiveType) (value : StateValue type) : Prop :=
  match type, value with
  | .bigint, _ | .boolean, _ | .PubKey, _ | .Addr, _ | .Ripemd160, _ | .Sha256, _
  | .Point, _ => True
  | .ByteString, bytes => List.length (α := UInt8) bytes ≤ 0xffff
  | .RabinSig, _ | .RabinPubKey, _ | .Sig, _ | .SigHashPreimage, _ | .P256Point, _
  | .P384Point, _ => False

/-- The values that both sides refuse. -/
def RefusedByBoth (type : PrimitiveType) (value : StateValue type) : Prop :=
  match type, value with
  | .bigint, n => ¬ Fits 8 n
  | _, _ => False

def IsRabin (type : PrimitiveType) : Prop := type = .RabinSig ∨ type = .RabinPubKey

theorem length_padStart_ge (width : Nat) (fill : Char) (text : HexText) :
    width ≤ (padStart width fill text).length := by
  unfold padStart
  rw [List.length_append, List.length_replicate]
  omega

theorem halfText_even (n : Nat) : halfText (2 * n) = Nat.toDigits 16 n := by
  unfold halfText
  have hdiv : 2 * n / 2 = n := by omega
  have hmod : 2 * n % 2 = 0 := by omega
  rw [hdiv, if_pos hmod, List.append_nil]

/-- A framed text is longer than the text by a byte at least. -/
theorem length_encodePushDataState (hex : HexText) :
    hex.length + 2 ≤ (encodePushDataState hex).length := by
  unfold encodePushDataState
  have hpad := length_padStart_ge 2 '0' (halfText hex.length)
  split
  · rw [List.length_append]
    omega
  · split
    · rw [List.length_append, List.length_append]
      omega
    · split
      · simp only [List.length_append, List.length_cons]
        omega
      · simp only [List.length_append, List.length_cons]
        omega

theorem length_encodeText (hex : HexText) : hex.length + 2 ≤ (encodeText hex).length := by
  unfold encodeText
  split
  · rename_i h
    rw [h]
    exact Nat.le_refl 2
  · exact length_encodePushDataState hex

theorem toHex_leBytes_one {m : Nat} (h : m < 256) : toHex (leBytes 1 m) = hexNumber m := by
  rw [toHex_leBytes_succ, leBytes_zero, toHex_nil, List.append_nil, Nat.mod_eq_of_lt h]

/-- Up to 65535 bytes the SDK frames a byte string as the chain does. -/
theorem encodeText_toHex {bytes : Bytes} (h : bytes.length ≤ 0xffff) :
    ∃ framed, pushDataEncoding bytes = .ok framed ∧ encodeText (toHex bytes) = toHex framed := by
  rcases Nat.eq_zero_or_pos bytes.length with hzero | hpos
  · have hnil : bytes = [] := List.eq_nil_of_length_eq_zero hzero
    subst hnil
    exact ⟨[0], rfl, rfl⟩
  · have hframe : encodeText (toHex bytes) = encodePushDataState (toHex bytes) :=
      if_neg (by rw [length_toHex]; omega)
    have hhalf : 2 * bytes.length / 2 = bytes.length := by omega
    rw [hframe]
    unfold encodePushDataState pushDataEncoding
    rw [length_toHex, halfText_even, hhalf]
    rcases Nat.lt_or_ge bytes.length 76 with h₁ | h₁
    · refine ⟨_, if_pos h₁, ?_⟩
      rw [if_pos (show 2 * bytes.length ≤ 2 * 75 by omega), toHex_append,
        toHex_leBytes_one (by omega)]
      rfl
    · rw [if_neg (show ¬ 2 * bytes.length ≤ 2 * 75 by omega),
        if_neg (show ¬ bytes.length < 76 by omega)]
      rcases Nat.lt_or_ge bytes.length 256 with h₂ | h₂
      · refine ⟨_, if_pos h₂, ?_⟩
        rw [if_pos (show 2 * bytes.length ≤ 2 * 0xff by omega), toHex_append, toHex_cons,
          toHex_leBytes_one h₂]
        rfl
      · rw [if_neg (show ¬ bytes.length < 256 by omega)]
        refine ⟨_, if_pos (by omega), ?_⟩
        rw [if_neg (show ¬ 2 * bytes.length ≤ 2 * 0xff by omega),
          if_pos (show 2 * bytes.length ≤ 2 * 0xffff by omega), toHex_append, toHex_cons,
          toHex_leBytes_succ, toHex_leBytes_one (show bytes.length / 256 < 256 by omega),
          Nat.mod_eq_of_lt (show bytes.length / 256 < 256 by omega), ← List.append_assoc]
        rfl

/-- A number is written as its word, or refused, by both sides. -/
theorem agree_num2bin (n : Int) (label : String) :
    Agree (encodeNum2Bin n 8 label) (num2bin n 8) := by
  rw [encodeNum2Bin_eq]
  unfold num2bin
  by_cases hfits : Fits 8 n
  · rw [if_pos hfits, if_pos ⟨by omega, hfits⟩]
    exact rfl
  · rw [if_neg hfits, if_neg fun h => hfits h.2]
    trivial

/-- The two sides write such a value alike, or both refuse it. -/
theorem agree_of_writtenAlike {type : PrimitiveType} {value : StateValue type} (label : String)
    (h : WrittenAlike type value) :
    Agree (encodeStateValue type value label) (chainField type value) := by
  cases type with
  | bigint => exact agree_num2bin value label
  | boolean =>
      cases value with
      | true => exact rfl
      | false => exact rfl
  | ByteString =>
      obtain ⟨framed, hchain, htext⟩ := encodeText_toHex h
      show Agree (.ok (encodeText (toHex value))) (pushDataEncoding value)
      rw [hchain]
      exact htext
  | PubKey | Addr | Ripemd160 | Sha256 | Point => exact rfl
  | _ => exact h.elim

/-- A value both sides refuse. -/
theorem refused {type : PrimitiveType} {value : StateValue type} (label : String)
    (h : RefusedByBoth type value) :
    (∃ e, encodeStateValue type value label = .error e) ∧
      ∃ e, chainField type value = .error e := by
  cases type with
  | bigint =>
      have hsdk := encodeNum2Bin_eq value 7 label
      rw [if_neg h] at hsdk
      have hchain : num2bin value 8 = .error .impossibleEncoding := if_neg fun h' => h h'.2
      exact ⟨⟨_, hsdk⟩, ⟨_, hchain⟩⟩
  | _ => exact h.elim

/-- The SDK writes every other value. -/
theorem encodeStateValue_ok {type : PrimitiveType} {value : StateValue type} (label : String)
    (h : ¬ RefusedByBoth type value) : ∃ text, encodeStateValue type value label = .ok text := by
  cases type with
  | bigint =>
      have hsdk := encodeNum2Bin_eq value 7 label
      rw [if_pos (not_not.mp h)] at hsdk
      exact ⟨_, hsdk⟩
  | _ => exact ⟨_, rfl⟩

/-- A long byte string takes more bytes off chain. -/
theorem length_encodeText_long {bytes framed : Bytes} (h : 0xffff < bytes.length)
    (hchain : pushDataEncoding bytes = .ok framed) :
    2 * framed.length < (encodeText (toHex bytes)).length := by
  have hframe : encodeText (toHex bytes) = encodePushDataState (toHex bytes) :=
    if_neg (by rw [length_toHex]; omega)
  unfold pushDataEncoding at hchain
  rw [if_neg (by omega), if_neg (by omega)] at hchain
  split at hchain
  · cases hchain
    have hnum : ∀ m, 2 ≤ (hexNumber (m % 256)).length := fun m => two_le_length_hexNumber _
    have h₀ := hnum (bytes.length)
    have h₁ := hnum (bytes.length / 256)
    have h₂ := hnum (bytes.length / 65536)
    have h₃ := hnum (bytes.length / 16777216)
    have hhalf : 2 * bytes.length / 2 = bytes.length := by omega
    rw [hframe]
    unfold encodePushDataState
    rw [length_toHex, hhalf, if_neg (show ¬ 2 * bytes.length ≤ 2 * 75 by omega),
      if_neg (show ¬ 2 * bytes.length ≤ 2 * 0xff by omega),
      if_neg (show ¬ 2 * bytes.length ≤ 2 * 0xffff by omega)]
    simp only [List.length_append, List.length_cons, List.length_nil, length_leBytes, length_toHex]
    omega
  · cases hchain

/-- Where the value is not a Rabin number, the text is never shorter than the bytes,
and longer when the value is not written alike. -/
theorem length_encodeStateValue {type : PrimitiveType} {value : StateValue type} {label : String}
    {text : HexText} {bytes : Bytes} (hrabin : ¬ IsRabin type)
    (hsdk : encodeStateValue type value label = .ok text)
    (hchain : chainField type value = .ok bytes) :
    2 * bytes.length ≤ text.length ∧
      (¬ WrittenAlike type value → 2 * bytes.length < text.length) := by
  have halike : WrittenAlike type value → text.length = 2 * bytes.length := by
    intro h
    have hagree := agree_of_writtenAlike label h
    rw [hsdk, hchain] at hagree
    have htext : text = toHex bytes := hagree
    rw [htext, length_toHex]
  have hraw : ∀ bs : Bytes, (Except.ok (encodeText (toHex bs)) : Except SerializeError HexText) =
      .ok text → (Except.ok bs : Except ScriptError Bytes) = .ok bytes →
        2 * bytes.length < text.length := by
    intro bs htext hbytes
    cases htext
    cases hbytes
    have hlen := length_encodeText (toHex bytes)
    rw [length_toHex] at hlen
    omega
  by_cases h : WrittenAlike type value
  · have hlen := halike h
    exact ⟨by omega, fun h' => (h' h).elim⟩
  · have hlt : 2 * bytes.length < text.length := by
      cases type with
      | bigint | boolean | PubKey | Addr | Ripemd160 | Sha256 | Point => exact (h trivial).elim
      | RabinSig => exact (hrabin (.inl rfl)).elim
      | RabinPubKey => exact (hrabin (.inr rfl)).elim
      | ByteString =>
          cases hsdk
          exact length_encodeText_long (Nat.lt_of_not_le h) hchain
      | Sig | SigHashPreimage | P256Point | P384Point => exact hraw value hsdk hchain
    exact ⟨Nat.le_of_lt hlt, fun _ => hlt⟩

/-! ## Rabin numbers -/

/-- A framed text of decimal digits that is the text of a word of eight bytes has
fourteen digits. -/
theorem decimalText_of_framed {n : Int} {word : Bytes} (hlen : word.length = 8)
    (heq : encodeText (decimalText n) = toHex word) :
    0 ≤ n ∧ n.natAbs < 10 ^ 14 ∧ '0' :: '7' :: Nat.toDigits 10 n.natAbs = toHex word := by
  have hlen16 : (toHex word).length = 16 := by rw [length_toHex, hlen]
  have hpos : 0 < (decimalText n).length := List.length_pos_iff.mpr (decimalText_ne_nil n)
  have hframe : encodeText (decimalText n) = encodePushDataState (decimalText n) :=
    if_neg (by omega)
  have hshort : (decimalText n).length + 2 ≤ 16 := by
    have hle := length_encodePushDataState (decimalText n)
    rw [← hframe, heq, hlen16] at hle
    exact hle
  rw [hframe] at heq
  unfold encodePushDataState at heq
  rw [if_pos (show (decimalText n).length ≤ 2 * 75 by omega)] at heq
  have hchars : ∀ c ∈ padStart 2 '0' (halfText (decimalText n).length) ++ decimalText n,
      c ≠ '.' ∧ c ≠ '-' := by
    intro c hc
    rw [heq] at hc
    exact ne_of_mem_toHex hc
  -- half a byte shows as a point, a sign as a dash
  have heven : (decimalText n).length % 2 = 0 := by
    by_contra hodd
    refine (hchars '.' ?_).1 rfl
    unfold padStart halfText
    rw [if_neg hodd]
    simp
  have hnonneg : 0 ≤ n := by
    by_contra hneg
    refine (hchars '-' ?_).2 rfl
    unfold decimalText
    rw [if_pos (by omega)]
    simp
  have hdecimal : decimalText n = Nat.toDigits 10 n.natAbs := if_neg (by omega)
  obtain ⟨k, hk⟩ : ∃ k, (decimalText n).length = 2 * k := ⟨(decimalText n).length / 2, by omega⟩
  have hpad : padStart 2 '0' (halfText (decimalText n).length) = ['0', k.digitChar] := by
    rw [hk, halfText_even, Nat.toDigits_of_lt_base (by omega)]
    rfl
  rw [hpad] at heq
  have hseven : k = 7 := by
    have htotal := congrArg List.length heq
    rw [List.length_append, hlen16, hk, List.length_cons, List.length_singleton] at htotal
    omega
  subst hseven
  refine ⟨hnonneg, toDigits_ten_lt (by rw [← hdecimal, hk]), ?_⟩
  rw [← heq, hdecimal]
  rfl

/-- Framed decimal digits are never the text of the number's word: the word would
start with the byte 7, an odd number, and end in the digit 0. -/
theorem encodeText_decimalText_ne (n : Int) {word : Bytes} (hword : num2bin n 8 = .ok word) :
    encodeText (decimalText n) ≠ toHex word := by
  intro heq
  have hbytes : word = signedBytes 8 n := by
    unfold num2bin at hword
    split at hword
    · cases hword
      rfl
    · cases hword
  obtain ⟨hnonneg, hlt, htext⟩ := decimalText_of_framed (by rw [hbytes, length_signedBytes]) heq
  rw [hbytes, signedBytes, signed_of_nonneg 8 hnonneg] at htext
  have hodd : n.natAbs % 256 % 16 = 7 := by
    rw [toHex_leBytes_succ, hexNumber_of_lt (Nat.mod_lt _ (by omega)), List.cons_append,
      List.cons_append, List.cons.injEq, List.cons.injEq] at htext
    have hseven : (7 : Nat).digitChar = (n.natAbs % 256 % 16).digitChar := htext.2.1
    exact (digitChar_inj (by omega) (by omega) hseven).symm
  have heven : n.natAbs % 10 = 0 := by
    obtain ⟨front, hfront⟩ := toDigits_ten_concat n.natAbs
    have htop : n.natAbs / 256 ^ 7 % 256 = 0 := by omega
    rw [leBytes_concat, htop, toHex_append, hfront] at htext
    have hlast := congrArg List.getLast? htext
    have hzero : toHex [(0 : Nat).toUInt8] = ['0'] ++ ['0'] := rfl
    rw [hzero, ← List.append_assoc, List.getLast?_concat, ← List.cons_append, ← List.cons_append,
      List.getLast?_concat, Option.some.injEq] at hlast
    have hzero' : (n.natAbs % 10).digitChar = (0 : Nat).digitChar := hlast
    exact digitChar_inj (by omega) (by omega) hzero'
  omega

/-- A Rabin number is never written alike. -/
theorem not_agree_rabin {type : PrimitiveType} (value : StateValue type) (label : String)
    (h : IsRabin type) : ¬ Agree (encodeStateValue type value label) (chainField type value) := by
  have hnum : ∀ n : Int, ¬ Agree (.ok (encodeText (decimalText n)) : Except SerializeError HexText)
      (num2bin n 8) := by
    intro n hagree
    cases hword : num2bin n 8 with
    | error e =>
        rw [hword] at hagree
        exact hagree
    | ok word =>
        rw [hword] at hagree
        exact encodeText_decimalText_ne n hword hagree
  rcases h with rfl | rfl
  · exact hnum value
  · exact hnum value

/-! ## The whole section -/

/-- A scalar state field. -/
abbrev Leaf : Type := String × PrimitiveType

section Sections

variable (values : StateValues)

def sdkLeaf (leaf : Leaf) : Except SerializeError HexText :=
  encodeStateValue leaf.2 (values leaf.1 leaf.2) leaf.1

def chainLeaf (leaf : Leaf) : Except ScriptError Bytes :=
  chainField leaf.2 (values leaf.1 leaf.2)

/-- When the two sections are alike: some number is out of range, so that neither
side writes a section, or every field is written alike. -/
def SectionsAlike (leaves : List Leaf) : Prop :=
  (∃ leaf ∈ leaves, RefusedByBoth leaf.2 (values leaf.1 leaf.2)) ∨
    ∀ leaf ∈ leaves, WrittenAlike leaf.2 (values leaf.1 leaf.2)

/-- Next to a Rabin number every field is written alike. -/
def RabinAlone (leaves : List Leaf) : Prop :=
  ∀ leaf ∈ leaves, IsRabin leaf.2 →
    ∀ other ∈ leaves, other ≠ leaf → WrittenAlike other.2 (values other.1 other.2)

variable {values} {leaves : List Leaf}

/-- The condition is enough. -/
theorem agree_of_sectionsAlike (h : SectionsAlike values leaves) :
    Agree (collect (sdkLeaf values) leaves) (collect (chainLeaf values) leaves) := by
  rcases h with ⟨leaf, hleaf, hrefused⟩ | halike
  · obtain ⟨⟨e, he⟩, ⟨e', he'⟩⟩ := refused leaf.1 hrefused
    obtain ⟨err, herr⟩ := collect_error (f := sdkLeaf values) hleaf he
    obtain ⟨err', herr'⟩ := collect_error (f := chainLeaf values) hleaf he'
    rw [herr, herr']
    trivial
  · refine agree_collect ?_
    intro leaf hleaf
    exact agree_of_writtenAlike leaf.1 (halike leaf hleaf)

/-- A field that is not written alike makes the sections differ: by their length,
or, for a Rabin number, by the field's own bytes. -/
theorem sectionsAlike_of_agree (hnodup : leaves.Nodup) (halone : RabinAlone values leaves)
    (h : Agree (collect (sdkLeaf values) leaves) (collect (chainLeaf values) leaves)) :
    SectionsAlike values leaves := by
  by_contra hnot
  unfold SectionsAlike at hnot
  push Not at hnot
  obtain ⟨hrefused, leaf, hleaf, hbad⟩ := hnot
  have hok : ∀ l ∈ leaves, ∃ text, sdkLeaf values l = .ok text := fun l hl =>
    encodeStateValue_ok l.1 (hrefused l hl)
  by_cases hrabin : ∃ l ∈ leaves, IsRabin l.2
  · obtain ⟨rabin, hmem, htype⟩ := hrabin
    obtain ⟨front, back, rfl⟩ := List.append_of_mem hmem
    have hothers : ∀ l ∈ front ++ back, Agree (sdkLeaf values l) (chainLeaf values l) := by
      intro l hl
      have hne : l ≠ rabin := by
        rintro rfl
        rw [List.nodup_middle, List.nodup_cons] at hnodup
        exact hnodup.1 hl
      have hl' : l ∈ front ++ rabin :: back := by
        rw [List.mem_append, List.mem_cons]
        rcases List.mem_append.mp hl with hl | hl
        · exact .inl hl
        · exact .inr (.inr hl)
      exact agree_of_writtenAlike l.1 (halone rabin hmem htype l hl' hne)
    exact not_agree_collect (fun l hl => hothers l (List.mem_append_left _ hl))
      (fun l hl => hothers l (List.mem_append_right _ hl)) hok
      (not_agree_rabin (values rabin.1 rabin.2) rabin.1 htype) h
  · push Not at hrabin
    obtain ⟨text, htext⟩ := collect_ok hok
    rw [htext] at h
    cases hbytes : collect (chainLeaf values) leaves with
    | error e =>
        rw [hbytes] at h
        exact h
    | ok bytes =>
        rw [hbytes] at h
        have heq : text = toHex bytes := h
        have hle : ∀ l ∈ leaves, ∀ t b, sdkLeaf values l = .ok t → chainLeaf values l = .ok b →
            2 * b.length ≤ t.length :=
          fun l hl t b ht hb => (length_encodeStateValue (hrabin l hl) ht hb).1
        have hlt := length_collect_lt hle hleaf
          (fun t b ht hb => (length_encodeStateValue (hrabin leaf hleaf) ht hb).2 hbad)
          htext hbytes
        rw [heq, length_toHex] at hlt
        exact Nat.lt_irrefl _ hlt

end Sections

/-! ## The sections of a contract -/

/-- A stateful contract: its property names are distinct, and the artifact declares
its state fields. -/
structure Contract where
  properties : List PropertyNode
  stateFields : List StateField
  assembled : extractStateFields properties = .ok stateFields
  distinct : (properties.map (·.name)).Nodup

namespace Contract

variable (contract : Contract)

def anfProperties : List ANFProperty := lowerProperties contract.properties

/-- The scalar state fields. -/
def leaves : List Leaf := stateLeaves contract.anfProperties

theorem map_name_anfProperties :
    contract.anfProperties.map (·.name) = contract.properties.map (·.name) := by
  unfold anfProperties lowerProperties
  rw [List.map_map]
  rfl

theorem nodup_stateProps :
    ((contract.anfProperties.filter fun p => !p.isReadonly).map (·.name)).Nodup := by
  have hall := contract.distinct
  rw [← contract.map_name_anfProperties] at hall
  exact hall.sublist (List.filter_sublist.map _)

theorem nodup_leaves : contract.leaves.Nodup := by
  refine List.Nodup.of_map Prod.fst ?_
  unfold leaves stateLeaves
  rw [List.map_map]
  exact contract.nodup_stateProps

theorem serializeState_eq (values : StateValues) :
    serializeState contract.stateFields values = collect (sdkLeaf values) contract.leaves :=
  serializeState_extractStateFields contract.assembled values

end Contract

/-- A refusal of the compiled contract. -/
inductive Rejection where
  | lower (e : LowerError)
  | script (e : ScriptError)
  deriving Repr

/-- The item that lowered code leaves on top: the operations that lowering added to
those of the context, run from the items of the stack. -/
def topAfter (cfg : Config) (slots : Slots) (ctx : LoweringContext)
    (lowered : Except LowerError LoweringContext) (items : List Bytes) : Except Rejection Bytes :=
  match lowered with
  | .error e => .error (.lower e)
  | .ok ctx' =>
      match runOps cfg slots (ctx'.ops.drop ctx.ops.length) (.start items []) with
      | .error e => .error (.script e)
      | .ok m =>
          match m.main with
          | top :: _ => .ok top
          | [] => .error (.script .invalidStackOperation)

theorem topAfter_eq {cfg : Config} {slots : Slots} {ctx : LoweringContext}
    {lowered : Except LowerError LoweringContext} {ops : List StackOp} {map : StackMap}
    {items rest : List Bytes} {r : Except ScriptError Bytes}
    (hlowered : lowered = .ok (ctx.after ops map))
    (hrun : RunsAs cfg slots ops items (r.map (· :: rest))) :
    topAfter cfg slots ctx lowered items = r.mapError .script := by
  have hops : (ctx.after ops map).ops.drop ctx.ops.length = ops := List.drop_left
  have hrun' := hrun (.start items []) [] rfl rfl (List.append_nil items).symm
  rw [hlowered]
  unfold topAfter
  simp only [hops, hrun']
  cases r with
  | error e => rfl
  | ok top => rfl

/-- The state values are on the stack a context maps, or are the ones the code
pushes for the missing ones. -/
structure StateOnStack (contract : Contract) (values : StateValues) (ctx : LoweringContext)
    (cells : List Cell) : Prop where
  properties : ctx.properties = contract.anfProperties
  stackMap : ctx.stackMap = slotsOf cells
  holds : ∀ prop ∈ ctx.stateProps, Holds prop.type (values prop.name prop.type) (propItem cells prop)

/-- The section that `get_state_script` builds is the one the SDK writes. -/
def GetStateScriptAgrees (cfg : Config) (slots : Slots) (contract : Contract) (values : StateValues)
    (ctx : LoweringContext) (cells : List Cell) (bindingName : String) : Prop :=
  Agree (serializeState contract.stateFields values)
    (topAfter cfg slots ctx (ctx.lowerGetStateScript bindingName) (itemsOf cells))

/-- The operands of an `add_output` are on the stack: the code part, the amount, and
one value for each state property. -/
structure OutputOnStack (contract : Contract) (values : StateValues) (ctx : LoweringContext)
    (cells : List Cell) (codePart : Bytes) (satoshis : String) (stateValues : List String)
    (itemOf : String → Bytes) : Prop where
  properties : ctx.properties = contract.anfProperties
  stackMap : ctx.stackMap = slotsOf cells
  codePart : lookup cells "_codePart" = some codePart
  onePerField : stateValues.length = ctx.stateProps.length
  operands : ∀ n ∈ satoshis :: stateValues, lookup cells n = some (itemOf n)
  holds : ∀ v ∈ stateValues.zip ctx.stateProps,
    Holds v.2.type (values v.2.name v.2.type) (itemOf v.1)

/-- The output that `add_output` builds carries the section the SDK writes, behind
the code part and its separator. -/
def AddOutputAgrees (cfg : Config) (slots : Slots) (contract : Contract) (values : StateValues)
    (ctx : LoweringContext) (cells : List Cell) (codePart : Bytes) (amount : Bytes)
    (lowered : Except LowerError LoweringContext) : Prop :=
  match serializeState contract.stateFields values with
  | .ok text => ∃ state, text = toHex state ∧
      topAfter cfg slots ctx lowered (itemsOf cells) =
        (outputBytes amount (codePart ++ 0x6a :: state)).mapError .script
  | .error _ => ∃ e, topAfter cfg slots ctx lowered (itemsOf cells) = .error e

theorem stateSection_eq_collect (fields : List (PrimitiveType × Bytes)) :
    stateSection fields = collect (fun f => encodeField f.1 f.2) fields := rfl

theorem agree_mapError {ε ε' ε'' : Type} (f : ε' → ε'') (sdk : Except ε HexText)
    (chain : Except ε' Bytes) : Agree sdk (chain.mapError f) ↔ Agree sdk chain := by
  cases chain with
  | error e => cases sdk <;> exact Iff.rfl
  | ok bytes => cases sdk <;> exact Iff.rfl

section Contracts

variable {cfg : Config} {slots : Slots} {contract : Contract} {values : StateValues}
  {ctx : LoweringContext} {cells : List Cell}

/-- Comparing `get_state_script` with the SDK is comparing the sections. -/
theorem getStateScriptAgrees_iff (h : StateOnStack contract values ctx cells)
    (bindingName : String) :
    GetStateScriptAgrees cfg slots contract values ctx cells bindingName ↔
      Agree (collect (sdkLeaf values) contract.leaves)
        (collect (chainLeaf values) contract.leaves) := by
  have hprops : ctx.stateProps = contract.anfProperties.filter fun p => !p.isReadonly := by
    unfold LoweringContext.stateProps
    rw [h.properties]
  obtain ⟨ops, rest, hlowered, hrun⟩ := lowerGetStateScript_spec cfg slots h.stackMap
    (hprops ▸ contract.nodup_stateProps) bindingName
  have hsection : stateSection (fieldsOf cells ctx.stateProps) =
      collect (chainLeaf values) contract.leaves := by
    unfold Contract.leaves stateLeaves
    rw [stateSection_eq_collect, fieldsOf, collect_map, collect_map, ← hprops]
    refine collect_congr ?_
    intro prop hprop
    exact encodeField_of_holds (h.holds prop hprop)
  unfold GetStateScriptAgrees
  rw [topAfter_eq hlowered hrun, agree_mapError, hsection, contract.serializeState_eq]

/-- Where the sections agree, outputs carry the SDK's. -/
theorem addOutputAgrees_of_agree {codePart : Bytes} {satoshis : String}
    {stateValues : List String} {itemOf : String → Bytes}
    (h : OutputOnStack contract values ctx cells codePart satoshis stateValues itemOf)
    (bindingName : String) (bindingIndex : Nat) (lastUses : LastUses)
    (hagree : Agree (collect (sdkLeaf values) contract.leaves)
      (collect (chainLeaf values) contract.leaves)) :
    AddOutputAgrees cfg slots contract values ctx cells codePart (itemOf satoshis)
      (ctx.lowerAddOutput bindingName satoshis stateValues bindingIndex lastUses) := by
  have hprops : ctx.stateProps = contract.anfProperties.filter fun p => !p.isReadonly := by
    unfold LoweringContext.stateProps
    rw [h.properties]
  obtain ⟨ops, rest, hlowered, hrun⟩ := lowerAddOutput_spec cfg slots itemOf h.stackMap h.codePart
    bindingName satoshis stateValues bindingIndex lastUses h.operands
  have hsection : stateSection (valueFields itemOf (stateValues.zip ctx.stateProps)) =
      collect (chainLeaf values) contract.leaves := by
    have hzip : ctx.stateProps = (stateValues.zip ctx.stateProps).map Prod.snd :=
      (List.map_snd_zip (Nat.le_of_eq h.onePerField.symm)).symm
    unfold Contract.leaves stateLeaves
    rw [stateSection_eq_collect, valueFields, collect_map, collect_map, ← hprops, hzip,
      collect_map, ← hzip]
    refine collect_congr ?_
    intro v hv
    exact encodeField_of_holds (h.holds v hv)
  rw [hsection] at hrun
  unfold AddOutputAgrees
  rw [topAfter_eq hlowered hrun, contract.serializeState_eq]
  cases hsdk : collect (sdkLeaf values) contract.leaves with
  | error e =>
      rw [hsdk] at hagree
      cases hchain : collect (chainLeaf values) contract.leaves with
      | error e' => exact ⟨_, rfl⟩
      | ok bytes =>
          rw [hchain] at hagree
          exact hagree.elim
  | ok text =>
      rw [hsdk] at hagree
      cases hchain : collect (chainLeaf values) contract.leaves with
      | error e' =>
          rw [hchain] at hagree
          exact hagree.elim
      | ok bytes =>
          rw [hchain] at hagree
          exact ⟨bytes, hagree, rfl⟩

end Contracts

/-- A contract of scalar properties. -/
def Contract.ofScalars (properties : List PropertyNode)
    (scalars : ∀ p ∈ properties, p.syntheticArrayChain = [])
    (distinct : (properties.map (·.name)).Nodup) : Contract where
  properties := properties
  stateFields := (flatEntries 0 properties).map toField
  assembled := extractStateFields_of_scalars scalars
  distinct := distinct

/-- A context over some cells. -/
def contextOf (contract : Contract) (cells : List Cell) : LoweringContext where
  stackMap := slotsOf cells
  ops := []
  properties := contract.anfProperties
  privateMethods := []
  localBindings := []
  outerProtectedRefs := none
  insideBranch := false
  arrayElements := []
  constValues := []
  renamedParams := []

/-- A machine without signatures or hashes, and a script without slots. -/
def bareConfig : Config :=
  ⟨fun _ => false, id, id, id, fun _ _ => false, fun _ _ => false, fun _ m => .ok m⟩

def bareSlots : Slots := ⟨fun _ _ => [], []⟩

/-- A counter with a note. -/
def noteContract : Contract :=
  .ofScalars [⟨"count", .bigint, false, none, []⟩, ⟨"note", .ByteString, false, none, []⟩]
    (by simp) (by simp)

/-- Zero and the empty byte string. -/
def noteValues : StateValues := fun _ type =>
  match type with
  | .bigint | .RabinSig | .RabinPubKey => (0 : Int)
  | .boolean => false
  | .ByteString | .PubKey | .Sig | .Sha256 | .Ripemd160 | .Addr | .SigHashPreimage | .Point
  | .P256Point | .P384Point => ([] : Bytes)

def noteCells : List Cell :=
  [(some "count", []), (some "note", []), (some "satoshis", [1]), (some "_codePart", [0x51])]

/-- A contract with a point on the curve P-256. -/
def curveContract : Contract :=
  .ofScalars [⟨"key", .P256Point, false, none, []⟩] (by simp) (by simp)

def curveValues : StateValues := fun _ type =>
  match type with
  | .bigint | .RabinSig | .RabinPubKey => (0 : Int)
  | .boolean => false
  | .ByteString | .PubKey | .Sig | .Sha256 | .Ripemd160 | .Addr | .SigHashPreimage | .Point
  | .P256Point | .P384Point => (List.replicate 64 0 : Bytes)

def curveCells : List Cell := [(some "key", List.replicate 64 0)]

end Runar.StackLower
