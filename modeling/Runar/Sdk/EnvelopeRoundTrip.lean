/-
  Sdk/EnvelopeRoundTrip.lean --- inscriptions built and read back.

  WHAT THIS FILE IS FOR.  An envelope put behind code that has none of its own is found there,
  whatever comes behind it, and taken out again, if both of its pushes have data: an empty push
  is an OP_0, which the reader of pushes does not take.  The content type comes back if it does
  not start with a byte order mark, which the decoder drops, and has no lone surrogates, which
  the encoder replaces.
-/
import Runar.Sdk.Lossless

set_option autoImplicit false

namespace Runar.Sdk

open Script Codec Logic

/-! ## Taking an envelope out -/

/-- The script without the envelope at some bounds. -/
def withoutEnvelope (scriptHex : HexText) : Option EnvelopeBounds → HexText
  | none => scriptHex
  | some bounds => slice scriptHex 0 bounds.startHex ++ sliceFrom scriptHex (some bounds.endHex)

def stripInscriptionEnvelope (fuel : Nat) (scriptHex : HexText) : Option HexText :=
  (findInscriptionEnvelope scriptHex fuel (some 0)).map (withoutEnvelope scriptHex)

/-- `stripInscriptionEnvelope` returns `result`. -/
def StripsInscription (scriptHex result : HexText) : Prop :=
  ∃ fuel, stripInscriptionEnvelope fuel scriptHex = some result

/-! ## Building an envelope -/

/-- The text that an encoder makes of a text with lone surrogates. -/
def scalarText (text : List ℕ) : List ℕ :=
  text.map fun c => if c < 0xd800 ∨ 0xe000 ≤ c then c else replacement

/-- A content type, as its code points, and the hexadecimal digits of some data.  No string of a
program has 2^32 characters. -/
structure Content where
  contentType : List ℕ
  data : HexText
  points : ∀ c ∈ contentType, c < 0x110000
  whole : data.length % 2 = 0
  shortType : (utf8ToHex (scalarText contentType)).length < 2 ^ 32
  shortData : data.length < 2 ^ 32

namespace Content

/-- The inscription an envelope is built of. -/
def inscription (content : Content) : Inscription :=
  ⟨utf8ToHex (scalarText content.contentType), content.data⟩

def envelope (content : Content) : HexText := buildInscriptionEnvelope content.inscription

/-- The envelope behind some code, with something behind it, is read as it was built, and taking
it out leaves the rest. -/
def RoundTrips (content : Content) (code : List HexText) : Prop :=
  ∀ suffix : HexText,
    ParsesInscription (code.flatten ++ (content.envelope ++ suffix))
      (some ⟨utf8ToHex content.contentType, content.data⟩) ∧
    StripsInscription (code.flatten ++ (content.envelope ++ suffix)) (code.flatten ++ suffix)

/-- What comes back: a content type and data that are not empty, no lone surrogate, and no byte
order mark in front. -/
structure Readable (content : Content) : Prop where
  contentType : content.contentType ≠ []
  data : content.data ≠ []
  scalars : ∀ c ∈ content.contentType, IsScalar c
  noMark : content.contentType.head? ≠ some 0xfeff

end Content

/-! ## The search past the code -/

/-- Where the elements start an envelope, they are read as one. -/
theorem not_matches_of_none {es : List HexText} (hes : ∀ e ∈ es, Whole e)
    (h : inscriptionBehind es = none) : ¬ Matches envelopeParts es := by
  intro hmatch
  obtain ⟨inscription, hsome, -⟩ :=
    inscriptionOf_elements (show (['0', '0'] : HexText).length = 2 from rfl) hes hmatch []
  exact nomatch h.symm.trans hsome

/-- Code without an envelope is passed, with an envelope behind it and anything behind that. -/
theorem find_past_code {code : List HexText} (hcode : ∀ e ∈ code, Whole e)
    (hnone : inscriptionIn code = none) {inscription : Inscription}
    (henvelope : ∀ e ∈ envelopeElements inscription, Whole e) (before after : HexText)
    (fuel : Nat) :
    findInscriptionEnvelope
        (before ++ (code.flatten ++ ((envelopeElements inscription).flatten ++ after)))
        (fuel + code.length) (some before.length) =
      findInscriptionEnvelope
        (before ++ (code.flatten ++ ((envelopeElements inscription).flatten ++ after))) fuel
        (some (before ++ code.flatten).length) := by
  induction code generalizing before with
  | nil => rw [List.flatten_nil, List.append_nil, List.length_nil, Nat.add_zero]
  | cons e code ih =>
    obtain ⟨he, hcode⟩ := List.forall_mem_cons.mp hcode
    rw [inscriptionIn, Option.or_eq_none_iff] at hnone
    obtain ⟨hend, hsize⟩ :=
      he.size before (code.flatten ++ ((envelopeElements inscription).flatten ++ after))
    obtain ⟨n, hopcode, htwo, hone, -⟩ := he.opcode
    have hread := byteAt_opcode htwo before
      (code.flatten ++ ((envelopeElements inscription).flatten ++ after))
    have hnext := ih hcode hnone.2 (before ++ e)
    rw [List.append_assoc, List.append_assoc, List.length_append] at hnext
    push_cast at hnext
    -- no envelope starts here, neither in the code nor over its end
    have hmiss : (if opcodeOf e = some 0x00 then
        envelopeEnd (before ++ (e ++ (code.flatten ++
          ((envelopeElements inscription).flatten ++ after)))) before.length
        else none) = none := by
      split
      · next hzero =>
        obtain rfl := Option.some.inj (hopcode.symm.trans hzero)
        have hlen := hone (.inl rfl)
        have hall : ∀ e ∈ code ++ envelopeElements inscription, Whole e :=
          List.forall_mem_append.mpr ⟨hcode, henvelope⟩
        have hbehind : inscriptionBehind (code ++ envelopeElements inscription) = none := by
          rw [envelopeElements, inscriptionBehind_append]
          rw [if_pos hzero] at hnone
          exact hnone.1
        have hparts := behindParts_elements_tail opens_envelopeParts hall (by
          rw [List.length_append]
          exact Nat.le_add_left _ _) (before ++ e) after
        rw [if_neg (not_matches_of_none hall hbehind), List.flatten_append, List.append_assoc,
          List.append_assoc] at hparts
        rw [envelopeEnd_eq, show (before.length : Int) + 2 = (before ++ e).length by
          rw [List.length_append, hlen]; rfl]
        exact hparts
      · rfl
    rw [List.flatten_cons, List.append_assoc, List.length_cons, ← Nat.add_assoc,
      findInscriptionEnvelope, if_pos hend, hread, hmiss, hsize]
    dsimp only
    rw [Option.map_some, hnext]

/-- An envelope with data in both pushes is found where the search comes to it. -/
theorem find_envelope {inscription : Inscription}
    (henvelope : ∀ e ∈ envelopeElements inscription, Whole e)
    (hmatch : Matches envelopeParts (envelopeElements inscription).tail) (before after : HexText)
    (fuel : Nat) :
    findInscriptionEnvelope (before ++ ((envelopeElements inscription).flatten ++ after))
        (fuel + 1) (some before.length) =
      some (some ⟨before.length,
        before.length + (envelopeElements inscription).flatten.length⟩) := by
  obtain ⟨hzero, htail⟩ : Whole ['0', '0'] ∧
      ∀ e ∈ (envelopeElements inscription).tail, Whole e := List.forall_mem_cons.mp henvelope
  have hcons : (envelopeElements inscription).flatten =
      ['0', '0'] ++ (envelopeElements inscription).tail.flatten := rfl
  obtain ⟨hend, -⟩ := hzero.size before ((envelopeElements inscription).tail.flatten ++ after)
  have hread := byteAt_opcode (show 2 ≤ (['0', '0'] : HexText).length from Nat.le_refl 2) before
    ((envelopeElements inscription).tail.flatten ++ after)
  have hparts := behindParts_elements_tail opens_envelopeParts htail
    (show envelopeParts.length ≤ _ from Nat.le_refl 7) (before ++ ['0', '0']) after
  rw [if_pos hmatch, List.append_assoc, List.length_append] at hparts
  rw [hcons, List.append_assoc, findInscriptionEnvelope, if_pos hend, hread,
    if_pos (show opcodeOf ['0', '0'] = some 0 from rfl), envelopeEnd_eq]
  rw [show (before.length : Int) + 2 = ((before.length + (['0', '0'] : HexText).length : Nat) : Int)
    by push_cast; rfl, hparts]
  have hall : (envelopeElements inscription).tail.take envelopeParts.length =
      (envelopeElements inscription).tail := rfl
  rw [hall, List.length_append]
  dsimp only
  congr 3
  push_cast
  omega

/-- An envelope is read the same with something behind it. -/
theorem inscriptionOf_append {before envelope : HexText} (after : HexText) :
    inscriptionOf (before ++ (envelope ++ after))
        ⟨before.length, before.length + envelope.length⟩ =
      inscriptionOf (before ++ envelope) ⟨before.length, before.length + envelope.length⟩ := by
  have hcut (rest : HexText) : slice (before ++ (envelope ++ rest)) before.length
      (before.length + envelope.length) = envelope := slice_append before envelope rest rfl rfl
  have hcut' := hcut []
  rw [List.append_nil] at hcut'
  rw [inscriptionOf, inscriptionOf]
  dsimp only
  rw [hcut after, hcut']

/-- What an envelope behind code without one is found to be, with anything behind it. -/
theorem find_behind_code {code : List HexText} (hcode : ∀ e ∈ code, Whole e)
    (hnone : inscriptionIn code = none) {inscription : Inscription}
    (henvelope : ∀ e ∈ envelopeElements inscription, Whole e)
    (hmatch : Matches envelopeParts (envelopeElements inscription).tail) (after : HexText) :
    findInscriptionEnvelope
        (code.flatten ++ ((envelopeElements inscription).flatten ++ after)) (1 + code.length)
        (some 0) =
      some (some ⟨code.flatten.length,
        code.flatten.length + (envelopeElements inscription).flatten.length⟩) := by
  have hpast := find_past_code hcode hnone henvelope [] after 1
  have hfound := find_envelope henvelope hmatch code.flatten after 0
  rw [Nat.zero_add] at hfound
  rw [List.nil_append, List.nil_append] at hpast
  exact hpast.trans hfound

/-! ## The text of a content type -/

section Text

variable {text : List ℕ}

theorem isScalar_of_mem_scalarText (h : ∀ c ∈ text, c < 0x110000) :
    ∀ c ∈ scalarText text, IsScalar c := by
  intro c hc
  obtain ⟨d, hd, rfl⟩ := List.mem_map.mp hc
  have hlt := h d hd
  unfold IsScalar
  split
  · omega
  · exact Or.inr (by decide)

theorem scalarText_eq_self (h : ∀ c ∈ text, IsScalar c) : scalarText text = text := by
  refine (List.map_congr_left fun c hc => ?_).trans (List.map_id text)
  have hscalar := h c hc
  unfold IsScalar at hscalar
  exact if_pos (by omega)

/-- A lone surrogate and what stands for it take as many bytes. -/
theorem length_utf8Encode_scalarText (text : List ℕ) :
    (utf8Encode (scalarText text)).length = (utf8Encode text).length := by
  induction text with
  | nil => rfl
  | cons c text ih =>
    have hone : (utf8Bytes (if c < 0xd800 ∨ 0xe000 ≤ c then c else replacement)).length =
        (utf8Bytes c).length := by
      split
      · rfl
      · rw [utf8Bytes, utf8Bytes, if_neg (show ¬ c < 0x80 by omega),
          if_neg (show ¬ c < 0x800 by omega), if_pos (show c < 0x10000 by omega)]
        rfl
    rw [scalarText, utf8Encode, utf8Encode, List.map_cons, List.flatMap_cons, List.flatMap_cons,
      List.length_append, List.length_append, hone]
    exact congrArg _ ih

theorem utf8Encode_lt_of (h : ∀ c ∈ text, c < 0x110000) : ∀ b ∈ utf8Encode text, b < 256 := by
  intro b hb
  obtain ⟨c, hc, hb⟩ := List.mem_flatMap.mp hb
  have hlt := h c hc
  have hall : ∀ b ∈ utf8Bytes c, b < 256 := by
    rw [utf8Bytes]
    split
    · simpa using by omega
    split
    · simp only [List.forall_mem_cons]
      exact ⟨by omega, by omega, fun _ h => (by cases h)⟩
    split
    · simp only [List.forall_mem_cons]
      exact ⟨by omega, by omega, by omega, fun _ h => (by cases h)⟩
    · simp only [List.forall_mem_cons]
      exact ⟨by omega, by omega, by omega, by omega, fun _ h => (by cases h)⟩
  exact hall b hb

/-- A text with a lone surrogate is not encoded as one without is. -/
theorem scalars_of_utf8Encode (h : utf8Encode (scalarText text) = utf8Encode text)
    (hpoints : ∀ c ∈ text, c < 0x110000) : ∀ c ∈ text, IsScalar c := by
  induction text with
  | nil => exact fun _ h => nomatch h
  | cons c text ih =>
    obtain ⟨hc, htext⟩ := List.forall_mem_cons.mp hpoints
    rw [scalarText, utf8Encode, utf8Encode, List.map_cons, List.flatMap_cons,
      List.flatMap_cons] at h
    have hrest : (utf8Encode (scalarText text)).length = (utf8Encode text).length :=
      length_utf8Encode_scalarText text
    obtain ⟨hfirst, hrest⟩ := List.append_inj' h hrest
    refine List.forall_mem_cons.mpr ⟨?_, ih hrest htext⟩
    unfold IsScalar
    split at hfirst
    · omega
    · -- the second byte of a surrogate is not that of the replacement
      exfalso
      rw [utf8Bytes, utf8Bytes, if_neg (show ¬ c < 0x80 by omega),
        if_neg (show ¬ c < 0x800 by omega), if_pos (show c < 0x10000 by omega)] at hfirst
      have hhead := (List.cons.inj hfirst).1
      have hreplacement : 0xe0 + replacement / 4096 = 0xef := rfl
      omega

/-- A content type is read as it was written if it has no lone surrogate and no byte order
mark. -/
theorem readable_of_utf8 (hpoints : ∀ c ∈ text, c < 0x110000)
    (h : hexToUtf8 (utf8ToHex (scalarText text)) = utf8ToHex text) :
    (∀ c ∈ text, IsScalar c) ∧ text.head? ≠ some 0xfeff := by
  have hscalars := isScalar_of_mem_scalarText hpoints
  have hdrop : ∀ c ∈ dropMark (scalarText text), IsScalar c := by
    intro c hc
    refine hscalars c ?_
    unfold dropMark at hc
    split at hc
    · next heq =>
      rw [heq]
      exact List.mem_cons_of_mem _ hc
    · exact hc
  have hbytes := h
  rw [hexToUtf8_utf8ToHex hscalars] at hbytes
  have hbytes := congrArg textBytes hbytes
  rw [utf8ToHex, utf8ToHex, textBytes_hexNumbers (utf8Encode_lt hdrop),
    textBytes_hexNumbers (utf8Encode_lt_of hpoints)] at hbytes
  have hencode : utf8Encode (dropMark (scalarText text)) = utf8Encode text :=
    List.map_injective_iff.mpr (Option.some_injective ℕ) hbytes
  -- without its mark a text has fewer bytes
  have hkept : dropMark (scalarText text) = scalarText text := by
    have hlength := (congrArg List.length hencode).trans (length_utf8Encode_scalarText text).symm
    unfold dropMark at hlength ⊢
    split at hlength
    · next rest heq =>
      rw [heq, utf8Encode, utf8Encode, List.flatMap_cons, List.length_append] at hlength
      have hmark : (utf8Bytes 0xfeff).length = 3 := rfl
      omega
    · rfl
  rw [hkept] at hencode
  have htext := scalars_of_utf8Encode hencode hpoints
  rw [scalarText_eq_self htext] at h
  exact ⟨htext, (hexToUtf8_eq_self_iff htext).mp h⟩

end Text

/-! ## The round trip -/

namespace Content

variable (content : Content)

theorem length_typeHex :
    (utf8ToHex (scalarText content.contentType)).length % 2 = 0 := by
  rw [length_utf8ToHex (isScalar_of_mem_scalarText content.points)]
  omega

theorem envelopeElements_whole : ∀ e ∈ envelopeElements content.inscription, Whole e :=
  fun e he => .inl (element_envelope
    (element_encodeText content.length_typeHex content.shortType)
    (element_encodeText content.whole content.shortData) e he)

/-- What is read behind code without an envelope. -/
theorem parses_behind {code : List HexText} (hcode : ∀ e ∈ code, Whole e)
    (hnone : inscriptionIn code = none) :
    ParsesInscription (code.flatten ++ content.envelope)
      (if content.inscription.contentType ≠ [] ∧ content.data ≠ [] then
        some ⟨hexToUtf8 content.inscription.contentType, content.data⟩
      else none) := by
  have hparses := parsesInscription_elements
    (List.forall_mem_append.mpr ⟨hcode, content.envelopeElements_whole⟩)
  rw [List.flatten_append, flatten_envelopeElements, inscriptionIn_append, hnone,
    Option.none_or, inscriptionIn_envelope content.length_typeHex content.whole] at hparses
  exact hparses

/-- With data in both pushes the envelope is found behind the code, whatever follows. -/
theorem find_envelope_behind {code : List HexText} (hcode : ∀ e ∈ code, Whole e)
    (hnone : inscriptionIn code = none)
    (hboth : content.inscription.contentType ≠ [] ∧ content.data ≠ []) (after : HexText) :
    findInscriptionEnvelope (code.flatten ++ (content.envelope ++ after)) (1 + code.length)
        (some 0) =
      some (some ⟨code.flatten.length, code.flatten.length + content.envelope.length⟩) := by
  have hct : pushedData (encodeText content.inscription.contentType) = _ :=
    pushedData_encodeText content.length_typeHex
  have hdata : pushedData (encodeText content.inscription.data) = _ :=
    pushedData_encodeText content.whole
  rw [if_neg hboth.1] at hct
  rw [if_neg (show content.inscription.data ≠ [] from hboth.2)] at hdata
  have hmatch : Matches envelopeParts (envelopeElements content.inscription).tail := by
    simp [envelopeElements, Matches, envelopeParts, hct, hdata]
  have hfound := find_behind_code hcode hnone content.envelopeElements_whole hmatch after
  rw [flatten_envelopeElements] at hfound
  exact hfound

/-- An envelope that is found is read with something behind it as it is without. -/
theorem parses_with_suffix {code : List HexText} (hcode : ∀ e ∈ code, Whole e)
    (hnone : inscriptionIn code = none)
    (hboth : content.inscription.contentType ≠ [] ∧ content.data ≠ []) (suffix : HexText) :
    ParsesInscription (code.flatten ++ (content.envelope ++ suffix))
      (some ⟨hexToUtf8 content.inscription.contentType, content.data⟩) := by
  have hfound := content.find_envelope_behind hcode hnone hboth
  have hread : inscriptionOf (code.flatten ++ content.envelope)
      ⟨code.flatten.length, code.flatten.length + content.envelope.length⟩ =
      some ⟨hexToUtf8 content.inscription.contentType, content.data⟩ := by
    have hparses := content.parses_behind hcode hnone
    rw [if_pos hboth] at hparses
    have hfound := hfound []
    rw [List.append_nil] at hfound
    refine ParsesInscription.unique ⟨1 + code.length, ?_⟩ hparses
    rw [parseInscriptionEnvelope, hfound]
    rfl
  refine ⟨1 + code.length, ?_⟩
  rw [parseInscriptionEnvelope, hfound suffix, Option.map_some, Option.bind_some,
    inscriptionOf_append, hread]

theorem strips_with_suffix {code : List HexText} (hcode : ∀ e ∈ code, Whole e)
    (hnone : inscriptionIn code = none)
    (hboth : content.inscription.contentType ≠ [] ∧ content.data ≠ []) (suffix : HexText) :
    StripsInscription (code.flatten ++ (content.envelope ++ suffix)) (code.flatten ++ suffix) := by
  refine ⟨1 + code.length, ?_⟩
  rw [stripInscriptionEnvelope, content.find_envelope_behind hcode hnone hboth suffix,
    Option.map_some, withoutEnvelope]
  have hright := slice_right (code.flatten ++ content.envelope) suffix
  rw [List.append_assoc, List.length_append] at hright
  push_cast at hright
  rw [slice_left, sliceFrom, hright]

/-- The round trip holds exactly of what can be read. -/
theorem roundTrips_iff_readable {code : List HexText} (hcode : ∀ e ∈ code, Whole e)
    (hnone : ParsesInscription code.flatten none) :
    content.RoundTrips code ↔ content.Readable := by
  have hcodeNone : inscriptionIn code = none :=
    (parsesInscription_elements hcode).unique hnone
  constructor
  · intro h
    have hparsed := (h []).1
    rw [List.append_nil] at hparsed
    have hsame := (content.parses_behind hcode hcodeNone).unique hparsed
    split at hsame
    · next hboth =>
      have htext := congrArg Inscription.contentType (Option.some.inj hsame)
      obtain ⟨hscalars, hmark⟩ := readable_of_utf8 content.points htext
      refine ⟨fun hnil => hboth.1 ?_, hboth.2, hscalars, hmark⟩
      show utf8ToHex (scalarText content.contentType) = []
      rw [hnil]
      rfl
    · exact nomatch hsame
  · rintro ⟨hct, hdata, hscalars, hmark⟩ suffix
    have htype : content.inscription.contentType = utf8ToHex content.contentType :=
      congrArg utf8ToHex (scalarText_eq_self hscalars)
    have hboth : content.inscription.contentType ≠ [] ∧ content.data ≠ [] := by
      rw [htype]
      exact ⟨fun hnil => hct ((utf8ToHex_eq_nil hscalars).mp hnil), hdata⟩
    have hparses := content.parses_with_suffix hcode hcodeNone hboth suffix
    rw [htype, (hexToUtf8_eq_self_iff hscalars).mpr hmark] at hparses
    exact ⟨hparses, content.strips_with_suffix hcode hcodeNone hboth suffix⟩

end Content

/-- The letter a with the byte 0x00. -/
def letter : Content where
  contentType := [0x61]
  data := ['0', '0']
  points := by decide
  whole := rfl
  shortType := by decide
  shortData := by decide

theorem letter_roundTrips : letter.RoundTrips [['5', '1']] :=
  (letter.roundTrips_iff_readable
    (fun _ he => List.mem_singleton.mp he ▸
      .inl (.op ⟨'5', '1', 5, 1, rfl, rfl, rfl, rfl⟩ (.inr (by decide)) (by decide)))
    ⟨2, rfl⟩).mpr
    ⟨by decide, by decide, fun _ hc => List.mem_singleton.mp hc ▸ .inl (by decide), by decide⟩

theorem even_length_nil : ([] : HexText).length % 2 = 0 := rfl

/-- The letter a with no bytes. -/
def emptyData : Content where
  contentType := [0x61]
  data := []
  points := by decide
  whole := even_length_nil
  shortType := by decide
  shortData := by decide

/-- The empty push is not read, so the envelope is neither found nor taken out. -/
theorem not_roundTrips_emptyData : ¬ emptyData.RoundTrips [] := by
  intro h
  have hparsed := (h []).1
  have hnone : ParsesInscription
      (([] : List HexText).flatten ++ (emptyData.envelope ++ [])) none := ⟨20, rfl⟩
  exact nomatch hparsed.unique hnone

end Runar.Sdk
