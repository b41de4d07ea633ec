/-
  Sdk/EnvelopeSearch.lean --- which inscription is found.

  WHAT THIS FILE IS FOR.  On a script of whole opcodes and pushes the search for an
  envelope is a search through the list of them.  An envelope behind some code is found
  exactly when both its pushes have data and the code has no envelope of its own.
-/
import Runar.Sdk.Envelope
import Runar.Sdk.ExtractedArgs

set_option autoImplicit false

namespace Runar.Sdk

open Script Codec Logic

/-! ## Whole opcodes and pushes -/

/-- One opcode, or one push with its data. -/
def Whole (text : HexText) : Prop := Element text ∨ IsByte text 0x6a

/-- The opcode of an element. -/
def opcodeOf (text : HexText) : Option Nat := parseHex (text.take 2)

/-- How many characters stand before the data of a push. -/
def pushHead (opcode : Nat) : Nat :=
  if opcode ≤ 0x4b then 2 else if opcode = 0x4c then 4 else if opcode = 0x4d then 6 else 10

/-- The data of an element that is a push. -/
def pushedData (text : HexText) : Option HexText :=
  (opcodeOf text).bind fun opcode =>
    if 0x01 ≤ opcode ∧ opcode ≤ 0x4e then some (text.drop (pushHead opcode)) else none

section Elements

variable {text : HexText} {n : Nat}

theorem opcodeOf_byte (h : IsByte text n) (rest : HexText) : opcodeOf (text ++ rest) = some n := by
  obtain ⟨_, _, _, _, rfl, hhigh, hlow, rfl⟩ := h
  show parseByte _ _ = _
  rw [parseByte, hhigh, hlow]

/-- What the opcode of an element says of its length. -/
theorem Whole.opcode (h : Whole text) : ∃ n, opcodeOf text = some n ∧ 2 ≤ text.length ∧
    (n = 0 ∨ 0x4e < n → text.length = 2) ∧
    (1 ≤ n → n ≤ 0x4b → text.length = 2 + 2 * n) ∧
    (1 ≤ n → n ≤ 0x4e → pushHead n ≤ text.length) := by
  rcases h with h | hreturn
  · cases h with
    | @op _ n hhead hcode _ =>
      have hlen := hhead.length
      refine ⟨n, ?_, by omega, fun _ => hlen, fun _ _ => by omega, fun _ _ => by omega⟩
      have hread := opcodeOf_byte hhead []
      rwa [List.append_nil] at hread
    | @push head data n hhead hcode hdata =>
      have hlen := hhead.length
      have hsum : (head ++ data).length = 2 + 2 * n := by rw [List.length_append, hlen, hdata]
      refine ⟨n, opcodeOf_byte hhead data, by omega, fun _ => by omega, fun _ _ => hsum,
        fun _ _ => ?_⟩
      rw [pushHead, if_pos hcode.2]
      omega
    | @pushData1 head b0 data n0 hhead h0 hdata =>
      have hlen := hhead.length
      have hlen0 := h0.length
      have hsum : 4 ≤ (head ++ (b0 ++ data)).length := by
        simp only [List.length_append]
        omega
      exact ⟨0x4c, opcodeOf_byte hhead _, by omega, fun h => by omega, fun _ h => by omega,
        fun _ _ => hsum⟩
    | @pushData2 head b0 b1 data n0 n1 hhead h0 h1 hdata =>
      have hlen := hhead.length
      have hlen0 := h0.length
      have hlen1 := h1.length
      have hsum : 6 ≤ (head ++ (b0 ++ (b1 ++ data))).length := by
        simp only [List.length_append]
        omega
      exact ⟨0x4d, opcodeOf_byte hhead _, by omega, fun h => by omega, fun _ h => by omega,
        fun _ _ => hsum⟩
    | @pushData4 head b0 b1 b2 b3 data n0 n1 n2 n3 hhead h0 h1 h2 h3 hdata hlength =>
      have hlen := hhead.length
      have hlen0 := h0.length
      have hlen1 := h1.length
      have hlen2 := h2.length
      have hlen3 := h3.length
      have hsum : 10 ≤ (head ++ (b0 ++ (b1 ++ (b2 ++ (b3 ++ data))))).length := by
        simp only [List.length_append]
        omega
      exact ⟨0x4e, opcodeOf_byte hhead _, by omega, fun h => by omega, fun _ h => by omega,
        fun _ _ => hsum⟩
  · have hlen := hreturn.length
    have hread := opcodeOf_byte hreturn []
    rw [List.append_nil] at hread
    exact ⟨0x6a, hread, by omega, fun _ => hlen, fun _ h => by omega, fun _ h => by omega⟩

/-- The first characters of an element are read where it stands. -/
theorem slice_take (text : HexText) {k : Nat} (hk : k ≤ text.length) (before after : HexText)
    {stop : Int}
    (hstop : stop = before.length + k) :
    slice (before ++ (text ++ after)) before.length stop = text.take k := by
  have hcut := slice_append before (text.take k) (text.drop k ++ after) rfl
    (show stop = before.length + (text.take k).length by
      rw [List.length_take, Nat.min_eq_left hk, hstop])
  rwa [← List.append_assoc (text.take k), List.take_append_drop] at hcut

theorem byteAt_opcode (hlen : 2 ≤ text.length) (before after : HexText) :
    byteAt (before ++ (text ++ after)) before.length 0 = opcodeOf text := by
  rw [byteAt, Int.add_zero]
  exact congrArg parseHex (slice_take text hlen before after rfl)

/-- Where the walk to the state goes on, this one goes on at the same place. -/
theorem opcodeSize_of_step {hex : HexText} {offset next : Int}
    (h : opReturnStep hex offset = .inr next) :
    offset + 2 ≤ hex.length ∧ opcodeSize hex offset = some (next - offset) := by
  rw [opReturnStep] at h
  by_cases hend : offset + 2 ≤ hex.length
  swap
  · rw [if_neg hend] at h
    cases h
  rw [if_pos hend] at h
  refine ⟨hend, ?_⟩
  rw [opcodeSize, if_neg (by omega)]
  cases hread : byteAt hex offset 0 with
  | none =>
    rw [hread] at h
    obtain rfl := Sum.inr.inj h
    exact congrArg some (by omega)
  | some opcode =>
  rw [hread] at h
  dsimp only at h ⊢
  split at h
  · cases h
  split at h
  · rename_i hpush
    obtain rfl := Sum.inr.inj h
    rw [if_pos hpush]
    exact congrArg some (by omega)
  rename_i hpush
  rw [if_neg hpush]
  split at h
  · rename_i h4c
    rw [if_pos h4c]
    split at h
    · cases h
    rename_i hfour
    rw [if_neg hfour]
    cases hlen : byteAt hex offset 2 with
    | none =>
      rw [hlen] at h
      cases h
    | some len =>
      rw [hlen] at h
      obtain rfl := Sum.inr.inj h
      rw [Option.map_some]
      exact congrArg some (by omega)
  rename_i h4c
  rw [if_neg h4c]
  split at h
  · rename_i h4d
    rw [if_pos h4d]
    split at h
    · cases h
    rename_i hsix
    obtain rfl := Sum.inr.inj h
    rw [if_neg hsix]
    exact congrArg some (by omega)
  rename_i h4d
  rw [if_neg h4d]
  split at h
  · rename_i h4e
    rw [if_pos h4e]
    split at h
    · cases h
    rename_i hten
    obtain rfl := Sum.inr.inj h
    rw [if_neg hten]
    exact congrArg some (by omega)
  · rename_i h4e
    obtain rfl := Sum.inr.inj h
    rw [if_neg h4e]
    exact congrArg some (by omega)

/-- Where the walk to the state goes over a push, the push is read. -/
theorem readPushData_of_step {hex : HexText} {offset next : Int} {opcode : Nat}
    (hread : byteAt hex offset 0 = some opcode) (h : opReturnStep hex offset = .inr next)
    (hnext : next ≤ hex.length) :
    readPushData hex offset =
      if 0x01 ≤ opcode ∧ opcode ≤ 0x4e then
        some ⟨slice hex (offset + pushHead opcode) next, some (next - offset)⟩
      else none := by
  have hpush (head dataLen : Int) (heq : next = offset + (head + dataLen)) :
      pushOf hex offset head dataLen =
        some ⟨slice hex (offset + head) next, some (next - offset)⟩ := by
    subst heq
    rw [pushOf, if_neg (by omega), Int.add_assoc, add_sub_cancel_left]
  rw [opReturnStep] at h
  split at h
  swap
  · cases h
  rename_i hend
  rw [hread] at h
  dsimp only at h
  rw [readPushData, if_neg (by omega), hread]
  dsimp only
  split at h
  · cases h
  split at h
  · rename_i hrange
    obtain rfl := Sum.inr.inj h
    rw [if_pos hrange, if_pos (by omega), pushHead, if_pos hrange.2]
    exact hpush 2 _ rfl
  rename_i hrange
  rw [if_neg hrange]
  split at h
  · rename_i h4c
    subst h4c
    split at h
    · cases h
    rename_i hfour
    rw [if_pos rfl, if_neg hfour]
    cases hlen : byteAt hex offset 2 with
    | none =>
      rw [hlen] at h
      cases h
    | some len =>
      rw [hlen] at h
      obtain rfl := Sum.inr.inj h
      rw [if_pos (by decide)]
      exact hpush 4 _ rfl
  rename_i h4c
  rw [if_neg h4c]
  split at h
  · rename_i h4d
    subst h4d
    split at h
    · cases h
    rename_i hsix
    obtain rfl := Sum.inr.inj h
    rw [if_pos rfl, if_neg hsix, if_pos (by decide)]
    exact hpush 6 _ rfl
  rename_i h4d
  rw [if_neg h4d]
  split at h
  · rename_i h4e
    subst h4e
    split at h
    · cases h
    rename_i hten
    obtain rfl := Sum.inr.inj h
    rw [if_pos rfl, if_neg hten, if_pos (by decide)]
    exact hpush 10 _ rfl
  · rename_i h4e
    rw [if_neg h4e, if_neg (by omega)]

/-- From the start of an element the search goes to its end. -/
theorem Whole.size (h : Whole text) (before after : HexText) :
    (before.length : Int) + 2 ≤ (before ++ (text ++ after)).length ∧
      opcodeSize (before ++ (text ++ after)) before.length = some (text.length : Int) := by
  rcases h with h | hreturn
  · obtain ⟨hend, hsize⟩ := opcodeSize_of_step (h.step before after)
    refine ⟨hend, hsize.trans (congrArg some ?_)⟩
    rw [List.length_append]
    omega
  · have hlen := hreturn.length
    have hread := hreturn.read before [] after rfl
    rw [List.nil_append] at hread
    have hend : (before.length : Int) + 2 ≤ (before ++ (text ++ after)).length := by
      simp only [List.length_append, hlen]
      omega
    change byteAt _ _ 0 = _ at hread
    refine ⟨hend, ?_⟩
    rw [opcodeSize, if_neg (by omega), hread, hlen]
    rfl

/-- At an element, a push is read if the element is one. -/
theorem Whole.readPushData (h : Whole text) (before after : HexText) :
    readPushData (before ++ (text ++ after)) before.length =
      (pushedData text).map fun data => ⟨data, some (text.length : Int)⟩ := by
  obtain ⟨n, hopcode, hlen, -, -, hhead⟩ := h.opcode
  have hread := (byteAt_opcode hlen before after).trans hopcode
  rw [pushedData, hopcode, Option.bind_some]
  rcases h with h | hreturn
  · rw [readPushData_of_step hread (h.step before after) (by
      simp only [List.length_append]; push_cast; omega)]
    by_cases hpush : 0x01 ≤ n ∧ n ≤ 0x4e
    · have hhead := hhead hpush.1 hpush.2
      rw [if_pos hpush, if_pos hpush, Option.map_some]
      have hcut := slice_append (before ++ text.take (pushHead n)) (text.drop (pushHead n)) after
        (show (before.length : Int) + pushHead n =
            (before ++ text.take (pushHead n)).length by
          rw [List.length_append, List.length_take, Nat.min_eq_left hhead]; push_cast; rfl)
        (show ((before ++ text).length : Int) = (before ++ text.take (pushHead n)).length +
            (text.drop (pushHead n)).length by
          simp only [List.length_append, List.length_take, List.length_drop,
            Nat.min_eq_left hhead]; omega)
      rw [List.append_assoc, ← List.append_assoc (text.take _), List.take_append_drop] at hcut
      rw [hcut, List.length_append]
      congr 3
      omega
    · rw [if_neg hpush, if_neg hpush]
      rfl
  · have hret := opcodeOf_byte hreturn []
    rw [List.append_nil, hopcode] at hret
    obtain rfl := Option.some.inj hret
    rw [Sdk.readPushData, hread]
    split <;> rfl

end Elements

/-! ## The envelope among the elements -/

/-- What stands in an envelope: a certain element, or a push. -/
inductive Part where
  | exact (text : HexText)
  | push

/-- The envelope behind its OP_FALSE. -/
def envelopeParts : List Part :=
  [.exact ['6', '3'], .exact "036f7264".toList, .exact ['5', '1'], .push, .exact ['0', '0'], .push,
    .exact ['6', '8']]

/-- The elements start with the parts. -/
def Matches : List Part → List HexText → Prop
  | [], _ => True
  | _ :: _, [] => False
  | .exact text :: parts, e :: es => e = text ∧ Matches parts es
  | .push :: parts, e :: es => (pushedData e).isSome ∧ Matches parts es

instance decidableMatches : (parts : List Part) → (es : List HexText) →
    Decidable (Matches parts es)
  | [], _ => isTrue trivial
  | .exact _ :: _, [] => isFalse id
  | .push :: _, [] => isFalse id
  | .exact text :: parts, e :: es =>
      have := decidableMatches parts es
      inferInstanceAs (Decidable (e = text ∧ Matches parts es))
  | .push :: parts, e :: es =>
      have := decidableMatches parts es
      inferInstanceAs (Decidable ((pushedData e).isSome ∧ Matches parts es))

/-- The place behind the parts, if they stand at a place. -/
def behindParts (hex : HexText) : List Part → Int → Option Int
  | [], pos => some pos
  | .exact text :: parts, pos =>
      if slice hex pos (pos + text.length) = text then behindParts hex parts (pos + text.length)
      else none
  | .push :: parts, pos => (behindPush hex pos).bind (behindParts hex parts)

theorem le_of_slice_eq {hex text : HexText} {pos stop : Int} (hstop : stop = pos + text.length)
    (h : slice hex pos stop = text) (hne : text ≠ []) : stop ≤ hex.length := by
  have hpos := List.length_pos_of_ne_nil hne
  have hlen := congrArg List.length h
  rw [slice] at hlen
  dsimp only at hlen
  rw [List.length_take, List.length_drop] at hlen
  split at hlen <;> split at hlen <;> omega

theorem expects_eq (hex text : HexText) (htext : text.length = 2) (pos : Int) :
    expects hex text pos =
      if slice hex pos (pos + 2) = text then some (pos + 2) else none := by
  rw [expects]
  by_cases h : slice hex pos (pos + 2) = text
  · have hend : pos + 2 ≤ hex.length :=
      le_of_slice_eq (by rw [htext]; rfl) h (by rintro rfl; exact absurd htext (by decide))
    rw [if_neg fun hbad => hbad.elim (fun hlt => by omega) fun hne => hne h, if_pos h]
  · rw [if_pos (.inr h), if_neg h]

theorem envelopeEnd_eq (hex : HexText) (offset : Int) :
    envelopeEnd hex offset = behindParts hex envelopeParts (offset + 2) := by
  have hexpects (text : HexText) (htext : text.length = 2) (parts : List Part) (pos : Int) :
      behindParts hex (.exact text :: parts) pos =
        (expects hex text pos).bind (behindParts hex parts) := by
    rw [behindParts, expects_eq hex text htext, htext]
    change (if slice hex pos (pos + 2) = text then behindParts hex parts (pos + 2) else none) = _
    by_cases h : slice hex pos (pos + 2) = text
    · rw [if_pos h, if_pos h]
      rfl
    · rw [if_neg h, if_neg h]
      rfl
  have hpush (parts : List Part) (pos : Int) : behindParts hex (.push :: parts) pos =
      (behindPush hex pos).bind (behindParts hex parts) := rfl
  rw [envelopeParts, hexpects ['6', '3'] rfl, expects_eq hex ['6', '3'] rfl, envelopeEnd]
  have hfour : offset + 2 + 2 = offset + 4 := by omega
  have htwelve : offset + 4 + (("036f7264".toList : HexText).length : Int) = offset + 12 := by
    rw [show (("036f7264".toList : HexText).length : Int) = 8 from rfl]
    omega
  rw [hfour]
  by_cases hif : slice hex (offset + 2) (offset + 4) = ['6', '3']
  · rw [if_pos hif, Option.bind_some, behindParts, htwelve]
    by_cases hord : slice hex (offset + 4) (offset + 12) = "036f7264".toList
    · have hend : offset + 12 ≤ hex.length :=
        le_of_slice_eq htwelve.symm hord (by decide)
      rw [if_pos ⟨hend, hif, hord⟩, if_pos hord]
      simp only [hexpects ['5', '1'] rfl, hexpects ['0', '0'] rfl, hexpects ['6', '8'] rfl, hpush,
        Option.bind_eq_bind]
      cases expects hex ['5', '1'] (offset + 12) with
      | none => rfl
      | some pos =>
        rw [Option.bind_some, Option.bind_some]
        cases behindPush hex pos with
        | none => rfl
        | some pos =>
          rw [Option.bind_some, Option.bind_some]
          cases expects hex ['0', '0'] pos with
          | none => rfl
          | some pos =>
            rw [Option.bind_some, Option.bind_some]
            cases behindPush hex pos with
            | none => rfl
            | some pos =>
              rw [Option.bind_some, Option.bind_some]
              cases expects hex ['6', '8'] pos <;> rfl
    · rw [if_neg (fun h => hord h.2.2), if_neg hord]
  · rw [if_neg (fun h => hif h.2.1), if_neg hif]
    rfl

/-- Only one element starts with the text. -/
def Opens (text : HexText) : Prop :=
  text ≠ [] ∧ ∀ e, Whole e → ∀ after, (e ++ after).take text.length = text → e = text

theorem opens {text : HexText} {n : Nat} (hopcode : opcodeOf text = some n)
    (hlen : 2 ≤ text.length)
    (hall : ∀ e, Whole e → opcodeOf e = some n → e.length = text.length) : Opens text := by
  refine ⟨fun hnil => by rw [hnil] at hlen; exact absurd hlen (by decide),
    fun e he after htake => ?_⟩
  obtain ⟨_, -, htwo, -⟩ := he.opcode
  have hhead : e.take 2 = text.take 2 := by
    rw [← htake, List.take_take, Nat.min_eq_left hlen, List.take_append_of_le_length htwo]
  have hsame : e.length = text.length := hall e he (by rw [opcodeOf, hhead]; exact hopcode)
  rwa [← hsame, List.take_left] at htake

theorem opens_op {text : HexText} {n : Nat} (hopcode : opcodeOf text = some n)
    (hlen : text.length = 2) (hop : n = 0 ∨ 0x4e < n) : Opens text := by
  refine opens hopcode (by omega) fun e he hsame => ?_
  obtain ⟨m, hm, -, hone, -⟩ := he.opcode
  obtain rfl := Option.some.inj (hm.symm.trans hsame)
  rw [hone hop, hlen]

theorem opens_envelopeParts : ∀ text, .exact text ∈ envelopeParts → Opens text := by
  intro text hmem
  simp only [envelopeParts, List.mem_cons, Part.exact.injEq, reduceCtorEq, List.not_mem_nil,
    or_false, false_or] at hmem
  rcases hmem with rfl | rfl | rfl | rfl | rfl
  · exact opens_op (n := 0x63) (by decide) rfl (by decide)
  · refine opens (n := 3) (by decide) (by decide) fun e he hthree => ?_
    obtain ⟨m, hm, -, -, hdirect, -⟩ := he.opcode
    obtain rfl := Option.some.inj (hm.symm.trans hthree)
    exact hdirect (by decide) (by decide)
  · exact opens_op (n := 0x51) (by decide) rfl (by decide)
  · exact opens_op (n := 0) (by decide) rfl (by decide)
  · exact opens_op (n := 0x68) (by decide) rfl (by decide)

/-- The element is what the part asks for. -/
def Part.Fits : Part → HexText → Prop
  | .exact text, e => e = text
  | .push, e => (pushedData e).isSome

theorem matches_cons {part : Part} {parts : List Part} {e : HexText} {es : List HexText} :
    Matches (part :: parts) (e :: es) ↔ part.Fits e ∧ Matches parts es := by
  cases part <;> exact Iff.rfl

/-- At an element the first part is looked for in the element, whatever comes behind it. -/
theorem behindParts_element {part : Part} {parts : List Part}
    (hopens : ∀ text, part = .exact text → Opens text) {e : HexText} (he : Whole e)
    (before after : HexText) :
    (part.Fits e → behindParts (before ++ (e ++ after)) (part :: parts) before.length =
      behindParts (before ++ (e ++ after)) parts (before.length + e.length)) ∧
    (¬ part.Fits e → behindParts (before ++ (e ++ after)) (part :: parts) before.length = none) := by
  cases part with
  | exact text =>
    rw [behindParts]
    refine ⟨?_, fun hfits => ?_⟩
    · rintro rfl
      rw [slice_append before e after rfl rfl, if_pos rfl]
    · refine if_neg fun hslice => hfits ?_
      obtain ⟨hne, honly⟩ := hopens text rfl
      have hend := le_of_slice_eq rfl hslice hne
      have hcut := slice_take (e ++ after) (k := text.length) (by
        simp only [List.length_append] at hend ⊢; omega) before [] rfl
      rw [List.append_nil, hslice] at hcut
      exact honly e he _ hcut.symm
  | push =>
    rw [behindParts, behindPush, he.readPushData]
    refine ⟨fun hfits => ?_, fun hfits => ?_⟩
    · obtain ⟨data, hdata⟩ := Option.isSome_iff_exists.mp hfits
      rw [hdata]
      rfl
    · rw [Option.not_isSome_iff_eq_none.mp hfits]
      rfl

/-- The search for the parts behind an element carries over to the element. -/
theorem behindParts_cons {part : Part} {parts : List Part}
    (hopens : ∀ text, part = .exact text → Opens text) {e : HexText} (he : Whole e)
    {es : List HexText} (before after : HexText)
    (hnext : behindParts (before ++ (e ++ after)) parts (before.length + e.length) =
      if Matches parts es then
        some (before.length + e.length + (es.take parts.length).flatten.length : Int)
      else none) :
    behindParts (before ++ (e ++ after)) (part :: parts) before.length =
      if Matches (part :: parts) (e :: es) then
        some (before.length + ((e :: es).take (part :: parts).length).flatten.length : Int)
      else none := by
  obtain ⟨hfits, hnot⟩ := behindParts_element hopens he before after
  by_cases hpart : part.Fits e
  · rw [hfits hpart, hnext]
    by_cases hmatch : Matches parts es
    · rw [if_pos hmatch, if_pos (matches_cons.mpr ⟨hpart, hmatch⟩), List.length_cons,
        List.take_succ_cons, List.flatten_cons, List.length_append]
      congr 1
      omega
    · rw [if_neg hmatch, if_neg (fun h => hmatch (matches_cons.mp h).2)]
  · rw [hnot hpart, if_neg (fun h => hpart (matches_cons.mp h).1)]

/-- On whole elements the parts are looked for one element after the other. -/
theorem behindParts_elements {parts : List Part} (hparts : ∀ text, .exact text ∈ parts → Opens text)
    {es : List HexText} (hes : ∀ e ∈ es, Whole e) (before : HexText) :
    behindParts (before ++ es.flatten) parts before.length =
      if Matches parts es then some (before.length + (es.take parts.length).flatten.length : Int)
      else none := by
  induction parts generalizing es before with
  | nil =>
    rw [behindParts, if_pos (show Matches [] es from trivial)]
    simp
  | cons part parts ih =>
    cases es with
    | nil =>
      have hend : slice (before ++ []) before.length = fun _ => [] := by
        funext stop
        rw [slice, List.append_nil]
        dsimp only
        rw [if_neg (show ¬ (before.length : Int) < 0 by omega), Int.toNat_natCast,
          List.drop_length, List.take_nil]
      cases part with
      | exact text =>
        have hne := (hparts text List.mem_cons_self).1
        rw [List.flatten_nil, behindParts, hend, if_neg (Ne.symm hne),
          if_neg (show ¬ Matches (.exact text :: parts) [] from id)]
      | push =>
        rw [List.flatten_nil, behindParts, behindPush, readPushData,
          if_pos (by rw [List.append_nil]; omega),
          if_neg (show ¬ Matches (.push :: parts) [] from id)]
        rfl
    | cons e es =>
      obtain ⟨he, hes⟩ := List.forall_mem_cons.mp hes
      have hnext := ih (fun text hmem => hparts text (List.mem_cons_of_mem _ hmem)) hes (before ++ e)
      rw [List.append_assoc, List.length_append] at hnext
      push_cast at hnext
      rw [List.flatten_cons]
      exact behindParts_cons (fun text heq => hparts text (heq ▸ List.mem_cons_self)) he before _
        hnext

/-- Where there are as many elements as parts, what comes behind them does not matter. -/
theorem behindParts_elements_tail {parts : List Part}
    (hparts : ∀ text, .exact text ∈ parts → Opens text) {es : List HexText}
    (hes : ∀ e ∈ es, Whole e) (hlength : parts.length ≤ es.length) (before after : HexText) :
    behindParts (before ++ (es.flatten ++ after)) parts before.length =
      if Matches parts es then some (before.length + (es.take parts.length).flatten.length : Int)
      else none := by
  induction parts generalizing es before with
  | nil =>
    rw [behindParts, if_pos (show Matches [] es from trivial)]
    simp
  | cons part parts ih =>
    cases es with
    | nil => exact absurd hlength (Nat.not_succ_le_zero _)
    | cons e es =>
      obtain ⟨he, hes⟩ := List.forall_mem_cons.mp hes
      have hnext := ih (fun text hmem => hparts text (List.mem_cons_of_mem _ hmem)) hes
        (Nat.le_of_succ_le_succ hlength) (before ++ e)
      rw [List.append_assoc, List.length_append] at hnext
      push_cast at hnext
      rw [List.flatten_cons, List.append_assoc]
      exact behindParts_cons (fun text heq => hparts text (heq ▸ List.mem_cons_self)) he before _
        hnext

/-- The inscription of the envelope whose OP_FALSE stands before the elements. -/
def inscriptionBehind (es : List HexText) : Option Inscription :=
  if Matches envelopeParts es then do
    let contentType ← es[3]?.bind pushedData
    let data ← es[5]?.bind pushedData
    some ⟨hexToUtf8 contentType, data⟩
  else none

/-- The inscription of the first envelope among the elements. -/
def inscriptionIn : List HexText → Option Inscription
  | [] => none
  | e :: es =>
      (if opcodeOf e = some 0x00 then inscriptionBehind es else none).or (inscriptionIn es)

/-- What an envelope among the elements reads as. -/
theorem inscriptionOf_elements {zero : HexText} (hzero : zero.length = 2) {es : List HexText}
    (hes : ∀ e ∈ es, Whole e) (hmatch : Matches envelopeParts es) (before : HexText) :
    ∃ inscription, inscriptionBehind es = some inscription ∧
      inscriptionOf (before ++ (zero ++ es.flatten)) ⟨before.length,
        (before ++ zero).length + (es.take envelopeParts.length).flatten.length⟩ =
        some inscription := by
  match es, hmatch with
  | a :: b :: c :: ct :: d :: data :: e :: rest, hmatch =>
    have hbehind : inscriptionBehind (a :: b :: c :: ct :: d :: data :: e :: rest) =
        (pushedData ct).bind fun contentType =>
          (pushedData data).bind fun data => some ⟨hexToUtf8 contentType, data⟩ := if_pos hmatch
    obtain ⟨rfl, rfl, rfl, hct, rfl, hdata, rfl, -⟩ := hmatch
    obtain ⟨contentType, hct⟩ := Option.isSome_iff_exists.mp hct
    obtain ⟨content, hdata⟩ := Option.isSome_iff_exists.mp hdata
    have hwholeCt : Whole ct := hes ct (by simp)
    have hwholeData : Whole data := hes data (by simp)
    refine ⟨⟨hexToUtf8 contentType, content⟩, by rw [hbehind, hct, hdata]; rfl, ?_⟩
    have hcut : slice (before ++ (zero ++ (['6', '3'] :: "036f7264".toList :: ['5', '1'] :: ct ::
        ['0', '0'] :: data :: ['6', '8'] :: rest).flatten)) before.length
        ((before ++ zero).length + ((['6', '3'] :: "036f7264".toList :: ['5', '1'] :: ct ::
          ['0', '0'] :: data :: ['6', '8'] :: rest).take envelopeParts.length).flatten.length) =
        zero ++ ("63036f726451".toList ++ (ct ++ (['0', '0'] ++ (data ++ ['6', '8'])))) := by
      have hflat : zero ++ (['6', '3'] :: "036f7264".toList :: ['5', '1'] :: ct :: ['0', '0'] ::
          data :: ['6', '8'] :: rest).flatten = zero ++ ("63036f726451".toList ++ (ct ++
            (['0', '0'] ++ (data ++ ['6', '8'])))) ++ rest.flatten := by
        simp only [List.flatten_cons, List.append_assoc]
        rfl
      have hwhole : (['6', '3'] :: "036f7264".toList :: ['5', '1'] :: ct :: ['0', '0'] :: data ::
          ['6', '8'] :: rest).take envelopeParts.length =
            [['6', '3'], "036f7264".toList, ['5', '1'], ct, ['0', '0'], data, ['6', '8']] := rfl
      rw [hflat, hwhole]
      refine slice_append before _ rest.flatten rfl ?_
      simp only [List.length_append, List.flatten_cons, List.flatten_nil, List.length_nil]
      simp only [show ("036f7264".toList : HexText).length = 8 from rfl,
        show ("63036f726451".toList : HexText).length = 12 from rfl, List.length_cons,
        List.length_nil]
      omega
    rw [inscriptionOf]
    dsimp only
    rw [hcut]
    have hhead : (zero ++ "63036f726451".toList).length = 14 := by
      rw [List.length_append, hzero]
      rfl
    have hreadCt := hwholeCt.readPushData (zero ++ "63036f726451".toList)
      (['0', '0'] ++ (data ++ ['6', '8']))
    rw [hhead, hct, List.append_assoc] at hreadCt
    have hreadData := hwholeData.readPushData
      (zero ++ ("63036f726451".toList ++ (ct ++ ['0', '0']))) ['6', '8']
    have hplace : ((zero ++ ("63036f726451".toList ++ (ct ++ ['0', '0']))).length : Int) =
        14 + ct.length + 2 := by
      rw [← List.append_assoc, List.length_append, hhead, List.length_append]
      push_cast
      rw [show ((['0', '0'] : HexText).length : Int) = 2 from rfl]
      omega
    rw [hplace, hdata] at hreadData
    simp only [List.append_assoc] at hreadData
    change readPushData _ 14 = _ at hreadCt
    rw [hreadCt]
    simp only [Option.map_some, Option.bind_eq_bind, Option.bind_some]
    rw [hreadData]
    rfl

/-- On whole elements the inscription is that of the first envelope among them. -/
theorem parses_elements {es : List HexText} (hes : ∀ e ∈ es, Whole e) (before : HexText) :
    (findInscriptionEnvelope (before ++ es.flatten) (es.length + 1) (some before.length)).map
        (·.bind (inscriptionOf (before ++ es.flatten))) = some (inscriptionIn es) := by
  induction es generalizing before with
  | nil =>
    rw [List.flatten_nil, List.append_nil, List.length_nil, findInscriptionEnvelope,
      if_neg (by omega)]
    rfl
  | cons e es ih =>
    obtain ⟨he, hes⟩ := List.forall_mem_cons.mp hes
    obtain ⟨hend, hsize⟩ := he.size before es.flatten
    obtain ⟨n, hopcode, htwo, hone, -⟩ := he.opcode
    have hread := byteAt_opcode htwo before es.flatten
    have hnext := ih hes (before ++ e)
    rw [List.append_assoc, List.length_append] at hnext
    push_cast at hnext
    rw [List.flatten_cons, List.length_cons, findInscriptionEnvelope, if_pos hend, hread,
      inscriptionIn, hsize, Option.map_some]
    by_cases hzero : opcodeOf e = some 0x00
    · rw [if_pos hzero, if_pos hzero]
      obtain rfl := Option.some.inj (hopcode.symm.trans hzero)
      have hlen := hone (.inl rfl)
      have hparts := behindParts_elements opens_envelopeParts hes (before ++ e)
      rw [List.append_assoc] at hparts
      rw [envelopeEnd_eq, show (before.length : Int) + 2 = (before ++ e).length by
        rw [List.length_append, hlen]; rfl, hparts]
      by_cases hmatch : Matches envelopeParts es
      · obtain ⟨inscription, hbehind, hof⟩ := inscriptionOf_elements hlen hes hmatch before
        rw [if_pos hmatch, hbehind]
        dsimp only
        rw [Option.map_some, Option.bind_some, hof]
        rfl
      · have hbehind : inscriptionBehind es = none := if_neg hmatch
        rw [if_neg hmatch, hbehind]
        exact hnext
    · rw [if_neg hzero, if_neg hzero]
      exact hnext

/-! ## An envelope behind code -/

/-- The elements of an envelope. -/
def envelopeElements (inscription : Inscription) : List HexText :=
  [['0', '0'], ['6', '3'], "036f7264".toList, ['5', '1'], encodeText inscription.contentType,
    ['0', '0'], encodeText inscription.data, ['6', '8']]

theorem flatten_envelopeElements (inscription : Inscription) :
    (envelopeElements inscription).flatten = buildInscriptionEnvelope inscription := by
  have hhead : "0063036f726451".toList =
      ['0', '0'] ++ (['6', '3'] ++ ("036f7264".toList ++ ['5', '1'])) := rfl
  unfold buildInscriptionEnvelope envelopeElements
  simp only [hhead, List.flatten_cons, List.flatten_nil, List.append_nil, List.append_assoc]

section Pushes

variable {text : HexText}

theorem encodeText_push (hne : text ≠ []) (hwhole : text.length % 2 = 0) :
    encodeText text = pushHeader (text.length / 2) ++ text := by
  rw [encodeText, if_neg (fun h => hne (List.length_eq_zero_iff.mp h)),
    encodePushDataState_eq hwhole]

/-- The data of a push is behind its header. -/
theorem pushedData_pushHeader {len : Nat} (hpos : 0 < len) (data : HexText) :
    pushedData (pushHeader len ++ data) = some data := by
  have htwo {k : Nat} (hk : k < 256) : (hexNumber k).length = 2 := length_hexNumber_of_lt hk
  have hmod (k : Nat) : k % 256 < 256 := Nat.mod_lt _ (by decide)
  have hpush {opcode : Nat} {head rest : HexText} (hopcode : opcodeOf (head ++ rest) = some opcode)
      (hrange : 0x01 ≤ opcode ∧ opcode ≤ 0x4e) (hhead : head.length = pushHead opcode) :
      pushedData (head ++ rest) = some rest := by
    rw [pushedData, hopcode, Option.bind_some, if_pos hrange, ← hhead, List.drop_left]
  unfold pushHeader
  split
  · exact hpush (opcodeOf_byte (isByte_hexNumber (by omega)) data) ⟨hpos, by omega⟩
      (by rw [htwo (by omega), pushHead, if_pos (by omega)])
  split
  · refine hpush (show opcodeOf (['4', 'c'] ++ hexNumber len ++ data) = some 0x4c from rfl)
      (by decide) ?_
    rw [List.length_append, htwo (by omega)]
    rfl
  split
  · refine hpush (show opcodeOf (['4', 'd'] ++ hexNumber (len % 256) ++
      hexNumber (len / 256 % 256) ++ data) = some 0x4d from rfl) (by decide) ?_
    rw [List.length_append, List.length_append, htwo (hmod _), htwo (hmod _)]
    rfl
  · refine hpush (show opcodeOf (['4', 'e'] ++ hexNumber (len % 256) ++
      hexNumber (len / 256 % 256) ++ hexNumber (len / 65536 % 256) ++
      hexNumber (len / 16777216 % 256) ++ data) = some 0x4e from rfl) (by decide) ?_
    simp only [List.length_append, htwo (hmod _)]
    rfl

theorem pushedData_encodeText (hwhole : text.length % 2 = 0) :
    pushedData (encodeText text) = if text = [] then none else some text := by
  split
  · rename_i hnil
    subst hnil
    rfl
  · rename_i hne
    have hpos := List.length_pos_of_ne_nil hne
    rw [encodeText_push hne hwhole, pushedData_pushHeader (by omega)]

theorem element_encodeText (hwhole : text.length % 2 = 0) (hshort : text.length < 2 ^ 32) :
    Element (encodeText text) := by
  by_cases hne : text = []
  · subst hne
    exact .op (n := 0) ⟨'0', '0', 0, 0, rfl, rfl, rfl, rfl⟩ (.inl rfl) (by decide)
  · have hpos := List.length_pos_of_ne_nil hne
    rw [encodeText_push hne hwhole]
    exact element_pushHeader (by omega) (by omega) (by omega)

end Pushes

theorem element_envelope {inscription : Inscription}
    (hct : Element (encodeText inscription.contentType))
    (hdata : Element (encodeText inscription.data)) :
    ∀ e ∈ envelopeElements inscription, Element e := by
  have hop (high low : Char) (h l : Nat) (hhigh : hexDigit? high = some h)
      (hlow : hexDigit? low = some l) (hcode : 16 * h + l = 0 ∨ 0x4e < 16 * h + l)
      (hreturn : 16 * h + l ≠ 0x6a) : Element [high, low] :=
    .op ⟨high, low, h, l, rfl, hhigh, hlow, rfl⟩ hcode hreturn
  have hzero : Element ['0', '0'] := hop '0' '0' 0 0 rfl rfl (by decide) (by decide)
  simp only [envelopeElements, List.forall_mem_cons]
  refine ⟨hzero, hop '6' '3' 6 3 rfl rfl (by decide) (by decide), ?_,
    hop '5' '1' 5 1 rfl rfl (by decide) (by decide), hct, hzero, hdata,
    hop '6' '8' 6 8 rfl rfl (by decide) (by decide), fun _ h => (nomatch h)⟩
  show Element (['0', '3'] ++ "6f7264".toList)
  exact .push (n := 3) ⟨'0', '3', 0, 3, rfl, rfl, rfl, rfl⟩ (by decide) rfl

/-- No envelope starts in code and ends in the envelope behind it. -/
theorem inscriptionBehind_append (es tail : List HexText) :
    inscriptionBehind (es ++ ['0', '0'] :: ['6', '3'] :: tail) = inscriptionBehind es := by
  have hnot {es : List HexText} (h : ¬ Matches envelopeParts es) : inscriptionBehind es = none :=
    if_neg h
  have hzero : pushedData ['0', '0'] = none := rfl
  have hif : pushedData ['6', '3'] = none := rfl
  match es with
  | [] => rw [hnot (by simp [Matches, envelopeParts]), hnot (by simp [Matches, envelopeParts])]
  | _ :: _ :: _ :: _ :: _ :: _ :: _ :: _ => rfl
  | [_] | [_, _] | [_, _, _] | [_, _, _, _] | [_, _, _, _, _] | [_, _, _, _, _, _] =>
      rw [hnot (by simp [Matches, envelopeParts, hzero, hif]),
        hnot (by simp [Matches, envelopeParts])]

/-- The first envelope is that of the code, if it has one, else the one behind it. -/
theorem inscriptionIn_append (code : List HexText) (inscription : Inscription) :
    inscriptionIn (code ++ envelopeElements inscription) =
      (inscriptionIn code).or (inscriptionIn (envelopeElements inscription)) := by
  induction code with
  | nil => rfl
  | cons e code ih =>
    rw [List.cons_append, inscriptionIn, ih, inscriptionIn, envelopeElements,
      inscriptionBehind_append, Option.or_assoc]

/-- An envelope is read if both its pushes have data. -/
theorem inscriptionIn_envelope {inscription : Inscription}
    (hct : inscription.contentType.length % 2 = 0) (hdata : inscription.data.length % 2 = 0) :
    inscriptionIn (envelopeElements inscription) =
      if inscription.contentType ≠ [] ∧ inscription.data ≠ [] then
        some ⟨hexToUtf8 inscription.contentType, inscription.data⟩
      else none := by
  have hreadCt := pushedData_encodeText hct
  have hreadData := pushedData_encodeText hdata
  have hnone {es : List HexText} (hlen : es.length < 7) : inscriptionBehind es = none := by
    match es, hlen with
    | [], _ | [_], _ | [_, _], _ | [_, _, _], _ | [_, _, _, _], _ | [_, _, _, _, _], _
    | [_, _, _, _, _, _], _ => exact if_neg (by simp [Matches, envelopeParts])
  have htail (es : List HexText) (hlen : es.length ≤ 7) : inscriptionIn es = none := by
    induction es with
    | nil => rfl
    | cons e es ih =>
      rw [List.length_cons] at hlen
      rw [inscriptionIn, hnone (by omega), ih (by omega), ite_self]
      rfl
  rw [envelopeElements, inscriptionIn, htail _ (by simp only [List.length_cons]; decide),
    Option.or_none, if_pos (show opcodeOf ['0', '0'] = some 0 from rfl), inscriptionBehind]
  by_cases hboth : inscription.contentType ≠ [] ∧ inscription.data ≠ []
  · rw [if_neg hboth.1] at hreadCt
    rw [if_neg hboth.2] at hreadData
    rw [if_pos hboth, if_pos (by simp [Matches, envelopeParts, hreadCt, hreadData])]
    simp only [List.getElem?_cons_succ, List.getElem?_cons_zero, Option.bind_some, hreadCt,
      hreadData, Option.bind_eq_bind]
  · have hempty : ¬ ((pushedData (encodeText inscription.contentType)).isSome ∧
        (pushedData (encodeText inscription.data)).isSome) := by
      rw [hreadCt, hreadData]
      intro h
      refine hboth ⟨fun hnil => ?_, fun hnil => ?_⟩
      · rw [if_pos hnil] at h
        exact absurd h.1 (by decide)
      · rw [if_pos hnil] at h
        exact absurd h.2 (by decide)
    rw [if_neg hboth, if_neg fun h => hempty ⟨h.2.2.2.1, h.2.2.2.2.2.1⟩]

end Runar.Sdk
