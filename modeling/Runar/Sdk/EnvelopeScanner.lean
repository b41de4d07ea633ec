/-
  Sdk/EnvelopeScanner.lean --- the search for an envelope in any script.

  WHAT THIS FILE IS FOR.  `findInscriptionEnvelope` walks over scripts that come from anyone.
  The length after an OP_PUSHDATA4 is read as a signed word, so a length from 2^31 on moves
  the cursor back, by less than the push itself for the last four of them.

  THE INPUTS.  `WalksTo` walks over a script by what its bytes announce.  The search ends,
  goes forward all the way, and reports envelopes of whole opcodes only, exactly if the walk
  comes to no push that moves it back, and to no envelope behind one of the last four lengths.
-/
import Runar.Sdk.EnvelopeSearch
import Runar.Sdk.ReadBack

set_option autoImplicit false

namespace Runar.Sdk

open Script Codec Logic

/-! ## The run -/

/-- The search ends with a result. -/
def FindsEnvelope (scriptHex : HexText) (result : Option EnvelopeBounds) : Prop :=
  ∃ fuel, findInscriptionEnvelope scriptHex fuel (some 0) = some result

/-- The end of the envelope that a round of the loop finds. -/
def foundAt (scriptHex : HexText) (offset : Int) : Option Int :=
  if byteAt scriptHex offset 0 = some 0x00 then envelopeEnd scriptHex offset else none

/-- The offsets the loop comes to. -/
inductive Visits (scriptHex : HexText) : Int → Prop
  | start : Visits scriptHex 0
  | next {offset size : Int} : Visits scriptHex offset → offset + 2 ≤ scriptHex.length →
      foundAt scriptHex offset = none → opcodeSize scriptHex offset = some size →
      Visits scriptHex (offset + size)

/-- The places behind an OP_FALSE where a push is read for the envelope. -/
def ReadsPush (scriptHex : HexText) (offset pos : Int) : Prop :=
  byteAt scriptHex offset 0 = some 0x00 ∧ ∃ n, envelopeParts[n]? = some .push ∧
    behindParts scriptHex (envelopeParts.take n) (offset + 2) = some pos

/-- The elements of an envelope. -/
def IsEnvelope (es : List HexText) : Prop :=
  (∀ e ∈ es, Whole e) ∧ es.length = 8 ∧ Matches (.exact ['0', '0'] :: envelopeParts) es

/-- The search terminates, the cursor of the loop and that of the envelope go forward at every
step, and an envelope that is reported consists of whole opcodes and pushes of the script. -/
structure ScansEnvelope (scriptHex : HexText) : Prop where
  terminates : ∃ result, FindsEnvelope scriptHex result
  advances : ∀ offset, Visits scriptHex offset → offset + 2 ≤ scriptHex.length →
    foundAt scriptHex offset = none → ∃ size, opcodeSize scriptHex offset = some size ∧ 0 < size
  readsOn : ∀ offset pos next, Visits scriptHex offset → ReadsPush scriptHex offset pos →
    behindPush scriptHex pos = some next → pos < next
  aligned : ∀ bounds, FindsEnvelope scriptHex (some bounds) →
    ∃ (es envelope : List HexText) (rest : HexText), (∀ e ∈ es, Whole e) ∧ IsEnvelope envelope ∧
      scriptHex = es.flatten ++ (envelope.flatten ++ rest) ∧
      bounds.startHex = es.flatten.length ∧
      bounds.endHex = (es.flatten.length + envelope.flatten.length : Nat)

section Runs

variable {hex : HexText} {offset : Int}

/-- What the loop finds from an offset it comes to, the search finds. -/
theorem Visits.finds (h : Visits hex offset) {fuel : Nat} {result : Option EnvelopeBounds}
    (hfind : findInscriptionEnvelope hex fuel (some offset) = some result) :
    FindsEnvelope hex result := by
  induction h generalizing fuel with
  | start => exact ⟨fuel, hfind⟩
  | @next offset size _ hend hnone hsize ih =>
    have hround : findInscriptionEnvelope hex (fuel + 1) (some offset) = some result := by
      rw [foundAt] at hnone
      rw [findInscriptionEnvelope, if_pos hend, hnone, hsize]
      exact hfind
    exact ih hround

/-- An envelope is found at an offset the loop comes to. -/
theorem Visits.of_finds {bounds : EnvelopeBounds} {fuel : Nat} (h : Visits hex offset)
    (hfind : findInscriptionEnvelope hex fuel (some offset) = some (some bounds)) :
    Visits hex bounds.startHex ∧ foundAt hex bounds.startHex = some bounds.endHex := by
  induction fuel generalizing offset with
  | zero => cases hfind
  | succ fuel ih =>
    rw [findInscriptionEnvelope] at hfind
    by_cases hend : offset + 2 ≤ hex.length
    swap
    · rw [if_neg hend] at hfind
      cases hfind
    rw [if_pos hend] at hfind
    cases hfound : foundAt hex offset with
    | some endHex =>
      rw [foundAt] at hfound
      rw [hfound] at hfind
      cases hfind
      exact ⟨h, hfound⟩
    | none =>
      have hnone := hfound
      rw [foundAt] at hfound
      rw [hfound] at hfind
      cases hsize : opcodeSize hex offset with
      | none =>
        rw [hsize] at hfind
        cases fuel with
        | zero => cases hfind
        | succ fuel => cases hfind
      | some size =>
        rw [hsize] at hfind
        exact ih (.next h hend hnone hsize) hfind

end Runs

/-! ## The inputs -/

/-- A text starts with an OP_PUSHDATA4 and its length. -/
def Push4 (text : HexText) (length : Nat) : Prop :=
  ∃ head b0 b1 b2 b3 rest n0 n1 n2 n3, text = head ++ (b0 ++ (b1 ++ (b2 ++ (b3 ++ rest)))) ∧
    IsByte head 0x4e ∧ IsByte b0 n0 ∧ IsByte b1 n1 ∧ IsByte b2 n2 ∧ IsByte b3 n3 ∧
    length = n0 + n1 * 256 + n2 * 65536 + n3 * 16777216

/-- A text starts with a push that moves the cursor back to where it starts, or further. -/
def Retreats (text : HexText) : Prop :=
  ∃ length, Push4 text length ∧ 2 ^ 31 ≤ length ∧ length < 2 ^ 32 - 4

/-- The cursor goes over the front of a push with one of the last four lengths. -/
def Wraps (front rest : HexText) : Prop :=
  ∃ length, Push4 (front ++ rest) length ∧ 2 ^ 32 - 4 ≤ length ∧
    front.length = 2 * (length + 5 - 2 ^ 32)

/-- A text starts with an envelope. -/
def StartsEnvelope (text : HexText) : Prop :=
  ∃ envelope rest, IsEnvelope envelope ∧ text = envelope.flatten ++ rest

/-- The walk over a script comes to where the text before and the rest meet; `exact` tells
whether all that it went over were whole opcodes and pushes.  It does not go past an
envelope. -/
inductive WalksTo (scriptHex : HexText) : HexText → HexText → Bool → Prop
  | start : WalksTo scriptHex [] scriptHex true
  | whole {before e rest : HexText} {exact : Bool} : WalksTo scriptHex before (e ++ rest) exact →
      Whole e → ¬ StartsEnvelope (e ++ rest) → WalksTo scriptHex (before ++ e) rest exact
  | wrapped {before front rest : HexText} {exact : Bool} :
      WalksTo scriptHex before (front ++ rest) exact → Wraps front rest →
      WalksTo scriptHex (before ++ front) rest false

/-- The walk comes to no push that moves it back, and over whole opcodes and pushes to the
envelope, if it comes to one. -/
def Forward (scriptHex : HexText) : Prop :=
  ∀ before rest exact, WalksTo scriptHex before rest exact →
    ¬ Retreats rest ∧ (StartsEnvelope rest → exact = true)

/-! ## Reading where the text is behind others -/

section Reading

variable {text rest : HexText} {length : Nat}

/-- Four bytes are a signed word. -/
theorem int32_eq {n0 n1 n2 n3 : Nat} (h0 : n0 < 256) (h1 : n1 < 256) (h2 : n2 < 256) :
    int32 n0 n1 n2 n3 =
      if n0 + n1 * 256 + n2 * 65536 + n3 * 16777216 < 2 ^ 31 then
        ((n0 + n1 * 256 + n2 * 65536 + n3 * 16777216 : Nat) : Int)
      else ((n0 + n1 * 256 + n2 * 65536 + n3 * 16777216 : Nat) : Int) - 2 ^ 32 := by
  have hword : n0 ||| n1 <<< 8 ||| n2 <<< 16 ||| n3 <<< 24 =
      n0 + n1 * 256 + n2 * 65536 + n3 * 16777216 := by
    rw [or_shiftLeft 8 h0, or_shiftLeft 16 (by omega), or_shiftLeft 24 (by omega)]
    norm_num
  rw [int32, hword]

/-- An OP_PUSHDATA4 and its length, wherever they stand. -/
theorem Push4.reads (h : Push4 text length) (before : HexText) :
    byteAt (before ++ text) before.length 0 = some 0x4e ∧ 10 ≤ text.length ∧ length < 2 ^ 32 ∧
      pushLen4 (before ++ text) before.length =
        if length < 2 ^ 31 then (length : Int) else length - 2 ^ 32 := by
  obtain ⟨head, b0, b1, b2, b3, after, n0, n1, n2, n3, rfl, hhead, h0, h1, h2, h3, rfl⟩ := h
  have hlen := hhead.length
  have hlen0 := h0.length
  have hlen1 := h1.length
  have hlen2 := h2.length
  have hread0 := h0.read before head (b1 ++ (b2 ++ (b3 ++ after)))
    (show (2 : Int) = head.length by rw [hlen]; rfl)
  have hread1 := h1.read before (head ++ b0) (b2 ++ (b3 ++ after))
    (show (4 : Int) = (head ++ b0).length by simp only [List.length_append, hlen, hlen0]; rfl)
  have hread2 := h2.read before (head ++ (b0 ++ b1)) (b3 ++ after)
    (show (6 : Int) = (head ++ (b0 ++ b1)).length by
      simp only [List.length_append, hlen, hlen0, hlen1]; rfl)
  have hread3 := h3.read before (head ++ (b0 ++ (b1 ++ b2))) after
    (show (8 : Int) = (head ++ (b0 ++ (b1 ++ b2))).length by
      simp only [List.length_append, hlen, hlen0, hlen1, hlen2]; rfl)
  simp only [List.append_assoc] at hread1 hread2 hread3
  have hlt0 := h0.lt
  have hlt1 := h1.lt
  have hlt2 := h2.lt
  have hlt3 := h3.lt
  refine ⟨hhead.read before [] _ rfl, ?_, by omega, ?_⟩
  · simp only [List.length_append, hlen, hlen0, hlen1, hlen2, h3.length]
    omega
  · rw [pushLen4, hread0, hread1, hread2, hread3]
    exact int32_eq hlt0 hlt1 hlt2

/-- Where the cursor goes from a push with a length from 2^31 on. -/
theorem Push4.size (h : Push4 text length) (hlength : 2 ^ 31 ≤ length) (before : HexText) :
    opcodeSize (before ++ text) before.length = some (2 * (length + 5 - 2 ^ 32 : Int)) ∧
      behindPush (before ++ text) before.length =
        some (before.length + 2 * (length + 5 - 2 ^ 32 : Int)) := by
  obtain ⟨hread, hten, hlt, hpush⟩ := h.reads before
  rw [if_neg (Nat.not_lt.mpr hlength)] at hpush
  have hend : (before.length : Int) + 10 ≤ (before ++ text).length := by
    rw [List.length_append]
    omega
  constructor
  · rw [opcodeSize, if_neg (by omega), hread]
    dsimp only
    rw [if_neg (by decide), if_neg (by decide), if_neg (by decide), if_pos rfl, if_neg (by omega),
      hpush]
    congr 1
    omega
  · rw [behindPush, readPushData, if_neg (by omega), hread]
    dsimp only
    rw [if_neg (by decide), if_neg (by decide), if_neg (by decide), if_pos rfl, if_neg (by omega),
      hpush, pushOf, if_neg (by omega)]
    show some _ = some _
    congr 1
    omega

/-- A text that starts with a whole opcode or push does not start with a length from 2^31 on. -/
theorem Whole.not_push4 {e : HexText} (he : Whole e) (hlength : 2 ^ 31 ≤ length) :
    ¬ Push4 (e ++ rest) length := by
  intro h
  have hsize := (h.size hlength []).1
  obtain ⟨hread, -, hlt, -⟩ := h.reads []
  have hwhole := (he.size [] rest).2
  obtain ⟨n, hopcode, htwo, -, -, hhead⟩ := he.opcode
  have hsame := (byteAt_opcode htwo [] rest).symm.trans hread
  obtain rfl := Option.some.inj (hopcode.symm.trans hsame)
  have hten : 10 ≤ e.length := hhead (by decide) (by decide)
  have heq := Option.some.inj (hwhole.symm.trans hsize)
  omega

/-- Whole opcodes and pushes are read in one way. -/
theorem Whole.unique {e e' x y : HexText} (he : Whole e) (he' : Whole e') (h : e ++ x = e' ++ y) :
    e = e' := by
  have hsize := (he.size [] x).2
  have hsize' := (he'.size [] y).2
  rw [List.nil_append] at hsize hsize'
  rw [h, hsize'] at hsize
  have hlength : e.length = e'.length := by exact_mod_cast (Option.some.inj hsize).symm
  exact (List.append_inj h hlength).1

/-- A push without all of its length or of its data, or too little for that. -/
def Short (text : HexText) : Prop :=
  opcodeOf text ≠ some 0x00 ∧ ∀ before : HexText,
    behindPush (before ++ text) before.length = none ∧
      ∃ size, opcodeSize (before ++ text) before.length = some size ∧ 0 < size ∧
        (text.length < 10 ∨ text.length < size)

theorem HexDigits.byte {text : HexText} (h : HexDigits text) (hlen : 2 ≤ text.length) :
    ∃ head n rest, text = head ++ rest ∧ IsByte head n ∧ HexDigits rest := by
  match text, hlen with
  | high :: low :: rest, _ =>
    obtain ⟨hhigh, hlow, hrest⟩ := List.forall_mem_cons.mp h |>.imp_right List.forall_mem_cons.mp
    obtain ⟨dh, hdh⟩ := Option.isSome_iff_exists.mp hhigh
    obtain ⟨dl, hdl⟩ := Option.isSome_iff_exists.mp hlow
    exact ⟨[high, low], _, rest, rfl, ⟨high, low, dh, dl, rfl, hdh, hdl, rfl⟩, hrest⟩

/-- A text of digits starts with a whole opcode or push, or a length from 2^31 on, or it is
short. -/
theorem cases_rest (h : HexDigits text) (hlen : 2 ≤ text.length) :
    (∃ e rest, Whole e ∧ text = e ++ rest) ∨ (∃ length, Push4 text length ∧ 2 ^ 31 ≤ length) ∨
      Short text := by
  obtain ⟨head, n, rest, rfl, hhead, hrest⟩ := h.byte hlen
  have htwo := hhead.length
  have hopcode := opcodeOf_byte hhead rest
  have hread (before : HexText) :
      byteAt (before ++ (head ++ rest)) before.length 0 = some n := hhead.read before [] rest rfl
  have hlength (before : HexText) : ((before ++ (head ++ rest)).length : Int) =
      before.length + (2 + rest.length) := by
    simp only [List.length_append, htwo]
    omega
  have hdata {k : Nat} {data : HexText} (hk : k ≤ data.length) :
      (data.take k).length = k := List.length_take_of_le hk
  by_cases hop : n = 0 ∨ 0x4e < n
  · refine .inl ⟨head, rest, ?_, rfl⟩
    by_cases hreturn : n = 0x6a
    · exact .inr (hreturn ▸ hhead)
    · exact .inl (.op hhead hop hreturn)
  have hnonzero : opcodeOf (head ++ rest) ≠ some 0x00 := by
    rw [hopcode]
    intro hzero
    exact hop (.inl (Option.some.inj hzero))
  by_cases hdirect : 1 ≤ n ∧ n ≤ 0x4b
  · by_cases hfits : 2 * n ≤ rest.length
    · refine .inl ⟨head ++ rest.take (2 * n), rest.drop (2 * n), ?_, ?_⟩
      · exact .inl (.push hhead hdirect (hdata hfits))
      · rw [List.append_assoc, List.take_append_drop]
    · refine .inr (.inr ⟨hnonzero, fun before => ⟨?_, ?_⟩⟩)
      · rw [behindPush, readPushData, if_neg (by rw [hlength]; omega), hread]
        dsimp only
        rw [if_pos hdirect, pushOf, if_pos (by rw [hlength]; omega)]
        rfl
      · rw [opcodeSize, if_neg (by rw [hlength]; omega), hread]
        dsimp only
        rw [if_pos hdirect, List.length_append, htwo]
        exact ⟨_, rfl, by omega, .inr (by push_cast; omega)⟩
  have hcode : n = 0x4c ∨ n = 0x4d ∨ n = 0x4e := by omega
  rcases hcode with rfl | rfl | rfl
  · by_cases hheader : rest.length < 2
    · refine .inr (.inr ⟨hnonzero, fun before => ⟨?_, 2, ?_, by decide, .inl ?_⟩⟩)
      · rw [behindPush, readPushData, if_neg (by rw [hlength]; omega), hread]
        dsimp only
        rw [if_neg hdirect, if_pos rfl, if_pos (by rw [hlength]; omega)]
        rfl
      · rw [opcodeSize, if_neg (by rw [hlength]; omega), hread]
        dsimp only
        rw [if_neg hdirect, if_pos rfl, if_pos (by rw [hlength]; omega)]
      · rw [List.length_append]
        omega
    obtain ⟨b0, n0, data, rfl, h0, -⟩ := hrest.byte (Nat.not_lt.mp hheader)
    have hlen0 := h0.length
    have hread0 (before : HexText) :
        byteAt (before ++ (head ++ (b0 ++ data))) before.length 2 = some n0 :=
      h0.read before head data (by rw [htwo]; rfl)
    have hsum : (b0 ++ data).length = 2 + data.length := by rw [List.length_append, hlen0]
    by_cases hfits : 2 * n0 ≤ data.length
    · refine .inl ⟨head ++ (b0 ++ data.take (2 * n0)), data.drop (2 * n0), ?_, ?_⟩
      · exact .inl (.pushData1 hhead h0 (hdata hfits))
      · rw [List.append_assoc, List.append_assoc, List.take_append_drop]
    · refine .inr (.inr ⟨hnonzero, fun before => ⟨?_, ?_⟩⟩)
      · rw [behindPush, readPushData, if_neg (by rw [hlength]; omega), hread]
        dsimp only
        rw [if_neg hdirect, if_pos rfl, if_neg (by rw [hlength, hsum]; omega), hread0]
        dsimp only
        rw [pushOf, if_pos (by rw [hlength, hsum]; omega)]
        rfl
      · rw [opcodeSize, if_neg (by rw [hlength]; omega), hread]
        dsimp only
        rw [if_neg hdirect, if_pos rfl, if_neg (by rw [hlength, hsum]; omega), hread0,
          Option.map_some, List.length_append, htwo, hsum]
        exact ⟨_, rfl, by omega, .inr (by push_cast; omega)⟩
  · by_cases hheader : rest.length < 4
    · refine .inr (.inr ⟨hnonzero, fun before => ⟨?_, 2, ?_, by decide, .inl ?_⟩⟩)
      · rw [behindPush, readPushData, if_neg (by rw [hlength]; omega), hread]
        dsimp only
        rw [if_neg hdirect, if_neg (by decide), if_pos rfl, if_pos (by rw [hlength]; omega)]
        rfl
      · rw [opcodeSize, if_neg (by rw [hlength]; omega), hread]
        dsimp only
        rw [if_neg hdirect, if_neg (by decide), if_pos rfl, if_pos (by rw [hlength]; omega)]
      · rw [List.length_append]
        omega
    obtain ⟨b0, n0, tail, rfl, h0, htail⟩ := hrest.byte (by omega)
    have hlen0 := h0.length
    rw [List.length_append, hlen0] at hheader
    obtain ⟨b1, n1, data, rfl, h1, -⟩ := htail.byte (by omega)
    have hlen1 := h1.length
    have hread0 (before : HexText) :
        byteAt (before ++ (head ++ (b0 ++ (b1 ++ data)))) before.length 2 = some n0 :=
      h0.read before head (b1 ++ data) (by rw [htwo]; rfl)
    have hread1 (before : HexText) :
        byteAt (before ++ (head ++ (b0 ++ (b1 ++ data)))) before.length 4 = some n1 := by
      have h := h1.read before (head ++ b0) data
        (show (4 : Int) = (head ++ b0).length by rw [List.length_append, htwo, hlen0]; rfl)
      rwa [List.append_assoc] at h
    have hsum : (b0 ++ (b1 ++ data)).length = 4 + data.length := by
      rw [List.length_append, List.length_append, hlen0, hlen1]
      omega
    have hword : n0 ||| n1 <<< 8 = n0 + n1 * 256 := or_shiftLeft 8 h0.lt
    by_cases hfits : 2 * (n0 + n1 * 256) ≤ data.length
    · refine .inl ⟨head ++ (b0 ++ (b1 ++ data.take (2 * (n0 + n1 * 256)))),
        data.drop (2 * (n0 + n1 * 256)), ?_, ?_⟩
      · exact .inl (.pushData2 hhead h0 h1 (hdata hfits))
      · rw [List.append_assoc, List.append_assoc, List.append_assoc, List.take_append_drop]
    · refine .inr (.inr ⟨hnonzero, fun before => ⟨?_, ?_⟩⟩)
      · rw [behindPush, readPushData, if_neg (by rw [hlength]; omega), hread]
        dsimp only
        rw [if_neg hdirect, if_neg (by decide), if_pos rfl, if_neg (by rw [hlength, hsum]; omega),
          hread0, hread1, Option.getD_some, Option.getD_some, hword, pushOf,
          if_pos (by rw [hlength, hsum]; omega)]
        rfl
      · rw [opcodeSize, if_neg (by rw [hlength]; omega), hread]
        dsimp only
        rw [if_neg hdirect, if_neg (by decide), if_pos rfl, if_neg (by rw [hlength, hsum]; omega),
          hread0, hread1, Option.getD_some, Option.getD_some, hword, List.length_append, htwo, hsum]
        exact ⟨_, rfl, by omega, .inr (by push_cast; omega)⟩
  · by_cases hheader : rest.length < 8
    · refine .inr (.inr ⟨hnonzero, fun before => ⟨?_, 2, ?_, by decide, .inl ?_⟩⟩)
      · rw [behindPush, readPushData, if_neg (by rw [hlength]; omega), hread]
        dsimp only
        rw [if_neg hdirect, if_neg (by decide), if_neg (by decide), if_pos rfl,
          if_pos (by rw [hlength]; omega)]
        rfl
      · rw [opcodeSize, if_neg (by rw [hlength]; omega), hread]
        dsimp only
        rw [if_neg hdirect, if_neg (by decide), if_neg (by decide), if_pos rfl,
          if_pos (by rw [hlength]; omega)]
      · rw [List.length_append]
        omega
    obtain ⟨b0, n0, tail, rfl, h0, htail⟩ := hrest.byte (by omega)
    have hlen0 := h0.length
    rw [List.length_append, hlen0] at hheader
    obtain ⟨b1, n1, tail, rfl, h1, htail⟩ := htail.byte (by omega)
    have hlen1 := h1.length
    rw [List.length_append, hlen1] at hheader
    obtain ⟨b2, n2, tail, rfl, h2, htail⟩ := htail.byte (by omega)
    have hlen2 := h2.length
    rw [List.length_append, hlen2] at hheader
    obtain ⟨b3, n3, data, rfl, h3, -⟩ := htail.byte (by omega)
    have hlen3 := h3.length
    have hpush4 : Push4 (head ++ (b0 ++ (b1 ++ (b2 ++ (b3 ++ data)))))
        (n0 + n1 * 256 + n2 * 65536 + n3 * 16777216) :=
      ⟨head, b0, b1, b2, b3, data, n0, n1, n2, n3, rfl, hhead, h0, h1, h2, h3, rfl⟩
    by_cases hsmall : 2 ^ 31 ≤ n0 + n1 * 256 + n2 * 65536 + n3 * 16777216
    · exact .inr (.inl ⟨_, hpush4, hsmall⟩)
    have hsum : (b0 ++ (b1 ++ (b2 ++ (b3 ++ data)))).length = 8 + data.length := by
      simp only [List.length_append, hlen0, hlen1, hlen2, hlen3]
      omega
    have hword (before : HexText) := (hpush4.reads before).2.2.2
    by_cases hfits : 2 * (n0 + n1 * 256 + n2 * 65536 + n3 * 16777216) ≤ data.length
    · refine .inl ⟨head ++ (b0 ++ (b1 ++ (b2 ++ (b3 ++
        data.take (2 * (n0 + n1 * 256 + n2 * 65536 + n3 * 16777216)))))),
        data.drop (2 * (n0 + n1 * 256 + n2 * 65536 + n3 * 16777216)), ?_, ?_⟩
      · exact .inl (.pushData4 hhead h0 h1 h2 h3 (hdata hfits) (by rw [hdata hfits]; omega))
      · simp only [List.append_assoc, List.take_append_drop]
    · refine .inr (.inr ⟨hnonzero, fun before => ⟨?_, ?_⟩⟩)
      · rw [behindPush, readPushData, if_neg (by rw [hlength]; omega), hread]
        dsimp only
        rw [if_neg hdirect, if_neg (by decide), if_neg (by decide), if_pos rfl,
          if_neg (by rw [hlength, hsum]; omega), hword, if_pos (by omega), pushOf,
          if_pos (by rw [hlength, hsum]; omega)]
        rfl
      · rw [opcodeSize, if_neg (by rw [hlength]; omega), hread]
        dsimp only
        rw [if_neg hdirect, if_neg (by decide), if_neg (by decide), if_pos rfl,
          if_neg (by rw [hlength, hsum]; omega), hword, if_pos (by omega), List.length_append,
          htwo, hsum]
        exact ⟨_, rfl, by omega, .inr (by push_cast; omega)⟩

end Reading

/-! ## The parts of an envelope -/

section Parts

variable {before rest : HexText}

theorem isByte_of_digits {high low : Char} (h l : Nat) (hhigh : hexDigit? high = some h)
    (hlow : hexDigit? low = some l) : IsByte [high, low] (16 * h + l) :=
  ⟨high, low, h, l, rfl, hhigh, hlow, rfl⟩

/-- The certain elements of an envelope are whole. -/
theorem whole_envelopeParts : ∀ text, .exact text ∈ .exact ['0', '0'] :: envelopeParts →
    Whole text := by
  intro text hmem
  simp only [envelopeParts, List.mem_cons, Part.exact.injEq, reduceCtorEq, List.not_mem_nil,
    or_false, false_or] at hmem
  have hord : Element (['0', '3'] ++ "6f7264".toList) :=
    .push (isByte_of_digits 0 3 rfl rfl) (by decide) rfl
  rcases hmem with rfl | rfl | rfl | rfl | rfl | rfl
  · exact .inl (.op (isByte_of_digits 0 0 rfl rfl) (by decide) (by decide))
  · exact .inl (.op (isByte_of_digits 6 3 rfl rfl) (by decide) (by decide))
  · exact .inl hord
  · exact .inl (.op (isByte_of_digits 5 1 rfl rfl) (by decide) (by decide))
  · exact .inl (.op (isByte_of_digits 0 0 rfl rfl) (by decide) (by decide))
  · exact .inl (.op (isByte_of_digits 6 8 rfl rfl) (by decide) (by decide))

/-- A certain element that is passed stands there. -/
theorem behindParts_exact {text : HexText} {parts : List Part} {stop : Int} (hne : text ≠ [])
    (h : behindParts (before ++ rest) (.exact text :: parts) before.length = some stop) :
    ∃ after, rest = text ++ after ∧
      behindParts (before ++ rest) parts (before ++ text).length = some stop := by
  rw [behindParts] at h
  by_cases hslice : slice (before ++ rest) before.length (before.length + text.length) = text
  swap
  · rw [if_neg hslice] at h
    cases h
  rw [if_pos hslice] at h
  have hend := le_of_slice_eq rfl hslice hne
  rw [List.length_append] at hend
  have hcut := slice_take rest (k := text.length) (by omega) before [] rfl
  rw [List.append_nil, hslice] at hcut
  refine ⟨rest.drop text.length, ?_, ?_⟩
  · conv_lhs => rw [← List.take_append_drop text.length rest, ← hcut]
  · rw [List.length_append, Nat.cast_add]
    exact h

/-- Where parts are passed, elements stand that match them, or a push with a length from 2^31
on is read among them. -/
theorem behindParts_cases {parts : List Part} (hparts : ∀ text, .exact text ∈ parts → Whole text)
    (hrest : HexDigits rest) {stop : Int}
    (h : behindParts (before ++ rest) parts before.length = some stop) :
    ∃ es after, (∀ e ∈ es, Whole e) ∧ rest = es.flatten ++ after ∧
      Matches (parts.take es.length) es ∧
      (es.length = parts.length ∧ stop = (before ++ es.flatten).length ∨
        parts[es.length]? = some .push ∧ ∃ length, Push4 after length ∧ 2 ^ 31 ≤ length ∧
          behindParts (before ++ rest) (parts.drop (es.length + 1))
            ((before ++ es.flatten).length + 2 * (length + 5 - 2 ^ 32 : Int)) = some stop) := by
  induction parts generalizing before rest with
  | nil =>
    refine ⟨[], rest, fun _ h => (by cases h), rfl, trivial, .inl ⟨rfl, ?_⟩⟩
    rw [List.flatten_nil, List.append_nil]
    exact (Option.some.inj h).symm
  | cons part parts ih =>
    -- from behind a whole element on, the rest of the parts
    have hgoOn {e after : HexText} (he : Whole e) (heq : rest = e ++ after)
        (hpart : Matches [part] [e])
        (hnext : behindParts (before ++ rest) parts (before ++ e).length = some stop) :
        ∃ es after, (∀ e ∈ es, Whole e) ∧ rest = es.flatten ++ after ∧
          Matches ((part :: parts).take es.length) es ∧
          (es.length = (part :: parts).length ∧ stop = (before ++ es.flatten).length ∨
            (part :: parts)[es.length]? = some .push ∧ ∃ length, Push4 after length ∧
              2 ^ 31 ≤ length ∧ behindParts (before ++ rest) ((part :: parts).drop (es.length + 1))
                ((before ++ es.flatten).length + 2 * (length + 5 - 2 ^ 32 : Int)) = some stop) := by
      subst heq
      rw [← List.append_assoc] at hnext ⊢
      obtain ⟨es, past, hes, rfl, hmatch, hor⟩ :=
        ih (fun text hmem => hparts text (List.mem_cons_of_mem _ hmem))
          (fun c hc => hrest c (List.mem_append_right _ hc)) hnext
      refine ⟨e :: es, past, List.forall_mem_cons.mpr ⟨he, hes⟩, by
        rw [List.flatten_cons, List.append_assoc], ?_, ?_⟩
      · cases part with
        | exact text => exact ⟨hpart.1, hmatch⟩
        | push => exact ⟨hpart.1, hmatch⟩
      · rw [List.flatten_cons, ← List.append_assoc]
        exact hor.imp (fun ⟨hlen, hstop⟩ => ⟨congrArg (· + 1) hlen, hstop⟩) id
    cases part with
    | exact text =>
      have hwhole := hparts text List.mem_cons_self
      obtain ⟨_, _, htwo, -⟩ := hwhole.opcode
      have hne : text ≠ [] := by rintro rfl; exact absurd htwo (by decide)
      obtain ⟨after, heq, hnext⟩ := behindParts_exact hne h
      exact hgoOn hwhole heq ⟨rfl, trivial⟩ hnext
    | push =>
      rw [behindParts] at h
      obtain ⟨next, hpush, hnext⟩ := Option.bind_eq_some_iff.mp h
      have htwo : 2 ≤ rest.length := by
        by_contra hlt
        rw [behindPush, readPushData, if_pos (by rw [List.length_append]; omega)] at hpush
        cases hpush
      rcases cases_rest hrest htwo with ⟨e, after, he, rfl⟩ | ⟨length, hpush4, hlength⟩ | hshort
      · rw [behindPush, he.readPushData] at hpush
        cases hdata : pushedData e with
        | none =>
          rw [hdata] at hpush
          cases hpush
        | some data =>
          rw [hdata] at hpush
          obtain rfl := Option.some.inj hpush
          refine hgoOn he rfl ⟨by rw [hdata]; rfl, trivial⟩ ?_
          rw [List.length_append, Nat.cast_add]
          exact hnext
      · rw [(hpush4.size hlength before).2] at hpush
        obtain rfl := Option.some.inj hpush
        refine ⟨[], rest, fun _ h => (by cases h), rfl, trivial,
          .inr ⟨rfl, length, hpush4, hlength, ?_⟩⟩
        rw [List.flatten_nil, List.append_nil]
        exact hnext
      · rw [(hshort.2 before).1] at hpush
        cases hpush

/-- Elements that match the parts are passed. -/
theorem behindParts_matches {parts : List Part} {es : List HexText} (hes : ∀ e ∈ es, Whole e)
    (hmatch : Matches parts es) (hlen : es.length = parts.length) (before rest : HexText) :
    behindParts (before ++ (es.flatten ++ rest)) parts before.length =
      some ((before ++ es.flatten).length : Int) := by
  induction parts generalizing es before with
  | nil =>
    obtain rfl := List.length_eq_zero_iff.mp hlen
    rw [List.flatten_nil, List.append_nil]
    rfl
  | cons part parts ih =>
    obtain ⟨e, es, rfl⟩ := List.exists_cons_of_ne_nil
      (List.ne_nil_of_length_pos (show 0 < es.length by rw [hlen]; exact Nat.succ_pos _))
    obtain ⟨he, hes⟩ := List.forall_mem_cons.mp hes
    have hnext (hparts : Matches parts es) := ih hes hparts (Nat.succ.inj hlen) (before ++ e)
    rw [List.append_assoc, List.append_assoc] at hnext
    rw [List.flatten_cons, List.append_assoc]
    cases part with
    | exact text =>
      obtain ⟨rfl, hrest⟩ := hmatch
      rw [behindParts, slice_append before e (es.flatten ++ rest) rfl rfl, if_pos rfl,
        ← Nat.cast_add, ← List.length_append, hnext hrest]
    | push =>
      obtain ⟨hdata, hrest⟩ := hmatch
      obtain ⟨data, hdata⟩ := Option.isSome_iff_exists.mp hdata
      have hread : behindPush (before ++ (e ++ (es.flatten ++ rest))) before.length =
          some ((before ++ e).length : Int) := by
        rw [behindPush, he.readPushData, hdata, List.length_append, Nat.cast_add]
        rfl
      rw [behindParts, hread, Option.bind_some, hnext hrest]

/-- Behind one of the last four lengths no opcode of an envelope stands. -/
theorem behindParts_wrapped {length : Nat} (h : Push4 rest length) (hlast : 2 ^ 32 - 4 ≤ length)
    {text : HexText} {n : Nat} (htext : IsByte text n) (hn : n < 252) (parts : List Part) :
    behindParts (before ++ rest) (.exact text :: parts)
      (before.length + 2 * (length + 5 - 2 ^ 32 : Int)) = none := by
  obtain ⟨head, b0, b1, b2, b3, after, n0, n1, n2, n3, rfl, hhead, h0, h1, h2, h3, rfl⟩ := h
  have hlt0 := h0.lt
  have hlt1 := h1.lt
  have hlt2 := h2.lt
  have hlt3 := h3.lt
  have hlen := hhead.length
  have hlen0 := h0.length
  have hlen1 := h1.length
  have hlen2 := h2.length
  have hread1 := h1.read before (head ++ b0) (b2 ++ (b3 ++ after)) rfl
  have hread2 := h2.read before (head ++ (b0 ++ b1)) (b3 ++ after) rfl
  have hread3 := h3.read before (head ++ (b0 ++ (b1 ++ b2))) after rfl
  simp only [List.append_assoc] at hread1 hread2 hread3
  -- the place is that of one of the length bytes, none of which is below 252
  obtain ⟨place, m, hplace, hread, hm⟩ : ∃ place m,
      2 * (((n0 + n1 * 256 + n2 * 65536 + n3 * 16777216 : Nat) : Int) + 5 - 2 ^ 32) = place ∧
      byteAt (before ++ (head ++ (b0 ++ (b1 ++ (b2 ++ (b3 ++ after)))))) before.length place =
        some m ∧ 252 ≤ m := by
    have hcases : n0 = 252 ∨ n0 = 253 ∨ n0 = 254 ∨ n0 = 255 := by omega
    rcases hcases with rfl | rfl | rfl | rfl
    · exact ⟨_, _, by omega, h0.read before head _ rfl, by omega⟩
    · exact ⟨_, n1, by simp only [List.length_append, hlen, hlen0]; omega, hread1, by omega⟩
    · exact ⟨_, n2, by simp only [List.length_append, hlen, hlen0, hlen1]; omega, hread2, by omega⟩
    · exact ⟨_, n3, by simp only [List.length_append, hlen, hlen0, hlen1, hlen2]; omega, hread3,
        by omega⟩
  rw [hplace, behindParts]
  refine if_neg fun hslice => ?_
  obtain ⟨high, low, dh, dl, rfl, hhigh, hlow, rfl⟩ := htext
  have hparse : byteAt (before ++ (head ++ (b0 ++ (b1 ++ (b2 ++ (b3 ++ after)))))) before.length
      place = parseByte high low := congrArg parseHex hslice
  rw [hread, parseByte, hhigh, hlow] at hparse
  have hm := Option.some.inj hparse
  omega

theorem isByte_zero {text : HexText} (h : IsByte text 0) : text = ['0', '0'] := by
  obtain ⟨high, low, dh, dl, rfl, hhigh, hlow, hzero⟩ := h
  have hdigit {c : Char} (hc : hexDigit? c = some 0) : c = '0' := by
    unfold hexDigit? at hc
    have hval : ∀ x : Char, x.toNat = x.val.toNat := fun _ => rfl
    have hle : ∀ x y : Char, x ≤ y ↔ x.val.toNat ≤ y.val.toNat := fun _ _ => Iff.rfl
    simp only [hle, hval] at hc
    have h0 : ('0' : Char).val.toNat = 48 := rfl
    have ha : ('a' : Char).val.toNat = 97 := rfl
    have hA : ('A' : Char).val.toNat = 65 := rfl
    split at hc
    · refine Char.ext (UInt32.toNat_inj.mp ?_)
      have := Option.some.inj hc
      omega
    split at hc
    · have := Option.some.inj hc
      omega
    split at hc
    · have := Option.some.inj hc
      omega
    · exact nomatch hc
  obtain ⟨rfl, rfl⟩ : dh = 0 ∧ dl = 0 := by omega
  rw [hdigit hhigh, hdigit hlow]

/-- The pushes of an envelope have a certain opcode behind them. -/
theorem envelopeParts_push {n : Nat} (h : envelopeParts[n]? = some .push) :
    ∃ text m parts, envelopeParts.drop (n + 1) = .exact text :: parts ∧ IsByte text m ∧ m < 252 ∧
      n < 7 ∧ ∃ parts, envelopeParts.take n = .exact ['6', '3'] :: parts := by
  match n, h with
  | 3, _ =>
    exact ⟨['0', '0'], _, _, rfl, isByte_of_digits 0 0 rfl rfl, by decide, by decide, _, rfl⟩
  | 5, _ =>
    exact ⟨['6', '8'], _, _, rfl, isByte_of_digits 6 8 rfl rfl, by decide, by decide, _, rfl⟩
  | n + 7, h =>
    obtain ⟨hlt, -⟩ := List.getElem?_eq_some_iff.mp h
    exact absurd hlt (Nat.not_lt.mpr (Nat.le_add_left 7 n))

/-- Where parts are passed, elements stand that match them, or a push among them moves the
cursor back. -/
theorem behindParts_retreats {parts : List Part}
    (hparts : ∀ text, .exact text ∈ parts → Whole text)
    (hpushes : ∀ n, parts[n]? = some .push →
      ∃ text m later, parts.drop (n + 1) = .exact text :: later ∧ IsByte text m ∧ m < 252)
    (hrest : HexDigits rest) {stop : Int}
    (h : behindParts (before ++ rest) parts before.length = some stop) :
    ∃ es after, (∀ e ∈ es, Whole e) ∧ rest = es.flatten ++ after ∧
      Matches (parts.take es.length) es ∧
      (es.length = parts.length ∧ stop = (before ++ es.flatten).length ∨
        parts[es.length]? = some .push ∧ Retreats after) := by
  obtain ⟨es, after, hes, rfl, hmatch, hor⟩ := behindParts_cases hparts hrest h
  refine ⟨es, after, hes, rfl, hmatch, hor.imp id ?_⟩
  rintro ⟨hpush, length, hpush4, hlength, hnext⟩
  refine ⟨hpush, length, hpush4, hlength, ?_⟩
  by_contra hlast
  obtain ⟨text, m, later, hdrop, htext, hm⟩ := hpushes _ hpush
  rw [hdrop, ← List.append_assoc, behindParts_wrapped hpush4 (Nat.not_lt.mp hlast) htext hm]
    at hnext
  exact nomatch hnext

/-- The same behind an OP_FALSE. -/
theorem behindParts_zero {parts : List Part}
    (hparts : ∀ text, .exact text ∈ parts → Whole text)
    (hpushes : ∀ n, parts[n]? = some .push →
      ∃ text m later, parts.drop (n + 1) = .exact text :: later ∧ IsByte text m ∧ m < 252)
    (hrest : HexDigits rest) (htwo : 2 ≤ rest.length)
    (hzero : byteAt (before ++ rest) before.length 0 = some 0x00) {stop : Int}
    (h : behindParts (before ++ rest) parts (before.length + 2) = some stop) :
    ∃ es after, (∀ e ∈ es, Whole e) ∧ rest = ['0', '0'] ++ (es.flatten ++ after) ∧
      Matches (parts.take es.length) es ∧
      (es.length = parts.length ∧ stop = (before ++ ['0', '0'] ++ es.flatten).length ∨
        parts[es.length]? = some .push ∧ Retreats after) := by
  obtain ⟨head, n, rest, rfl, hhead, hdigits⟩ := hrest.byte htwo
  obtain rfl := Option.some.inj ((hhead.read before [] rest rfl).symm.trans hzero)
  obtain rfl := isByte_zero hhead
  have hplace : (before.length : Int) + 2 = (before ++ ['0', '0']).length := by
    rw [List.length_append]
    rfl
  rw [← List.append_assoc, hplace] at h
  obtain ⟨es, after, hes, rfl, hmatch, hor⟩ := behindParts_retreats hparts hpushes hdigits h
  exact ⟨es, after, hes, rfl, hmatch, hor⟩

end Parts

/-! ## The walk -/

section Walk

variable {hex before rest after : HexText} {exact : Bool} {es : List HexText} {length : Nat}

theorem WalksTo.eq (h : WalksTo hex before rest exact) : hex = before ++ rest := by
  induction h with
  | start => rfl
  | whole _ _ _ ih => rw [ih, List.append_assoc]
  | wrapped _ _ ih => rw [ih, List.append_assoc]

theorem WalksTo.digits (h : WalksTo hex before rest exact) (hhex : HexDigits hex) :
    HexDigits rest := by
  rw [h.eq] at hhex
  exact fun c hc => hhex c (List.mem_append_right _ hc)

/-- No more whole elements start before a push with a length from 2^31 on than there are. -/
theorem length_le_of_push4 (hes : ∀ e ∈ es, Whole e) (hpush4 : Push4 after length)
    (hlength : 2 ^ 31 ≤ length) {es' : List HexText} (hes' : ∀ e ∈ es', Whole e) {rest : HexText}
    (heq : es.flatten ++ after = es'.flatten ++ rest) : es'.length ≤ es.length := by
  induction es generalizing es' with
  | nil =>
    cases es' with
    | nil => exact le_rfl
    | cons e es' =>
      rw [List.flatten_nil, List.nil_append, List.flatten_cons, List.append_assoc] at heq
      exact absurd (heq ▸ hpush4) ((hes' e List.mem_cons_self).not_push4 hlength)
  | cons e es ih =>
    cases es' with
    | nil => exact Nat.zero_le _
    | cons e' es' =>
      obtain ⟨he, hrest⟩ := List.forall_mem_cons.mp hes
      obtain ⟨he', hrest'⟩ := List.forall_mem_cons.mp hes'
      rw [List.flatten_cons, List.flatten_cons, List.append_assoc, List.append_assoc] at heq
      obtain rfl := he.unique he' heq
      exact Nat.succ_le_succ (ih hrest hrest' (List.append_cancel_left heq))

/-- The walk goes over the elements of an envelope that is not whole. -/
theorem WalksTo.through (h : WalksTo hex before (es.flatten ++ after) exact)
    (hes : ∀ e ∈ es, Whole e) (hshort : es.length < 8) (hpush4 : Push4 after length)
    (hlength : 2 ^ 31 ≤ length) : WalksTo hex (before ++ es.flatten) after exact := by
  induction es generalizing before with
  | nil => rwa [List.flatten_nil, List.append_nil]
  | cons e es ih =>
    obtain ⟨he, hes'⟩ := List.forall_mem_cons.mp hes
    rw [List.flatten_cons, List.append_assoc] at h
    rw [List.flatten_cons, ← List.append_assoc]
    refine ih (.whole h he ?_) hes' (Nat.lt_of_succ_lt hshort)
    rintro ⟨envelope, rest, ⟨hwhole, height, -⟩, heq⟩
    rw [← List.append_assoc, ← List.flatten_cons] at heq
    have hle := length_le_of_push4 hes hpush4 hlength hwhole heq
    omega

/-- An envelope that stands at a place is found. -/
theorem StartsEnvelope.found (h : StartsEnvelope rest) (before : HexText) :
    ∃ stop, foundAt (before ++ rest) before.length = some stop := by
  obtain ⟨envelope, rest, ⟨hwhole, hlen, hmatch⟩, rfl⟩ := h
  obtain ⟨e, es, rfl⟩ := List.exists_cons_of_ne_nil
    (List.ne_nil_of_length_pos (show 0 < envelope.length by omega))
  obtain ⟨he, hes⟩ := List.forall_mem_cons.mp hwhole
  obtain ⟨rfl, hmatch⟩ := hmatch
  have hread : byteAt (before ++ (['0', '0'] ++ (es.flatten ++ rest))) before.length 0 = some 0 :=
    (isByte_of_digits 0 0 rfl rfl).read before [] _ rfl
  have hplace : (before.length : Int) + 2 = (before ++ ['0', '0']).length := by
    rw [List.length_append]
    rfl
  have hparts := behindParts_matches hes hmatch (Nat.succ.inj hlen) (before ++ ['0', '0']) rest
  rw [List.append_assoc] at hparts
  refine ⟨(before ++ ['0', '0'] ++ es.flatten).length, ?_⟩
  rw [List.flatten_cons, List.append_assoc, foundAt, if_pos hread, envelopeEnd_eq, hplace]
  exact hparts

/-- Where an envelope is found, there is one, or a push that moves the cursor back is read
for it. -/
theorem foundAt_cases (hrest : HexDigits rest) {stop : Int}
    (h : foundAt (before ++ rest) before.length = some stop) :
    ∃ es after, (∀ e ∈ es, Whole e) ∧ rest = es.flatten ++ after ∧
      (IsEnvelope es ∧ stop = (before ++ es.flatten).length ∨
        es.length < 8 ∧ Retreats after ∧
          ReadsPush (before ++ rest) before.length (before ++ es.flatten).length) := by
  rw [foundAt] at h
  by_cases hzero : byteAt (before ++ rest) before.length 0 = some 0x00
  swap
  · rw [if_neg hzero] at h
    exact nomatch h
  rw [if_pos hzero, envelopeEnd_eq] at h
  have htwo : 2 ≤ rest.length := by
    rw [envelopeParts, behindParts] at h
    by_cases hslice : slice (before ++ rest) (before.length + 2)
        (before.length + 2 + (['6', '3'] : HexText).length) = ['6', '3']
    · have hend := le_of_slice_eq rfl hslice (by decide)
      rw [List.length_append] at hend
      omega
    · rw [if_neg hslice] at h
      exact nomatch h
  have hparts : ∀ text, .exact text ∈ envelopeParts → Whole text :=
    fun text hmem => whole_envelopeParts text (List.mem_cons_of_mem _ hmem)
  obtain ⟨es, after, hes, rfl, hmatch, hor⟩ := behindParts_zero hparts (fun n hpush => by
    obtain ⟨text, m, later, hdrop, htext, hm, -⟩ := envelopeParts_push hpush
    exact ⟨text, m, later, hdrop, htext, hm⟩) hrest htwo hzero h
  have hall : ∀ e ∈ ['0', '0'] :: es, Whole e :=
    List.forall_mem_cons.mpr ⟨whole_envelopeParts _ List.mem_cons_self, hes⟩
  refine ⟨['0', '0'] :: es, after, hall, by rw [List.flatten_cons, List.append_assoc], ?_⟩
  rw [List.flatten_cons, ← List.append_assoc before]
  rcases hor with ⟨hlen, hstop⟩ | ⟨hpush, hretreats⟩
  · rw [hlen, List.take_length] at hmatch
    exact .inl ⟨⟨hall, congrArg (· + 1) hlen, rfl, hmatch⟩, hstop⟩
  · obtain ⟨text, m, later, hdrop, htext, hm, hlt, -⟩ := envelopeParts_push hpush
    refine .inr ⟨Nat.succ_lt_succ hlt, hretreats, hzero, es.length, hpush, ?_⟩
    have hread := behindParts_matches hes hmatch
      (by rw [List.length_take]; exact (Nat.min_eq_left hlt.le).symm) (before ++ ['0', '0']) after
    have hplace : (before.length : Int) + 2 = (before ++ ['0', '0']).length := by
      rw [List.length_append]
      rfl
    rw [← hplace, List.append_assoc before] at hread
    exact hread

/-- No envelope stands where the walk is at a push with a length from 2^31 on. -/
theorem Push4.foundAt_eq_none (h : Push4 rest length) (before : HexText) :
    foundAt (before ++ rest) before.length = none := by
  rw [foundAt, (h.reads before).1]
  rfl

/-- What the walk went over, if that is exact, are whole opcodes and pushes. -/
theorem WalksTo.whole_of_exact (h : WalksTo hex before rest exact) (hexact : exact = true) :
    ∃ es : List HexText, (∀ e ∈ es, Whole e) ∧ before = es.flatten := by
  induction h with
  | start => exact ⟨[], fun _ h => (nomatch h), rfl⟩
  | @whole before e rest exact _ he _ ih =>
    obtain ⟨es, hes, rfl⟩ := ih hexact
    exact ⟨es ++ [e], List.forall_mem_append.mpr ⟨hes, List.forall_mem_singleton.mpr he⟩,
      by rw [List.flatten_append, List.flatten_singleton]⟩
  | wrapped => exact nomatch hexact

/-- Where whole opcodes and pushes reach as far as the walk, it is exact. -/
theorem WalksTo.exact_of_whole (h : WalksTo hex before rest exact) {es : List HexText}
    {tail : HexText} (hes : ∀ e ∈ es, Whole e) (heq : hex = es.flatten ++ tail)
    (hlen : before.length ≤ es.flatten.length) :
    exact = true ∧ ∃ es₁ es₂, es = es₁ ++ es₂ ∧ before = es₁.flatten := by
  have hnext {before e rest : HexText} {es₁ es₂ : List HexText} (hhex : hex = before ++ (e ++ rest))
      (hsplit : es = es₁ ++ es₂) (hbefore : before = es₁.flatten) (hpos : 0 < e.length)
      (hlen : (before ++ e).length ≤ es.flatten.length) :
      ∃ e' es', es₂ = e' :: es' ∧ Whole e' ∧ e ++ rest = e' ++ (es'.flatten ++ tail) := by
    subst hbefore hsplit
    cases es₂ with
    | nil =>
      rw [List.append_nil, List.length_append] at hlen
      omega
    | cons e' es' =>
      refine ⟨e', es', rfl, hes e' (List.mem_append_right _ List.mem_cons_self), ?_⟩
      rw [hhex, List.flatten_append, List.append_assoc, List.flatten_cons, List.append_assoc] at heq
      exact List.append_cancel_left heq
  have hless {before e : HexText} (hlen : (before ++ e).length ≤ es.flatten.length) :
      before.length ≤ es.flatten.length := by
    rw [List.length_append] at hlen
    omega
  induction h with
  | start => exact ⟨rfl, [], es, rfl, rfl⟩
  | @whole before e rest exact hwalk he _ ih =>
    obtain ⟨rfl, es₁, es₂, hsplit, hbefore⟩ := ih (hless hlen)
    obtain ⟨_, _, htwo, -⟩ := he.opcode
    obtain ⟨e', es', rfl, he', hsame⟩ := hnext hwalk.eq hsplit hbefore (by omega) hlen
    obtain rfl := he.unique he' hsame
    refine ⟨rfl, es₁ ++ [e], es', by rw [hsplit, List.append_assoc]; rfl, ?_⟩
    rw [hbefore, List.flatten_append, List.flatten_singleton]
  | @wrapped before front rest exact hwalk hwraps ih =>
    obtain ⟨-, es₁, es₂, hsplit, hbefore⟩ := ih (hless hlen)
    obtain ⟨length, hpush4, hlast, hfront⟩ := hwraps
    obtain ⟨e', es', rfl, he', hsame⟩ := hnext hwalk.eq hsplit hbefore (by omega) hlen
    exact absurd (hsame ▸ hpush4) (he'.not_push4 (by omega))

end Walk

/-! ## Scripts that move the cursor forward -/

section Forward

variable {hex : HexText} {offset : Int}

/-- What is known of the cursor: it is where the walk comes, or so near to the end that there
is no room for an envelope or for the length of an OP_PUSHDATA4. -/
def CursorAt (hex : HexText) (offset : Int) : Prop :=
  (∃ before rest exact, WalksTo hex before rest exact ∧ offset = before.length) ∨
    0 ≤ offset ∧ hex.length < offset + 10

/-- Near the end the cursor goes forward. -/
theorem opcodeSize_near_end (hhex : HexDigits hex) (hpos : 0 ≤ offset)
    (hnear : hex.length < offset + 10) : ∃ size, opcodeSize hex offset = some size ∧ 0 < size := by
  have hread {place : Int} (hplace : 0 ≤ place) (hend : offset + (place + 2) ≤ hex.length) :
      ∃ n, byteAt hex offset place = some n := by
    have hdigits : HexDigits (hex.drop (offset + place).toNat) :=
      fun c hc => hhex c (List.mem_of_mem_drop hc)
    obtain ⟨head, n, rest, hdrop, hhead, -⟩ := hdigits.byte (by rw [List.length_drop]; omega)
    have hlength : (hex.take (offset + place).toNat).length = (offset + place).toNat :=
      List.length_take_of_le (by omega)
    have hsplit : hex = hex.take (offset + place).toNat ++ (head ++ rest) := by
      rw [← hdrop, List.take_append_drop]
    have hbyte : byteAt _ _ 0 = some n := hhead.read (hex.take (offset + place).toNat) [] rest rfl
    rw [List.nil_append, ← hsplit, hlength, byteAt, Int.toNat_of_nonneg (by omega), Int.add_zero]
      at hbyte
    exact ⟨n, hbyte⟩
  rw [opcodeSize]
  split
  · exact ⟨2, rfl, by decide⟩
  cases hopcode : byteAt hex offset 0 with
  | none => exact ⟨2, rfl, by decide⟩
  | some opcode =>
    dsimp only
    split
    · exact ⟨_, rfl, by omega⟩
    split
    · split
      · exact ⟨2, rfl, by decide⟩
      · obtain ⟨n, hn⟩ := hread (show (0 : Int) ≤ 2 by decide) (by omega)
        rw [hn, Option.map_some]
        exact ⟨_, rfl, by omega⟩
    split
    · split
      · exact ⟨2, rfl, by decide⟩
      · exact ⟨_, rfl, by omega⟩
    split
    · exact ⟨2, rfl, by decide⟩
    · exact ⟨2, rfl, by decide⟩

/-- Near the end no envelope is found, nor any push for one. -/
theorem behindParts_near_end (hnear : hex.length < offset + 10) {n : Nat} (hn : 3 ≤ n) :
    behindParts hex (envelopeParts.take n) (offset + 2) = none := by
  obtain ⟨n, rfl⟩ := Nat.exists_eq_add_of_le' hn
  rw [envelopeParts, List.take_succ_cons, List.take_succ_cons, behindParts]
  split
  · rw [behindParts]
    refine if_neg fun hslice => ?_
    have hend := le_of_slice_eq rfl hslice (by decide)
    have hif : (((['6', '3'] : HexText).length : Nat) : Int) = 2 := rfl
    have hord : ((("036f7264".toList : HexText).length : Nat) : Int) = 8 := rfl
    rw [hif, hord] at hend
    omega
  · rfl

theorem foundAt_near_end (hnear : hex.length < offset + 10) : foundAt hex offset = none := by
  rw [foundAt]
  split
  · rw [envelopeEnd_eq]
    exact behindParts_near_end hnear (show 3 ≤ 7 by decide)
  · rfl

/-- What a round finds at a place of the walk is an envelope that starts there. -/
theorem WalksTo.found {before rest : HexText} {exact : Bool} (h : WalksTo hex before rest exact)
    (hhex : HexDigits hex)
    (hno : ∀ after pos, Retreats after → WalksTo hex (before ++ pos) after exact →
      ¬ ReadsPush hex before.length (before ++ pos).length) {stop : Int}
    (hfound : foundAt hex before.length = some stop) :
    ∃ envelope after, IsEnvelope envelope ∧ rest = envelope.flatten ++ after ∧
      stop = (before ++ envelope.flatten).length := by
  have hdigits := h.digits hhex
  rw [h.eq] at hfound
  obtain ⟨es, after, hes, rfl, hor⟩ := foundAt_cases hdigits hfound
  rcases hor with ⟨henvelope, hstop⟩ | ⟨hshort, hretreats, hreads⟩
  · exact ⟨es, after, henvelope, rfl, hstop⟩
  · rw [← h.eq] at hreads
    obtain ⟨length, hpush4, hlength, -⟩ := id hretreats
    exact absurd hreads (hno after _ hretreats (h.through hes hshort hpush4 hlength))

/-- The same in a script without a push that moves the cursor back. -/
theorem WalksTo.starts {before rest : HexText} {exact : Bool} (h : WalksTo hex before rest exact)
    (hhex : HexDigits hex) (hforward : Forward hex) {stop : Int}
    (hfound : foundAt hex before.length = some stop) :
    ∃ envelope after, IsEnvelope envelope ∧ rest = envelope.flatten ++ after ∧
      stop = (before ++ envelope.flatten).length :=
  h.found hhex (fun after _ hretreats hwalk => absurd hretreats (hforward _ after _ hwalk).1) hfound

/-- A round that finds nothing moves the cursor forward. -/
theorem CursorAt.next (h : CursorAt hex offset) (hhex : HexDigits hex) (hforward : Forward hex)
    (hend : offset + 2 ≤ hex.length) (hnone : foundAt hex offset = none) :
    ∃ size, opcodeSize hex offset = some size ∧ 0 < size ∧ CursorAt hex (offset + size) := by
  rcases h with ⟨before, rest, exact, hwalk, rfl⟩ | ⟨hpos, hnear⟩
  swap
  · obtain ⟨size, hsize, hsizePos⟩ := opcodeSize_near_end hhex hpos hnear
    exact ⟨size, hsize, hsizePos, .inr ⟨by omega, by omega⟩⟩
  have heq := hwalk.eq
  have hlength : hex.length = before.length + rest.length := by rw [heq, List.length_append]
  rcases cases_rest (hwalk.digits hhex) (by omega) with
    ⟨e, rest, he, rfl⟩ | ⟨length, hpush4, hlarge⟩ | hshort
  · have hsize := (he.size before rest).2
    rw [← heq] at hsize
    obtain ⟨_, _, htwo, -⟩ := he.opcode
    have hno : ¬ StartsEnvelope (e ++ rest) := by
      intro hstarts
      obtain ⟨stop, hfound⟩ := hstarts.found before
      rw [← heq, hnone] at hfound
      exact nomatch hfound
    refine ⟨_, hsize, by omega, .inl ⟨_, _, _, .whole hwalk he hno, ?_⟩⟩
    rw [List.length_append]
    exact (Nat.cast_add ..).symm
  · have hlast : 2 ^ 32 - 4 ≤ length := by
      by_contra hlt
      exact (hforward _ _ _ hwalk).1 ⟨length, hpush4, hlarge, Nat.not_le.mp hlt⟩
    have hsize := (hpush4.size hlarge before).1
    have hten := (hpush4.reads before).2.1
    have hlt := (hpush4.reads before).2.2.1
    rw [← heq] at hsize
    refine ⟨_, hsize, by omega, .inl ⟨before ++ rest.take (2 * (length + 5 - 2 ^ 32)),
      rest.drop (2 * (length + 5 - 2 ^ 32)), false, ?_, ?_⟩⟩
    · have hsplit := (List.take_append_drop (2 * (length + 5 - 2 ^ 32)) rest).symm
      exact .wrapped (hsplit ▸ hwalk)
        ⟨length, hsplit ▸ hpush4, hlast, List.length_take_of_le (by omega)⟩
    · rw [List.length_append, List.length_take_of_le (by omega)]
      omega
  · obtain ⟨size, hsize, hsizePos, hnear⟩ := (hshort.2 before).2
    rw [← heq] at hsize
    exact ⟨size, hsize, hsizePos, .inr ⟨by omega, by omega⟩⟩

theorem Visits.cursorAt (h : Visits hex offset) (hhex : HexDigits hex) (hforward : Forward hex) :
    CursorAt hex offset := by
  induction h with
  | start => exact .inl ⟨[], hex, true, .start, rfl⟩
  | next _ hend hnone hsize ih =>
    obtain ⟨size, hsize', -, hnext⟩ := ih.next hhex hforward hend hnone
    obtain rfl := Option.some.inj (hsize.symm.trans hsize')
    exact hnext

/-- Each round leaves less of the script. -/
theorem CursorAt.terminates (h : CursorAt hex offset) (hhex : HexDigits hex)
    (hforward : Forward hex) :
    ∃ fuel result, findInscriptionEnvelope hex fuel (some offset) = some result := by
  induction hleft : (hex.length - offset).toNat using Nat.strongRecOn generalizing offset with
  | ind left ih =>
  by_cases hend : offset + 2 ≤ hex.length
  swap
  · exact ⟨1, none, by rw [findInscriptionEnvelope, if_neg hend]⟩
  cases hfound : foundAt hex offset with
  | some stop =>
    rw [foundAt] at hfound
    exact ⟨1, some ⟨offset, stop⟩, by rw [findInscriptionEnvelope, if_pos hend, hfound]⟩
  | none =>
    obtain ⟨size, hsize, hpos, hnext⟩ := h.next hhex hforward hend hfound
    obtain ⟨fuel, result, hrest⟩ := ih _ (by omega) hnext rfl
    rw [foundAt] at hfound
    refine ⟨fuel + 1, result, ?_⟩
    rw [findInscriptionEnvelope, if_pos hend, hfound, hsize]
    exact hrest

/-- The same of the parts before a push. -/
theorem envelopeParts_take {n : Nat} (h : envelopeParts[n]? = some .push) {i : Nat}
    (hi : (envelopeParts.take n)[i]? = some .push) :
    ∃ text m later, (envelopeParts.take n).drop (i + 1) = .exact text :: later ∧ IsByte text m ∧
      m < 252 := by
  match n, h with
  | 3, _ =>
    match i, hi with
    | i + 3, hi =>
      obtain ⟨hlt, -⟩ := List.getElem?_eq_some_iff.mp hi
      exact absurd hlt (Nat.not_lt.mpr (Nat.le_add_left 3 i))
  | 5, _ =>
    match i, hi with
    | 3, _ => exact ⟨['0', '0'], _, _, rfl, isByte_of_digits 0 0 rfl rfl, by decide⟩
    | i + 5, hi =>
      obtain ⟨hlt, -⟩ := List.getElem?_eq_some_iff.mp hi
      exact absurd hlt (Nat.not_lt.mpr (Nat.le_add_left 5 i))
  | n + 7, h =>
    obtain ⟨hlt, -⟩ := List.getElem?_eq_some_iff.mp h
    exact absurd hlt (Nat.not_lt.mpr (Nat.le_add_left 7 n))

/-- A push that is read for an envelope moves the cursor forward. -/
theorem CursorAt.readsOn (h : CursorAt hex offset) (hhex : HexDigits hex) (hforward : Forward hex)
    {pos next : Int} (hreads : ReadsPush hex offset pos) (hnext : behindPush hex pos = some next) :
    pos < next := by
  obtain ⟨hzero, n, hpush, hparts⟩ := hreads
  obtain ⟨text, m, later, hdrop, htext, hm, hlt, parts, htake⟩ := envelopeParts_push hpush
  rcases h with ⟨before, rest, exact, hwalk, rfl⟩ | ⟨hpos, hnear⟩
  swap
  · have hthree : 3 ≤ n := by
      by_contra hlow
      obtain rfl | rfl | rfl : n = 0 ∨ n = 1 ∨ n = 2 := by omega
      all_goals cases hpush
    rw [behindParts_near_end hnear hthree] at hparts
    cases hparts
  have heq := hwalk.eq
  have htwo : 2 ≤ rest.length := by
    rw [htake, behindParts] at hparts
    by_cases hslice : slice hex (before.length + 2)
        (before.length + 2 + (['6', '3'] : HexText).length) = ['6', '3']
    · have hend := le_of_slice_eq rfl hslice (by decide)
      rw [heq, List.length_append] at hend
      omega
    · rw [if_neg hslice] at hparts
      cases hparts
  rw [heq] at hzero hparts hnext
  obtain ⟨es, after, hes, rfl, -, hor⟩ := behindParts_zero
    (fun text hmem => whole_envelopeParts text
      (List.mem_cons_of_mem _ (List.mem_of_mem_take hmem)))
    (fun i hi => envelopeParts_take hpush hi) (hwalk.digits hhex) htwo hzero hparts
  have hall : ∀ e ∈ ['0', '0'] :: es, Whole e :=
    List.forall_mem_cons.mpr ⟨whole_envelopeParts _ List.mem_cons_self, hes⟩
  have hdigits : HexDigits after := fun c hc => hwalk.digits hhex c
    (List.mem_append_right _ (List.mem_append_right _ hc))
  rw [← List.append_assoc ['0', '0'], ← List.flatten_cons] at hwalk
  -- a push of the envelope that moves the cursor back is one the walk comes to
  have hback (hshort : es.length < 7) : ¬ Retreats after := by
    intro hretreats
    obtain ⟨length, hpush4, hlength, -⟩ := id hretreats
    have hthrough := hwalk.through hall (Nat.succ_lt_succ hshort) hpush4 hlength
    exact (hforward _ _ _ hthrough).1 hretreats
  have hlength := List.length_take_of_le (l := envelopeParts) hlt.le
  rcases hor with ⟨hlen, rfl⟩ | ⟨hbefore, hretreats⟩
  swap
  · obtain ⟨hshort, -⟩ := List.getElem?_eq_some_iff.mp hbefore
    exact absurd hretreats (hback (by omega))
  have hsplit : before ++ (['0', '0'] ++ (es.flatten ++ after)) =
      before ++ ['0', '0'] ++ es.flatten ++ after := by simp only [List.append_assoc]
  rw [hsplit] at hnext
  generalize before ++ ['0', '0'] ++ es.flatten = past at hnext ⊢
  have htwo : 2 ≤ after.length := by
    by_contra hless
    rw [behindPush, readPushData, if_pos (by rw [List.length_append]; omega)] at hnext
    cases hnext
  rcases cases_rest hdigits htwo with ⟨e, rest, he, rfl⟩ | ⟨length, hpush4, hlarge⟩ | hshort
  · obtain ⟨_, _, hpos, -⟩ := he.opcode
    rw [behindPush, he.readPushData] at hnext
    cases hdata : pushedData e with
    | none =>
      rw [hdata] at hnext
      cases hnext
    | some data =>
      rw [hdata] at hnext
      obtain rfl := Option.some.inj hnext
      omega
  · have hlast : 2 ^ 32 - 4 ≤ length := by
      by_contra hless
      exact hback (by omega) ⟨length, hpush4, hlarge, Nat.not_le.mp hless⟩
    rw [(hpush4.size hlarge _).2] at hnext
    obtain rfl := Option.some.inj hnext
    omega
  · rw [(hshort.2 _).1] at hnext
    cases hnext

/-! ## When the scanner keeps to the script -/

/-- The walk comes only where the cursor comes. -/
theorem ScansEnvelope.visits (hscan : ScansEnvelope hex) (hhex : HexDigits hex)
    {before rest : HexText} {exact : Bool} (h : WalksTo hex before rest exact) :
    Visits hex before.length := by
  have hstep {before front rest : HexText} (heq : hex = before ++ (front ++ rest))
      (hvisits : Visits hex before.length) (htwo : 2 ≤ (front ++ rest).length)
      (hnone : foundAt hex before.length = none)
      (hsize : opcodeSize hex before.length = some (front.length : Int)) :
      Visits hex (before ++ front).length := by
    rw [List.length_append, Nat.cast_add]
    refine hvisits.next ?_ hnone hsize
    rw [heq, List.length_append]
    omega
  induction h with
  | start => exact .start
  | @whole before e rest exact hwalk he hno ih =>
    have heq := hwalk.eq
    obtain ⟨_, _, htwo, -⟩ := he.opcode
    have hsize := (he.size before rest).2
    rw [← heq] at hsize
    refine hstep heq ih (by rw [List.length_append]; omega) ?_ hsize
    cases hfound : foundAt hex before.length with
    | none => rfl
    | some stop =>
      -- a push that moves the cursor back is not read for what is found
      have hreads : ∀ after pos, Retreats after → WalksTo hex (before ++ pos) after exact →
          ¬ ReadsPush hex before.length (before ++ pos).length := by
        rintro after pos ⟨length, hpush4, hlarge, hback⟩ hwalk' hreads
        have hnext := (hpush4.size hlarge (before ++ pos)).2
        rw [← hwalk'.eq] at hnext
        have hon := hscan.readsOn _ _ _ ih hreads hnext
        omega
      obtain ⟨envelope, after, henvelope, hrest, -⟩ := hwalk.found hhex hreads hfound
      exact absurd ⟨envelope, after, henvelope, hrest⟩ hno
  | @wrapped before front rest exact hwalk hwraps ih =>
    have heq := hwalk.eq
    obtain ⟨length, hpush4, hlast, hfront⟩ := hwraps
    have hsize := (hpush4.size (by omega) before).1
    have hnone := hpush4.foundAt_eq_none before
    rw [← heq] at hsize hnone
    have hten := (hpush4.reads before).2.1
    exact hstep heq ih (by omega) hnone (hsize.trans (congrArg some (by rw [hfront]; omega)))

/-- The search for an envelope ends, goes forward all the way and reports whole envelopes of
the script, exactly if the walk comes to no push that moves it back, and over whole opcodes and
pushes to the envelope it comes to. -/
theorem scansEnvelope_iff (hhex : HexDigits hex) : ScansEnvelope hex ↔ Forward hex := by
  constructor
  · intro hscan before rest exact hwalk
    have hvisits := hscan.visits hhex hwalk
    have heq := hwalk.eq
    constructor
    · rintro ⟨length, hpush4, hlarge, hback⟩
      have hnone := hpush4.foundAt_eq_none before
      have hsize := (hpush4.size hlarge before).1
      have hten := (hpush4.reads before).2.1
      rw [← heq] at hnone hsize
      obtain ⟨size, hsize', hpos⟩ := hscan.advances _ hvisits
        (by rw [heq, List.length_append]; omega) hnone
      obtain rfl := Option.some.inj (hsize.symm.trans hsize')
      omega
    · intro hstarts
      obtain ⟨stop, hfound⟩ := hstarts.found before
      rw [← heq] at hfound
      have htwo : (before.length : Int) + 2 ≤ hex.length := by
        by_contra hless
        rw [foundAt_near_end (by omega)] at hfound
        exact nomatch hfound
      have hfinds : FindsEnvelope hex (some ⟨before.length, stop⟩) := by
        rw [foundAt] at hfound
        have hround : findInscriptionEnvelope hex 1 (some before.length) =
            some (some ⟨before.length, stop⟩) := by
          rw [findInscriptionEnvelope, if_pos htwo, hfound]
        exact hvisits.finds hround
      obtain ⟨es, envelope, after, hes, -, hsplit, hstart, -⟩ := hscan.aligned _ hfinds
      dsimp only at hstart
      have hlen : before.length = es.flatten.length := Int.ofNat.inj hstart
      exact (hwalk.exact_of_whole hes hsplit hlen.le).1
  · intro hforward
    refine ⟨?_, fun offset hvisits hend hnone => ?_, fun offset pos next hvisits => ?_, ?_⟩
    · obtain ⟨fuel, result, hfind⟩ :=
        CursorAt.terminates (.inl ⟨[], hex, true, .start, rfl⟩) hhex hforward
      exact ⟨result, fuel, hfind⟩
    · obtain ⟨size, hsize, hpos, -⟩ :=
        (hvisits.cursorAt hhex hforward).next hhex hforward hend hnone
      exact ⟨size, hsize, hpos⟩
    · exact (hvisits.cursorAt hhex hforward).readsOn hhex hforward
    · rintro ⟨start, stop⟩ ⟨fuel, hfind⟩
      obtain ⟨hvisits, hfound⟩ := Visits.start.of_finds hfind
      dsimp only at hvisits hfound ⊢
      rcases hvisits.cursorAt hhex hforward with ⟨before, rest, exact, hwalk, rfl⟩ | ⟨-, hnear⟩
      · obtain ⟨envelope, after, henvelope, rfl, rfl⟩ := hwalk.starts hhex hforward hfound
        have hexact := (hforward _ _ _ hwalk).2 ⟨envelope, after, henvelope, rfl⟩
        obtain ⟨es, hes, rfl⟩ := hwalk.whole_of_exact hexact
        exact ⟨es, envelope, after, hes, henvelope, hwalk.eq, rfl, by rw [List.length_append]⟩
      · rw [foundAt_near_end hnear] at hfound
        exact nomatch hfound

theorem hexDigits_of_all {text : HexText} (h : text.all (fun c => (hexDigit? c).isSome) = true) :
    HexDigits text :=
  List.all_eq_true.mp h

theorem scansEnvelope_text : ScansEnvelope "0063".toList ↔ Forward "0063".toList :=
  scansEnvelope_iff (hexDigits_of_all (by decide))

end Forward

/-- After a length of minus five the cursor is where it was. -/
theorem not_scansEnvelope : ¬ ∀ hex : HexText, HexDigits hex → ScansEnvelope hex := by
  intro h
  obtain ⟨result, fuel, hfind⟩ := (h "4efbffffff".toList (hexDigits_of_all (by decide))).terminates
  have hsize : opcodeSize "4efbffffff".toList 0 = some 0 := by decide
  have hread : byteAt "4efbffffff".toList 0 0 ≠ some 0x00 := by decide
  have hforever (fuel : Nat) :
      findInscriptionEnvelope "4efbffffff".toList fuel (some 0) = none := by
    induction fuel with
    | zero => rfl
    | succ fuel ih =>
      rw [findInscriptionEnvelope, if_pos (by decide), if_neg hread, hsize]
      exact ih
  cases (hforever fuel).symm.trans hfind

end Runar.Sdk
