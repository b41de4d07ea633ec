/-
  Sdk/Separators.lean --- texts without a code separator.

  WHAT THIS FILE IS FOR.  The SDK finds the code separators of a script from the chain by
  walking its opcodes and skipping what pushes push.  This file has the texts that the walk
  goes over without finding one: an opcode, a push with its data, a number, an argument.
-/
import Runar.Artifact.Dispatch
import Runar.Sdk.EnvelopeSearch

set_option autoImplicit false

namespace Runar.Sdk

open Script Artifact Codec Logic

/-! ## Texts without separators -/

/-- An opcode other than OP_CODESEPARATOR, or a push with its data. -/
def Inert (text : HexText) : Prop := Whole text ∧ opcodeOf text ≠ some 0xab

/-- A text of such opcodes and pushes. -/
def InertText (text : HexText) : Prop :=
  ∃ elements : List HexText, (∀ e ∈ elements, Inert e) ∧ text = elements.flatten

theorem InertText.of_inert {text : HexText} (h : Inert text) : InertText text :=
  ⟨[text], List.forall_mem_singleton.mpr h, (List.append_nil text).symm⟩

theorem InertText.append {text text' : HexText} (h : InertText text) (h' : InertText text') :
    InertText (text ++ text') := by
  obtain ⟨elements, helements, rfl⟩ := h
  obtain ⟨elements', helements', rfl⟩ := h'
  exact ⟨elements ++ elements', List.forall_mem_append.mpr ⟨helements, helements'⟩,
    List.flatten_append.symm⟩

theorem inert_hexNumber {k : Nat} (hk : k = 0 ∨ 0x4e < k) (hlt : k < 256) (hne : k ≠ 0xab) :
    Inert (hexNumber k) := by
  have hbyte := isByte_hexNumber hlt
  have hopcode := opcodeOf_byte hbyte []
  rw [List.append_nil] at hopcode
  refine ⟨?_, by rw [hopcode]; exact fun h => hne (Option.some.inj h)⟩
  by_cases hret : k = 0x6a
  · exact .inr (hret ▸ hbyte)
  · exact .inl (.op hbyte hk hret)

theorem inert_push {len : Nat} {data : HexText} (hpos : 0 < len) (hlt : len < 2 ^ 31)
    (hdata : data.length = 2 * len) : Inert (pushHeader len ++ data) := by
  refine ⟨.inl (element_pushHeader hpos hlt hdata), fun hopcode => ?_⟩
  have hpush := pushedData_pushHeader hpos data
  rw [pushedData, hopcode, Option.bind_some, if_neg (by decide)] at hpush
  cases hpush

/-- A number that fits the memory is one opcode or one push. -/
theorem inert_encodeScriptNumber {n : Int} (h : (encodeNum n).length < 2 ^ 31) :
    Inert (encodeScriptNumber n) := by
  by_cases hopcode : HasOpcode n
  · rcases hopcode with rfl | hsmall | rfl
    · exact inert_hexNumber (k := 0) (.inl rfl) (by decide) (by decide)
    · rw [encodeScriptNumber_small hsmall]
      exact inert_hexNumber (.inr (by omega)) (by omega) (by omega)
    · exact inert_hexNumber (k := 0x4f) (.inr (by decide)) (by decide) (by decide)
  · obtain ⟨hpos, hencode⟩ := encodeScriptNumber_push hopcode
    rw [hencode]
    exact inert_push hpos h (length_toHex _)

/-- So is an argument of a scalar type. -/
theorem inert_encodeArg {type : PrimitiveType} {arg : JsValue}
    (h : WellTyped (.primitive type) arg) : Inert (encodeArg arg) := by
  have hcases : (∃ n, arg = .bigint n) ∨ (∃ b, arg = .boolean b) ∨
      ∃ text, arg = .string text ∧ text.length < 2 ^ 32 := by
    have htyped : HasType type arg := h.typed
    cases type <;> first
      | exact .inl htyped
      | exact .inr (.inl htyped)
      | (obtain ⟨text, rfl, htext⟩ := htyped; exact .inr (.inr ⟨text, rfl, htext.length⟩))
  rcases hcases with ⟨n, rfl⟩ | ⟨b, rfl⟩ | ⟨text, rfl, hlt⟩
  · exact inert_encodeScriptNumber (h.short n rfl)
  · cases b
    · exact inert_hexNumber (k := 0) (.inl rfl) (by decide) (by decide)
    · exact inert_hexNumber (k := 0x51) (.inr (by decide)) (by decide) (by decide)
  · obtain ⟨bytes, hhex⟩ := h.digits text rfl
    have hlen := hhex.length_eq
    by_cases hnil : text = []
    · subst hnil
      exact inert_hexNumber (k := 0) (.inl rfl) (by decide) (by decide)
    by_cases hmin : ∀ high low, text = [high, low] → (parseByte high low).bind minimalPush = none
    · have hpos := List.length_pos_of_ne_nil hnil
      show Inert (encodePushData text)
      rw [encodePushData_eq hnil hmin, encodePushDataState_eq (by omega)]
      exact inert_push (by omega) (by omega) (by omega)
    · push Not at hmin
      obtain ⟨high, low, rfl, hpush⟩ := hmin
      obtain ⟨push, hpush⟩ := Option.ne_none_iff_exists'.mp hpush
      have hencode : encodeArg (.string [high, low]) = push := by
        show encodePushData [high, low] = push
        rw [encodePushData, hpush]
        rfl
      rw [hencode]
      obtain ⟨n, -, hpush⟩ := Option.bind_eq_some_iff.mp hpush
      rw [minimalPush] at hpush
      split at hpush
      · obtain rfl := Option.some.inj hpush
        exact inert_hexNumber (.inr (by omega)) (by omega) (by omega)
      · split at hpush
        · obtain rfl := Option.some.inj hpush
          exact inert_hexNumber (k := 0x4f) (.inr (by decide)) (by decide) (by decide)
        · cases hpush

/-! ## The walk of the SDK -/

/-- A jump over a push goes on behind it. -/
theorem codesepOffsets_jump (sized : HexText) (size : Nat) {data : HexText} {len : Nat}
    (hsized : sized.length = 2 * size) (hdata : data.length = 2 * len) (pos : Nat)
    (rest : HexText) :
    codesepOffsets (pos + 1 + size + len) ((sized ++ (data ++ rest)).drop (2 * (size + len))) =
      codesepOffsets (pos + (2 + sized.length + data.length) / 2) rest := by
  have hskip : 2 * (size + len) = (sized ++ data).length := by
    rw [List.length_append]
    omega
  have hpos : pos + 1 + size + len = pos + (2 + sized.length + data.length) / 2 := by omega
  rw [← List.append_assoc, hskip, List.drop_left, hpos]

/-- The walk goes over one opcode or push. -/
theorem codesepOffsets_inert {text : HexText} (h : Inert text) (pos : Nat) (rest : HexText) :
    text.length % 2 = 0 ∧
      codesepOffsets pos (text ++ rest) = codesepOffsets (pos + text.length / 2) rest := by
  obtain ⟨hwhole, hne⟩ := h
  have hop {head : HexText} {n : Nat} (hhead : IsByte head n) (hn : n = 0 ∨ 0x4e < n)
      (hsep : n ≠ 0xab) : head.length % 2 = 0 ∧
        codesepOffsets pos (head ++ rest) = codesepOffsets (pos + head.length / 2) rest := by
    obtain ⟨high, low, a, b, rfl, hhigh, hlow, rfl⟩ := hhead
    refine ⟨Nat.mod_self 2, ?_⟩
    rw [List.cons_append, List.cons_append, List.nil_append, codesepOffsets, parseByte, hhigh, hlow,
      Option.getD_some]
    dsimp only
    rw [if_neg hsep, if_neg (by omega), if_neg (by omega), if_neg (by omega), if_neg (by omega)]
    simp
  rcases hwhole with hwhole | hret
  swap
  · exact hop hret (.inr (by decide)) (by decide)
  cases hwhole with
  | @op _ n hhead hcode _ =>
    refine hop hhead hcode fun hsep => hne ?_
    have hopcode := opcodeOf_byte hhead []
    rwa [List.append_nil, hsep] at hopcode
  | @push head data n hhead hcode hdata =>
    obtain ⟨high, low, a, b, rfl, hhigh, hlow, rfl⟩ := hhead
    refine ⟨by rw [List.length_append, hdata]; simp, ?_⟩
    rw [List.append_assoc, List.cons_append, List.cons_append, List.nil_append, codesepOffsets,
      parseByte, hhigh, hlow, Option.getD_some]
    dsimp only
    rw [if_neg (by omega), if_pos hcode]
    refine (codesepOffsets_jump [] 0 rfl hdata pos rest).trans ?_
    rw [List.length_append]
    rfl
  | @pushData1 head b0 data n0 hhead h0 hdata =>
    obtain ⟨high, low, a, b, rfl, hhigh, hlow, hsum⟩ := hhead
    obtain ⟨high0, low0, a0, c0, rfl, hhigh0, hlow0, rfl⟩ := h0
    refine ⟨by simp; omega, ?_⟩
    simp only [List.cons_append, List.nil_append]
    rw [codesepOffsets, parseByte, hhigh, hlow, Option.getD_some, ← hsum]
    dsimp only
    rw [if_neg (by decide), if_neg (by decide), if_pos rfl, if_neg (by simp)]
    simp only [Nat.mul_zero, List.drop_zero, parseByte, hhigh0, hlow0, Option.getD_some]
    refine (codesepOffsets_jump [high0, low0] 1 rfl hdata pos rest).trans ?_
    congr 2
    simp only [List.length_cons, List.length_nil]
    omega
  | @pushData2 head b0 b1 data n0 n1 hhead h0 h1 hdata =>
    obtain ⟨high, low, a, b, rfl, hhigh, hlow, hsum⟩ := hhead
    obtain ⟨high0, low0, a0, c0, rfl, hhigh0, hlow0, rfl⟩ := h0
    obtain ⟨high1, low1, a1, c1, rfl, hhigh1, hlow1, rfl⟩ := h1
    refine ⟨by simp; omega, ?_⟩
    simp only [List.cons_append, List.nil_append]
    rw [codesepOffsets, parseByte, hhigh, hlow, Option.getD_some, ← hsum]
    dsimp only
    rw [if_neg (by decide), if_neg (by decide), if_neg (by decide), if_pos rfl, if_neg (by simp)]
    simp only [Nat.mul_zero, Nat.mul_one, List.drop_zero, List.drop_succ_cons, parseByte, hhigh0,
      hlow0, hhigh1, hlow1, Option.getD_some]
    refine (codesepOffsets_jump [high0, low0, high1, low1] 2 rfl (by omega) pos rest).trans ?_
    congr 2
    simp only [List.length_cons, List.length_nil]
    omega
  | @pushData4 head b0 b1 b2 b3 data n0 n1 n2 n3 hhead h0 h1 h2 h3 hdata hlength =>
    obtain ⟨high, low, a, b, rfl, hhigh, hlow, hsum⟩ := hhead
    obtain ⟨high0, low0, a0, c0, rfl, hhigh0, hlow0, rfl⟩ := h0
    obtain ⟨high1, low1, a1, c1, rfl, hhigh1, hlow1, rfl⟩ := h1
    obtain ⟨high2, low2, a2, c2, rfl, hhigh2, hlow2, rfl⟩ := h2
    obtain ⟨high3, low3, a3, c3, rfl, hhigh3, hlow3, rfl⟩ := h3
    refine ⟨by simp; omega, ?_⟩
    simp only [List.cons_append, List.nil_append]
    rw [codesepOffsets, parseByte, hhigh, hlow, Option.getD_some, ← hsum]
    dsimp only
    rw [if_neg (by decide), if_neg (by decide), if_neg (by decide), if_neg (by decide), if_pos rfl]
    simp only [Nat.mul_zero, Nat.mul_one, show 2 * 2 = 4 from rfl, show 2 * 3 = 6 from rfl,
      List.drop_zero, List.drop_succ_cons, parseByte, hhigh0, hlow0, hhigh1, hlow1, hhigh2, hlow2,
      hhigh3, hlow3, Option.getD_some]
    rw [if_neg (by simp only [List.length_cons, List.length_append, hdata]; omega)]
    refine (codesepOffsets_jump [high0, low0, high1, low1, high2, low2, high3, low3] 4 rfl
      (by omega) pos rest).trans ?_
    congr 2
    simp only [List.length_cons, List.length_nil]
    omega

theorem codesepOffsets_byte {text : HexText} (h : IsByte text 0xab) (pos : Nat) (rest : HexText) :
    codesepOffsets pos (text ++ rest) = pos :: codesepOffsets (pos + 1) rest := by
  obtain ⟨high, low, a, b, rfl, hhigh, hlow, hsum⟩ := h
  rw [List.cons_append, List.cons_append, List.nil_append, codesepOffsets, parseByte, hhigh, hlow,
    Option.getD_some, if_pos hsum.symm]

theorem codesepOffsets_end (pos : Nat) : codesepOffsets pos [] = [] := by
  rw [codesepOffsets]
  rintro high low rest ⟨⟩

/-- An opcode or a push is a separator or has none. -/
theorem inert_or_separator {text : HexText} (h : Whole text) : Inert text ∨ IsByte text 0xab := by
  by_cases hsep : opcodeOf text = some 0xab
  swap
  · exact .inl ⟨h, hsep⟩
  refine .inr ?_
  have hbyte {head rest : HexText} {n : Nat} (hhead : IsByte head n)
      (hopcode : opcodeOf (head ++ rest) = some 0xab) : n = 0xab :=
    Option.some.inj ((opcodeOf_byte hhead rest).symm.trans hopcode)
  rcases h with h | hret
  swap
  · rw [← List.append_nil text] at hsep
    exact absurd (hbyte hret hsep) (by decide)
  cases h with
  | op hhead _ _ =>
    rw [← List.append_nil text] at hsep
    exact hbyte hhead hsep ▸ hhead
  | push hhead hcode _ => exact absurd (hbyte hhead hsep) (by omega)
  | pushData1 hhead _ _ => exact absurd (hbyte hhead hsep) (by decide)
  | pushData2 hhead _ _ _ => exact absurd (hbyte hhead hsep) (by decide)
  | pushData4 hhead _ _ _ _ _ _ => exact absurd (hbyte hhead hsep) (by decide)

/-- A separator stands at an offset of a text. -/
def StandsAt (text : HexText) (offset : Nat) : Prop :=
  ∃ before separator after, text = before ++ (separator ++ after) ∧
    before.length = 2 * offset ∧ IsByte separator 0xab

theorem StandsAt.append {text : HexText} {offset : Nat} (h : StandsAt text offset)
    (rest : HexText) : StandsAt (text ++ rest) offset := by
  obtain ⟨before, separator, after, rfl, hlen, hsep⟩ := h
  refine ⟨before, separator, after ++ rest, ?_, hlen, hsep⟩
  rw [List.append_assoc, List.append_assoc]

theorem StandsAt.behind {text : HexText} {offset : Nat} (h : StandsAt text offset)
    {first : HexText} (heven : first.length % 2 = 0) :
    StandsAt (first ++ text) (first.length / 2 + offset) := by
  obtain ⟨before, separator, after, rfl, hlen, hsep⟩ := h
  refine ⟨first ++ before, separator, after, (List.append_assoc _ _ _).symm, ?_, hsep⟩
  rw [List.length_append]
  omega

/-- The walk finds separators at these offsets of a text, where they stand, and goes on
behind it. -/
structure Walked (text : HexText) (offsets : List Nat) : Prop where
  even : text.length % 2 = 0
  sorted : offsets.Pairwise (· < ·)
  inside : ∀ o ∈ offsets, o < text.length / 2
  stands : ∀ o ∈ offsets, StandsAt text o
  walk : ∀ pos rest, codesepOffsets pos (text ++ rest) =
    offsets.map (pos + ·) ++ codesepOffsets (pos + text.length / 2) rest

theorem walked_nil : Walked [] [] :=
  ⟨rfl, .nil, fun _ h => (nomatch h), fun _ h => (nomatch h), fun _ _ => rfl⟩

theorem walked_inert {text : HexText} (h : Inert text) : Walked text [] where
  even := (codesepOffsets_inert h 0 []).1
  sorted := .nil
  inside _ h := nomatch h
  stands _ h := nomatch h
  walk pos rest := (codesepOffsets_inert h pos rest).2

theorem walked_separator {text : HexText} (h : IsByte text 0xab) : Walked text [0] := by
  have hlen := h.length
  refine ⟨by omega, List.pairwise_singleton _ _, fun o ho => ?_, fun o ho => ?_,
    fun pos rest => ?_⟩
  · rw [List.mem_singleton.mp ho]
    omega
  · rw [List.mem_singleton.mp ho]
    exact ⟨[], text, [], (List.append_nil text).symm, rfl, h⟩
  · rw [codesepOffsets_byte h, hlen]
    rfl

theorem Walked.append {text text' : HexText} {offsets offsets' : List Nat}
    (h : Walked text offsets) (h' : Walked text' offsets') :
    Walked (text ++ text') (offsets ++ offsets'.map (text.length / 2 + ·)) := by
  have heven := h.even
  have heven' := h'.even
  refine ⟨?_, List.pairwise_append.mpr ⟨h.sorted, ?_, ?_⟩, ?_, ?_, fun pos rest => ?_⟩
  · rw [List.length_append]
    omega
  · exact List.pairwise_map.mpr (h'.sorted.imp fun hlt => Nat.add_lt_add_left hlt _)
  · intro o ho o' ho'
    obtain ⟨o', -, rfl⟩ := List.mem_map.mp ho'
    have hlt := h.inside o ho
    omega
  · intro o ho
    rw [List.length_append]
    rcases List.mem_append.mp ho with ho | ho
    · have hlt := h.inside o ho
      omega
    · obtain ⟨o', ho', rfl⟩ := List.mem_map.mp ho
      have hlt := h'.inside o' ho'
      omega
  · intro o ho
    rcases List.mem_append.mp ho with ho | ho
    · exact (h.stands o ho).append text'
    · obtain ⟨o', ho', rfl⟩ := List.mem_map.mp ho
      exact (h'.stands o' ho').behind heven
  · have hhalf : text.length / 2 + text'.length / 2 = (text.length + text'.length) / 2 := by omega
    rw [List.append_assoc, h.walk, h'.walk, List.map_append, List.map_map, List.append_assoc,
      List.length_append, Nat.add_assoc, hhalf]
    congr 2
    exact List.map_congr_left fun o _ => Nat.add_assoc _ _ _

theorem Walked.find_eq {text : HexText} {offsets : List Nat} (h : Walked text offsets) :
    findCodesepOffsets text = offsets := by
  have hwalk := h.walk 0 []
  rw [List.append_nil, codesepOffsets_end, List.append_nil] at hwalk
  rw [findCodesepOffsets, hwalk]
  exact (List.map_congr_left fun o _ => Nat.zero_add o).trans (List.map_id _)

/-- A text of opcodes and pushes. -/
def WholeText (text : HexText) : Prop :=
  ∃ elements : List HexText, (∀ e ∈ elements, Whole e) ∧ text = elements.flatten

/-- The walk over such a text goes on behind it. -/
theorem WholeText.walked {text : HexText} (h : WholeText text) :
    Walked text (findCodesepOffsets text) := by
  have hwalked : ∃ offsets, Walked text offsets := by
    obtain ⟨elements, helements, rfl⟩ := h
    induction elements with
    | nil => exact ⟨[], walked_nil⟩
    | cons e elements ih =>
      obtain ⟨he, helements⟩ := List.forall_mem_cons.mp helements
      obtain ⟨offsets, hrest⟩ := ih helements
      rcases inert_or_separator he with he | he
      · exact ⟨_, (walked_inert he).append hrest⟩
      · exact ⟨_, (walked_separator he).append hrest⟩
  obtain ⟨offsets, hwalked⟩ := hwalked
  rwa [hwalked.find_eq]

theorem InertText.whole {text : HexText} (h : InertText text) : WholeText text := by
  obtain ⟨elements, helements, rfl⟩ := h
  exact ⟨elements, fun e he => (helements e he).1, rfl⟩

/-- The walk over a text without separators finds none. -/
theorem InertText.walked {text : HexText} (h : InertText text) : Walked text [] := by
  obtain ⟨elements, helements, rfl⟩ := h
  induction elements with
  | nil => exact walked_nil
  | cons e elements ih =>
    obtain ⟨he, helements⟩ := List.forall_mem_cons.mp helements
    exact (walked_inert he).append (ih helements)

end Runar.Sdk
