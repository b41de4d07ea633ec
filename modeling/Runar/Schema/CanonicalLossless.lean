/-
  Schema/CanonicalLossless.lean --- canonical JSON loses digits.

  WHAT THIS FILE IS FOR.  A tree that was written is in canonical form: its strings and its nesting
  are within the limits, its members in order.  So what is read from its text passes every guard
  again, and only the tokens of its numbers can change.  A program comes back as it was exactly
  where every integer has the digits that its double is written with.
-/
import Runar.Schema.CanonicalRoundTrip

set_option autoImplicit false

namespace Runar.Schema.Canonical

open Logic Logic.Json

/-! ## Trees that are written -/

mutual

/-- The strings are taken, the nesting is allowed and the members are in order. -/
def CanonicalTree (depth : Nat) : Json Units → Prop
  | .string s => fitsString s = true
  | .array es => ¬ MAX_NESTING ≤ depth ∧ CanonicalElements (depth + 1) es
  | .object ms =>
      ¬ MAX_NESTING ≤ depth ∧ (ms.Pairwise fun a b => keyLe a.1 b.1 = true) ∧
        CanonicalMembers (depth + 1) ms
  | .null | .boolean _ | .number _ => True

def CanonicalElements (depth : Nat) : List (Json Units) → Prop
  | [] => True
  | e :: es => CanonicalTree depth e ∧ CanonicalElements depth es

def CanonicalMembers (depth : Nat) : List (Units × Json Units) → Prop
  | [] => True
  | (k, v) :: ms => (fitsString k = true ∧ CanonicalTree depth v) ∧ CanonicalMembers depth ms

end

theorem canonicalMembers_iff (depth : Nat) (ms : List (Units × Json Units)) :
    CanonicalMembers depth ms ↔ ∀ m ∈ ms, fitsString m.1 = true ∧ CanonicalTree depth m.2 := by
  induction ms with
  | nil => exact ⟨fun _ _ h => absurd h List.not_mem_nil, fun _ => trivial⟩
  | cons m ms ih => rw [CanonicalMembers, ih, List.forall_mem_cons]

theorem keyLe_total (a b : Units) : (keyLe a b || keyLe b a) = true := by
  rw [Bool.or_eq_true, keyLe, keyLe, decide_eq_true_eq, decide_eq_true_eq]
  exact le_total _ _

theorem keyLe_trans {a b c : Units} (hab : keyLe a b = true) (hbc : keyLe b c = true) :
    keyLe a c = true := by
  rw [keyLe, decide_eq_true_eq] at *
  exact le_trans hab hbc

theorem pairwise_mergeSort_keys (ts : List (Units × Json Units)) :
    (ts.mergeSort fun a b => keyLe a.1 b.1).Pairwise fun a b => keyLe a.1 b.1 = true := by
  have htrans : ∀ a b c : Units × Json Units, keyLe a.1 b.1 = true → keyLe b.1 c.1 = true →
      keyLe a.1 c.1 = true := fun _ _ _ => keyLe_trans
  exact List.pairwise_mergeSort htrans (fun a b => keyLe_total a.1 b.1) ts

mutual

/-- What is written is canonical. -/
theorem canonical_treeOf {depth : Nat} : ∀ {v : JsValue} {j : Json Units},
    treeOf depth v = some j → CanonicalTree depth j
  | .null, _, h => Option.some.inj h ▸ trivial
  | .boolean _, _, h => Option.some.inj h ▸ trivial
  | .numeric n, _, h => by
      obtain ⟨t, -, rfl⟩ := Option.map_eq_some_iff.mp h
      exact trivial
  | .string s, _, h => by
      rw [treeOf] at h
      split at h
      · next hfits => exact Option.some.inj h ▸ hfits
      · exact nomatch h
  | .array es, _, h => by
      rw [treeOf] at h
      split at h
      · exact nomatch h
      · next hdepth =>
        obtain ⟨ts, hts, rfl⟩ := Option.map_eq_some_iff.mp h
        exact ⟨hdepth, canonical_treeElements hts⟩
  | .object ms, _, h => by
      rw [treeOf] at h
      split at h
      · exact nomatch h
      · next hdepth =>
        obtain ⟨ts, hts, rfl⟩ := Option.map_eq_some_iff.mp h
        refine ⟨hdepth, pairwise_mergeSort_keys ts, (canonicalMembers_iff _ _).mpr fun m hm => ?_⟩
        exact (canonicalMembers_iff _ _).mp (canonical_treeMembers hts) m
          ((List.mergeSort_perm ts _).subset hm)

theorem canonical_treeElements {depth : Nat} : ∀ {es : List JsValue} {ts : List (Json Units)},
    treeElements depth es = some ts → CanonicalElements depth ts
  | [], _, h => Option.some.inj h ▸ trivial
  | e :: es, _, h => by
      rw [treeElements, Option.bind_eq_some_iff] at h
      obtain ⟨t, ht, h⟩ := h
      obtain ⟨ts, hts, rfl⟩ := Option.map_eq_some_iff.mp h
      refine ⟨?_, canonical_treeElements hts⟩
      split at ht
      · exact Option.some.inj ht ▸ trivial
      · exact canonical_treeOf ht

theorem canonical_treeMembers {depth : Nat} : ∀ {ms : List (Units × JsValue)}
    {ts : List (Units × Json Units)}, treeMembers depth ms = some ts → CanonicalMembers depth ts
  | [], _, h => Option.some.inj h ▸ trivial
  | (k, v) :: ms, _, h => by
      rw [treeMembers] at h
      split at h
      · exact canonical_treeMembers h
      · split at h
        · next hfits =>
          rw [Option.bind_eq_some_iff] at h
          obtain ⟨t, ht, h⟩ := h
          obtain ⟨ts, hts, rfl⟩ := Option.map_eq_some_iff.mp h
          exact ⟨⟨hfits, canonical_treeOf ht⟩, canonical_treeMembers hts⟩
        · exact nomatch h

end

/-! ## Writing what was read -/

theorem keys_mapMembers {f : Units → Option Units} :
    ∀ {ms ts : List (Units × Json Units)}, mapMembers f ms = some ts →
      ts.map Prod.fst = ms.map Prod.fst
  | [], _, h => Option.some.inj h ▸ rfl
  | (k, v) :: ms, _, h => by
      rw [mapMembers, Option.bind_eq_some_iff] at h
      obtain ⟨v', -, h⟩ := h
      obtain ⟨ts, hts, rfl⟩ := Option.map_eq_some_iff.mp h
      rw [List.map_cons, List.map_cons, keys_mapMembers hts]

/-- Members stay in order when only their values change. -/
theorem mergeSort_mapMembers {f : Units → Option Units} {ms ts : List (Units × Json Units)}
    (h : mapMembers f ms = some ts) (hsorted : ms.Pairwise fun a b => keyLe a.1 b.1 = true) :
    (ts.mergeSort fun a b => keyLe a.1 b.1) = ts := by
  refine List.mergeSort_of_pairwise ?_
  have hkeys : (ms.map Prod.fst).Pairwise fun a b => keyLe a b = true :=
    List.pairwise_map.mpr hsorted
  rw [← keys_mapMembers h] at hkeys
  exact List.pairwise_map.mp hkeys

/-- Nothing that is read is undefined. -/
theorem fromTokens_defined {j : Json Units} {v : JsValue} (h : fromTokens j = some v) :
    v.isUndefined = false := by
  cases j with
  | null | boolean _ | string _ => exact Option.some.inj h ▸ rfl
  | number _ | array _ | object _ =>
    obtain ⟨_, -, rfl⟩ := Option.map_eq_some_iff.mp h
    rfl

mutual

/-- Reading a canonical tree and writing it again changes its tokens only. -/
theorem treeOf_fromTokens {depth : Nat} : ∀ {j : Json Units}, CanonicalTree depth j →
    (fromTokens j).bind (treeOf depth) = mapNumbers restring j
  | .null, _ => rfl
  | .boolean _, _ => rfl
  | .number t, _ => by
      rw [fromTokens, mapNumbers, restring]
      cases readNumber (chars t) <;> rfl
  | .string s, h => if_pos h
  | .array es, ⟨hdepth, hes⟩ => by
      rw [fromTokens, mapNumbers, ← treeElements_fromElements hes]
      cases fromElements es with
      | none => rfl
      | some es' =>
        rw [Option.map_some, Option.bind_some, Option.bind_some, treeOf, if_neg hdepth]
  | .object ms, ⟨hdepth, hsorted, hms⟩ => by
      have hmembers := treeMembers_fromMembers hms
      rw [fromTokens, mapNumbers]
      cases hread : fromMembers ms with
      | none =>
        rw [hread] at hmembers
        rw [← hmembers]
        rfl
      | some ms' =>
        rw [hread, Option.bind_some] at hmembers
        rw [Option.map_some, Option.bind_some, treeOf, if_neg hdepth, hmembers]
        cases hmap : mapMembers restring ms with
        | none => rfl
        | some ts => rw [Option.map_some, Option.map_some, mergeSort_mapMembers hmap hsorted]

theorem treeElements_fromElements {depth : Nat} : ∀ {es : List (Json Units)},
    CanonicalElements depth es →
    (fromElements es).bind (treeElements depth) = mapElements restring es
  | [], _ => rfl
  | e :: es, h => by
      rw [fromElements, mapElements, ← treeOf_fromTokens h.1, ← treeElements_fromElements h.2]
      cases he : fromTokens e with
      | none => rfl
      | some e' =>
        cases fromElements es with
        | none =>
          rw [Option.bind_some, Option.bind_some]
          cases treeOf depth e' <;> rfl
        | some es' =>
          rw [Option.bind_some, Option.map_some, Option.bind_some, Option.bind_some, treeElements,
            fromTokens_defined he, if_neg Bool.false_ne_true, Option.bind_some]

theorem treeMembers_fromMembers {depth : Nat} : ∀ {ms : List (Units × Json Units)},
    CanonicalMembers depth ms →
    (fromMembers ms).bind (treeMembers depth) = mapMembers restring ms
  | [], _ => rfl
  | (k, v) :: ms, h => by
      rw [fromMembers, mapMembers, ← treeOf_fromTokens h.1.2, ← treeMembers_fromMembers h.2]
      cases hv : fromTokens v with
      | none => rfl
      | some v' =>
        cases fromMembers ms with
        | none =>
          rw [Option.bind_some, Option.bind_some]
          cases treeOf depth v' <;> rfl
        | some ms' =>
          rw [Option.bind_some, Option.map_some, Option.bind_some, Option.bind_some, treeMembers,
            fromTokens_defined hv, if_neg Bool.false_ne_true, if_pos h.1.1, Option.bind_some]

end

mutual

/-- Tokens that were written again are tokens. -/
theorem isToken_mapNumbers : ∀ {j j' : Json Units}, mapNumbers restring j = some j' →
    ∀ t ∈ numbers j', IsToken t
  | .null, _, h => Option.some.inj h ▸ fun _ ht => absurd ht List.not_mem_nil
  | .boolean _, _, h => Option.some.inj h ▸ fun _ ht => absurd ht List.not_mem_nil
  | .string _, _, h => Option.some.inj h ▸ fun _ ht => absurd ht List.not_mem_nil
  | .number t, _, h => by
      obtain ⟨t', ht', rfl⟩ := Option.map_eq_some_iff.mp h
      obtain ⟨d, -, hd⟩ := Option.bind_eq_some_iff.mp ht'
      exact List.forall_mem_singleton.mpr (isToken_serialiseNumber hd)
  | .array es, _, h => by
      obtain ⟨ts, hts, rfl⟩ := Option.map_eq_some_iff.mp h
      exact isToken_mapElements hts
  | .object ms, _, h => by
      obtain ⟨ts, hts, rfl⟩ := Option.map_eq_some_iff.mp h
      exact isToken_mapMembers hts

theorem isToken_mapElements : ∀ {es ts : List (Json Units)}, mapElements restring es = some ts →
    ∀ t ∈ numbersElements ts, IsToken t
  | [], _, h => Option.some.inj h ▸ fun _ ht => absurd ht List.not_mem_nil
  | e :: es, _, h => by
      rw [mapElements, Option.bind_eq_some_iff] at h
      obtain ⟨t, ht, h⟩ := h
      obtain ⟨ts, hts, rfl⟩ := Option.map_eq_some_iff.mp h
      rw [numbersElements, List.forall_mem_append]
      exact ⟨isToken_mapNumbers ht, isToken_mapElements hts⟩

theorem isToken_mapMembers : ∀ {ms ts : List (Units × Json Units)},
    mapMembers restring ms = some ts → ∀ t ∈ numbersMembers ts, IsToken t
  | [], _, h => Option.some.inj h ▸ fun _ ht => absurd ht List.not_mem_nil
  | (k, v) :: ms, _, h => by
      rw [mapMembers, Option.bind_eq_some_iff] at h
      obtain ⟨t, ht, h⟩ := h
      obtain ⟨ts, hts, rfl⟩ := Option.map_eq_some_iff.mp h
      rw [numbersMembers, List.forall_mem_append]
      exact ⟨isToken_mapNumbers ht, isToken_mapMembers hts⟩

end

/-- A token that was written again comes back. -/
theorem restring_restring {t t' : Units} (h : restring t = some t') :
    restring t' = some t' := by
  obtain ⟨d, -, hd⟩ := Option.bind_eq_some_iff.mp h
  cases d with
  | negZero =>
    obtain rfl := Option.some.inj hd
    exact (restring_token_iff 0).mpr (isShortest_of_lt (by decide))
  | integer n hn =>
    obtain rfl := Option.some.inj hd
    rw [restring, chars_units (isNumberText_stringify hn), readNumber_stringify hn]
    rfl
  | nonFinite => exact nomatch hd

theorem exists_of_mapM {f : Units → Option Units} :
    ∀ {xs ys : List Units}, xs.mapM f = some ys → ∀ {y}, y ∈ ys → ∃ x ∈ xs, f x = some y
  | [], _, h, _, hy => absurd (Option.some.inj h ▸ hy) List.not_mem_nil
  | x :: xs, _, h, y, hy => by
      rw [List.mapM_cons] at h
      obtain ⟨y', hx, h⟩ := Option.bind_eq_some_iff.mp h
      obtain ⟨ys, hxs, h⟩ := Option.bind_eq_some_iff.mp h
      obtain rfl := Option.some.inj h
      rcases List.mem_cons.mp hy with rfl | hy
      · exact ⟨x, List.mem_cons_self, hx⟩
      · obtain ⟨x', hx', hfx⟩ := exists_of_mapM hxs hy
        exact ⟨x', List.mem_cons_of_mem _ hx', hfx⟩

/-! ## The text of a program -/

section Texts

variable {v : JsValue} {t : Units}

theorem isToken_written {p : Json Int} : ∀ t ∈ numbers (written p), IsToken t := by
  intro t ht
  rw [numbers_written] at ht
  obtain ⟨n, -, rfl⟩ := List.mem_map.mp ht
  exact isToken_units (isNumberText_intText n)

/-- The text of a program is that of its tree, and is within the limit. -/
theorem canonicalJsonStringify_eq (hsafe : SafeNumbers v)
    (h : canonicalJsonStringify v = some t) :
    treeOf 0 v = some (written (program v)) ∧ t = render (written (program v)) ∧
      byteLength t ≤ MAX_IR_BYTES := by
  obtain ⟨text, htext, hguard⟩ := Option.bind_eq_some_iff.mp h
  rw [serialise_eq] at htext
  obtain ⟨j, hj, rfl⟩ := Option.map_eq_some_iff.mp htext
  obtain rfl := treeOf_eq hsafe hj
  split at hguard
  · next hbytes =>
    obtain rfl := Option.some.inj hguard
    exact ⟨hj, rfl, hbytes⟩
  · exact nomatch hguard

/-- A text has one program. -/
theorem program_unique (hsafe : SafeNumbers v) (h : canonicalJsonStringify v = some t)
    {v' : JsValue} (hsafe' : SafeNumbers v') (h' : canonicalJsonStringify v' = some t) :
    program v' = program v := by
  obtain ⟨-, htext, -⟩ := canonicalJsonStringify_eq hsafe h
  obtain ⟨-, htext', -⟩ := canonicalJsonStringify_eq hsafe' h'
  exact written_injective (render_injective isToken_written isToken_written
    (htext'.symm.trans htext))

/-- Reading the text of a tree and writing it again is writing its tokens again. -/
theorem canonicalise_render {j : Json Units} (htree : treeOf 0 v = some j)
    (htokens : ∀ t ∈ numbers j, IsToken t) :
    canonicalise (render j) = ((mapNumbers restring j).map render).bind fun text =>
      if byteLength text ≤ MAX_IR_BYTES then some text else none := by
  rw [canonicalise, parse, read_render htokens, Option.bind_some,
    ← treeOf_fromTokens (canonical_treeOf htree)]
  cases fromTokens j with
  | none => rfl
  | some v' => rw [Option.bind_some, Option.bind_some, canonicalJsonStringify, serialise_eq]

/-- What was written again is the text of a tree with other tokens. -/
theorem canonicalise_some {j : Json Units} (htree : treeOf 0 v = some j)
    (htokens : ∀ t ∈ numbers j, IsToken t) (h : canonicalise (render j) = some t) :
    ∃ j', mapNumbers restring j = some j' ∧ render j' = t ∧ byteLength t ≤ MAX_IR_BYTES := by
  rw [canonicalise_render htree htokens] at h
  obtain ⟨text, hmap, hguard⟩ := Option.bind_eq_some_iff.mp h
  obtain ⟨j', hj', rfl⟩ := Option.map_eq_some_iff.mp hmap
  split at hguard
  · next hbytes =>
    obtain rfl := Option.some.inj hguard
    exact ⟨j', hj', rfl, hbytes⟩
  · exact nomatch hguard

/-- A text comes back exactly where every integer has the digits of its double. -/
theorem canonicalise_eq_iff (hsafe : SafeNumbers v) (h : canonicalJsonStringify v = some t) :
    canonicalise t = some t ↔ ∀ n ∈ numbers (program v), IsShortest n.natAbs := by
  have hbytes := (canonicalJsonStringify_eq hsafe h).2.2
  have htext := (canonicalJsonStringify_eq hsafe h).2.1
  have hsame : mapNumbers restring (written (program v)) = some (written (program v)) ↔
      ∀ n ∈ numbers (program v), IsShortest n.natAbs := by
    rw [mapNumbers_eq_self_iff, numbers_written, List.forall_mem_map]
    exact forall₂_congr fun n _ => restring_token_iff n
  have htree := (canonicalJsonStringify_eq hsafe h).1
  rw [← hsame]
  constructor
  · intro hback
    rw [htext] at hback
    obtain ⟨j, hj, hrender, -⟩ := canonicalise_some htree isToken_written hback
    rw [hj, render_injective (isToken_mapNumbers hj) isToken_written hrender]
  · intro hmap
    rw [htext, canonicalise_render htree isToken_written, hmap, Option.map_some, ← htext,
      Option.bind_some, if_pos hbytes]

/-- What is written again for a text comes back as it is. -/
theorem canonicalise_canonicalise (hsafe : SafeNumbers v) (h : canonicalJsonStringify v = some t)
    {t' : Units} (h' : canonicalise t = some t') : canonicalise t' = some t' := by
  obtain ⟨htree, rfl, -⟩ := canonicalJsonStringify_eq hsafe h
  obtain ⟨j, hj, rfl, hbytes⟩ := canonicalise_some htree isToken_written h'
  have hread := treeOf_fromTokens (canonical_treeOf htree)
  rw [hj, Option.bind_eq_some_iff] at hread
  obtain ⟨v', -, htree'⟩ := hread
  have hsame : mapNumbers restring j = some j := by
    rw [mapNumbers_eq_self_iff]
    intro n hn
    obtain ⟨m, -, hm⟩ := exists_of_mapM (numbers_mapNumbers _ hj) hn
    exact restring_restring hm
  rw [canonicalise_render htree' (isToken_mapNumbers hj), hsame, Option.map_some, Option.bind_some,
    if_pos hbytes]

end Texts

/-- Canonical JSON is lossless for a program exactly where every integer has the digits that its
double is written with: its text then comes back as it was.  No other program has its text in any
case. -/
theorem canonicalJson_lossless_iff (v : JsValue) (hsafe : SafeNumbers v) (t : Units)
    (h : canonicalJsonStringify v = some t) :
    (canonicalise t = some t ∧ ∀ v', SafeNumbers v' → canonicalJsonStringify v' = some t →
      program v' = program v) ↔ ∀ n ∈ numbers (program v), IsShortest n.natAbs := by
  rw [← canonicalise_eq_iff hsafe h]
  exact ⟨fun hboth => hboth.1, fun hback =>
    ⟨hback, fun v' hsafe' h' => program_unique hsafe h hsafe' h'⟩⟩

/-- An array with an integer of 53 bits. -/
theorem smallInteger_lossless :
    ((canonicalise (word "[9007199254740991]") = some (word "[9007199254740991]") ∧
      ∀ v', SafeNumbers v' → canonicalJsonStringify v' = some (word "[9007199254740991]") →
        program v' = .array [.number 9007199254740991]) ↔
      ∀ n ∈ [(9007199254740991 : Int)], IsShortest n.natAbs) := by
  exact canonicalJson_lossless_iff (.array [.numeric (.bigint 9007199254740991)])
    ⟨trivial, trivial⟩ (word "[9007199254740991]") (by decide +kernel)

/-- An array with an integer beyond `2 ^ 53`. -/
def largeInteger : JsValue := .array [.numeric (.bigint 9007199254740993)]

/-- The integer comes back as another. -/
theorem largeInteger_not_lossless :
    ¬ ∀ (v : JsValue) (t : Units), SafeNumbers v → canonicalJsonStringify v = some t →
      canonicalise t = some t ∧ ∀ v', SafeNumbers v' → canonicalJsonStringify v' = some t →
        program v' = program v := by
  intro hclaim
  have hsafe : SafeNumbers largeInteger := ⟨trivial, trivial⟩
  have h : canonicalJsonStringify largeInteger = some (word "[9007199254740993]") := by
    decide +kernel
  have hback := (canonicalise_eq_iff hsafe h).mp (hclaim _ _ hsafe h).1
  have hshortest : IsShortest 9007199254740993 := hback _ List.mem_cons_self
  exact absurd hshortest (by decide +kernel)

end Runar.Schema.Canonical
