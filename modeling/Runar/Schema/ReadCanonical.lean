/-
  Schema/ReadCanonical.lean --- canonical texts are read back.

  WHAT THIS FILE IS FOR.  The canonical text of an object is a text `JSON.parse` takes: its numbers
  are written as the grammar has them, and the members that are defined are all there, under the
  keys they had and with the doubles they had.

  LEFT OUT: the values of numbers that are written with a fraction.
-/
import Runar.Schema.CanonicalLossless

set_option autoImplicit false

namespace Runar.Schema.Canonical

open Logic Logic.Json

/-! ## Numbers -/

/-- The value of a double that is finite. -/
def finiteValue : Double → Option Int
  | .negZero => some 0
  | .integer n _ => some n
  | .nonFinite => none

/-- The end of a number: an exponent, or nothing. -/
def isExponent : List Char → Bool
  | [] => true
  | c :: t =>
      let digits := if t.head? = some '+' ∨ t.head? = some '-' then t.tail else t
      decide ((c = 'e' ∨ c = 'E') ∧ digits ≠ []) && digits.all Char.isDigit

/-- A number without a sign. -/
def isMagnitude (t : List Char) : Bool :=
  let whole := t.takeWhile Char.isDigit
  if whole = [] ∨ whole.head? = some '0' ∧ whole.length ≠ 1 then false
  else (readFraction (t.dropWhile Char.isDigit)).any fun (_, rest) => isExponent rest

/-- What the grammar of JSON has for a number. -/
def isJsonNumber (t : List Char) : Bool :=
  if t.head? = some '-' then isMagnitude t.tail else isMagnitude t

theorem isExponent_of_readExponent {t : List Char} {e : Nat} (h : readExponent t = some e) :
    isExponent t = true := by
  cases t with
  | nil => rfl
  | cons c t =>
    rw [readExponent] at h
    obtain ⟨⟨hletter, hne, hall⟩, -⟩ := Option.ite_none_right_eq_some.mp h
    have hdigits : (if t.head? = some '+' ∨ t.head? = some '-' then t.tail else t) =
        if t.head? = some '+' then t.tail else t := by
      by_cases hplus : t.head? = some '+'
      · rw [if_pos hplus, if_pos (.inl hplus)]
      · rw [if_neg hplus] at hall ⊢
        refine if_neg fun hsign => ?_
        -- a sign is no digit
        have hmem := List.mem_of_mem_head? (Option.mem_def.mpr (hsign.resolve_left hplus))
        exact absurd (List.all_eq_true.mp hall '-' hmem) (by decide)
    rw [isExponent, hdigits, Bool.and_eq_true, decide_eq_true_eq]
    exact ⟨⟨hletter, hne⟩, hall⟩

theorem isMagnitude_of_readMagnitude {t : List Char} {a : Nat} (h : readMagnitude t = some a) :
    isMagnitude t = true := by
  rw [readMagnitude] at h
  rw [isMagnitude]
  dsimp only at h ⊢
  split at h
  · exact absurd h (by simp)
  · next hwhole =>
    rw [if_neg hwhole]
    obtain ⟨fraction, hfraction, h⟩ := Option.bind_eq_some_iff.mp h
    obtain ⟨exponent, hexponent, -⟩ := Option.bind_eq_some_iff.mp h
    rw [hfraction]
    exact isExponent_of_readExponent hexponent

theorem isJsonNumber_of_readNumber {t : List Char} {d : Double} (h : readNumber t = some d) :
    isJsonNumber t = true := by
  cases t with
  | nil => cases h
  | cons c t =>
    rw [readNumber] at h
    rw [isJsonNumber, List.head?_cons, List.tail_cons]
    split at h
    · next hc =>
      obtain ⟨a, ha, -⟩ := Option.map_eq_some_iff.mp h
      rw [if_pos (congrArg some hc)]
      exact isMagnitude_of_readMagnitude ha
    · next hc =>
      obtain ⟨a, ha, -⟩ := Option.map_eq_some_iff.mp h
      rw [if_neg fun heq => hc (Option.some.inj heq)]
      exact isMagnitude_of_readMagnitude ha

/-- A double comes back from what is written for it. -/
theorem readNumber_serialiseNumber {d : Double} {t : Units} (h : serialiseNumber d = some t) :
    ∃ d', readNumber (chars t) = some d' ∧ finiteValue d' = finiteValue d := by
  cases d with
  | negZero =>
    obtain rfl := Option.some.inj h
    have hlt : roundNat 0 < 2 ^ 1024 := roundNat_lt (by decide)
    have hzero : nearestDouble 0 = .integer 0 ⟨rfl, hlt⟩ :=
      toDouble_of_lt false (by simp) rfl _ hlt
    have htext : chars (units (intText 0)) = intText 0 := chars_units (isNumberText_intText 0)
    refine ⟨nearestDouble 0, ?_, ?_⟩
    · exact (congrArg readNumber htext).trans (readNumber_intText 0)
    · rw [hzero]
      rfl
  | integer n hn =>
    obtain rfl := Option.some.inj h
    refine ⟨.integer n hn, ?_, rfl⟩
    rw [chars_units (isNumberText_stringify hn), readNumber_stringify hn]
  | nonFinite => cases h

/-- A token that is read, and that the grammar has. -/
def GoodToken (t : Units) : Prop := IsToken t ∧ isJsonNumber (chars t) = true

theorem goodToken_serialiseNumeric {n : JsNumber} {t : Units} (h : serialiseNumeric n = some t) :
    GoodToken t := by
  cases n with
  | bigint n =>
    obtain rfl := Option.some.inj h
    refine ⟨isToken_units (isNumberText_intText n), ?_⟩
    rw [chars_units (isNumberText_intText n)]
    exact isJsonNumber_of_readNumber (readNumber_intText n)
  | number d =>
    obtain ⟨_, hread, -⟩ := readNumber_serialiseNumber h
    exact ⟨isToken_serialiseNumber h, isJsonNumber_of_readNumber hread⟩

/-! ## Members -/

theorem mem_numbersMembers {t : Units} {ms : List (Units × Json Units)} :
    t ∈ numbersMembers ms ↔ ∃ m ∈ ms, t ∈ numbers m.2 := by
  induction ms with
  | nil =>
    exact ⟨fun h => absurd h List.not_mem_nil,
      fun h => absurd h.choose_spec.1 List.not_mem_nil⟩
  | cons m ms ih => rw [numbersMembers, List.mem_append, List.exists_mem_cons_iff, ih]

mutual

/-- The numbers of a tree that is written are good. -/
theorem goodToken_treeOf {depth : Nat} : ∀ {v : JsValue} {j : Json Units},
    treeOf depth v = some j → ∀ t ∈ numbers j, GoodToken t
  | .null, _, h => by
      obtain rfl := Option.some.inj h
      exact List.forall_mem_nil _
  | .boolean _, _, h => by
      obtain rfl := Option.some.inj h
      exact List.forall_mem_nil _
  | .numeric n, _, h => by
      obtain ⟨t, ht, rfl⟩ := Option.map_eq_some_iff.mp h
      exact List.forall_mem_singleton.mpr (goodToken_serialiseNumeric ht)
  | .string s, _, h => by
      rw [treeOf] at h
      split at h
      · obtain rfl := Option.some.inj h
        exact List.forall_mem_nil _
      · cases h
  | .array es, _, h => by
      rw [treeOf] at h
      split at h
      · cases h
      · obtain ⟨ts, hts, rfl⟩ := Option.map_eq_some_iff.mp h
        exact goodToken_treeElements hts
  | .object ms, _, h => by
      rw [treeOf] at h
      split at h
      · cases h
      · obtain ⟨ts, hts, rfl⟩ := Option.map_eq_some_iff.mp h
        intro t ht
        rw [numbers, mem_numbersMembers] at ht
        obtain ⟨m, hm, ht⟩ := ht
        exact goodToken_treeMembers hts t
          (mem_numbersMembers.mpr ⟨m, (List.mergeSort_perm ts _).subset hm, ht⟩)

theorem goodToken_treeElements {depth : Nat} : ∀ {es : List JsValue} {ts : List (Json Units)},
    treeElements depth es = some ts → ∀ t ∈ numbersElements ts, GoodToken t
  | [], _, h => by
      obtain rfl := Option.some.inj h
      exact List.forall_mem_nil _
  | e :: es, _, h => by
      rw [treeElements, Option.bind_eq_some_iff] at h
      obtain ⟨j, hj, h⟩ := h
      obtain ⟨ts, hts, rfl⟩ := Option.map_eq_some_iff.mp h
      refine List.forall_mem_append.mpr ⟨?_, goodToken_treeElements hts⟩
      split at hj
      · obtain rfl := Option.some.inj hj
        exact List.forall_mem_nil _
      · exact goodToken_treeOf hj

theorem goodToken_treeMembers {depth : Nat} : ∀ {ms : List (Units × JsValue)}
    {ts : List (Units × Json Units)}, treeMembers depth ms = some ts →
    ∀ t ∈ numbersMembers ts, GoodToken t
  | [], _, h => by
      obtain rfl := Option.some.inj h
      exact List.forall_mem_nil _
  | (k, v) :: ms, _, h => by
      rw [treeMembers] at h
      split at h
      · exact goodToken_treeMembers h
      · split at h
        · rw [Option.bind_eq_some_iff] at h
          obtain ⟨j, hj, h⟩ := h
          obtain ⟨ts, hts, rfl⟩ := Option.map_eq_some_iff.mp h
          exact List.forall_mem_append.mpr ⟨goodToken_treeOf hj, goodToken_treeMembers hts⟩
        · cases h

end

/-- What is written has no keys but those of the members. -/
theorem keys_treeMembers {depth : Nat} : ∀ {ms : List (Units × JsValue)}
    {ts : List (Units × Json Units)}, treeMembers depth ms = some ts →
    (ts.map Prod.fst).Sublist (ms.map Prod.fst)
  | [], _, h => by
      obtain rfl := Option.some.inj h
      exact .slnil
  | (k, v) :: ms, _, h => by
      rw [treeMembers] at h
      split at h
      · exact (keys_treeMembers h).cons k
      · split at h
        · rw [Option.bind_eq_some_iff] at h
          obtain ⟨j, -, h⟩ := h
          obtain ⟨ts, hts, rfl⟩ := Option.map_eq_some_iff.mp h
          exact (keys_treeMembers hts).cons_cons k
        · cases h

/-- A member that is defined is written. -/
theorem mem_treeMembers {depth : Nat} {k : Units} {v : JsValue} (hv : v.isUndefined = false)
    {ms : List (Units × JsValue)} {ts : List (Units × Json Units)}
    (h : treeMembers depth ms = some ts) (hm : (k, v) ∈ ms) :
    ∃ j, treeOf depth v = some j ∧ (k, j) ∈ ts := by
  induction ms generalizing ts with
  | nil => exact absurd hm List.not_mem_nil
  | cons m ms ih =>
    rw [treeMembers] at h
    split at h
    · next hundefined =>
      rcases List.mem_cons.mp hm with rfl | hm
      · exact absurd (hv.symm.trans hundefined) Bool.false_ne_true
      · exact ih h hm
    · split at h
      · rw [Option.bind_eq_some_iff] at h
        obtain ⟨j, hj, h⟩ := h
        obtain ⟨ts, hts, rfl⟩ := Option.map_eq_some_iff.mp h
        rcases List.mem_cons.mp hm with rfl | hm
        · exact ⟨j, hj, List.mem_cons_self⟩
        · obtain ⟨j', hj', hmem⟩ := ih hts hm
          exact ⟨j', hj', List.mem_cons_of_mem _ hmem⟩
      · cases h

/-! ## Objects -/

/-- `JSON.parse` of a text that has an object; the numbers stay tokens. -/
def parseObject (text : Units) : Option (List (Units × Json Units)) :=
  match Json.read text with
  | some (.object ms) =>
      if (numbersMembers ms).all fun t => isJsonNumber (chars t) then some ms else none
  | _ => none

/-- A canonical text of an object is read as its members, in the order of their keys. -/
theorem parseObject_canonical {ms : List (Units × JsValue)} {t : Units}
    (h : canonicalJsonStringify (.object ms) = some t) :
    byteLength t ≤ MAX_IR_BYTES ∧ ∃ ts, treeMembers 1 ms = some ts ∧
      parseObject t = some (ts.mergeSort fun a b => keyLe a.1 b.1) := by
  rw [canonicalJsonStringify, serialise_eq, Option.bind_eq_some_iff] at h
  obtain ⟨t', ht', h⟩ := h
  obtain ⟨j, hj, rfl⟩ := Option.map_eq_some_iff.mp ht'
  split at h
  · next hsize =>
    obtain rfl := Option.some.inj h
    have hgood := goodToken_treeOf hj
    have hread := read_render fun t ht => (hgood t ht).1
    rw [treeOf, if_neg (by decide)] at hj
    obtain ⟨ts, hts, rfl⟩ := Option.map_eq_some_iff.mp hj
    refine ⟨hsize, ts, hts, ?_⟩
    rw [parseObject, hread]
    exact if_pos (List.all_eq_true.mpr fun t ht => (hgood t ht).2)
  · cases h

end Runar.Schema.Canonical
