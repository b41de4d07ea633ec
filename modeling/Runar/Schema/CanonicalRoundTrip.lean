/-
  Schema/CanonicalRoundTrip.lean --- which canonical texts come back.

  WHAT THIS FILE IS FOR.  The text of a program is the text of its tree, members in order and
  integers as their digits; it has one tree, and the tree has one program.  Reading the text and
  writing it again changes the digits of an integer where they are not those of its double, and
  nothing else.
-/
import Runar.Schema.CanonicalJson

set_option autoImplicit false

namespace Runar.Schema.Canonical

open Logic Logic.Json

/-! ## Texts of numbers -/

/-- Characters that numbers are written with. -/
def IsNumberText (t : List Char) : Prop :=
  t ≠ [] ∧ ∀ c ∈ t, c.isDigit = true ∨ c = '-' ∨ c = '+' ∨ c = '.' ∨ c = 'e'

theorem numberChar_lt {c : Char} (h : c.isDigit = true ∨ c = '-' ∨ c = '+' ∨ c = '.' ∨ c = 'e') :
    c.toNat < 128 := by
  rcases h with h | rfl | rfl | rfl | rfl
  · rw [Char.isDigit, Bool.and_eq_true, decide_eq_true_eq, decide_eq_true_eq] at h
    have hle : c.toNat ≤ 57 := h.2
    omega
  all_goals decide

theorem chars_units {t : List Char} (h : IsNumberText t) : chars (units t) = t := by
  unfold chars units
  rw [List.map_map]
  refine (List.map_congr_left fun c hc => ?_).trans (List.map_id t)
  have hlt := numberChar_lt (h.2 c hc)
  have hunit : c.toNat.toUInt16.toNat = c.toNat := by
    rw [Nat.toUInt16, UInt16.toNat_ofNat']
    exact Nat.mod_eq_of_lt (by omega)
  show Char.ofNat c.toNat.toUInt16.toNat = c
  rw [hunit, Char.ofNat_toNat]

theorem units_inj {t t' : List Char} (h : IsNumberText t) (h' : IsNumberText t')
    (heq : units t = units t') : t = t' := by
  rw [← chars_units h, heq, chars_units h']

theorem isToken_units {t : List Char} (h : IsNumberText t) : IsToken (units t) := by
  refine ⟨fun hnil => h.1 (List.map_eq_nil_iff.mp hnil), fun u hu => ?_⟩
  obtain ⟨c, hc, rfl⟩ := List.mem_map.mp hu
  rcases h.2 c hc with hdigit | rfl | rfl | rfl | rfl
  · have hlt := numberChar_lt (.inl hdigit)
    rw [Char.isDigit, Bool.and_eq_true, decide_eq_true_eq, decide_eq_true_eq] at hdigit
    have hlow : 48 ≤ c.toNat := hdigit.1
    have hhigh : c.toNat ≤ 57 := hdigit.2
    have hunit : c.toNat.toUInt16.toNat = c.toNat := by
      rw [Nat.toUInt16, UInt16.toNat_ofNat']
      exact Nat.mod_eq_of_lt (by omega)
    have hboth : (0x30 : UInt16) ≤ c.toNat.toUInt16 ∧ c.toNat.toUInt16 ≤ 0x39 := by
      rw [UInt16.le_iff_toNat_le, UInt16.le_iff_toNat_le, hunit]
      exact ⟨hlow, hhigh⟩
    rw [isNumeral, decide_eq_true hboth.1, decide_eq_true hboth.2]
    rfl
  all_goals decide

theorem isNumberText_digits (a : Nat) : IsNumberText (Nat.toDigits 10 a) :=
  ⟨Nat.toDigits_ne_nil, fun _ hc => .inl (isDigit_toDigits hc)⟩

theorem IsNumberText.neg {t : List Char} (h : IsNumberText t) : IsNumberText ('-' :: t) :=
  ⟨List.cons_ne_nil _ _, List.forall_mem_cons.mpr ⟨.inr (.inl rfl), h.2⟩⟩

theorem isNumberText_intText (n : Int) : IsNumberText (intText n) := by
  unfold intText
  split
  · exact (isNumberText_digits _).neg
  · exact isNumberText_digits _

theorem isNumberText_exponentText (a : Nat) : IsNumberText (exponentText a) := by
  have hfront : ∀ c ∈ (Nat.toDigits 10 a).rdropWhile (· == '0'), c.isDigit = true :=
    fun c hc => isDigit_toDigits ((List.rdropWhile_prefix (· == '0') _).subset hc)
  refine ⟨fun hnil => ?_, fun c hc => ?_⟩
  · exact List.cons_ne_nil _ _ (List.append_eq_nil_iff.mp hnil).2
  · rcases List.mem_append.mp hc with hc | hc
    · rcases List.mem_append.mp hc with hc | hc
      · exact .inl (hfront c (List.mem_of_mem_take hc))
      · split at hc
        · exact absurd hc List.not_mem_nil
        · rcases List.mem_cons.mp hc with rfl | hc
          · exact .inr (.inr (.inr (.inl rfl)))
          · exact .inl (hfront c (List.mem_of_mem_drop hc))
    · rcases List.mem_cons.mp hc with rfl | hc
      · exact .inr (.inr (.inr (.inr rfl)))
      rcases List.mem_cons.mp hc with rfl | hc
      · exact .inr (.inr (.inl rfl))
      · exact .inl (isDigit_toDigits hc)

theorem isNumberText_magnitudeText (a : Nat) : IsNumberText (magnitudeText a) := by
  unfold magnitudeText
  split
  · exact isNumberText_digits _
  · exact isNumberText_exponentText _

theorem isNumberText_stringify {n : Int} (h : IsDouble n.natAbs) :
    IsNumberText (Double.stringify (.integer n h)) := by
  rw [Double.stringify]
  split
  · exact (isNumberText_magnitudeText _).neg
  · exact isNumberText_magnitudeText _

/-- A number that is written is a token. -/
theorem isToken_serialiseNumber {d : Double} {t : Units} (h : serialiseNumber d = some t) :
    IsToken t := by
  cases d with
  | negZero =>
    obtain rfl := Option.some.inj h
    exact isToken_units (isNumberText_digits 0)
  | integer n hn =>
    obtain rfl := Option.some.inj h
    exact isToken_units (isNumberText_stringify hn)
  | nonFinite => exact nomatch h

/-- The token of an integer. -/
def token (n : Int) : Units := units (intText n)

theorem token_inj {m n : Int} (h : token m = token n) : m = n := by
  have htext := units_inj (isNumberText_intText m) (isNumberText_intText n) h
  have hhead {a : Nat} {t : List Char} (hneg : '-' :: t = Nat.toDigits 10 a) : False := by
    have hdigit : ('-' : Char).isDigit = true :=
      isDigit_toDigits (hneg ▸ List.mem_cons_self : '-' ∈ Nat.toDigits 10 a)
    exact absurd hdigit (by decide)
  unfold intText at htext
  split at htext <;> split at htext
  · have habs := toDigits_injective (List.cons.inj htext).2
    omega
  · exact (hhead htext).elim
  · exact (hhead htext.symm).elim
  · have habs := toDigits_injective htext
    omega

/-- What becomes of a token that is read and written again. -/
def restring (t : Units) : Option Units := (readNumber (chars t)).bind serialiseNumber

/-- The token of an integer comes back exactly where its digits are those of its double. -/
theorem restring_token_iff (n : Int) :
    restring (token n) = some (token n) ↔ IsShortest n.natAbs := by
  rw [restring, token, chars_units (isNumberText_intText n), readNumber_intText, Option.bind_some,
    ← stringify_nearestDouble_iff]
  cases hd : nearestDouble n with
  | negZero =>
    rw [nearestDouble, toDouble, if_neg (by rw [decide_eq_true_eq]; omega)] at hd
    split at hd <;> cases hd
  | integer m hm =>
    have hfinite : Double.integer m hm ≠ .nonFinite := fun hnone => (by cases hnone)
    constructor
    · intro h
      exact ⟨hfinite, units_inj (isNumberText_stringify hm) (isNumberText_intText n)
        (Option.some.inj h)⟩
    · intro h
      exact congrArg (fun t => some (units t)) h.2
  | nonFinite =>
    constructor
    · intro h
      cases h
    · intro h
      exact absurd rfl h.1

/-! ## Programs -/

/-- The integer of a number. -/
def JsNumber.value : JsNumber → Int
  | .bigint n => n
  | .number (.integer n _) => n
  | .number _ => 0

/-- A program has its integers as bigints; what is a number in it (a count, an index) is below
`2 ^ 53`. -/
def JsNumber.Safe : JsNumber → Prop
  | .bigint _ => True
  | .number (.integer n _) => n.natAbs < 2 ^ 53
  | .number .negZero => True
  | .number .nonFinite => False

mutual

def SafeNumbers : JsValue → Prop
  | .numeric n => n.Safe
  | .array es => SafeElements es
  | .object ms => SafeMembers ms
  | .undefined | .null | .boolean _ | .string _ => True

def SafeElements : List JsValue → Prop
  | [] => True
  | e :: es => SafeNumbers e ∧ SafeElements es

def SafeMembers : List (Units × JsValue) → Prop
  | [] => True
  | (_, v) :: ms => SafeNumbers v ∧ SafeMembers ms

end

mutual

/-- The program of a value: its integers, strings and structure, whatever the order of the keys
is.  An undefined member is none. -/
def program : JsValue → Json Int
  | .undefined | .null => .null
  | .boolean b => .boolean b
  | .numeric n => .number n.value
  | .string s => .string s
  | .array es => .array (programElements es)
  | .object ms => .object ((programMembers ms).mergeSort fun a b => keyLe a.1 b.1)

def programElements : List JsValue → List (Json Int)
  | [] => []
  | e :: es => program e :: programElements es

def programMembers : List (Units × JsValue) → List (Units × Json Int)
  | [] => []
  | (k, v) :: ms =>
      if v.isUndefined then programMembers ms else (k, program v) :: programMembers ms

end

mutual

/-- A program with its integers as tokens. -/
def written : Json Int → Json Units
  | .null => .null
  | .boolean b => .boolean b
  | .number n => .number (token n)
  | .string s => .string s
  | .array es => .array (writtenElements es)
  | .object ms => .object (writtenMembers ms)

def writtenElements : List (Json Int) → List (Json Units)
  | [] => []
  | e :: es => written e :: writtenElements es

def writtenMembers : List (Units × Json Int) → List (Units × Json Units)
  | [] => []
  | (k, v) :: ms => (k, written v) :: writtenMembers ms

end

theorem writtenMembers_eq (ms : List (Units × Json Int)) :
    writtenMembers ms = ms.map fun m => (m.1, written m.2) := by
  induction ms with
  | nil => rfl
  | cons m ms ih => rw [writtenMembers, ih, List.map_cons]

theorem writtenMembers_mergeSort (ms : List (Units × Json Int)) :
    writtenMembers (ms.mergeSort fun a b => keyLe a.1 b.1) =
      (writtenMembers ms).mergeSort fun a b => keyLe a.1 b.1 := by
  rw [writtenMembers_eq, writtenMembers_eq, List.map_mergeSort (s := fun a b => keyLe a.1 b.1)]
  exact fun a _ b _ => rfl

/-- A number of a program is written as its integer. -/
theorem serialiseNumeric_safe {n : JsNumber} (h : n.Safe) :
    serialiseNumeric n = some (token n.value) := by
  match n, h with
  | .bigint n, _ => rfl
  | .number .negZero, _ => rfl
  | .number (.integer n hn), h =>
    have hdigits : magnitudeText n.natAbs = Nat.toDigits 10 n.natAbs :=
      magnitudeText_eq_toDigits_iff.mpr ⟨Nat.lt_trans h (by decide), shortest_eq_self h⟩
    show some (units (Double.stringify (.integer n hn))) = some (units (intText n))
    rw [Double.stringify, intText, hdigits]

mutual

/-- The tree of a program is the program with its integers as tokens. -/
theorem treeOf_eq {depth : Nat} : ∀ {v : JsValue} {j : Json Units}, SafeNumbers v →
    treeOf depth v = some j → j = written (program v)
  | .null, _, _, h => (Option.some.inj h).symm
  | .boolean _, _, _, h => (Option.some.inj h).symm
  | .numeric n, _, hsafe, h => by
      rw [treeOf, serialiseNumeric_safe hsafe] at h
      exact (Option.some.inj h).symm
  | .string s, _, _, h => by
      rw [treeOf] at h
      split at h
      · exact (Option.some.inj h).symm
      · exact nomatch h
  | .array es, _, hsafe, h => by
      rw [treeOf] at h
      split at h
      · exact nomatch h
      · obtain ⟨ts, hts, rfl⟩ := Option.map_eq_some_iff.mp h
        rw [treeElements_eq hsafe hts, program, written]
  | .object ms, _, hsafe, h => by
      rw [treeOf] at h
      split at h
      · exact nomatch h
      · obtain ⟨ts, hts, rfl⟩ := Option.map_eq_some_iff.mp h
        rw [treeMembers_eq hsafe hts, program, written, writtenMembers_mergeSort]

theorem treeElements_eq {depth : Nat} : ∀ {es : List JsValue} {ts : List (Json Units)},
    SafeElements es → treeElements depth es = some ts → ts = writtenElements (programElements es)
  | [], _, _, h => (Option.some.inj h).symm
  | e :: es, _, hsafe, h => by
      rw [treeElements, Option.bind_eq_some_iff] at h
      obtain ⟨t, ht, h⟩ := h
      obtain ⟨ts, hts, rfl⟩ := Option.map_eq_some_iff.mp h
      have hhead : t = written (program e) := by
        split at ht
        · next hundefined =>
          cases e with
          | undefined => exact (Option.some.inj ht).symm
          | _ => exact nomatch hundefined
        · exact treeOf_eq hsafe.1 ht
      rw [hhead, treeElements_eq hsafe.2 hts, programElements, writtenElements]

theorem treeMembers_eq {depth : Nat} : ∀ {ms : List (Units × JsValue)}
    {ts : List (Units × Json Units)}, SafeMembers ms → treeMembers depth ms = some ts →
    ts = writtenMembers (programMembers ms)
  | [], _, _, h => (Option.some.inj h).symm
  | (k, v) :: ms, _, hsafe, h => by
      rw [treeMembers] at h
      rw [programMembers]
      split at h
      · next hundefined =>
        rw [if_pos hundefined]
        exact treeMembers_eq hsafe.2 h
      · next hundefined =>
        rw [if_neg hundefined]
        split at h
        · rw [Option.bind_eq_some_iff] at h
          obtain ⟨t, ht, h⟩ := h
          obtain ⟨ts, hts, rfl⟩ := Option.map_eq_some_iff.mp h
          rw [treeOf_eq hsafe.1 ht, treeMembers_eq hsafe.2 hts, writtenMembers]
        · exact nomatch h

end

mutual

/-- The tokens of a program are those of its integers. -/
theorem numbers_written : ∀ p : Json Int, numbers (written p) = (numbers p).map token
  | .null => rfl
  | .boolean _ => rfl
  | .number _ => rfl
  | .string _ => rfl
  | .array es => by rw [written, numbers, numbers, numbers_writtenElements es]
  | .object ms => by rw [written, numbers, numbers, numbers_writtenMembers ms]

theorem numbers_writtenElements : ∀ es : List (Json Int),
    numbersElements (writtenElements es) = (numbersElements es).map token
  | [] => rfl
  | e :: es => by
      rw [writtenElements, numbersElements, numbersElements, numbers_written e,
        numbers_writtenElements es, List.map_append]

theorem numbers_writtenMembers : ∀ ms : List (Units × Json Int),
    numbersMembers (writtenMembers ms) = (numbersMembers ms).map token
  | [] => rfl
  | (k, v) :: ms => by
      rw [writtenMembers, numbersMembers, numbersMembers, numbers_written v,
        numbers_writtenMembers ms, List.map_append]

end

mutual

/-- Different programs have different trees. -/
theorem written_injective : ∀ {p q : Json Int}, written p = written q → p = q
  | .null, q, h => by cases q <;> first | rfl | exact nomatch h
  | .boolean b, q, h => by cases q <;> first | (cases h; rfl) | exact nomatch h
  | .number m, q, h => by
      cases q with
      | number n => rw [token_inj (Json.number.inj h)]
      | _ => exact nomatch h
  | .string s, q, h => by cases q <;> first | (cases h; rfl) | exact nomatch h
  | .array es, q, h => by
      cases q with
      | array es' => rw [writtenElements_injective (Json.array.inj h)]
      | _ => exact nomatch h
  | .object ms, q, h => by
      cases q with
      | object ms' => rw [writtenMembers_injective (Json.object.inj h)]
      | _ => exact nomatch h

theorem writtenElements_injective : ∀ {es es' : List (Json Int)},
    writtenElements es = writtenElements es' → es = es'
  | [], es', h => by cases es' <;> first | rfl | exact nomatch h
  | e :: es, es', h => by
      cases es' with
      | nil => exact nomatch h
      | cons e' es' =>
        obtain ⟨he, hes⟩ := List.cons.inj h
        rw [written_injective he, writtenElements_injective hes]

theorem writtenMembers_injective : ∀ {ms ms' : List (Units × Json Int)},
    writtenMembers ms = writtenMembers ms' → ms = ms'
  | [], ms', h => by
      cases ms' with
      | nil => rfl
      | cons m ms' => exact nomatch h
  | (k, v) :: ms, ms', h => by
      cases ms' with
      | nil => exact nomatch h
      | cons m ms' =>
        obtain ⟨hm, hms⟩ := List.cons.inj h
        obtain ⟨hk, hv⟩ := Prod.mk.inj hm
        rw [writtenMembers_injective hms, written_injective hv, hk]

end

end Runar.Schema.Canonical
