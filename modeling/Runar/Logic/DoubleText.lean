/-
  Logic/DoubleText.lean --- integers as doubles, and their decimal texts.

  WHAT THIS FILE IS FOR.  JavaScript keeps a number as a double, and writes it with the fewest
  decimal digits that are read as the same double.  This file has the doubles without a fraction,
  their texts and the reader, and shows that a double comes back from its text, and which
  integers come back when they are read as doubles.
-/
import Mathlib.Data.List.DropRight
import Mathlib.Tactic.Ring

set_option autoImplicit false

namespace Runar.Logic

/-! ## Rounding -/

/-- The nearest number with at most 53 bits in front of its zeros, the even one of two. -/
def roundNat (a : Nat) : Nat :=
  let e := a.log2 + 1 - 53
  let q := a / 2 ^ e
  let r := a % 2 ^ e
  (if 2 ^ e < 2 * r ∨ 2 ^ e = 2 * r ∧ q % 2 = 1 then q + 1 else q) * 2 ^ e

theorem lt_two_pow_log2 (a : Nat) : a < 2 ^ (53 + (a.log2 + 1 - 53)) :=
  Nat.lt_of_lt_of_le Nat.lt_log2_self (Nat.pow_le_pow_right (by decide) (by omega))

theorem roundNat_of_dvd {a : Nat} (h : 2 ^ (a.log2 + 1 - 53) ∣ a) : roundNat a = a := by
  have hmod : a % 2 ^ (a.log2 + 1 - 53) = 0 := Nat.mod_eq_zero_of_dvd h
  have hpos : 0 < 2 ^ (a.log2 + 1 - 53) := Nat.two_pow_pos _
  rw [roundNat, hmod, if_neg (by omega), Nat.div_mul_cancel h]

/-- A number with 53 bits in front of its zeros is not rounded. -/
theorem roundNat_mul_two_pow {q e : Nat} (hq : q ≤ 2 ^ 53) : roundNat (q * 2 ^ e) = q * 2 ^ e := by
  rcases Nat.eq_zero_or_pos q with rfl | hpos
  · rw [Nat.zero_mul]
    rfl
  refine roundNat_of_dvd ?_
  have hne : q * 2 ^ e ≠ 0 := Nat.mul_ne_zero (Nat.ne_of_gt hpos) (Nat.ne_of_gt (Nat.two_pow_pos e))
  rcases Nat.lt_or_eq_of_le hq with hlt | rfl
  · have hlog : (q * 2 ^ e).log2 < 53 + e := by
      rw [Nat.log2_lt hne, Nat.pow_add]
      exact Nat.mul_lt_mul_of_pos_right hlt (Nat.two_pow_pos e)
    exact Nat.dvd_trans (Nat.pow_dvd_pow 2 (by omega)) (Nat.dvd_mul_left _ _)
  · rw [← Nat.pow_add, Nat.log2_two_pow]
    exact Nat.pow_dvd_pow 2 (by omega)

theorem roundNat_of_le {a : Nat} (h : a ≤ 2 ^ 53) : roundNat a = a := by
  have hmul := roundNat_mul_two_pow (e := 0) h
  rwa [Nat.pow_zero, Nat.mul_one] at hmul

/-- What rounding gives: some 53 bits in front of zeros, from the quotient or its successor. -/
theorem roundNat_cases (a : Nat) :
    ∃ e q, a.log2 + 1 - 53 = e ∧ (q = a / 2 ^ e ∨ q = a / 2 ^ e + 1) ∧ roundNat a = q * 2 ^ e := by
  refine ⟨_, _, rfl, ?_, rfl⟩
  split
  · exact Or.inr rfl
  · exact Or.inl rfl

theorem roundNat_roundNat (a : Nat) : roundNat (roundNat a) = roundNat a := by
  obtain ⟨e, q, rfl, hq, heq⟩ := roundNat_cases a
  have hlt : a / 2 ^ (a.log2 + 1 - 53) < 2 ^ 53 := by
    rw [Nat.div_lt_iff_lt_mul (Nat.two_pow_pos _), ← Nat.pow_add]
    exact lt_two_pow_log2 a
  rw [heq]
  exact roundNat_mul_two_pow (by omega)

theorem two_pow_le {a : Nat} (h : a ≠ 0) : 2 ^ (a.log2 + 1 - 53) ≤ a :=
  Nat.le_trans (Nat.pow_le_pow_right (by decide) (by omega)) (Nat.log2_self_le h)

theorem roundNat_ne_zero {a : Nat} (h : a ≠ 0) : roundNat a ≠ 0 := by
  obtain ⟨e, q, rfl, hq, heq⟩ := roundNat_cases a
  have hpos : 0 < a / 2 ^ (a.log2 + 1 - 53) := Nat.div_pos (two_pow_le h) (Nat.two_pow_pos _)
  rw [heq]
  exact Nat.mul_ne_zero (by omega) (Nat.ne_of_gt (Nat.two_pow_pos _))

theorem roundNat_le (a : Nat) : roundNat a ≤ 2 * a := by
  rcases Nat.eq_zero_or_pos a with rfl | hpos
  · exact Nat.le_refl _
  obtain ⟨e, q, rfl, hq, heq⟩ := roundNat_cases a
  have hle : 2 ^ (a.log2 + 1 - 53) ≤ a := two_pow_le (Nat.ne_of_gt hpos)
  have hdiv : a / 2 ^ (a.log2 + 1 - 53) * 2 ^ (a.log2 + 1 - 53) ≤ a := Nat.div_mul_le_self _ _
  have hsucc : q * 2 ^ (a.log2 + 1 - 53) ≤
      (a / 2 ^ (a.log2 + 1 - 53) + 1) * 2 ^ (a.log2 + 1 - 53) :=
    Nat.mul_le_mul_right _ (by omega)
  rw [Nat.add_mul, Nat.one_mul] at hsucc
  omega

theorem roundNat_lt_two_pow {a m k : Nat} (h : 2 * a < 2 ^ m) (hm : m ≤ k) : roundNat a < 2 ^ k :=
  Nat.lt_of_le_of_lt (roundNat_le a)
    (Nat.lt_of_lt_of_le h (Nat.pow_le_pow_right (by decide) hm))

theorem roundNat_lt {a : Nat} (h : a < 10 ^ 21) : roundNat a < 2 ^ 1024 := by
  have hdouble : 2 * a < 2 ^ 71 := by omega
  exact roundNat_lt_two_pow hdouble (by decide)

/-- No number beyond 53 bits is rounded to one below. -/
theorem le_roundNat {a : Nat} (h : 2 ^ 53 ≤ a) : 2 ^ 53 ≤ roundNat a := by
  obtain ⟨e, q, he, hq, heq⟩ := roundNat_cases a
  have hne : a ≠ 0 := Nat.ne_of_gt (Nat.lt_of_lt_of_le (Nat.two_pow_pos 53) h)
  have hlog : 53 ≤ a.log2 := (Nat.le_log2 hne).mpr h
  have hquot : 2 ^ 52 ≤ a / 2 ^ e := by
    rw [Nat.le_div_iff_mul_le (Nat.two_pow_pos _), ← Nat.pow_add]
    exact Nat.le_trans (Nat.pow_le_pow_right (by decide) (by omega)) (Nat.log2_self_le hne)
  have hpow : 2 ^ 1 ≤ 2 ^ e := Nat.pow_le_pow_right (by decide) (by omega)
  calc 2 ^ 53 = 2 ^ 52 * 2 ^ 1 := rfl
    _ ≤ q * 2 ^ e := Nat.mul_le_mul (by omega) hpow
    _ = roundNat a := heq.symm

/-- A magnitude a double has. -/
def IsDouble (a : Nat) : Prop := roundNat a = a ∧ a < 2 ^ 1024

/-- A double that is no fraction: an integer of 53 bits in front of zeros, the negative zero, or
none (an infinity, or not a number). -/
inductive Double where
  | negZero
  | integer (value : Int) (double : IsDouble value.natAbs)
  | nonFinite

/-- The double nearest to an integer of some sign. -/
def toDouble (negative : Bool) (a : Nat) : Double :=
  if negative ∧ a = 0 then .negZero
  else if h : roundNat a < 2 ^ 1024 then
    .integer (if negative then -(roundNat a : Int) else roundNat a) (by
      have habs : (if negative then -(roundNat a : Int) else roundNat a).natAbs = roundNat a := by
        cases negative <;> simp
      rw [habs]
      exact ⟨roundNat_roundNat a, h⟩)
  else .nonFinite

/-! ## Writing -/

/-- The multiple of a power of ten nearest to a double that is read as the double. -/
def nearest (a j : Nat) : Option Nat :=
  let q := a / 10 ^ j
  let low := q * 10 ^ j
  let high := low + 10 ^ j
  (if a - low < high - a ∨ a - low = high - a ∧ q % 2 = 0 then [low, high]
    else [high, low]).find? fun c => c != 0 && roundNat c == a

/-- The number with the fewest digits in front of its zeros that is read as a double. -/
def shortest (a : Nat) : Nat :=
  ((List.range ((Nat.toDigits 10 a).length + 1)).reverse.findSome? (nearest a)).getD a

/-- A large number: a digit, the other digits behind a point, and an exponent. -/
def exponentText (a : Nat) : List Char :=
  let digits := Nat.toDigits 10 a
  let front := digits.rdropWhile (· == '0')
  front.take 1 ++ (if front.length ≤ 1 then [] else '.' :: front.drop 1) ++
    'e' :: '+' :: Nat.toDigits 10 (digits.length - 1)

def magnitudeText (a : Nat) : List Char :=
  if shortest a < 10 ^ 21 then Nat.toDigits 10 (shortest a) else exponentText (shortest a)

/-- `JSON.stringify` of a number. -/
def Double.stringify : Double → List Char
  | .negZero => ['0']
  | .integer n _ =>
      if n < 0 then '-' :: magnitudeText n.natAbs else magnitudeText n.natAbs
  | .nonFinite => ['n', 'u', 'l', 'l']

/-- `toString` of a bigint. -/
def intText (n : Int) : List Char :=
  if n < 0 then '-' :: Nat.toDigits 10 n.natAbs else Nat.toDigits 10 n.natAbs

/-! ## Reading -/

/-- The digits behind a point, and the rest. -/
def readFraction : List Char → Option (List Char × List Char)
  | [] => some ([], [])
  | c :: t =>
      if c = '.' then
        if t.takeWhile Char.isDigit = [] then none
        else some (t.takeWhile Char.isDigit, t.dropWhile Char.isDigit)
      else some ([], c :: t)

/-- The exponent at the end.  A negative one, which only a fraction or a number with zeros to
cancel has, is left out. -/
def readExponent : List Char → Option Nat
  | [] => some 0
  | c :: t =>
      let digits := if t.head? = some '+' then t.tail else t
      if (c = 'e' ∨ c = 'E') ∧ digits ≠ [] ∧ digits.all Char.isDigit then
        some (Nat.ofDigitChars 10 digits 0)
      else none

/-- The integer of a token without a sign.  A token with more digits behind its point than its
exponent takes is left out. -/
def readMagnitude (t : List Char) : Option Nat :=
  let whole := t.takeWhile Char.isDigit
  if whole = [] ∨ whole.head? = some '0' ∧ whole.length ≠ 1 then none
  else (readFraction (t.dropWhile Char.isDigit)).bind fun (fraction, rest) =>
    (readExponent rest).bind fun exponent =>
      if fraction.length ≤ exponent then
        some (Nat.ofDigitChars 10 (whole ++ fraction) 0 * 10 ^ (exponent - fraction.length))
      else none

/-- The double of a token. -/
def readNumber : List Char → Option Double
  | [] => none
  | c :: t =>
      if c = '-' then (readMagnitude t).map (toDouble true)
      else (readMagnitude (c :: t)).map (toDouble false)

/-! ## A double comes back from its text -/

theorem shortest_cases (a : Nat) :
    shortest a = a ∨ shortest a ≠ 0 ∧ roundNat (shortest a) = a := by
  cases hfind : (List.range ((Nat.toDigits 10 a).length + 1)).reverse.findSome? (nearest a) with
  | none =>
    left
    rw [shortest, hfind]
    rfl
  | some c =>
    right
    have hc : shortest a = c := by
      rw [shortest, hfind]
      rfl
    obtain ⟨j, -, hj⟩ := List.exists_of_findSome?_eq_some hfind
    have hfound := List.find?_some hj
    rw [Bool.and_eq_true, bne_iff_ne, beq_iff_eq] at hfound
    rw [hc]
    exact hfound

theorem roundNat_shortest {a : Nat} (h : roundNat a = a) : roundNat (shortest a) = a := by
  rcases shortest_cases a with heq | ⟨-, heq⟩
  · rw [heq, h]
  · exact heq

/-- Below 2^53 every digit is needed. -/
theorem shortest_eq_self {a : Nat} (h : a < 2 ^ 53) : shortest a = a := by
  rcases shortest_cases a with heq | ⟨-, heq⟩
  · exact heq
  · by_contra hne
    rcases Nat.lt_or_ge (shortest a) (2 ^ 53) with hlt | hge
    · exact hne ((roundNat_of_le (Nat.le_of_lt hlt)).symm.trans heq)
    · have := le_roundNat hge
      omega

theorem takeWhile_isDigit (ds rest : List Char) (h : ∀ c ∈ ds, c.isDigit = true)
    (hrest : ∀ c ∈ rest.head?, c.isDigit = false) :
    (ds ++ rest).takeWhile Char.isDigit = ds ∧ (ds ++ rest).dropWhile Char.isDigit = rest := by
  have hstop : rest.takeWhile Char.isDigit = [] ∧ rest.dropWhile Char.isDigit = rest := by
    cases rest with
    | nil => exact ⟨rfl, rfl⟩
    | cons c rest =>
      have hc : ¬ c.isDigit = true := by
        rw [hrest c rfl]
        exact Bool.false_ne_true
      exact ⟨List.takeWhile_cons_of_neg hc, List.dropWhile_cons_of_neg hc⟩
  rw [List.takeWhile_append_of_pos h, List.dropWhile_append_of_pos h, hstop.1, hstop.2,
    List.append_nil]
  exact ⟨rfl, rfl⟩

theorem isDigit_toDigits {a : Nat} {c : Char} (h : c ∈ Nat.toDigits 10 a) : c.isDigit = true :=
  Nat.isDigit_of_mem_toDigits (by decide) (by decide) h

theorem toDigits_injective {a b : Nat} (h : Nat.toDigits 10 a = Nat.toDigits 10 b) : a = b := by
  rw [← Nat.ofDigitChars_ten_toDigits (n := a), h, Nat.ofDigitChars_ten_toDigits]

/-- No number but zero starts with a zero. -/
theorem head_toDigits {a : Nat} (h : (Nat.toDigits 10 a).head? = some '0') : a = 0 := by
  induction a using Nat.strong_induction_on with
  | _ a ih =>
    rcases Nat.lt_or_ge a 10 with hlt | hge
    · rw [Nat.toDigits_of_lt_base hlt, List.head?_cons, Option.some_inj] at h
      have hall : ∀ d < 10, Nat.digitChar d = '0' → d = 0 := by decide
      exact hall a hlt h
    · rw [Nat.toDigits_of_base_le (by decide) hge,
        List.head?_append_of_ne_nil _ Nat.toDigits_ne_nil] at h
      have := ih (a / 10) (Nat.div_lt_self (by omega) (by decide)) h
      omega

theorem readMagnitude_toDigits (a : Nat) : readMagnitude (Nat.toDigits 10 a) = some a := by
  obtain ⟨htake, hdrop⟩ := takeWhile_isDigit (Nat.toDigits 10 a) []
    (fun c hc => isDigit_toDigits hc) (fun c hc => (nomatch hc))
  rw [List.append_nil] at htake hdrop
  have hzero : ¬ (Nat.toDigits 10 a = [] ∨
      (Nat.toDigits 10 a).head? = some '0' ∧ (Nat.toDigits 10 a).length ≠ 1) := by
    rintro (hnil | ⟨hhead, hlength⟩)
    · exact Nat.toDigits_ne_nil hnil
    · cases head_toDigits hhead
      exact hlength rfl
  rw [readMagnitude]
  dsimp only
  rw [htake, hdrop, if_neg hzero]
  show some (Nat.ofDigitChars 10 (Nat.toDigits 10 a ++ []) 0 * 10 ^ 0) = some a
  rw [List.append_nil, Nat.ofDigitChars_ten_toDigits, Nat.pow_zero, Nat.mul_one]

/-- The digits of a number are those up to the last that is not zero, and zeros. -/
theorem toDigits_eq_front (a : Nat) :
    ∃ z, Nat.toDigits 10 a =
      (Nat.toDigits 10 a).rdropWhile (· == '0') ++ List.replicate z '0' := by
  refine ⟨((Nat.toDigits 10 a).rtakeWhile (· == '0')).length, ?_⟩
  have hzeros : (Nat.toDigits 10 a).rtakeWhile (· == '0') =
      List.replicate ((Nat.toDigits 10 a).rtakeWhile (· == '0')).length '0' :=
    List.eq_replicate_of_mem fun c hc => by
      have := List.mem_rtakeWhile_imp hc
      rwa [beq_iff_eq] at this
  rw [← hzeros, List.rdropWhile_append_rtakeWhile]

theorem readExponent_toDigits (k : Nat) :
    readExponent ('e' :: '+' :: Nat.toDigits 10 k) = some k := by
  have hall : (Nat.toDigits 10 k).all Char.isDigit = true :=
    List.all_eq_true.mpr fun c hc => isDigit_toDigits hc
  rw [readExponent, List.head?_cons, if_pos rfl, List.tail_cons,
    if_pos ⟨Or.inl rfl, Nat.toDigits_ne_nil, hall⟩, Nat.ofDigitChars_ten_toDigits]

theorem not_padded_singleton (c : Char) :
    ¬ ([c] = [] ∨ [c].head? = some '0' ∧ [c].length ≠ 1) := by
  rintro (hnil | ⟨-, hlength⟩)
  · exact nomatch hnil
  · exact hlength rfl

theorem readMagnitude_exponentText {a : Nat} (h : a ≠ 0) :
    readMagnitude (exponentText a) = some a := by
  obtain ⟨z, hz⟩ := toDigits_eq_front a
  have hmem : ∀ c ∈ (Nat.toDigits 10 a).rdropWhile (· == '0'), c.isDigit = true := fun c hc =>
    isDigit_toDigits ((List.rdropWhile_prefix _ (l := Nat.toDigits 10 a)).subset hc)
  rw [exponentText]
  cases hfront : (Nat.toDigits 10 a).rdropWhile (· == '0') with
  | nil =>
    -- only zeros: the number is zero
    rw [hfront, List.nil_append] at hz
    refine absurd ?_ h
    rw [← Nat.ofDigitChars_ten_toDigits (n := a), hz, Nat.ofDigitChars_replicate_zero,
      Nat.mul_zero]
  | cons c cs =>
    rw [hfront] at hz hmem
    have hlength : (Nat.toDigits 10 a).length - 1 - cs.length = z := by
      rw [hz, List.length_append, List.length_cons, List.length_replicate]
      omega
    have hle : cs.length ≤ (Nat.toDigits 10 a).length - 1 := by
      rw [hz, List.length_append, List.length_cons, List.length_replicate]
      omega
    have hvalue : Nat.ofDigitChars 10 (c :: cs) 0 * 10 ^ z = a := by
      rw [Nat.mul_comm, ← Nat.ofDigitChars_replicate_zero, ← Nat.ofDigitChars_append, ← hz,
        Nat.ofDigitChars_ten_toDigits]
    have hexponent := readExponent_toDigits ((Nat.toDigits 10 a).length - 1)
    generalize hk : 'e' :: '+' :: Nat.toDigits 10 ((Nat.toDigits 10 a).length - 1) = exponent
    have hstop : ∀ d ∈ exponent.head?, d.isDigit = false := by
      rw [← hk]
      rintro d ⟨⟩
      rfl
    rw [hk] at hexponent
    cases cs with
    | nil =>
      obtain ⟨htake, hdrop⟩ := takeWhile_isDigit [c] exponent hmem hstop
      have hfraction : readFraction exponent = some ([], exponent) := by
        rw [← hk]
        rfl
      show readMagnitude ([c] ++ exponent) = some a
      rw [readMagnitude]
      dsimp only
      rw [htake, hdrop, if_neg (not_padded_singleton c), hfraction,
        Option.bind_some]
      dsimp only
      rw [hexponent, Option.bind_some, if_pos hle, List.append_nil, hlength, hvalue]
    | cons d ds =>
      obtain ⟨htake, hdrop⟩ := takeWhile_isDigit [c] ('.' :: (d :: ds ++ exponent))
        (fun e he => hmem e (by rw [List.mem_singleton.mp he]; exact List.mem_cons_self))
        (by rintro e ⟨⟩; rfl)
      obtain ⟨htake', hdrop'⟩ := takeWhile_isDigit (d :: ds) exponent
        (fun e he => hmem e (List.mem_cons_of_mem c he)) hstop
      have hfraction : readFraction ('.' :: (d :: ds ++ exponent)) = some (d :: ds, exponent) := by
        rw [readFraction, if_pos rfl, htake', hdrop', if_neg (List.cons_ne_nil d ds)]
      show readMagnitude ([c] ++ '.' :: (d :: ds ++ exponent)) = some a
      rw [readMagnitude]
      dsimp only
      rw [htake, hdrop, if_neg (not_padded_singleton c), hfraction,
        Option.bind_some]
      dsimp only
      rw [hexponent, Option.bind_some, if_pos hle, hlength]
      exact congrArg some hvalue

theorem readMagnitude_magnitudeText (a : Nat) :
    readMagnitude (magnitudeText a) = some (shortest a) := by
  rw [magnitudeText]
  split
  · exact readMagnitude_toDigits _
  · next hge => exact readMagnitude_exponentText (by omega)

/-- What has a magnitude has no sign. -/
theorem readNumber_of_magnitude {t : List Char} {a : Nat} (h : readMagnitude t = some a) :
    readNumber t = some (toDouble false a) ∧ readNumber ('-' :: t) = some (toDouble true a) := by
  constructor
  · cases t with
    | nil => exact nomatch h
    | cons c t =>
      rw [readNumber]
      split
      · next hc =>
        subst hc
        exact nomatch h
      · rw [h]
        rfl
  · rw [readNumber, if_pos rfl, h]
    rfl

theorem toDouble_of_lt (negative : Bool) {a : Nat} (hzero : ¬ (negative ∧ a = 0)) {n : Int}
    (hn : (if negative then -(roundNat a : Int) else roundNat a) = n)
    (hdouble : IsDouble n.natAbs) (hlt : roundNat a < 2 ^ 1024) :
    toDouble negative a = .integer n hdouble := by
  subst hn
  rw [toDouble, if_neg hzero, dif_pos hlt]

/-- A double is read back from its text. -/
theorem readNumber_stringify {n : Int} (h : IsDouble n.natAbs) :
    readNumber (Double.stringify (.integer n h)) = some (.integer n h) := by
  obtain ⟨hpos, hneg⟩ := readNumber_of_magnitude (readMagnitude_magnitudeText n.natAbs)
  have hround : roundNat (shortest n.natAbs) = n.natAbs := roundNat_shortest h.1
  have hlt : roundNat (shortest n.natAbs) < 2 ^ 1024 := by
    rw [hround]
    exact h.2
  rw [Double.stringify]
  split
  · next hn =>
    have hne : shortest n.natAbs ≠ 0 := by
      intro hzero
      rw [hzero] at hround
      have : roundNat 0 = 0 := rfl
      omega
    have hvalue : -(roundNat (shortest n.natAbs) : Int) = n := by
      rw [hround]
      omega
    rw [hneg, toDouble_of_lt true (fun hc => hne hc.2) hvalue h hlt]
  · next hn =>
    have hvalue : (roundNat (shortest n.natAbs) : Int) = n := by
      rw [hround]
      omega
    rw [hpos, toDouble_of_lt false (fun hc => Bool.false_ne_true hc.1) hvalue h hlt]

/-! ## Integers read as doubles -/

/-- The double nearest to an integer. -/
def nearestDouble (n : Int) : Double := toDouble (n < 0) n.natAbs

theorem readNumber_intText (n : Int) : readNumber (intText n) = some (nearestDouble n) := by
  obtain ⟨hpos, hneg⟩ := readNumber_of_magnitude (readMagnitude_toDigits n.natAbs)
  rw [intText, nearestDouble]
  split
  · next hn => rw [hneg, decide_eq_true hn]
  · next hn => rw [hpos, decide_eq_false hn]

/-- The digits that JavaScript writes for the double nearest to a number, where it writes no
exponent. -/
def IsShortest (a : Nat) : Prop := a < 10 ^ 21 ∧ shortest (roundNat a) = a

instance (a : Nat) : Decidable (IsShortest a) := inferInstanceAs (Decidable (_ ∧ _))

theorem isShortest_of_lt {a : Nat} (h : a < 2 ^ 53) : IsShortest a := by
  refine ⟨Nat.lt_trans h (by decide), ?_⟩
  rw [roundNat_of_le (Nat.le_of_lt h), shortest_eq_self h]

theorem magnitudeText_eq_toDigits_iff {r a : Nat} :
    magnitudeText r = Nat.toDigits 10 a ↔ a < 10 ^ 21 ∧ shortest r = a := by
  rw [magnitudeText]
  split
  · next hlt =>
    constructor
    · intro h
      have heq := toDigits_injective h
      exact ⟨heq ▸ hlt, heq⟩
    · rintro ⟨-, heq⟩
      rw [heq]
  · next hge =>
    constructor
    · intro h
      have he : 'e' ∈ Nat.toDigits 10 a := by
        rw [← h, exponentText]
        exact List.mem_append_right _ List.mem_cons_self
      exact absurd (isDigit_toDigits he) (by decide)
    · rintro ⟨hlt, heq⟩
      exact absurd (heq ▸ hlt) hge

/-- An integer keeps its text as a double exactly where its digits are those of the double. -/
theorem stringify_nearestDouble_iff (n : Int) :
    nearestDouble n ≠ .nonFinite ∧ (nearestDouble n).stringify = intText n ↔
      IsShortest n.natAbs := by
  rw [nearestDouble, toDouble, if_neg (by rw [decide_eq_true_eq]; omega)]
  have hzero : n < 0 → roundNat n.natAbs ≠ 0 := fun hn => roundNat_ne_zero (by omega)
  split
  · next hlt =>
    rw [intText, IsShortest, ← magnitudeText_eq_toDigits_iff, Double.stringify]
    by_cases hn : n < 0
    · have hneg : -(roundNat n.natAbs : Int) < 0 := by
        have := hzero hn
        omega
      simp only [decide_eq_true hn, if_true, if_pos hn, if_pos hneg, Int.natAbs_neg,
        Int.natAbs_natCast, List.cons.injEq, true_and]
      exact ⟨fun h => h.2, fun h => ⟨fun h => (nomatch h), h⟩⟩
    · have hpos : ¬ (roundNat n.natAbs : Int) < 0 := by omega
      simp only [decide_eq_false hn, Bool.false_eq_true, if_false, if_neg hn, if_neg hpos,
        Int.natAbs_natCast]
      exact ⟨fun h => h.2, fun h => ⟨fun h => (nomatch h), h⟩⟩
  · next hge =>
    constructor
    · exact fun h => absurd rfl h.1
    · rintro ⟨hlt, -⟩
      exact absurd (roundNat_lt hlt) hge

end Runar.Logic
