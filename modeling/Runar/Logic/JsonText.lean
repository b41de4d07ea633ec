/-
  Logic/JsonText.lean --- JSON texts.

  WHAT THIS FILE IS FOR.  The texts of JSON values without blanks, over UTF-16 code units, and
  a reader that leaves every number as the token it is written as.  The reader gives back what
  was written: a text has one value.  What the tokens stand for is for the user of this file.
-/
import Mathlib.Data.List.Basic
import Mathlib.Data.Nat.Notation

set_option autoImplicit false

namespace Runar.Logic

/-- A string of UTF-16 code units. -/
abbrev Units : Type := List UInt16

/-- A JSON value with numbers of some kind. -/
inductive Json (ν : Type) where
  | null
  | boolean (value : Bool)
  | number (value : ν)
  | string (value : Units)
  | array (elements : List (Json ν))
  | object (members : List (Units × Json ν))

namespace Json

variable {ν μ : Type}

/-! ## Writing -/

def quote : UInt16 := 0x22
def backslash : UInt16 := 0x5c
def comma : UInt16 := 0x2c
def colon : UInt16 := 0x3a
def openBracket : UInt16 := 0x5b
def closeBracket : UInt16 := 0x5d
def openBrace : UInt16 := 0x7b
def closeBrace : UInt16 := 0x7d

/-- The code units of an ASCII word. -/
def word (s : String) : Units := s.toList.map fun c => c.toNat.toUInt16

def hexDigit (n : UInt16) : UInt16 := if n < 10 then 0x30 + n else 0x57 + n

/-- How a code unit is written inside a string. -/
def escapeUnit (c : UInt16) : Units :=
  if c = quote then [backslash, quote]
  else if c = backslash then [backslash, backslash]
  else if c = 0x08 then [backslash, 0x62]
  else if c = 0x09 then [backslash, 0x74]
  else if c = 0x0a then [backslash, 0x6e]
  else if c = 0x0c then [backslash, 0x66]
  else if c = 0x0d then [backslash, 0x72]
  else if c < 0x20 then [backslash, 0x75, 0x30, 0x30, hexDigit (c / 16), hexDigit (c % 16)]
  else [c]

def stringText (s : Units) : Units := quote :: (s.flatMap escapeUnit ++ [quote])

/-- Texts with commas between them. -/
def joinComma : List Units → Units
  | [] => []
  | [t] => t
  | t :: rest => t ++ comma :: joinComma rest

mutual

/-- The text of a value whose numbers are tokens. -/
def render : Json Units → Units
  | .null => word "null"
  | .boolean true => word "true"
  | .boolean false => word "false"
  | .number token => token
  | .string s => stringText s
  | .array es => openBracket :: (joinComma (renderElements es) ++ [closeBracket])
  | .object ms => openBrace :: (joinComma (renderMembers ms) ++ [closeBrace])

def renderElements : List (Json Units) → List Units
  | [] => []
  | e :: es => render e :: renderElements es

def renderMembers : List (Units × Json Units) → List Units
  | [] => []
  | (k, v) :: ms => (stringText k ++ colon :: render v) :: renderMembers ms

end

/-! ## Reading -/

def isSpace (c : UInt16) : Bool := c == 0x20 || c == 0x09 || c == 0x0a || c == 0x0d

def skipSpace (text : Units) : Units := text.dropWhile isSpace

/-- What numbers are written with. -/
def isNumeral (c : UInt16) : Bool :=
  0x30 ≤ c && c ≤ 0x39 || c == 0x2d || c == 0x2b || c == 0x2e || c == 0x65 || c == 0x45

def hexValue (c : UInt16) : Option UInt16 :=
  if 0x30 ≤ c ∧ c ≤ 0x39 then some (c - 0x30)
  else if 0x61 ≤ c ∧ c ≤ 0x66 then some (c - 0x57)
  else if 0x41 ≤ c ∧ c ≤ 0x46 then some (c - 0x37)
  else none

/-- The code unit of four hexadecimal digits. -/
def hexUnit (a b c d : UInt16) : Option UInt16 :=
  (hexValue a).bind fun a => (hexValue b).bind fun b => (hexValue c).bind fun c =>
    (hexValue d).map fun d => a * 4096 + b * 256 + c * 16 + d

/-- The code unit of an escape other than `\u`. -/
def unescape (c : UInt16) : Option UInt16 :=
  if c = quote ∨ c = backslash ∨ c = 0x2f then some c
  else if c = 0x62 then some 0x08
  else if c = 0x74 then some 0x09
  else if c = 0x6e then some 0x0a
  else if c = 0x66 then some 0x0c
  else if c = 0x72 then some 0x0d
  else none

/-- The rest of a string, and what is behind it. -/
def readString : Units → Option (Units × Units)
  | [] => none
  | c :: rest =>
      if c = quote then some ([], rest)
      else if c = backslash then
        match rest with
        | [] => none
        | e :: rest =>
            if e = 0x75 then
              match rest with
              | a :: b :: c :: d :: rest =>
                  (hexUnit a b c d).bind fun u => (readString rest).map fun (s, rest) =>
                    (u :: s, rest)
              | _ => none
            else
              (unescape e).bind fun u => (readString rest).map fun (s, rest) => (u :: s, rest)
      else if c < 0x20 then none
      else (readString rest).map fun (s, rest) => (c :: s, rest)

/-- A word other than a number. -/
def readWord (text : Units) : Option (Json Units × Units) :=
  if (word "null").isPrefixOf text then some (.null, text.drop 4)
  else if (word "true").isPrefixOf text then some (.boolean true, text.drop 4)
  else if (word "false").isPrefixOf text then some (.boolean false, text.drop 5)
  else none

mutual

/-- A value, and what is behind it. -/
def readValue : Nat → Units → Option (Json Units × Units)
  | 0, _ => none
  | fuel + 1, text =>
      match skipSpace text with
      | [] => none
      | c :: rest =>
          if c = quote then (readString rest).map fun (s, rest) => (.string s, rest)
          else if c = openBracket then
            match skipSpace rest with
            | [] => none
            | c :: after =>
                if c = closeBracket then some (.array [], after)
                else (readElements fuel rest).map fun (es, rest) => (.array es, rest)
          else if c = openBrace then
            match skipSpace rest with
            | [] => none
            | c :: after =>
                if c = closeBrace then some (.object [], after)
                else (readMembers fuel rest).map fun (ms, rest) => (.object ms, rest)
          else if isNumeral c then
            some (.number ((c :: rest).takeWhile isNumeral), (c :: rest).dropWhile isNumeral)
          else readWord (c :: rest)

/-- The elements of an array up to its end. -/
def readElements : Nat → Units → Option (List (Json Units) × Units)
  | 0, _ => none
  | fuel + 1, text =>
      (readValue fuel text).bind fun (e, rest) =>
        match skipSpace rest with
        | [] => none
        | c :: rest =>
            if c = comma then (readElements fuel rest).map fun (es, rest) => (e :: es, rest)
            else if c = closeBracket then some ([e], rest)
            else none

/-- The members of an object up to its end. -/
def readMembers : Nat → Units → Option (List (Units × Json Units) × Units)
  | 0, _ => none
  | fuel + 1, text =>
      match skipSpace text with
      | [] => none
      | c :: rest =>
          if c = quote then
            (readString rest).bind fun (k, rest) =>
              match skipSpace rest with
              | [] => none
              | c :: rest =>
                  if c = colon then
                    (readValue fuel rest).bind fun (v, rest) =>
                      match skipSpace rest with
                      | [] => none
                      | c :: rest =>
                          if c = comma then
                            (readMembers fuel rest).map fun (ms, rest) => ((k, v) :: ms, rest)
                          else if c = closeBrace then some ([(k, v)], rest)
                          else none
                  else none
          else none

end

/-- The value of a text. -/
def read (text : Units) : Option (Json Units) :=
  (readValue (text.length + 1) text).bind fun (j, rest) =>
    if skipSpace rest = [] then some j else none

/-! ## Reading what was written -/

mutual

/-- The numbers of a value. -/
def numbers : Json ν → List ν
  | .number n => [n]
  | .array es => numbersElements es
  | .object ms => numbersMembers ms
  | .null | .boolean _ | .string _ => []

def numbersElements : List (Json ν) → List ν
  | [] => []
  | e :: es => numbers e ++ numbersElements es

def numbersMembers : List (Units × Json ν) → List ν
  | [] => []
  | (_, v) :: ms => numbers v ++ numbersMembers ms

end

mutual

/-- The fuel that reading a value takes. -/
def size : Json ν → Nat
  | .array es => 1 + sizeElements es
  | .object ms => 1 + sizeMembers ms
  | .null | .boolean _ | .number _ | .string _ => 1

def sizeElements : List (Json ν) → Nat
  | [] => 0
  | e :: es => 1 + size e + sizeElements es

def sizeMembers : List (Units × Json ν) → Nat
  | [] => 0
  | (_, v) :: ms => 1 + size v + sizeMembers ms

end

/-- A text that is read as a number. -/
def IsToken (t : Units) : Prop := t ≠ [] ∧ ∀ c ∈ t, isNumeral c = true

/-- A number ends here. -/
def Stops (text : Units) : Prop := ∀ c rest, text = c :: rest → isNumeral c = false

theorem stops_cons {c : UInt16} {rest : Units} (h : isNumeral c = false) : Stops (c :: rest) := by
  intro c' rest' heq
  cases heq
  exact h

theorem skipSpace_cons {c : UInt16} {rest : Units} (h : isSpace c = false) :
    skipSpace (c :: rest) = c :: rest := by
  rw [skipSpace, List.dropWhile_cons_of_neg (by rw [h]; exact Bool.false_ne_true)]

theorem hexUnit_hexDigit {c : UInt16} (h : c < 0x20) :
    hexUnit 0x30 0x30 (hexDigit (c / 16)) (hexDigit (c % 16)) = some c := by
  have hall : ∀ n < 32, hexUnit 0x30 0x30 (hexDigit (UInt16.ofNat n / 16))
      (hexDigit (UInt16.ofNat n % 16)) = some (UInt16.ofNat n) := by decide
  have hc := hall c.toNat (UInt16.lt_iff_toNat_lt.mp h)
  rwa [UInt16.ofNat_toNat] at hc

theorem readString_cons (c : UInt16) (rest : Units) :
    readString (c :: rest) =
      if c = quote then some ([], rest)
      else if c = backslash then
        match rest with
        | [] => none
        | e :: rest =>
            if e = 0x75 then
              match rest with
              | a :: b :: c :: d :: rest =>
                  (hexUnit a b c d).bind fun u => (readString rest).map fun (s, rest) =>
                    (u :: s, rest)
              | _ => none
            else
              (unescape e).bind fun u => (readString rest).map fun (s, rest) => (u :: s, rest)
      else if c < 0x20 then none
      else (readString rest).map fun (s, rest) => (c :: s, rest) := by
  rw [readString.eq_def]
  rfl

/-- An escape of one letter is read back. -/
theorem readString_unescape {e c : UInt16} (he : e ≠ 0x75) (hc : unescape e = some c)
    (rest : Units) : readString ([backslash, e] ++ rest) =
      (readString rest).map fun (s, rest) => (c :: s, rest) := by
  rw [List.cons_append, List.singleton_append, readString_cons, if_neg (by decide), if_pos rfl]
  dsimp only
  rw [if_neg he, hc]
  rfl

/-- A code unit is read back. -/
theorem readString_escapeUnit (c : UInt16) (rest : Units) :
    readString (escapeUnit c ++ rest) = (readString rest).map fun (s, rest) => (c :: s, rest) := by
  unfold escapeUnit
  split
  · next h =>
    subst h
    exact readString_unescape (by decide) rfl rest
  split
  · next h =>
    subst h
    exact readString_unescape (by decide) rfl rest
  split
  · next h =>
    subst h
    exact readString_unescape (by decide) rfl rest
  split
  · next h =>
    subst h
    exact readString_unescape (by decide) rfl rest
  split
  · next h =>
    subst h
    exact readString_unescape (by decide) rfl rest
  split
  · next h =>
    subst h
    exact readString_unescape (by decide) rfl rest
  split
  · next h =>
    subst h
    exact readString_unescape (by decide) rfl rest
  split
  · next h =>
    rw [List.cons_append, readString_cons, if_neg (by decide), if_pos rfl]
    show (hexUnit 0x30 0x30 (hexDigit (c / 16)) (hexDigit (c % 16))).bind _ = _
    rw [hexUnit_hexDigit h]
    rfl
  · next hquote hbackslash _ _ _ _ _ hcontrol =>
    rw [List.singleton_append, readString_cons, if_neg hquote, if_neg hbackslash,
      if_neg hcontrol]

theorem readString_stringText (s rest : Units) :
    readString (s.flatMap escapeUnit ++ quote :: rest) = some (s, rest) := by
  induction s with
  | nil =>
    rw [List.flatMap_nil, List.nil_append, readString_cons, if_pos rfl]
  | cons c s ih =>
    rw [List.flatMap_cons, List.append_assoc, readString_escapeUnit, ih]
    rfl

theorem isSpace_of_isNumeral {c : UInt16} (h : isNumeral c = true) : isSpace c = false := by
  cases hspace : isSpace c with
  | false => rfl
  | true =>
    rw [isSpace] at hspace
    simp only [Bool.or_eq_true, beq_iff_eq] at hspace
    rcases hspace with ((rfl | rfl) | rfl) | rfl <;> exact absurd h (by decide)

/-- No value starts with a blank, or with what closes an array. -/
theorem render_cons (j : Json Units) (htokens : ∀ t ∈ numbers j, IsToken t) :
    ∃ c rest, render j = c :: rest ∧ isSpace c = false ∧ c ≠ closeBracket := by
  cases j with
  | null => exact ⟨_, _, rfl, by decide, by decide⟩
  | boolean b => cases b <;> exact ⟨_, _, rfl, by decide, by decide⟩
  | number t =>
    obtain ⟨hne, hall⟩ := htokens t (by rw [numbers]; exact List.mem_cons_self)
    obtain ⟨c, rest, rfl⟩ := List.exists_cons_of_ne_nil hne
    have hc := hall c List.mem_cons_self
    refine ⟨c, rest, by rw [render], ?_, ?_⟩
    · exact isSpace_of_isNumeral hc
    · rintro rfl
      exact absurd hc (by decide)
  | string s => exact ⟨_, _, by rw [render, stringText], by decide, by decide⟩
  | array es => exact ⟨_, _, by rw [render], by decide, by decide⟩
  | object ms => exact ⟨_, _, by rw [render], by decide, by decide⟩

theorem takeWhile_token {t rest : Units} (ht : IsToken t) (hrest : Stops rest) :
    (t ++ rest).takeWhile isNumeral = t ∧ (t ++ rest).dropWhile isNumeral = rest := by
  have hstop : rest.takeWhile isNumeral = [] ∧ rest.dropWhile isNumeral = rest := by
    cases rest with
    | nil => exact ⟨rfl, rfl⟩
    | cons c rest =>
      have hc : ¬ isNumeral c = true := by rw [hrest c rest rfl]; exact Bool.false_ne_true
      exact ⟨List.takeWhile_cons_of_neg hc, List.dropWhile_cons_of_neg hc⟩
  rw [List.takeWhile_append_of_pos ht.2, List.dropWhile_append_of_pos ht.2, hstop.1, hstop.2,
    List.append_nil]
  exact ⟨rfl, rfl⟩

theorem joinComma_cons_cons (t u : Units) (rest : List Units) :
    joinComma (t :: u :: rest) = t ++ comma :: joinComma (u :: rest) := rfl

theorem joinComma_cons (e : Json Units) (es : List (Json Units))
    (htokens : ∀ t ∈ numbers e, IsToken t) :
    ∃ c rest, joinComma (renderElements (e :: es)) = c :: rest ∧ isSpace c = false ∧
      c ≠ closeBracket := by
  obtain ⟨c, t, ht, hspace, hclose⟩ := render_cons e htokens
  cases es with
  | nil => exact ⟨c, t, ht, hspace, hclose⟩
  | cons e' es =>
    refine ⟨c, t ++ comma :: joinComma (renderElements (e' :: es)), ?_, hspace, hclose⟩
    rw [renderElements, ht]
    rfl

theorem joinComma_member (k : Units) (v : Json Units) (ms : List (Units × Json Units)) :
    ∃ rest, joinComma (renderMembers ((k, v) :: ms)) = quote :: rest := by
  rw [renderMembers, stringText]
  cases ms with
  | nil => exact ⟨_, rfl⟩
  | cons m ms =>
    obtain ⟨k', v'⟩ := m
    exact ⟨_, rfl⟩

mutual

/-- A value is read back, and what is behind it is left. -/
theorem readValue_render (j : Json Units) {fuel : Nat} {rest : Units} (hsize : size j ≤ fuel)
    (htokens : ∀ t ∈ numbers j, IsToken t) (hrest : Stops rest) :
    readValue fuel (render j ++ rest) = some (j, rest) := by
  obtain ⟨fuel, rfl⟩ : ∃ n, fuel = n + 1 := by
    refine Nat.exists_eq_succ_of_ne_zero (Nat.ne_of_gt (Nat.lt_of_lt_of_le ?_ hsize))
    cases j <;> rw [size] <;> omega
  match j with
  | .null => rfl
  | .boolean true => rfl
  | .boolean false => rfl
  | .number t =>
    have ht := htokens t (by rw [numbers]; exact List.mem_cons_self)
    obtain ⟨c, t, rfl⟩ := List.exists_cons_of_ne_nil ht.1
    have hc : isNumeral c = true := ht.2 c List.mem_cons_self
    have hne : ∀ d, isNumeral d = false → c ≠ d := by
      rintro d hd rfl
      exact Bool.false_ne_true (hd.symm.trans hc)
    have hspace : isSpace c = false := (isSpace_of_isNumeral hc)
    obtain ⟨htake, hdrop⟩ := takeWhile_token ht hrest
    rw [render, List.cons_append, readValue, skipSpace_cons hspace]
    dsimp only
    rw [if_neg (hne _ (by decide)), if_neg (hne _ (by decide)), if_neg (hne _ (by decide)),
      if_pos hc, ← List.cons_append, htake, hdrop]
  | .string s =>
    rw [render, stringText, List.cons_append, List.append_assoc, readValue,
      skipSpace_cons (by decide)]
    dsimp only
    rw [if_pos rfl, List.singleton_append, readString_stringText]
    rfl
  | .array [] => rfl
  | .array (e :: es) =>
    rw [size] at hsize
    rw [numbers] at htokens
    obtain ⟨c, t, hc, hspace, hclose⟩ := joinComma_cons e es
      fun t ht => htokens t (by rw [numbersElements]; exact List.mem_append_left _ ht)
    rw [render, List.cons_append, List.append_assoc, readValue, skipSpace_cons (by decide)]
    dsimp only
    rw [if_neg (by decide), if_pos rfl, List.singleton_append,
      readElements_render e es (by omega) htokens, hc, List.cons_append, skipSpace_cons hspace]
    dsimp only
    rw [if_neg hclose]
    rfl
  | .object [] => rfl
  | .object ((k, v) :: ms) =>
    rw [size] at hsize
    rw [numbers] at htokens
    obtain ⟨t, ht⟩ := joinComma_member k v ms
    rw [render, List.cons_append, List.append_assoc, readValue, skipSpace_cons (by decide)]
    dsimp only
    rw [if_neg (by decide), if_neg (by decide), if_pos rfl, List.singleton_append,
      readMembers_render k v ms (by omega) htokens, ht, List.cons_append,
      skipSpace_cons (by decide)]
    dsimp only
    rw [if_neg (by decide)]
    rfl
termination_by fuel

theorem readElements_render (e : Json Units) (es : List (Json Units)) {fuel : Nat} {rest : Units}
    (hsize : sizeElements (e :: es) ≤ fuel) (htokens : ∀ t ∈ numbersElements (e :: es), IsToken t) :
    readElements fuel (joinComma (renderElements (e :: es)) ++ closeBracket :: rest) =
      some (e :: es, rest) := by
  rw [sizeElements] at hsize
  rw [numbersElements, List.forall_mem_append] at htokens
  obtain ⟨fuel, rfl⟩ : ∃ n, fuel = n + 1 :=
    Nat.exists_eq_succ_of_ne_zero (by omega)
  match es with
  | [] =>
    show readElements (fuel + 1) (render e ++ closeBracket :: rest) = _
    rw [readElements, readValue_render e (by omega) htokens.1 (stops_cons (by decide))]
    show (match skipSpace (closeBracket :: rest) with
      | [] => none
      | c :: rest => _) = _
    rw [skipSpace_cons (by decide)]
    rfl
  | e' :: es =>
    rw [renderElements, renderElements, joinComma_cons_cons, List.append_assoc, List.cons_append,
      readElements, readValue_render e (by omega) htokens.1 (stops_cons (by decide))]
    rw [Option.bind_some]
    dsimp only
    rw [skipSpace_cons (by decide)]
    dsimp only
    rw [if_pos rfl, ← renderElements, readElements_render e' es (by omega) htokens.2]
    rfl
termination_by fuel

theorem readMembers_render (k : Units) (v : Json Units) (ms : List (Units × Json Units))
    {fuel : Nat} {rest : Units} (hsize : sizeMembers ((k, v) :: ms) ≤ fuel)
    (htokens : ∀ t ∈ numbersMembers ((k, v) :: ms), IsToken t) :
    readMembers fuel (joinComma (renderMembers ((k, v) :: ms)) ++ closeBrace :: rest) =
      some ((k, v) :: ms, rest) := by
  rw [sizeMembers] at hsize
  rw [numbersMembers, List.forall_mem_append] at htokens
  obtain ⟨fuel, rfl⟩ : ∃ n, fuel = n + 1 :=
    Nat.exists_eq_succ_of_ne_zero (by omega)
  -- the key, the colon and the value, whatever ends the value
  have hmember : ∀ tail, Stops tail →
      readMembers (fuel + 1) (stringText k ++ colon :: render v ++ tail) =
        match skipSpace tail with
        | [] => none
        | c :: rest =>
            if c = comma then
              (readMembers fuel rest).map fun (ms, rest) => ((k, v) :: ms, rest)
            else if c = closeBrace then some ([(k, v)], rest)
            else none := by
    intro tail htail
    rw [List.append_assoc, List.cons_append, stringText, List.cons_append, List.append_assoc,
      List.singleton_append, readMembers, skipSpace_cons (by decide)]
    dsimp only
    rw [if_pos rfl, readString_stringText, Option.bind_some]
    dsimp only
    rw [skipSpace_cons (by decide)]
    dsimp only
    rw [if_pos rfl, readValue_render v (by omega) htokens.1 htail, Option.bind_some]
  match ms with
  | [] =>
    show readMembers (fuel + 1) (stringText k ++ colon :: render v ++ closeBrace :: rest) = _
    rw [hmember _ (stops_cons (by decide)), skipSpace_cons (by decide)]
    rfl
  | (k', v') :: ms =>
    rw [renderMembers, renderMembers, joinComma_cons_cons, List.append_assoc, List.cons_append,
      hmember _ (stops_cons (by decide)), skipSpace_cons (by decide)]
    dsimp only
    rw [if_pos rfl, ← renderMembers, readMembers_render k' v' ms (by omega) htokens.2]
    rfl
termination_by fuel

end

mutual

theorem size_le_length (j : Json Units) (htokens : ∀ t ∈ numbers j, IsToken t) :
    size j ≤ (render j).length := by
  match j with
  | .null => exact Nat.succ_le_succ (Nat.zero_le _)
  | .boolean true => exact Nat.succ_le_succ (Nat.zero_le _)
  | .boolean false => exact Nat.succ_le_succ (Nat.zero_le _)
  | .number t =>
    have ht := htokens t (by rw [numbers]; exact List.mem_cons_self)
    rw [size, render]
    exact List.length_pos_of_ne_nil ht.1
  | .string s =>
    rw [size, render, stringText, List.length_cons]
    omega
  | .array es =>
    rw [numbers] at htokens
    have := sizeElements_le_length es htokens
    rw [size, render, List.length_cons, List.length_append, List.length_singleton]
    omega
  | .object ms =>
    rw [numbers] at htokens
    have := sizeMembers_le_length ms htokens
    rw [size, render, List.length_cons, List.length_append, List.length_singleton]
    omega

theorem sizeElements_le_length (es : List (Json Units))
    (htokens : ∀ t ∈ numbersElements es, IsToken t) :
    sizeElements es ≤ (joinComma (renderElements es)).length + 1 := by
  match es with
  | [] => exact Nat.zero_le _
  | [e] =>
    rw [numbersElements, List.forall_mem_append] at htokens
    have := size_le_length e htokens.1
    show 1 + size e + 0 ≤ (render e).length + 1
    omega
  | e :: e' :: es =>
    rw [numbersElements, List.forall_mem_append] at htokens
    have := size_le_length e htokens.1
    have := sizeElements_le_length (e' :: es) htokens.2
    rw [renderElements, renderElements, joinComma_cons_cons, ← renderElements, sizeElements,
      List.length_append, List.length_cons]
    omega

theorem sizeMembers_le_length (ms : List (Units × Json Units))
    (htokens : ∀ t ∈ numbersMembers ms, IsToken t) :
    sizeMembers ms ≤ (joinComma (renderMembers ms)).length + 1 := by
  match ms with
  | [] => exact Nat.zero_le _
  | [(k, v)] =>
    rw [numbersMembers, List.forall_mem_append] at htokens
    have := size_le_length v htokens.1
    show 1 + size v + 0 ≤ (stringText k ++ colon :: render v).length + 1
    rw [List.length_append, List.length_cons]
    omega
  | (k, v) :: (k', v') :: ms =>
    rw [numbersMembers, List.forall_mem_append] at htokens
    have := size_le_length v htokens.1
    have := sizeMembers_le_length ((k', v') :: ms) htokens.2
    rw [renderMembers, renderMembers, joinComma_cons_cons, ← renderMembers, sizeMembers,
      List.length_append, List.length_append, List.length_cons, List.length_cons]
    omega

end

/-- A value is read back from its text. -/
theorem read_render {j : Json Units} (htokens : ∀ t ∈ numbers j, IsToken t) :
    read (render j) = some j := by
  have hvalue : readValue ((render j).length + 1) (render j ++ []) = some (j, []) :=
    readValue_render j (Nat.le_succ_of_le (size_le_length j htokens)) htokens
      fun c rest h => nomatch h
  rw [List.append_nil] at hvalue
  rw [read, hvalue]
  rfl

/-- A text has one value. -/
theorem render_injective {j j' : Json Units} (htokens : ∀ t ∈ numbers j, IsToken t)
    (htokens' : ∀ t ∈ numbers j', IsToken t) (h : render j = render j') : j = j' :=
  Option.some.inj ((read_render htokens).symm.trans (h ▸ read_render htokens'))

/-! ## Numbers of another kind -/

mutual

/-- Replace every number, where each has a replacement. -/
def mapNumbers (f : ν → Option μ) : Json ν → Option (Json μ)
  | .null => some .null
  | .boolean b => some (.boolean b)
  | .number n => (f n).map .number
  | .string s => some (.string s)
  | .array es => (mapElements f es).map .array
  | .object ms => (mapMembers f ms).map .object

def mapElements (f : ν → Option μ) : List (Json ν) → Option (List (Json μ))
  | [] => some []
  | e :: es => (mapNumbers f e).bind fun e' => (mapElements f es).map (e' :: ·)

def mapMembers (f : ν → Option μ) : List (Units × Json ν) → Option (List (Units × Json μ))
  | [] => some []
  | (k, v) :: ms => (mapNumbers f v).bind fun v' => (mapMembers f ms).map ((k, v') :: ·)

end

mutual

/-- The numbers of a value whose numbers were replaced. -/
theorem numbers_mapNumbers {f : ν → Option μ} (j : Json ν) {j' : Json μ}
    (h : mapNumbers f j = some j') : (numbers j).mapM f = some (numbers j') := by
  match j with
  | .null => cases h; rfl
  | .boolean b => cases h; rfl
  | .string s => cases h; rfl
  | .number n =>
    rw [mapNumbers, Option.map_eq_some_iff] at h
    obtain ⟨m, hm, rfl⟩ := h
    rw [numbers, numbers, List.mapM_cons, hm]
    rfl
  | .array es =>
    rw [mapNumbers, Option.map_eq_some_iff] at h
    obtain ⟨es', hes, rfl⟩ := h
    rw [numbers, numbers]
    exact numbers_mapElements es hes
  | .object ms =>
    rw [mapNumbers, Option.map_eq_some_iff] at h
    obtain ⟨ms', hms, rfl⟩ := h
    rw [numbers, numbers]
    exact numbers_mapMembers ms hms

theorem numbers_mapElements {f : ν → Option μ} (es : List (Json ν)) {es' : List (Json μ)}
    (h : mapElements f es = some es') :
    (numbersElements es).mapM f = some (numbersElements es') := by
  match es with
  | [] => cases h; rfl
  | e :: es =>
    rw [mapElements, Option.bind_eq_some_iff] at h
    obtain ⟨e', he, h⟩ := h
    obtain ⟨es', hes, rfl⟩ := Option.map_eq_some_iff.mp h
    rw [numbersElements, numbersElements, List.mapM_append, numbers_mapNumbers e he,
      numbers_mapElements es hes]
    rfl

theorem numbers_mapMembers {f : ν → Option μ} (ms : List (Units × Json ν))
    {ms' : List (Units × Json μ)} (h : mapMembers f ms = some ms') :
    (numbersMembers ms).mapM f = some (numbersMembers ms') := by
  match ms with
  | [] => cases h; rfl
  | (k, v) :: ms =>
    rw [mapMembers, Option.bind_eq_some_iff] at h
    obtain ⟨v', hv, h⟩ := h
    obtain ⟨ms', hms, rfl⟩ := Option.map_eq_some_iff.mp h
    rw [numbersMembers, numbersMembers, List.mapM_append, numbers_mapNumbers v hv,
      numbers_mapMembers ms hms]
    rfl

end

mutual

/-- Nothing changes exactly where no number does. -/
theorem mapNumbers_eq_self_iff {f : ν → Option ν} (j : Json ν) :
    mapNumbers f j = some j ↔ ∀ n ∈ numbers j, f n = some n := by
  match j with
  | .null => exact ⟨fun _ _ h => (nomatch h), fun _ => rfl⟩
  | .boolean b => exact ⟨fun _ _ h => (nomatch h), fun _ => rfl⟩
  | .string s => exact ⟨fun _ _ h => (nomatch h), fun _ => rfl⟩
  | .number n =>
    rw [mapNumbers, numbers, List.forall_mem_singleton, Option.map_eq_some_iff]
    constructor
    · rintro ⟨m, hm, heq⟩
      cases heq
      exact hm
    · exact fun h => ⟨n, h, rfl⟩
  | .array es =>
    rw [mapNumbers, numbers, ← mapElements_eq_self_iff es, Option.map_eq_some_iff]
    constructor
    · rintro ⟨es', hes, heq⟩
      cases heq
      exact hes
    · exact fun h => ⟨es, h, rfl⟩
  | .object ms =>
    rw [mapNumbers, numbers, ← mapMembers_eq_self_iff ms, Option.map_eq_some_iff]
    constructor
    · rintro ⟨ms', hms, heq⟩
      cases heq
      exact hms
    · exact fun h => ⟨ms, h, rfl⟩

theorem mapElements_eq_self_iff {f : ν → Option ν} (es : List (Json ν)) :
    mapElements f es = some es ↔ ∀ n ∈ numbersElements es, f n = some n := by
  match es with
  | [] => exact ⟨fun _ _ h => (nomatch h), fun _ => rfl⟩
  | e :: es =>
    rw [numbersElements, List.forall_mem_append, ← mapNumbers_eq_self_iff e,
      ← mapElements_eq_self_iff es, mapElements, Option.bind_eq_some_iff]
    constructor
    · rintro ⟨e', he, h⟩
      obtain ⟨es', hes, heq⟩ := Option.map_eq_some_iff.mp h
      cases heq
      exact ⟨he, hes⟩
    · exact fun ⟨he, hes⟩ => ⟨e, he, Option.map_eq_some_iff.mpr ⟨es, hes, rfl⟩⟩

theorem mapMembers_eq_self_iff {f : ν → Option ν} (ms : List (Units × Json ν)) :
    mapMembers f ms = some ms ↔ ∀ n ∈ numbersMembers ms, f n = some n := by
  match ms with
  | [] => exact ⟨fun _ _ h => (nomatch h), fun _ => rfl⟩
  | (k, v) :: ms =>
    rw [numbersMembers, List.forall_mem_append, ← mapNumbers_eq_self_iff v,
      ← mapMembers_eq_self_iff ms, mapMembers, Option.bind_eq_some_iff]
    constructor
    · rintro ⟨v', hv, h⟩
      obtain ⟨ms', hms, heq⟩ := Option.map_eq_some_iff.mp h
      cases heq
      exact ⟨hv, hms⟩
    · exact fun ⟨hv, hms⟩ => ⟨v, hv, Option.map_eq_some_iff.mpr ⟨ms, hms, rfl⟩⟩

end

end Json

end Runar.Logic
