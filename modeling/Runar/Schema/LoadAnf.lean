/-
  Schema/LoadAnf.lean --- loading a program from JSON.

  WHAT THIS FILE IS FOR.  The compilers write the integers of a program as numbers, as decimal
  strings or as strings that end in `n`.  The loader of the TypeScript compiler revives the last
  kind and takes the others as `JSON.parse` gives them.  This file has the loader and says for
  which spellings it gives back the program that was written.

  LEFT OUT: texts in which an object has a key twice; the numbers in the errors.
-/
import Runar.Schema.CanonicalRoundTrip

set_option autoImplicit false

namespace Runar.Schema.LoadAnf

open Logic Logic.Json Canonical

/-! ## The loader -/

/-- `/^-?\d+n$/` and what `BigInt` makes of the text before the `n`. -/
def readBigInt (t : List Char) : Option Int :=
  if t.getLast? = some 'n' then
    let body := t.dropLast
    let negative := body.head? = some '-'
    let digits := if negative then body.tail else body
    if digits ≠ [] ∧ digits.all Char.isDigit = true then
      let magnitude : Int := Nat.ofDigitChars 10 digits 0
      some (if negative then -magnitude else magnitude)
    else none
  else none

/-- The reviver on a string. -/
def reviveString (s : Units) : JsValue :=
  match readBigInt (chars s) with
  | some n => .numeric (.bigint n)
  | none => .string s

mutual

/-- The reviver on every value of a tree. -/
def revive : JsValue → JsValue
  | .undefined => .undefined
  | .null => .null
  | .boolean b => .boolean b
  | .numeric n => .numeric n
  | .string s => reviveString s
  | .array es => .array (reviveElements es)
  | .object ms => .object (reviveMembers ms)

def reviveElements : List JsValue → List JsValue
  | [] => []
  | e :: es => revive e :: reviveElements es

def reviveMembers : List (Units × JsValue) → List (Units × JsValue)
  | [] => []
  | (k, v) :: ms => (k, revive v) :: reviveMembers ms

end

mutual

/-- No array or object lies deeper than the limit. -/
def withinNesting (limit depth : Nat) : JsValue → Bool
  | .array es => decide (depth ≤ limit) && elementsWithin limit (depth + 1) es
  | .object ms => decide (depth ≤ limit) && membersWithin limit (depth + 1) ms
  | .undefined | .null | .boolean _ | .numeric _ | .string _ => true

def elementsWithin (limit depth : Nat) : List JsValue → Bool
  | [] => true
  | e :: es => withinNesting limit depth e && elementsWithin limit depth es

def membersWithin (limit depth : Nat) : List (Units × JsValue) → Bool
  | [] => true
  | (_, v) :: ms => withinNesting limit depth v && membersWithin limit depth ms

end

inductive LoadError where
  /-- `CanonicalJsonError` -/
  | bytes | invalid | depth
  /-- `loadANFFromJSON: top-level value is not an object` -/
  | notAnObject
  /-- `loadANFFromJSON: missing string field "contractName"` -/
  | contractName
  /-- `loadANFFromJSON: missing array field "properties"` -/
  | properties
  /-- `loadANFFromJSON: missing array field "methods"` -/
  | methods
  deriving DecidableEq, Repr

/-- A member of an object. -/
def member (ms : List (Units × JsValue)) (key : String) : Option JsValue :=
  (ms.find? (·.1 == word key)).map (·.2)

def JsValue.isString : JsValue → Bool
  | .string _ => true
  | _ => false

def JsValue.isArray : JsValue → Bool
  | .array _ => true
  | _ => false

/-- The fields that every program has; an array has none of them. -/
def checkProgram : JsValue → Except LoadError Unit
  | .object ms =>
      if ((member ms "contractName").map JsValue.isString).getD false = false then
        .error .contractName
      else if ((member ms "properties").map JsValue.isArray).getD false = false then
        .error .properties
      else if ((member ms "methods").map JsValue.isArray).getD false = false then
        .error .methods
      else .ok ()
  | .array _ => .error .contractName
  | _ => .error .notAnObject

def loadANFFromJSON (json : Units) : Except LoadError JsValue :=
  if byteLength json > MAX_IR_BYTES then .error .bytes
  else
    match parse json with
    | none => .error .invalid
    | some value => do
        let parsed := revive value
        if withinNesting MAX_NESTING 0 parsed = false then .error .depth
        else
          checkProgram parsed
          .ok parsed

/-! ## Spelled programs -/

/-- How an integer is written. -/
inductive Spelling where
  /-- a plain number -/
  | plain
  /-- a decimal string -/
  | decimal
  /-- a string that ends in `n` -/
  | suffixed
  deriving DecidableEq, Repr

/-- An integer of a program: a bigint (a constant, a start, an initial value), or a count that
is a number in memory. -/
structure IntegerLeaf where
  isBigint : Bool
  value : Int
  spelling : Spelling
  deriving DecidableEq, Repr

/-- The integer in memory. -/
def IntegerLeaf.inMemory (leaf : IntegerLeaf) : JsNumber :=
  if leaf.isBigint then .bigint leaf.value else .number (nearestDouble leaf.value)

/-- The integer in the text. -/
def IntegerLeaf.spell (leaf : IntegerLeaf) : Json Units :=
  match leaf.spelling with
  | .plain => .number (token leaf.value)
  | .decimal => .string (token leaf.value)
  | .suffixed => .string (units (intText leaf.value ++ ['n']))

mutual

/-- The value of a program, given those of its integers and of its strings. -/
def valueWith (integer : IntegerLeaf → JsValue) (string : Units → JsValue) :
    Json IntegerLeaf → JsValue
  | .null => .null
  | .boolean b => .boolean b
  | .number leaf => integer leaf
  | .string s => string s
  | .array es => .array (elementsWith integer string es)
  | .object ms => .object (membersWith integer string ms)

def elementsWith (integer : IntegerLeaf → JsValue) (string : Units → JsValue) :
    List (Json IntegerLeaf) → List JsValue
  | [] => []
  | e :: es => valueWith integer string e :: elementsWith integer string es

def membersWith (integer : IntegerLeaf → JsValue) (string : Units → JsValue) :
    List (Units × Json IntegerLeaf) → List (Units × JsValue)
  | [] => []
  | (k, v) :: ms => (k, valueWith integer string v) :: membersWith integer string ms

end

/-- The program in memory. -/
def inMemory (p : Json IntegerLeaf) : JsValue :=
  valueWith (fun leaf => .numeric leaf.inMemory) .string p

mutual

/-- The program as it is written. -/
def spell : Json IntegerLeaf → Json Units
  | .null => .null
  | .boolean b => .boolean b
  | .number leaf => leaf.spell
  | .string s => .string s
  | .array es => .array (spellElements es)
  | .object ms => .object (spellMembers ms)

def spellElements : List (Json IntegerLeaf) → List (Json Units)
  | [] => []
  | e :: es => spell e :: spellElements es

def spellMembers : List (Units × Json IntegerLeaf) → List (Units × Json Units)
  | [] => []
  | (k, v) :: ms => (k, spell v) :: spellMembers ms

end

mutual

/-- The strings of a program. -/
def strings : Json IntegerLeaf → List Units
  | .string s => [s]
  | .array es => stringsElements es
  | .object ms => stringsMembers ms
  | .null | .boolean _ | .number _ => []

def stringsElements : List (Json IntegerLeaf) → List Units
  | [] => []
  | e :: es => strings e ++ stringsElements es

def stringsMembers : List (Units × Json IntegerLeaf) → List Units
  | [] => []
  | (_, v) :: ms => strings v ++ stringsMembers ms

end

/-- The spelling that comes back: a bigint with its `n`, a number plainly. -/
def IntegerLeaf.Faithful (leaf : IntegerLeaf) : Prop :=
  leaf.spelling = if leaf.isBigint then .suffixed else .plain

instance (leaf : IntegerLeaf) : Decidable leaf.Faithful := by
  unfold IntegerLeaf.Faithful
  infer_instance

/-! ## Strings and integers that are revived -/

theorem chars_units_suffixed (n : Int) :
    chars (units (intText n ++ ['n'])) = intText n ++ ['n'] := by
  have htext := chars_units (isNumberText_intText n)
  unfold chars units at htext ⊢
  rw [List.map_append, List.map_append, htext]
  rfl

theorem readBigInt_suffixed (n : Int) : readBigInt (intText n ++ ['n']) = some n := by
  have hdigits : ∀ a : Nat, (Nat.toDigits 10 a).all Char.isDigit = true := fun a =>
    List.all_eq_true.mpr fun _ hc => isDigit_toDigits hc
  have hsign : ∀ a : Nat, (Nat.toDigits 10 a).head? ≠ some '-' := by
    intro a hhead
    have hdigit : ('-' : Char).isDigit = true := isDigit_toDigits (List.mem_of_mem_head? hhead)
    exact absurd hdigit (by decide)
  simp only [readBigInt, List.getLast?_concat, List.dropLast_concat, if_true]
  unfold intText
  by_cases hneg : n < 0
  · simp only [if_pos hneg, List.head?_cons, List.tail_cons, if_true, Nat.toDigits_ne_nil, ne_eq,
      not_false_eq_true, hdigits, and_self, Nat.ofDigitChars_ten_toDigits]
    exact congrArg some (by omega)
  · simp only [if_neg hneg, hsign, if_false, Nat.toDigits_ne_nil, ne_eq, not_false_eq_true,
      hdigits, and_self, if_true, Nat.ofDigitChars_ten_toDigits]
    exact congrArg some (by omega)

/-- Text that does not end in `n` is no bigint. -/
theorem readBigInt_of_getLast {t : List Char} (h : t.getLast? ≠ some 'n') : readBigInt t = none :=
  if_neg h

/-- The text of a number does not end in `n`. -/
theorem readBigInt_intText (n : Int) : readBigInt (intText n) = none := by
  refine readBigInt_of_getLast fun hlast => ?_
  have hmem : 'n' ∈ intText n := List.mem_of_mem_getLast? hlast
  have hchar := (isNumberText_intText n).2 'n' hmem
  exact absurd hchar (by decide)

theorem reviveString_eq_string_iff {s : Units} :
    reviveString s = .string s ↔ readBigInt (chars s) = none := by
  rw [reviveString]
  cases readBigInt (chars s) with
  | none => exact iff_of_true rfl rfl
  | some n => exact iff_of_false (fun h => nomatch h) (fun h => nomatch h)

theorem reviveString_token (n : Int) : reviveString (token n) = .string (token n) := by
  rw [reviveString_eq_string_iff, token, chars_units (isNumberText_intText n)]
  exact readBigInt_intText n

theorem reviveString_suffixed (n : Int) :
    reviveString (units (intText n ++ ['n'])) = .numeric (.bigint n) := by
  rw [reviveString, chars_units_suffixed, readBigInt_suffixed]

/-- The code units of hex digits. -/
def IsHexText (s : Units) : Prop := ∀ u ∈ s, (hexValue u).isSome

theorem lt_of_hexValue {u : UInt16} (h : (hexValue u).isSome) : u.toNat < 110 := by
  have hle : u ≤ 0x66 := by
    unfold hexValue at h
    split at h
    · next hdigit => exact UInt16.le_trans hdigit.2 (by decide)
    · split at h
      · next hlower => exact hlower.2
      · split at h
        · next hupper => exact UInt16.le_trans hupper.2 (by decide)
        · exact nomatch h
  exact Nat.lt_of_le_of_lt (UInt16.le_iff_toNat_le.mp hle) (by decide)

/-- No hex text is taken for a number. -/
theorem reviveString_hex {s : Units} (h : IsHexText s) : reviveString s = .string s := by
  refine reviveString_eq_string_iff.mpr (readBigInt_of_getLast fun hlast => ?_)
  obtain ⟨u, hu, hn⟩ := List.mem_map.mp (List.mem_of_mem_getLast? hlast)
  have hbelow : ∀ m < 110, Char.ofNat m ≠ 'n' := by decide
  exact hbelow u.toNat (lt_of_hexValue (h u hu)) hn

/-! ## What is loaded -/

/-- The integer after parsing and reviving. -/
def IntegerLeaf.loaded (leaf : IntegerLeaf) : JsValue :=
  match leaf.spelling with
  | .plain => .numeric (.number (nearestDouble leaf.value))
  | .decimal => .string (token leaf.value)
  | .suffixed => .numeric (.bigint leaf.value)

theorem IntegerLeaf.fromTokens_spell (leaf : IntegerLeaf) :
    (fromTokens leaf.spell).map revive = some leaf.loaded := by
  rw [IntegerLeaf.spell, IntegerLeaf.loaded]
  cases leaf.spelling with
  | plain =>
    rw [fromTokens, token, chars_units (isNumberText_intText _), readNumber_intText]
    rfl
  | decimal => exact congrArg some (reviveString_token leaf.value)
  | suffixed => exact congrArg some (reviveString_suffixed leaf.value)

/-- An integer comes back exactly where a bigint has its `n` and a number has none. -/
theorem IntegerLeaf.loaded_eq_iff (leaf : IntegerLeaf) :
    leaf.loaded = .numeric leaf.inMemory ↔ leaf.Faithful := by
  obtain ⟨isBigint, value, spelling⟩ := leaf
  cases isBigint <;> cases spelling <;>
    simp [IntegerLeaf.loaded, IntegerLeaf.inMemory, IntegerLeaf.Faithful]

/-- The program after parsing and reviving. -/
def loaded (p : Json IntegerLeaf) : JsValue := valueWith IntegerLeaf.loaded reviveString p

mutual

theorem fromTokens_spell : ∀ p : Json IntegerLeaf,
    (fromTokens (spell p)).map revive = some (loaded p)
  | .null => rfl
  | .boolean _ => rfl
  | .number leaf => leaf.fromTokens_spell
  | .string _ => rfl
  | .array es => by
      obtain ⟨vs, hvs, hrevived⟩ := Option.map_eq_some_iff.mp (fromElements_spell es)
      rw [spell, fromTokens, hvs, loaded, valueWith, ← hrevived]
      rfl
  | .object ms => by
      obtain ⟨vs, hvs, hrevived⟩ := Option.map_eq_some_iff.mp (fromMembers_spell ms)
      rw [spell, fromTokens, hvs, loaded, valueWith, ← hrevived]
      rfl

theorem fromElements_spell : ∀ es : List (Json IntegerLeaf),
    (fromElements (spellElements es)).map reviveElements =
      some (elementsWith IntegerLeaf.loaded reviveString es)
  | [] => rfl
  | e :: es => by
      obtain ⟨v, hv, hhead⟩ := Option.map_eq_some_iff.mp (fromTokens_spell e)
      obtain ⟨vs, hvs, htail⟩ := Option.map_eq_some_iff.mp (fromElements_spell es)
      rw [spellElements, fromElements, hv, hvs, elementsWith, ← htail]
      exact congrArg some (congrArg (· :: reviveElements vs) hhead)

theorem fromMembers_spell : ∀ ms : List (Units × Json IntegerLeaf),
    (fromMembers (spellMembers ms)).map reviveMembers =
      some (membersWith IntegerLeaf.loaded reviveString ms)
  | [] => rfl
  | (k, v) :: ms => by
      obtain ⟨v', hv, hhead⟩ := Option.map_eq_some_iff.mp (fromTokens_spell v)
      obtain ⟨vs, hvs, htail⟩ := Option.map_eq_some_iff.mp (fromMembers_spell ms)
      rw [spellMembers, fromMembers, hv, hvs, membersWith, ← htail]
      exact congrArg some (congrArg (fun w => (k, w) :: reviveMembers vs) hhead)

end

section

variable {integer integer' : IntegerLeaf → JsValue} {string string' : Units → JsValue}

mutual

/-- Two values of a program are one exactly where they agree on its integers and its strings. -/
theorem valueWith_eq_iff : ∀ p : Json IntegerLeaf,
    valueWith integer string p = valueWith integer' string' p ↔
      (∀ leaf ∈ numbers p, integer leaf = integer' leaf) ∧
        ∀ s ∈ strings p, string s = string' s
  | .null => by simp [valueWith, numbers, strings]
  | .boolean _ => by simp [valueWith, numbers, strings]
  | .number leaf => by simp [valueWith, numbers, strings]
  | .string s => by simp [valueWith, numbers, strings]
  | .array es => by
      rw [valueWith, valueWith, JsValue.array.injEq, numbers, strings]
      exact elementsWith_eq_iff es
  | .object ms => by
      rw [valueWith, valueWith, JsValue.object.injEq, numbers, strings]
      exact membersWith_eq_iff ms

theorem elementsWith_eq_iff : ∀ es : List (Json IntegerLeaf),
    elementsWith integer string es = elementsWith integer' string' es ↔
      (∀ leaf ∈ numbersElements es, integer leaf = integer' leaf) ∧
        ∀ s ∈ stringsElements es, string s = string' s
  | [] => by simp [elementsWith, numbersElements, stringsElements]
  | e :: es => by
      rw [elementsWith, elementsWith, List.cons.injEq, valueWith_eq_iff e, elementsWith_eq_iff es,
        numbersElements, stringsElements, List.forall_mem_append, List.forall_mem_append]
      exact and_and_and_comm

theorem membersWith_eq_iff : ∀ ms : List (Units × Json IntegerLeaf),
    membersWith integer string ms = membersWith integer' string' ms ↔
      (∀ leaf ∈ numbersMembers ms, integer leaf = integer' leaf) ∧
        ∀ s ∈ stringsMembers ms, string s = string' s
  | [] => by simp [membersWith, numbersMembers, stringsMembers]
  | (k, v) :: ms => by
      rw [membersWith, membersWith, List.cons.injEq, Prod.mk.injEq, valueWith_eq_iff v,
        membersWith_eq_iff ms, numbersMembers, stringsMembers, List.forall_mem_append,
        List.forall_mem_append]
      simp only [true_and]
      exact and_and_and_comm

end

end

/-- A program comes back exactly where its integers do and no string of it is read as one. -/
theorem loaded_eq_inMemory_iff (p : Json IntegerLeaf) :
    loaded p = inMemory p ↔
      (∀ leaf ∈ numbers p, leaf.Faithful) ∧ ∀ s ∈ strings p, readBigInt (chars s) = none := by
  rw [loaded, inMemory, valueWith_eq_iff]
  simp only [IntegerLeaf.loaded_eq_iff, reviveString_eq_string_iff]

/-- What the loader makes of the text of a program. -/
theorem loadANFFromJSON_spell {p : Json IntegerLeaf} {text : Units}
    (htext : Json.read text = some (spell p)) :
    loadANFFromJSON text =
      if byteLength text > MAX_IR_BYTES then .error .bytes
      else if withinNesting MAX_NESTING 0 (loaded p) = false then .error .depth
      else (checkProgram (loaded p)).map fun _ => loaded p := by
  obtain ⟨v, hv, hrevived⟩ := Option.map_eq_some_iff.mp (fromTokens_spell p)
  have hparse : parse text = some v := by rw [parse, htext, Option.bind_some, hv]
  rw [loadANFFromJSON, hparse, ← hrevived]
  split
  · rfl
  · dsimp only
    split
    · rfl
    · cases checkProgram (revive v) <;> rfl

theorem loaded_eq_of_load {p : Json IntegerLeaf} {text : Units} {v : JsValue}
    (htext : Json.read text = some (spell p)) (hload : loadANFFromJSON text = .ok v) :
    byteLength text ≤ MAX_IR_BYTES ∧ withinNesting MAX_NESTING 0 (loaded p) = true ∧
      loaded p = v := by
  rw [loadANFFromJSON_spell htext] at hload
  split at hload
  · exact nomatch hload
  · next hbytes =>
    split at hload
    · exact nomatch hload
    · next hdepth =>
      refine ⟨Nat.le_of_not_lt hbytes, Bool.not_eq_false _ ▸ hdepth, ?_⟩
      cases hcheck : checkProgram (loaded p) with
      | error e =>
        rw [hcheck] at hload
        exact nomatch hload
      | ok _ =>
        rw [hcheck] at hload
        exact Except.ok.inj hload

/-- **Loading**: a program comes back from its text exactly where the text is within the limits,
each bigint ends in `n`, each count is a plain number and no string looks like a bigint.  A hex
string stays a string everywhere. -/
theorem loadANFFromJSON_exact_iff (p : Json IntegerLeaf) (text : Units)
    (htext : Json.read text = some (spell p)) (hprogram : checkProgram (inMemory p) = .ok ()) :
    (loadANFFromJSON text = .ok (inMemory p) ∧
        ∀ s : Units, IsHexText s → reviveString s = .string s) ↔
      byteLength text ≤ MAX_IR_BYTES ∧ withinNesting MAX_NESTING 0 (inMemory p) = true ∧
        (∀ leaf ∈ numbers p, leaf.Faithful) ∧
        ∀ s ∈ strings p, readBigInt (chars s) = none := by
  rw [← loaded_eq_inMemory_iff]
  constructor
  · rintro ⟨hload, -⟩
    obtain ⟨hbytes, hdepth, hloaded⟩ := loaded_eq_of_load htext hload
    exact ⟨hbytes, hloaded ▸ hdepth, hloaded⟩
  · rintro ⟨hbytes, hdepth, hloaded⟩
    refine ⟨?_, fun s hs => reviveString_hex hs⟩
    rw [loadANFFromJSON_spell htext, hloaded, if_neg (Nat.not_lt.mpr hbytes),
      if_neg (by rw [hdepth]; decide), hprogram]
    rfl

/-- A program of one constant. -/
def constantProgram (leaf : IntegerLeaf) : Json IntegerLeaf :=
  .object [(word "contractName", .string (word "P")), (word "properties", .array []),
    (word "methods", .array [.object [(word "value", .number leaf)]])]

theorem checkProgram_constantProgram (leaf : IntegerLeaf) :
    checkProgram (inMemory (constantProgram leaf)) = .ok () := rfl

theorem loadANFFromJSON_exact_iff_suffixed :
    (loadANFFromJSON (render (spell (constantProgram ⟨true, 42, .suffixed⟩))) =
        .ok (inMemory (constantProgram ⟨true, 42, .suffixed⟩)) ∧
        ∀ s : Units, IsHexText s → reviveString s = .string s) ↔
      byteLength (render (spell (constantProgram ⟨true, 42, .suffixed⟩))) ≤ MAX_IR_BYTES ∧
        withinNesting MAX_NESTING 0 (inMemory (constantProgram ⟨true, 42, .suffixed⟩)) = true ∧
        (∀ leaf ∈ numbers (constantProgram ⟨true, 42, .suffixed⟩), leaf.Faithful) ∧
        ∀ s ∈ strings (constantProgram ⟨true, 42, .suffixed⟩), readBigInt (chars s) = none :=
  loadANFFromJSON_exact_iff _ _ (read_render (List.forall_mem_nil _))
    (checkProgram_constantProgram _)

/-- A constant written as a plain number is loaded as a number and not as a bigint. -/
theorem loadANFFromJSON_plain_not_exact :
    ¬ ∀ (p : Json IntegerLeaf) (text : Units), Json.read text = some (spell p) →
      checkProgram (inMemory p) = .ok () → byteLength text ≤ MAX_IR_BYTES →
      withinNesting MAX_NESTING 0 (inMemory p) = true →
      loadANFFromJSON text = .ok (inMemory p) := by
  intro h
  have htext : Json.read (render (spell (constantProgram ⟨true, 42, .plain⟩))) =
      some (spell (constantProgram ⟨true, 42, .plain⟩)) := by
    refine read_render fun t ht => ?_
    obtain rfl := List.mem_singleton.mp ht
    exact isToken_units (isNumberText_intText 42)
  have hload := h _ _ htext (checkProgram_constantProgram _) (by decide) (by decide)
  have hfaithful := ((loaded_eq_inMemory_iff _).mp (loaded_eq_of_load htext hload).2.2).1
  exact absurd (hfaithful ⟨true, 42, .plain⟩ (List.mem_singleton_self _)) (by decide)

end Runar.Schema.LoadAnf
