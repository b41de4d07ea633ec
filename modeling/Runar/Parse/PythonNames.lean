/-
  Parse/PythonNames.lean --- how Python names become names of the syntax tree.

  WHAT THIS FILE IS FOR.  A name that is bound goes through `snakeToCamel`, a name that is used
  through `mapBuiltinName`, which has a table of special names first.  Two names become the same
  one exactly where they have the same spelling: without the underscore at either end, and with an
  underscore before a small letter for every capital.  The two conversions differ on the names of
  nine builtins and on the names that every object has.

  A name is the list of its characters: the tokenizer takes ASCII letters, digits and underscores.
-/
import Mathlib.Data.List.Infix

set_option autoImplicit false

namespace Runar.Parse.Python

abbrev Name : Type := List Char

/-! ## The conversions -/

/-- `__name__`. -/
def isDunder (name : Name) : Bool :=
  ['_', '_'].isPrefixOf name && ['_', '_'].isSuffixOf name && decide (4 ≤ name.length)

/-- Without the trailing underscore (`assert_`). -/
def stripTrailing (name : Name) : Name :=
  if ['_'].isSuffixOf name ∧ name ≠ ['_'] then name.dropLast else name

/-- Without the leading underscore (`_helper`), unless there are two. -/
def stripLeading (n : Name) : Name :=
  if ['_'].isPrefixOf n ∧ ¬ ['_', '_'].isPrefixOf n then n.drop 1 else n

def stripUnderscores (name : Name) : Name := stripLeading (stripTrailing name)

/-- `replace(/_([a-z0-9])/g, …)`: an underscore before a small letter or a digit goes, the letter
becomes a capital. -/
def capitalise : Name → Name
  | [] => []
  | [c] => [c]
  | c :: d :: rest =>
      if c = '_' ∧ (d.isLower ∨ d.isDigit) then d.toUpper :: capitalise rest
      else c :: capitalise (d :: rest)

def snakeToCamel (name : Name) : Name :=
  if isDunder name then name else capitalise (stripUnderscores name)

/-- `SPECIAL`. -/
def special : List (String × String) :=
  [("assert_", "assert"), ("verify_wots", "verifyWOTS"),
   ("verify_slh_dsa_sha2_128s", "verifySLHDSA_SHA2_128s"),
   ("verify_slh_dsa_sha2_128f", "verifySLHDSA_SHA2_128f"),
   ("verify_slh_dsa_sha2_192s", "verifySLHDSA_SHA2_192s"),
   ("verify_slh_dsa_sha2_192f", "verifySLHDSA_SHA2_192f"),
   ("verify_slh_dsa_sha2_256s", "verifySLHDSA_SHA2_256s"),
   ("verify_slh_dsa_sha2_256f", "verifySLHDSA_SHA2_256f"),
   ("verify_rabin_sig", "verifyRabinSig"), ("check_sig", "checkSig"),
   ("check_multi_sig", "checkMultiSig"), ("check_preimage", "checkPreimage"),
   ("hash160", "hash160"), ("hash256", "hash256"), ("sha256", "sha256"),
   ("ripemd160", "ripemd160"), ("num2bin", "num2bin"), ("reverse_bytes", "reverseBytes"),
   ("extract_locktime", "extractLocktime"), ("extract_output_hash", "extractOutputHash"),
   ("extract_amount", "extractAmount"), ("extract_version", "extractVersion"),
   ("extract_sequence", "extractSequence"), ("ec_add", "ecAdd"), ("ec_mul", "ecMul"),
   ("ec_mul_gen", "ecMulGen"), ("ec_negate", "ecNegate"), ("ec_on_curve", "ecOnCurve"),
   ("ec_mod_reduce", "ecModReduce"), ("ec_encode_compressed", "ecEncodeCompressed"),
   ("ec_make_point", "ecMakePoint"), ("ec_point_x", "ecPointX"), ("ec_point_y", "ecPointY"),
   ("p256_add", "p256Add"), ("p256_mul", "p256Mul"), ("p256_mul_gen", "p256MulGen"),
   ("p256_negate", "p256Negate"), ("p256_on_curve", "p256OnCurve"),
   ("p256_encode_compressed", "p256EncodeCompressed"),
   ("verify_ecdsa_p256", "verifyECDSA_P256"), ("verify_ecdsa_p384", "verifyECDSA_P384"),
   ("bb_field_add", "bbFieldAdd"), ("bb_field_sub", "bbFieldSub"),
   ("bb_field_mul", "bbFieldMul"), ("bb_field_inv", "bbFieldInv"),
   ("merkle_root_sha256", "merkleRootSha256"), ("merkle_root_hash256", "merkleRootHash256"),
   ("mul_div", "mulDiv"), ("percent_of", "percentOf"), ("add_output", "addOutput"),
   ("add_raw_output", "addRawOutput"), ("add_data_output", "addDataOutput"),
   ("get_state_script", "getStateScript")]

/-- The names that pass through. -/
def passThrough : List String :=
  ["bool", "abs", "min", "max", "len", "pow", "cat", "within", "safediv", "safemod", "clamp",
   "sign", "sqrt", "gcd", "divmod", "log2", "substr"]

/-- The members that the table has from `Object.prototype`. -/
def objectMembers : List String :=
  ["constructor", "__defineGetter__", "__defineSetter__", "hasOwnProperty", "__lookupGetter__",
   "__lookupSetter__", "isPrototypeOf", "propertyIsEnumerable", "toString", "valueOf", "__proto__",
   "toLocaleString"]

/-- What stands for a name in the syntax tree: a text, or what the table inherits. -/
inductive AstName where
  | text (name : Name)
  | inherited (member : Name)
  deriving DecidableEq

def mapBuiltinName (name : Name) : AstName :=
  match special.find? fun entry => entry.1.toList = name with
  | some entry => .text entry.2.toList
  | none =>
      if name ∈ objectMembers.map String.toList then .inherited name
      else if name ∈ passThrough.map String.toList then .text name
      else .text (snakeToCamel name)

/-! ## Spellings -/

/-- A name with an underscore before a small letter for every capital, and none before a digit. -/
def spell : Name → Name
  | [] => []
  | [c] => if c.isUpper then ['_', c.toLower] else [c]
  | c :: d :: rest =>
      if c = '_' ∧ (d.isLower ∨ d.isDigit) then
        if d.isLower then '_' :: d :: spell rest else d :: spell rest
      else if c.isUpper then '_' :: c.toLower :: spell (d :: rest)
      else c :: spell (d :: rest)

/-- Every capital becomes an underscore and a small letter. -/
def lower (text : Name) : Name :=
  text.flatMap fun c => if c.isUpper then ['_', c.toLower] else [c]

/-- Every underscore before a small letter makes it a capital. -/
def raise : Name → Name
  | [] => []
  | [c] => [c]
  | c :: d :: rest =>
      if c = '_' ∧ d.isLower then d.toUpper :: raise rest else c :: raise (d :: rest)

theorem lower_cons (c : Char) (text : Name) :
    lower (c :: text) = (if c.isUpper then ['_', c.toLower] else [c]) ++ lower text :=
  List.flatMap_cons

/-- What holds of some characters in a row holds of each of them. -/
theorem forall_range {P : Char → Prop} {low count : Nat}
    (h : ∀ k : Fin count, P (Char.ofNat (low + k))) {c : Char} (hlow : low ≤ c.toNat)
    (hhigh : c.toNat < low + count) : P c := by
  have hc := h ⟨c.toNat - low, by omega⟩
  have hback : low + (c.toNat - low) = c.toNat := by omega
  rwa [hback, Char.ofNat_toNat] at hc

theorem toUpper_isLower {c : Char} (h : c.isLower = true) :
    c.toUpper.isUpper = true ∧ c.toUpper.toLower = c := by
  have h : (decide (c.val ≥ 'a'.val) && decide (c.val ≤ 'z'.val)) = true := h
  rw [Bool.and_eq_true, decide_eq_true_eq, decide_eq_true_eq] at h
  have hlow : 97 ≤ c.toNat := h.1
  have hhigh : c.toNat ≤ 122 := h.2
  exact forall_range (P := fun c => c.toUpper.isUpper = true ∧ c.toUpper.toLower = c)
    (by decide : ∀ k : Fin 26, _) hlow (by omega)

theorem toUpper_isDigit {c : Char} (h : c.isDigit = true) :
    c.toUpper = c ∧ c.isUpper = false := by
  rw [Char.isDigit, Bool.and_eq_true, decide_eq_true_eq, decide_eq_true_eq] at h
  have hlow : 48 ≤ c.toNat := h.1
  have hhigh : c.toNat ≤ 57 := h.2
  exact forall_range (P := fun c => c.toUpper = c ∧ c.isUpper = false)
    (by decide : ∀ k : Fin 10, _) hlow (by omega)

theorem toLower_isUpper {c : Char} (h : c.isUpper = true) :
    c.toLower.isLower = true ∧ c.toLower.toUpper = c := by
  have h : decide (c.val ≥ 'A'.val ∧ c.val ≤ 'Z'.val) = true := h
  rw [decide_eq_true_eq] at h
  have hlow : 65 ≤ c.toNat := h.1
  have hhigh : c.toNat ≤ 90 := h.2
  exact forall_range (P := fun c => c.toLower.isLower = true ∧ c.toLower.toUpper = c)
    (by decide : ∀ k : Fin 26, _) hlow (by omega)

/-- The spelling is read off the converted name. -/
theorem spell_eq (n : Name) : spell n = lower (capitalise n) := by
  fun_induction capitalise n with
  | case1 => rfl
  | case2 c =>
    rw [spell, lower_cons]
    exact (List.append_nil _).symm
  | case3 c d rest hmark ih =>
    rw [spell, if_pos hmark, ih, lower_cons]
    cases hlower : d.isLower with
    | true =>
      obtain ⟨hupper, hback⟩ := toUpper_isLower hlower
      rw [if_pos rfl, if_pos hupper, hback]
      rfl
    | false =>
      have hdigit : d.isDigit = true :=
        hmark.2.resolve_left (by rw [hlower]; exact Bool.false_ne_true)
      obtain ⟨hsame, hupper⟩ := toUpper_isDigit hdigit
      rw [hsame, if_neg Bool.false_ne_true, hupper, if_neg Bool.false_ne_true]
      rfl
  | case4 c d rest hmark ih =>
    rw [spell, if_neg hmark, ih, lower_cons]
    split <;> rfl

theorem raise_cons {c : Char} {text : Name}
    (h : c ≠ '_' ∨ ∀ d ∈ text.head?, d.isLower = false) : raise (c :: text) = c :: raise text := by
  cases text with
  | nil => rfl
  | cons d rest =>
    rw [raise, if_neg]
    rintro ⟨hc, hd⟩
    rcases h with h | h
    · exact h hc
    · exact absurd hd (by rw [h d rfl]; exact Bool.false_ne_true)

theorem raise_mark {d : Char} (h : d.isLower = true) (text : Name) :
    raise ('_' :: d :: text) = d.toUpper :: raise text := by
  rw [raise, if_pos ⟨rfl, h⟩]

/-- A converted name that starts without a small letter is spelled so too. -/
theorem head_lower {n : Name} (h : ∀ d ∈ n.head?, d.isLower = false) :
    ∀ d ∈ (lower (capitalise n)).head?, d.isLower = false := by
  rw [← spell_eq]
  match n, h with
  | [], _ => exact fun d hd => nomatch hd
  | [c], h =>
    rw [spell]
    split
    · exact fun d hd => Option.some.inj hd ▸ rfl
    · exact fun d hd => h d hd
  | c :: d :: rest, h =>
    rw [spell]
    split
    · split
      · exact fun d hd => Option.some.inj hd ▸ rfl
      · next hmark hlower => exact fun d hd => Option.some.inj hd ▸ (Bool.not_eq_true _ ▸ hlower)
    · split
      · exact fun d hd => Option.some.inj hd ▸ rfl
      · exact fun d hd => h d hd

/-- The converted name is read off the spelling. -/
theorem raise_spell (n : Name) : raise (spell n) = capitalise n := by
  rw [spell_eq]
  fun_induction capitalise n with
  | case1 => rfl
  | case2 c =>
    rw [lower_cons]
    split
    · next hupper =>
      obtain ⟨hlower, hback⟩ := toLower_isUpper hupper
      exact (raise_mark hlower []).trans (congrArg (· :: []) hback)
    · rfl
  | case3 c d rest hmark ih =>
    rw [lower_cons]
    cases hlower : d.isLower with
    | true =>
      obtain ⟨hupper, hback⟩ := toUpper_isLower hlower
      rw [if_pos hupper, hback, List.cons_append, List.singleton_append, raise_mark hlower, ih]
    | false =>
      have hdigit : d.isDigit = true :=
        hmark.2.resolve_left (by rw [hlower]; exact Bool.false_ne_true)
      obtain ⟨hsame, hupper⟩ := toUpper_isDigit hdigit
      have hne : d ≠ '_' := by
        rintro rfl
        exact absurd hdigit (by decide)
      rw [hsame, hupper, if_neg Bool.false_ne_true, List.singleton_append,
        raise_cons (.inl hne), ih]
  | case4 c d rest hmark ih =>
    rw [lower_cons]
    split
    · next hupper =>
      obtain ⟨hlower, hback⟩ := toLower_isUpper hupper
      rw [List.cons_append, List.singleton_append, raise_mark hlower, hback, ih]
    · rw [List.singleton_append, raise_cons, ih]
      by_cases hc : c = '_'
      · refine .inr (head_lower fun d' hd' => ?_)
        obtain rfl := Option.some.inj hd'
        exact Bool.eq_false_iff.mpr fun hlower => hmark ⟨hc, .inl hlower⟩
      · exact .inl hc

theorem capitalise_eq_iff (m n : Name) : capitalise m = capitalise n ↔ spell m = spell n := by
  constructor
  · intro h
    rw [spell_eq, spell_eq, h]
  · intro h
    rw [← raise_spell, ← raise_spell, h]

/-! ## Names between double underscores -/

theorem toUpper_ne_underscore {d : Char} (h : d.isLower ∨ d.isDigit) : d.toUpper ≠ '_' := by
  intro heq
  rcases h with h | h
  · have hupper := (toUpper_isLower h).1
    rw [heq] at hupper
    exact absurd hupper (by decide)
  · rw [(toUpper_isDigit h).1] at heq
    subst heq
    exact absurd h (by decide)

theorem head_eq_underscore {d : Char} {rest : Name} (h : ['_'] <+: capitalise (d :: rest)) :
    d = '_' := by
  cases rest with
  | nil => exact (List.cons_prefix_cons.mp h).1.symm
  | cons e rest =>
    rw [capitalise] at h
    split at h
    · next hmark => exact hmark.1
    · exact (List.cons_prefix_cons.mp h).1.symm

/-- Two underscores in front of a converted name were there. -/
theorem prefix_capitalise {n : Name} (h : ['_', '_'] <+: capitalise n) : ['_', '_'] <+: n := by
  match n, h with
  | [], h => exact h
  | [c], h => exact h
  | c :: d :: rest, h =>
    rw [capitalise] at h
    split at h
    · next hmark =>
      exact absurd (List.cons_prefix_cons.mp h).1.symm (toUpper_ne_underscore hmark.2)
    · obtain ⟨hc, htail⟩ := List.cons_prefix_cons.mp h
      rw [← hc, head_eq_underscore htail]
      exact ⟨rest, rfl⟩

theorem capitalise_eq_underscore {n : Name} (h : capitalise n = ['_']) : n = ['_'] := by
  match n, h with
  | [c], h => exact h
  | c :: d :: rest, h =>
    rw [capitalise] at h
    split at h
    · next hmark => exact absurd (List.cons.inj h).1 (toUpper_ne_underscore hmark.2)
    · have hnil := (List.cons.inj h).2
      cases rest with
      | nil => exact nomatch hnil
      | cons e rest =>
        rw [capitalise] at hnil
        split at hnil <;> exact nomatch hnil

/-- Two underscores behind a converted name were there. -/
theorem suffix_capitalise (n : Name) (h : ['_', '_'] <:+ capitalise n) : ['_', '_'] <:+ n := by
  fun_induction capitalise n with
  | case1 => exact h
  | case2 c => exact h
  | case3 c d rest hmark ih =>
    rcases List.suffix_cons_iff.mp h with heq | hsuffix
    · exact absurd (List.cons.inj heq).1.symm (toUpper_ne_underscore hmark.2)
    · exact (ih hsuffix).trans (List.suffix_append [c, d] rest)
  | case4 c d rest hmark ih =>
    rcases List.suffix_cons_iff.mp h with heq | hsuffix
    · obtain ⟨hc, htail⟩ := List.cons.inj heq
      rw [capitalise_eq_underscore htail.symm, ← hc]
    · exact (ih hsuffix).trans (List.suffix_cons c (d :: rest))

theorem length_capitalise_le (n : Name) : (capitalise n).length ≤ n.length := by
  fun_induction capitalise n with
  | case1 => exact Nat.le_refl _
  | case2 c => exact Nat.le_refl _
  | case3 c d rest hmark ih =>
    simp only [List.length_cons]
    omega
  | case4 c d rest hmark ih => exact Nat.succ_le_succ ih

theorem isDunder_iff (n : Name) :
    isDunder n = true ↔ ['_', '_'] <+: n ∧ ['_', '_'] <:+ n ∧ 4 ≤ n.length := by
  rw [isDunder, Bool.and_eq_true, Bool.and_eq_true, List.isPrefixOf_iff_prefix,
    List.isSuffixOf_iff_suffix, decide_eq_true_eq, and_assoc]

theorem stripLeading_eq {n : Name} (h : ['_', '_'] <+: stripLeading n) : stripLeading n = n := by
  unfold stripLeading at h ⊢
  split at h
  · next hdrop =>
    obtain ⟨tail, rfl⟩ := List.isPrefixOf_iff_prefix.mp hdrop.1
    obtain ⟨rest, hrest⟩ := h
    refine absurd ?_ hdrop.2
    refine List.isPrefixOf_iff_prefix.mpr ⟨'_' :: rest, ?_⟩
    rw [show tail = ['_', '_'] ++ rest from hrest.symm]
    rfl
  · next hkeep => rw [if_neg hkeep]

/-- A name that is between double underscores when it is stripped was so before. -/
theorem isDunder_of_strip {n : Name} (hfront : ['_', '_'] <+: stripUnderscores n)
    (hback : ['_', '_'] <:+ stripUnderscores n) (hlength : 4 ≤ (stripUnderscores n).length) :
    isDunder n = true := by
  have hsame : stripUnderscores n = stripTrailing n := stripLeading_eq hfront
  rw [hsame] at hfront hback hlength
  rw [isDunder_iff]
  unfold stripTrailing at hfront hback hlength
  split at hfront
  · next htrail =>
    rw [if_pos htrail] at hback hlength
    obtain ⟨front, rfl⟩ := List.isSuffixOf_iff_suffix.mp htrail.1
    rw [List.dropLast_concat] at hfront hback hlength
    refine ⟨hfront.trans (List.prefix_append _ _), ?_, ?_⟩
    · obtain ⟨before, rfl⟩ := hback
      exact ⟨before ++ ['_'], by simp only [List.append_assoc, List.cons_append, List.nil_append]⟩
    · rw [List.length_append]
      omega
  · next htrail =>
    rw [if_neg htrail] at hback hlength
    exact ⟨hfront, hback, hlength⟩

/-- How a name is spelled; a name between double underscores is left alone. -/
def key (n : Name) : Bool × Name :=
  if isDunder n then (true, n) else (false, spell (stripUnderscores n))

/-- No other name becomes one between double underscores. -/
theorem capitalise_ne_dunder {m n : Name} (hm : isDunder m = true) (hn : ¬ isDunder n = true) :
    capitalise (stripUnderscores n) ≠ m := by
  rintro rfl
  obtain ⟨hfront, hback, hlength⟩ := (isDunder_iff _).mp hm
  exact hn (isDunder_of_strip (prefix_capitalise hfront) (suffix_capitalise _ hback)
    (Nat.le_trans hlength (length_capitalise_le _)))

/-- Two names become the same one exactly where they are spelled the same. -/
theorem snakeToCamel_eq_iff (m n : Name) : snakeToCamel m = snakeToCamel n ↔ key m = key n := by
  unfold snakeToCamel key
  by_cases hm : isDunder m = true <;> by_cases hn : isDunder n = true
  · rw [if_pos hm, if_pos hn, if_pos hm, if_pos hn, Prod.mk.injEq, and_iff_right rfl]
  · rw [if_pos hm, if_neg hn, if_pos hm, if_neg hn]
    exact ⟨fun h => absurd h.symm (capitalise_ne_dunder hm hn), fun h => nomatch h⟩
  · rw [if_neg hm, if_pos hn, if_neg hm, if_pos hn]
    exact ⟨fun h => absurd h (capitalise_ne_dunder hn hm), fun h => nomatch h⟩
  · rw [if_neg hm, if_neg hn, if_neg hm, if_neg hn, capitalise_eq_iff, Prod.mk.injEq,
      and_iff_right rfl]

/-! ## The two conversions -/

/-- The builtins whose special name is not the converted one. -/
def irregular : List (String × String) :=
  [("verify_wots", "verifyWOTS"),
   ("verify_slh_dsa_sha2_128s", "verifySLHDSA_SHA2_128s"),
   ("verify_slh_dsa_sha2_128f", "verifySLHDSA_SHA2_128f"),
   ("verify_slh_dsa_sha2_192s", "verifySLHDSA_SHA2_192s"),
   ("verify_slh_dsa_sha2_192f", "verifySLHDSA_SHA2_192f"),
   ("verify_slh_dsa_sha2_256s", "verifySLHDSA_SHA2_256s"),
   ("verify_slh_dsa_sha2_256f", "verifySLHDSA_SHA2_256f"),
   ("verify_ecdsa_p256", "verifyECDSA_P256"), ("verify_ecdsa_p384", "verifyECDSA_P384")]

/-- A name that is used as another than it is bound as. -/
def Misnamed (n : Name) : Prop :=
  n ∈ irregular.map (·.1.toList) ∨ n ∈ objectMembers.map String.toList

instance (n : Name) : Decidable (Misnamed n) := inferInstanceAs (Decidable (_ ∨ _))

theorem misnamed_toList {text : String} :
    Misnamed text.toList ↔ text ∈ irregular.map (·.1) ∨ text ∈ objectMembers := by
  have hinj : Function.Injective String.toList := fun _ _ => String.toList_inj.mp
  rw [← List.mem_map_of_injective hinj, List.map_map,
    ← List.mem_map_of_injective hinj (l := objectMembers)]
  rfl

/-- The table agrees with the conversion on the entries that are not irregular. -/
def entryRegular (entry : String × String) : Bool :=
  decide (entry ∈ irregular) ||
    decide (entry.2.toList = snakeToCamel entry.1.toList ∧ ¬ Misnamed entry.1.toList)

theorem special_regular : special.all entryRegular = true := by
  decide +kernel

theorem passThrough_regular :
    (passThrough.all fun name => decide (snakeToCamel name.toList = name.toList)) = true := by
  decide +kernel

theorem mapBuiltinName_irregular :
    (irregular.all fun entry => decide (mapBuiltinName entry.1.toList = .text entry.2.toList ∧
      entry.2.toList ≠ snakeToCamel entry.1.toList)) = true := by
  decide +kernel

theorem mapBuiltinName_member :
    (objectMembers.all fun name =>
      decide (mapBuiltinName name.toList = .inherited name.toList)) = true := by
  decide +kernel

theorem mapBuiltinName_of_misnamed {n : Name} (h : Misnamed n) :
    (∃ entry ∈ irregular, entry.1.toList = n ∧ mapBuiltinName n = .text entry.2.toList ∧
      entry.2.toList ≠ snakeToCamel n) ∨
    mapBuiltinName n = .inherited n := by
  rcases h with h | h
  · obtain ⟨entry, hentry, rfl⟩ := List.mem_map.mp h
    exact .inl ⟨entry, hentry, rfl,
      of_decide_eq_true (List.all_eq_true.mp mapBuiltinName_irregular entry hentry)⟩
  · obtain ⟨name, hname, rfl⟩ := List.mem_map.mp h
    exact .inr (of_decide_eq_true (List.all_eq_true.mp mapBuiltinName_member name hname))

theorem mapBuiltinName_of_regular {n : Name} (h : ¬ Misnamed n) :
    mapBuiltinName n = .text (snakeToCamel n) := by
  unfold mapBuiltinName
  split
  · next entry hfind =>
    have hsome := List.find?_some hfind
    have hname : entry.1.toList = n := of_decide_eq_true hsome
    rw [← hname] at h ⊢
    have hregular := List.all_eq_true.mp special_regular entry (List.mem_of_find?_eq_some hfind)
    rcases Bool.or_eq_true_iff.mp hregular with hirregular | hregular
    · exact absurd (.inl (List.mem_map_of_mem (of_decide_eq_true hirregular))) h
    · rw [(of_decide_eq_true hregular).1]
  · rw [if_neg fun hmember => h (.inr hmember)]
    split
    · next hpass =>
      obtain ⟨name, hname, rfl⟩ := List.mem_map.mp hpass
      rw [of_decide_eq_true (List.all_eq_true.mp passThrough_regular name hname)]
    · rfl

/-- A use becomes what the binding becomes exactly where the name is not misnamed. -/
theorem mapBuiltinName_eq_iff (n : Name) :
    mapBuiltinName n = .text (snakeToCamel n) ↔ ¬ Misnamed n := by
  refine ⟨fun h hmisnamed => ?_, mapBuiltinName_of_regular⟩
  rcases mapBuiltinName_of_misnamed hmisnamed with ⟨entry, _, _, hname, hne⟩ | hname
  · rw [hname] at h
    exact hne (AstName.text.inj h)
  · rw [hname] at h
    exact nomatch h

/-- How the names are spelled that become a text; no name becomes some texts. -/
def textKey (text : Name) : Option (Bool × Name) :=
  if isDunder text then some (true, text)
  else if raise (lower text) = text then some (false, lower text) else none

theorem snakeToCamel_eq_text_iff (n text : Name) :
    snakeToCamel n = text ↔ textKey text = some (key n) := by
  unfold snakeToCamel key textKey
  by_cases hn : isDunder n = true
  · rw [if_pos hn, if_pos hn]
    constructor
    · rintro rfl
      rw [if_pos hn]
    · intro h
      split at h
      · exact (Prod.mk.inj (Option.some.inj h)).2.symm
      · split at h <;> exact nomatch h
  · rw [if_neg hn, if_neg hn]
    constructor
    · rintro rfl
      rw [if_neg fun hdunder => capitalise_ne_dunder hdunder hn rfl, ← spell_eq, raise_spell,
        if_pos rfl]
    · intro h
      split at h
      · exact nomatch h
      · split at h
        · next hraise =>
          rw [← raise_spell, ← (Prod.mk.inj (Option.some.inj h)).2, hraise]
        · exact nomatch h

/-- A name that stands for a text where it is used. -/
def StandsFor (n text : Name) : Prop :=
  (∃ entry ∈ irregular, entry.1.toList = n ∧ entry.2.toList = text) ∨
    (¬ Misnamed n ∧ textKey text = some (key n))

theorem mapBuiltinName_eq_text_iff (n text : Name) :
    mapBuiltinName n = .text text ↔ StandsFor n text := by
  unfold StandsFor
  constructor
  · intro h
    by_cases hmisnamed : Misnamed n
    · rcases mapBuiltinName_of_misnamed hmisnamed with ⟨entry, hentry, hn, hname, _⟩ | hname
      · rw [hname] at h
        exact .inl ⟨entry, hentry, hn, AstName.text.inj h⟩
      · rw [hname] at h
        exact nomatch h
    · rw [mapBuiltinName_of_regular hmisnamed] at h
      exact .inr ⟨hmisnamed, (snakeToCamel_eq_text_iff n text).mp (AstName.text.inj h)⟩
  · rintro (⟨entry, hentry, rfl, rfl⟩ | ⟨hmisnamed, htext⟩)
    · exact (of_decide_eq_true
        (List.all_eq_true.mp mapBuiltinName_irregular entry hentry)).1
    · rw [mapBuiltinName_of_regular hmisnamed, (snakeToCamel_eq_text_iff n text).mpr htext]

end Runar.Parse.Python
