/-
  Sdk/ReadBack.lean --- what is read from a script whatever it holds.

  WHAT THIS FILE IS FOR.  Arguments are read from any text of hexadecimal digits, though
  not always the right ones.  A state is not read from an empty text, and no number is
  read for a field of a Rabin type: such a field comes back as a text.
-/
import Runar.Sdk.ExtractedArgs

set_option autoImplicit false

namespace Runar.Sdk

open Script Artifact Codec Logic

/-! ## Hexadecimal digits -/

/-- A text of hexadecimal digits. -/
def HexDigits (text : HexText) : Prop := ∀ c ∈ text, (hexDigit? c).isSome

section Digits

variable {text : HexText}

theorem HexDigits.append {text' : HexText} (h : HexDigits text) (h' : HexDigits text') :
    HexDigits (text ++ text') := List.forall_mem_append.mpr ⟨h, h'⟩

theorem HexDigits.slice (h : HexDigits text) (start stop : Int) :
    HexDigits (slice text start stop) :=
  fun c hc => h c (List.mem_of_mem_drop (List.mem_of_mem_take hc))

theorem hexDigits_hexNumber {k : Nat} (hk : k < 256) : HexDigits (hexNumber k) := by
  intro c hc
  rw [hexNumber_of_lt hk, List.mem_cons, List.mem_singleton] at hc
  rcases hc with rfl | rfl
  · rw [hexDigit?_digitChar (by omega)]
    rfl
  · rw [hexDigit?_digitChar (by omega)]
    rfl

theorem hexDigits_pushHeader (len : Nat) : HexDigits (pushHeader len) := by
  have hmod (k : Nat) : HexDigits (hexNumber (k % 256)) :=
    hexDigits_hexNumber (Nat.mod_lt _ (by decide))
  have hop (low : Char) (hlow : (hexDigit? low).isSome) : HexDigits ['4', low] := fun c hc => by
    rcases List.mem_cons.mp hc with rfl | hc
    · rfl
    · exact List.mem_singleton.mp hc ▸ hlow
  unfold pushHeader
  split
  · exact hexDigits_hexNumber (by omega)
  split
  · exact (hop 'c' rfl).append (hexDigits_hexNumber (by omega))
  split
  · exact ((hop 'd' rfl).append (hmod _)).append (hmod _)
  · exact ((((hop 'e' rfl).append (hmod _)).append (hmod _)).append (hmod _)).append (hmod _)

theorem textBytes_digits : ∀ {text : HexText}, HexDigits text → ∀ b ∈ textBytes text, b.isSome
  | [], _ => fun _ h => nomatch h
  | [digit], h => fun b hb => by
      rw [textBytes, List.mem_singleton] at hb
      exact hb ▸ h digit List.mem_cons_self
  | high :: low :: rest, h => fun b hb => by
      rw [textBytes, List.mem_cons] at hb
      rcases hb with rfl | hb
      · obtain ⟨m, hm⟩ := Option.isSome_iff_exists.mp (h high List.mem_cons_self)
        rw [parseByte, hm]
        cases hexDigit? low <;> rfl
      · exact textBytes_digits
          (fun c hc => h c (List.mem_cons_of_mem _ (List.mem_cons_of_mem _ hc))) b hb

/-- A number is read from any digits. -/
theorem decodeNum2Bin_digits (h : HexDigits text) : ∃ n, decodeNum2Bin text = .ok n := by
  have hfold {bytes : List (Option Nat)} (hbytes : ∀ b ∈ bytes, b.isSome) (start : Nat) :
      ∃ n, bytes.foldlM (fun result byte => byte.map fun b => result <<< 8 ||| b) start =
        some n := by
    induction bytes generalizing start with
    | nil => exact ⟨start, rfl⟩
    | cons b bytes ih =>
      obtain ⟨hb, hrest⟩ := List.forall_mem_cons.mp hbytes
      obtain ⟨m, rfl⟩ := Option.isSome_iff_exists.mp hb
      exact ih hrest _
  have hbytes : ∀ b ∈ (textBytes text).reverse, b.isSome :=
    fun b hb => textBytes_digits h b (List.mem_reverse.mp hb)
  rw [decodeNum2Bin]
  cases hrev : (textBytes text).reverse with
  | nil => exact ⟨0, rfl⟩
  | cons last front =>
    rw [hrev] at hbytes
    obtain ⟨n, hn⟩ := hfold (List.forall_mem_cons.mp hbytes).2 (last.getD 0 &&& 0x7f)
    dsimp only
    rw [hn]
    exact ⟨_, rfl⟩

/-- Any digits are read as an argument. -/
theorem interpretScriptElement_digits (h : HexDigits text) (opcode : Option Nat)
    (type : FieldType) : ∃ value, interpretScriptElement opcode text type = .ok value := by
  obtain ⟨n, hn⟩ := decodeNum2Bin_digits h
  unfold interpretScriptElement
  split
  · cases opcode with
    | none =>
      dsimp only
      rw [decodeScriptNumber, hn]
      exact ⟨_, rfl⟩
    | some opcode =>
      dsimp only
      split
      · exact ⟨_, rfl⟩
      split
      · exact ⟨_, rfl⟩
      split
      · exact ⟨_, rfl⟩
      · rw [decodeScriptNumber, hn]
        exact ⟨_, rfl⟩
  · cases opcode with
    | none => exact ⟨_, rfl⟩
    | some opcode =>
      dsimp only
      split
      · exact ⟨_, rfl⟩
      split <;> exact ⟨_, rfl⟩

theorem readScriptElement_digits (h : HexDigits text) (offset : Option Int) :
    HexDigits (readScriptElement text offset).dataHex := by
  have hnil : HexDigits [] := fun _ hc => nomatch hc
  unfold readScriptElement
  split
  · exact hnil
  split
  · exact hnil
  split
  · exact hnil
  split
  · exact h.slice _ _
  split
  · split
    · exact hnil
    · exact h.slice _ _
  split
  · exact h.slice _ _
  split
  · exact h.slice _ _
  · exact hnil

/-- Arguments are read from any digits, whatever they are. -/
theorem extractSlots_digits (h : HexDigits text) (artifact : RunarArtifact)
    (slots : List ConstructorSlot) (st : Extraction) :
    ∃ st', extractSlots artifact text slots st = .ok st' := by
  induction slots generalizing st with
  | nil => exact ⟨st, rfl⟩
  | cons slot slots ih =>
    have hslot : ∃ st', extractSlot artifact text st slot = .ok st' := by
      rw [extractSlot]
      split
      · exact ⟨_, rfl⟩
      split
      · exact ⟨_, rfl⟩
      · rename_i param _
        obtain ⟨value, hvalue⟩ := interpretScriptElement_digits (readScriptElement_digits h
          (st.cumulativeShift.map fun shift => (slot.byteOffset + shift) * 2))
          (readScriptElement text
            (st.cumulativeShift.map fun shift => (slot.byteOffset + shift) * 2)).opcode param.type
        rw [hvalue]
        exact ⟨_, rfl⟩
    obtain ⟨st', hst'⟩ := hslot
    rw [extractSlots, hst']
    exact ih st'

end Digits

/-! ## What a state is read as -/

/-- An array without empty levels has a scalar. -/
theorem prod_dims_pos {type : FieldType} (h : Positive type) :
    0 < (parseFixedArrayDims type).prod := by
  induction type with
  | primitive type => exact Nat.one_pos
  | fixedArray elementType length ih =>
    rw [dims_fixedArray h.1, List.prod_cons]
    exact Nat.mul_pos h.1 (ih h.2)

section Reading

variable {hex : HexText} {offset stop : Int} {type : PrimitiveType} {label : String}

/-- A scalar takes a character at least, so none is read from an empty text. -/
theorem decodeStateValue_nil {result : JsValue × Int} :
    decodeStateValue [] 0 type label ≠ .ok result := by
  intro h
  rw [decodeStateValue] at h
  split at h
  · rename_i size encoding hwidth
    have hpos : 0 < size := by
      cases type <;> simp only [stateFieldWidths, Option.some.injEq, Prod.mk.injEq, reduceCtorEq]
        at hwidth <;> omega
    rw [if_pos (by rw [List.length_nil]; omega)] at h
    exact nomatch h
  · rw [decodePushData, need, if_pos (by decide)] at h
    exact nomatch h

theorem decodeField_nil {values : Record} {field : StateField} (hnamed : NamedField values field)
    {result : JsValue × Int} : decodeField [] 0 field ≠ .ok result := by
  obtain ⟨name, shape, index⟩ := field
  intro h
  rw [decodeField] at h
  split at h
  · rename_i type heq
    cases hvalue : decodeStateValue [] 0 type name with
    | ok read => exact decodeStateValue_nil hvalue
    | error message =>
      dsimp only at h
      rw [hvalue] at h
      cases h
  · rename_i elementType length syntheticNames heq
    dsimp only at heq
    subst heq
    have hcount := (hnamed.names elementType length syntheticNames rfl).1
    have hpos := hnamed.positive
    have hpos := hcount ▸ prod_dims_pos hpos
    obtain ⟨count, hsucc⟩ := Nat.exists_eq_succ_of_ne_zero (Nat.ne_of_gt hpos)
    rw [hsucc, decodeElements] at h
    cases hvalue : decodeStateValue [] 0 (unwrapFixedArrayLeaf (.fixedArray elementType length))
        (name ++ "[" ++ toString 0 ++ "]") with
    | ok read => exact decodeStateValue_nil hvalue
    | error message =>
      dsimp only at h
      rw [hvalue] at h
      cases h

/-- A state with a field is not read from an empty text. -/
theorem deserializeState_nil {fields : List StateField} {values record : Record}
    (hholds : Holds fields values) (hne : fields ≠ []) :
    deserializeState fields [] ≠ .ok record := by
  intro h
  rw [deserializeState, if_neg (by decide)] at h
  cases hsorted : fields.mergeSort fieldOrder with
  | nil =>
    have hlen : (fields.mergeSort fieldOrder).length = fields.length := List.length_mergeSort fields
    rw [hsorted] at hlen
    exact hne (List.length_eq_zero_iff.mp hlen.symm)
  | cons field rest =>
    have hmem : field ∈ fields := by
      have hmem : field ∈ fields.mergeSort fieldOrder := hsorted ▸ List.mem_cons_self
      exact List.mem_mergeSort.mp hmem
    rw [hsorted, decodeFields] at h
    cases hfield : decodeField [] 0 field with
    | ok read => exact decodeField_nil (hholds.named field hmem) hfield
    | error message =>
      rw [hfield] at h
      cases h

/-- A value of a type without a width is read as a text. -/
theorem decodeStateValue_text (hwidth : stateFieldWidths type = none) {value : JsValue} {read : Int}
    (h : decodeStateValue hex offset type label = .ok (value, read)) :
    ∃ text, value = .string text := by
  rw [decodeStateValue, hwidth] at h
  dsimp only at h
  cases hpush : decodePushData hex offset label with
  | error message =>
    rw [hpush] at h
    exact nomatch h
  | ok push =>
    rw [hpush] at h
    obtain ⟨rfl, -⟩ := Prod.mk.inj (Except.ok.inj h)
    exact ⟨_, rfl⟩

theorem decodeElements_texts (hwidth : stateFieldWidths type = none) {name : String}
    {count i : Nat} {values : List JsValue}
    (h : decodeElements hex type name count i offset = .ok (values, stop)) :
    ∀ value ∈ values, ∃ text, value = .string text := by
  induction count generalizing i offset values stop with
  | zero =>
    obtain ⟨rfl, -⟩ := Prod.mk.inj (Except.ok.inj h)
    exact fun _ hmem => by cases hmem
  | succ count ih =>
    rw [decodeElements] at h
    cases hfirst : decodeStateValue hex offset type (name ++ "[" ++ toString i ++ "]") with
    | error message =>
      rw [hfirst] at h
      cases h
    | ok first =>
      rw [hfirst, ok_bind] at h
      dsimp only at h
      cases hrest : decodeElements hex type name count (i + 1) (offset + first.2) with
      | error message =>
        rw [hrest] at h
        cases h
      | ok rest =>
        rw [hrest] at h
        obtain ⟨rfl, -⟩ := Prod.mk.inj (Except.ok.inj h)
        refine List.forall_mem_cons.mpr ⟨decodeStateValue_text hwidth hfirst, ih hrest⟩

/-- The scalars of a grouped array are those it was grouped from. -/
theorem mem_flatten_regroup {flat : List JsValue} {leaf : JsValue} {dims : List Nat}
    (hdims : dims ≠ []) {start : Nat}
    (h : leaf ∈ Codec.flattenNested dims (.array (Codec.regroupNested flat dims start).1)) :
    leaf ∈ flat ∨ leaf = .undefined := by
  induction dims generalizing start with
  | nil => exact absurd rfl hdims
  | cons length dims ih =>
    rw [flattenNested_array, List.mem_flatMap] at h
    obtain ⟨element, helement, hleaf⟩ := h
    cases dims with
    | nil =>
      rw [Codec.regroupNested, List.mem_map] at helement
      obtain ⟨i, -, rfl⟩ := helement
      rw [Codec.flattenNested, List.mem_singleton] at hleaf
      subst hleaf
      cases hget : flat[start + i]? with
      | none => exact .inr rfl
      | some value => exact .inl (List.mem_of_getElem? hget)
    | cons next dims =>
      have hgroups (is : List Nat) (acc : List JsValue × Nat)
          (hacc : ∀ e ∈ acc.1, ∃ k, e = .array (Codec.regroupNested flat (next :: dims) k).1) :
          ∀ e ∈ (is.foldl (fun (x : List JsValue × Nat) _ =>
            (x.1 ++ [.array (Codec.regroupNested flat (next :: dims) (start + x.2)).1],
              x.2 + (Codec.regroupNested flat (next :: dims) (start + x.2)).2)) acc).1,
            ∃ k, e = .array (Codec.regroupNested flat (next :: dims) k).1 := by
        induction is generalizing acc with
        | nil => exact hacc
        | cons i is ih =>
          refine ih _ fun e he => ?_
          rcases List.mem_append.mp he with he | he
          · exact hacc e he
          · exact ⟨_, List.mem_singleton.mp he⟩
      rw [Codec.regroupNested] at helement
      obtain ⟨k, rfl⟩ := hgroups _ ([], 0) (fun _ he => by cases he) element helement
      exact ih (List.cons_ne_nil _ _) hleaf

/-- No scalar of a field without a width is read as a number. -/
theorem decodeField_texts {field : StateField}
    (hwidth : stateFieldWidths (unwrapFixedArrayLeaf field.shape.type) = none)
    (hpos : Positive field.shape.type) {value : JsValue}
    (h : decodeField hex offset field = .ok (value, stop)) :
    ∀ n, .bigint n ∉ Codec.flattenNested (parseFixedArrayDims field.shape.type) value := by
  obtain ⟨name, shape, index⟩ := field
  intro n hmem
  rw [decodeField] at h
  cases shape with
  | scalar type =>
    dsimp only at h
    cases hread : decodeStateValue hex offset type name with
    | error message =>
      rw [hread] at h
      exact nomatch h
    | ok read =>
      rw [hread] at h
      obtain ⟨rfl, -⟩ := Prod.mk.inj (Except.ok.inj h)
      obtain ⟨text, htext⟩ := decodeStateValue_text hwidth hread
      have hleaf := List.mem_singleton.mp hmem
      rw [htext] at hleaf
      exact nomatch hleaf
  | fixedArray elementType length syntheticNames =>
    dsimp only at h
    cases hread : decodeElements hex (unwrapFixedArrayLeaf (.fixedArray elementType length)) name
        syntheticNames.length 0 offset with
    | error message =>
      rw [hread] at h
      exact nomatch h
    | ok read =>
      rw [hread] at h
      obtain ⟨rfl, -⟩ := Prod.mk.inj (Except.ok.inj h)
      have hdims : parseFixedArrayDims (.fixedArray elementType length) ≠ [] := by
        rw [dims_fixedArray hpos.1]
        exact List.cons_ne_nil _ _
      rcases mem_flatten_regroup hdims hmem with hflat | hundefined
      · obtain ⟨text, htext⟩ := decodeElements_texts hwidth hread _ hflat
        exact nomatch htext
      · exact nomatch hundefined

/-- Every field of the record was read somewhere. -/
theorem decodeFields_get {fields : List StateField} (hnames : (fields.map (·.name)).Nodup)
    {result record : Record} (h : decodeFields hex fields result offset = .ok (record, stop)) :
    (∀ name, name ∉ fields.map (·.name) → record name = result name) ∧
      ∀ field ∈ fields, ∃ value start next, record field.name = some value ∧
        decodeField hex start field = .ok (value, next) := by
  induction fields generalizing result offset with
  | nil =>
    obtain ⟨rfl, -⟩ := Prod.mk.inj (Except.ok.inj h)
    exact ⟨fun _ _ => rfl, fun _ hmem => by cases hmem⟩
  | cons field fields ih =>
    rw [List.map_cons, List.nodup_cons] at hnames
    rw [decodeFields] at h
    cases hfield : decodeField hex offset field with
    | error message =>
      rw [hfield] at h
      cases h
    | ok read =>
      rw [hfield, ok_bind] at h
      obtain ⟨hothers, hread⟩ := ih hnames.2 h
      refine ⟨fun name hname => ?_, List.forall_mem_cons.mpr ⟨?_, hread⟩⟩
      · rw [List.map_cons, List.mem_cons, not_or] at hname
        rw [hothers name hname.2, Record.set, if_neg hname.1]
      · exact ⟨read.1, offset, read.2, by rw [hothers _ hnames.1, Record.set, if_pos rfl], hfield⟩

/-- A state of a Rabin type is not read back. -/
theorem noRabin_of_deserialize {fields : List StateField} (hnames : (fields.map (·.name)).Nodup)
    {values : Record} (hholds : Holds fields values)
    (h : deserializeState fields hex = .ok values) :
    NoRabin fields := by
  intro field hmem hrabin
  rw [deserializeState] at h
  split at h
  · exact nomatch h
  cases hread : decodeFields hex (fields.mergeSort fieldOrder) (fun _ => none) 0 with
  | error message =>
    rw [hread] at h
    exact nomatch h
  | ok read =>
    rw [hread, ok_bind] at h
    dsimp only at h
    split at h
    · exact nomatch h
    obtain rfl := Except.ok.inj h
    have hperm := (List.mergeSort_perm fields fieldOrder).map (·.name)
    obtain ⟨-, hfields⟩ := decodeFields_get (hperm.nodup_iff.mpr hnames) hread
    obtain ⟨value, start, next, hvalue, hdecode⟩ := hfields field (List.mem_mergeSort.mpr hmem)
    have hpos := (hholds.named field hmem).positive
    have htyped := hholds.typed field hmem
    rw [Record.get, hvalue, Option.getD_some] at htyped
    have hwidth : stateFieldWidths (unwrapFixedArrayLeaf field.shape.type) = none := by
      rcases hrabin with h | h <;> rw [h] <;> rfl
    obtain ⟨hcount, hleaves⟩ := leaves_of_hasFieldType hpos htyped
    obtain ⟨leaf, hleaf⟩ := List.exists_mem_of_length_pos (hcount ▸ prod_dims_pos hpos)
    have hbigint := hleaves leaf hleaf
    have hnumber : ∃ n, leaf = .bigint n := by
      rcases hrabin with h | h <;> rw [h] at hbigint <;> exact hbigint
    obtain ⟨n, rfl⟩ := hnumber
    exact decodeField_texts hwidth hpos hdecode n hleaf

end Reading

end Runar.Sdk
