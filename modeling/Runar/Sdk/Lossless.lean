/-
  Sdk/Lossless.lean --- which contracts come back from the chain.

  WHAT THIS FILE IS FOR.  An object built from its template is compared with the one
  that `fromUtxo` builds from its locking script.  The restored object is the same, in
  its state, its inscription and every script it builds from then on, exactly when the
  code of a contract with state has no OP_RETURN, no state is of a Rabin type, and the
  inscription is the first one in the script, is not empty and has no byte order mark.
-/
import Runar.Sdk.FromUtxo
import Runar.Sdk.ReadBack

set_option autoImplicit false

namespace Runar.Sdk

open Script Artifact Codec Logic

/-! ## The original -/

/-- The codec of the state as the serializer of the SDK. -/
def withCodec (tools : Toolbox) : Toolbox :=
  { tools with
    serializeState := fun fields values =>
      Codec.serializeState (fields.map (·.toStateField)) values }

/-- An inscription: the characters of its content type, and the digits of its data. -/
structure Inscribable where
  contentType : List ℕ
  data : HexText
  scalars : ∀ c ∈ contentType, IsScalar c
  digits : HexDigits data
  whole : data.length % 2 = 0
  short : (utf8ToHex contentType).length < 2 ^ 32 ∧ data.length < 2 ^ 32

def Inscribable.inscription (i : Inscribable) : Inscription := ⟨utf8ToHex i.contentType, i.data⟩

/-- The inscription is not empty, and its content type has no byte order mark. -/
structure Inscribable.Readable (i : Inscribable) : Prop where
  contentType : i.contentType ≠ []
  unmarked : i.contentType.head? ≠ some 0xfeff
  data : i.data ≠ []

/-- A code that can be deployed: whole opcodes and pushes, one at least, in hexadecimal
digits. -/
structure WellFormedCode (code : HexText) : Prop where
  whole : ∃ elements : List HexText, (∀ e ∈ elements, Whole e) ∧ code = elements.flatten
  digits : HexDigits code
  nonempty : code ≠ []

/-- An object built from its template, with a state and perhaps an inscription, and its
locking script. -/
structure Original where
  tools : Toolbox
  artifact : RunarArtifact
  args : List JsValue
  state : Record
  inscribed : Option Inscribable
  fresh : RunarContract
  script : HexText
  built : newRunarContract artifact args = .ok fresh
  code : WellFormedCode (buildCodeScript artifact args)
  names : (artifact.stateFields.map (·.name)).Nodup
  holds : Holds (artifact.stateFields.map (·.toStateField)) state
  deploys : getLockingScript (withCodec tools)
    { fresh with state, inscription := inscribed.map (·.inscription) } = .ok script

namespace Original

/-- The object. -/
def contract (o : Original) : RunarContract :=
  { o.fresh with state := o.state, inscription := o.inscribed.map (·.inscription) }

def fields (o : Original) : List StateField := o.artifact.stateFields.map (·.toStateField)

/-- The code of the template with the arguments. -/
def template (o : Original) : HexText := buildCodeScript o.artifact o.args

/-- The restored object is the same in its state, its inscription and its scripts, those of
later states included. -/
structure SameAs (o : Original) (r : RunarContract) : Prop where
  state : r.state = o.contract.state
  inscription : r.inscription = o.contract.inscription
  lockingScript : getLockingScript (withCodec o.tools) r = .ok o.script
  codePart : getCodePartHex r = getCodePartHex o.contract
  later : ∀ state, getLockingScript (withCodec o.tools) { r with state } =
    getLockingScript (withCodec o.tools) { o.contract with state }

/-- From an output with the locking script the object is restored. -/
def Lossless (o : Original) : Prop :=
  ∀ utxo : UTXO, utxo.script = o.script → ∃ r, Restores o.artifact utxo r ∧ o.SameAs r

/-- The inscription of the code, if it has one, is the object's, else the object's can be
read. -/
def Kept (own : Option Inscription) (inscribed : Option Inscribable) : Prop :=
  match own with
  | some own => inscribed.map (·.inscription) = some own
  | none => ∀ i ∈ inscribed, i.Readable

/-- What it takes to restore the object. -/
structure Restorable (o : Original) : Prop where
  noReturn : o.artifact.stateFields ≠ [] → IsCode o.template
  noRabin : NoRabin o.fields
  inscription : ∀ own, ParsesInscription o.template own → Kept own o.inscribed

end Original

/-! ## Texts -/

section Texts

theorem length_utf8Bytes_pos (c : ℕ) : utf8Bytes c ≠ [] := by
  rw [utf8Bytes]
  split
  · exact List.cons_ne_nil _ _
  split
  · exact List.cons_ne_nil _ _
  split <;> exact List.cons_ne_nil _ _

theorem utf8Encode_lt {text : List ℕ} (h : ∀ c ∈ text, IsScalar c) :
    ∀ b ∈ utf8Encode text, b < 256 := by
  intro b hb
  obtain ⟨c, hc, hb⟩ := List.mem_flatMap.mp hb
  exact utf8Bytes_lt (h c hc) b hb

theorem textBytes_hexNumbers {bytes : List ℕ} (h : ∀ b ∈ bytes, b < 256) :
    textBytes (bytes.flatMap hexNumber) = bytes.map some := by
  induction bytes with
  | nil => rfl
  | cons b bytes ih =>
    obtain ⟨hb, hbytes⟩ := List.forall_mem_cons.mp h
    have hsum : 16 * (b / 16) + b % 16 = b := Nat.div_add_mod b 16
    rw [List.flatMap_cons, hexNumber_of_lt hb, List.cons_append, List.cons_append,
      List.nil_append, textBytes, ih hbytes, parseByte, hexDigit?_digitChar (by omega),
      hexDigit?_digitChar (by omega), List.map_cons]
    exact congrArg (some · :: _) hsum

/-- The decoder gives the text back, but for a byte order mark. -/
theorem hexToUtf8_utf8ToHex {text : List ℕ} (h : ∀ c ∈ text, IsScalar c) :
    hexToUtf8 (utf8ToHex text) = utf8ToHex (dropMark text) := by
  have hbytes : textBytes (utf8ToHex text) = (utf8Encode text).map some :=
    textBytes_hexNumbers (utf8Encode_lt h)
  have hmap : (utf8Encode text).map ((fun x : Option ℕ => x.getD 0) ∘ some) = utf8Encode text :=
    List.map_id _
  rw [hexToUtf8, hbytes, List.map_map, hmap, utf8Decode_encode h]

theorem length_utf8ToHex {text : List ℕ} (h : ∀ c ∈ text, IsScalar c) :
    (utf8ToHex text).length = 2 * (utf8Encode text).length := by
  have hlt := utf8Encode_lt h
  rw [utf8ToHex]
  generalize utf8Encode text = bytes at hlt
  induction bytes with
  | nil => rfl
  | cons b bytes ih =>
    obtain ⟨hb, hbytes⟩ := List.forall_mem_cons.mp hlt
    rw [List.flatMap_cons, List.length_append, length_hexNumber_of_lt hb, ih hbytes,
      List.length_cons]
    omega

theorem utf8ToHex_eq_nil {text : List ℕ} (h : ∀ c ∈ text, IsScalar c) :
    utf8ToHex text = [] ↔ text = [] := by
  refine ⟨fun hnil => ?_, fun hnil => by rw [hnil]; rfl⟩
  have hlen := length_utf8ToHex h
  rw [hnil, List.length_nil] at hlen
  cases text with
  | nil => rfl
  | cons c text =>
    rw [utf8Encode, List.flatMap_cons, List.length_append] at hlen
    have hpos := List.length_pos_of_ne_nil (length_utf8Bytes_pos c)
    omega

/-- A text is read as it was written if it has no byte order mark. -/
theorem hexToUtf8_eq_self_iff {text : List ℕ} (h : ∀ c ∈ text, IsScalar c) :
    hexToUtf8 (utf8ToHex text) = utf8ToHex text ↔ text.head? ≠ some 0xfeff := by
  rw [hexToUtf8_utf8ToHex h]
  constructor
  · intro hsame hmark
    cases text with
    | nil => exact nomatch hmark
    | cons c text =>
      obtain rfl := Option.some.inj hmark
      have hlen := congrArg List.length hsame
      have htext := (List.forall_mem_cons.mp h).2
      rw [show dropMark (0xfeff :: text) = text from rfl, length_utf8ToHex htext,
        length_utf8ToHex h, utf8Encode, utf8Encode, List.flatMap_cons, List.length_append] at hlen
      have hpos := List.length_pos_of_ne_nil (length_utf8Bytes_pos 0xfeff)
      omega
  · intro hmark
    have hdrop : dropMark text = text := by
      unfold dropMark
      split
      · exact absurd rfl hmark
      · rfl
    rw [hdrop]

theorem hexDigits_utf8ToHex {text : List ℕ} (h : ∀ c ∈ text, IsScalar c) :
    HexDigits (utf8ToHex text) := by
  intro c hc
  obtain ⟨b, hb, hc⟩ := List.mem_flatMap.mp hc
  exact hexDigits_hexNumber (utf8Encode_lt h b hb) c hc

end Texts

/-! ## The envelope of an original -/

namespace Inscribable

variable (i : Inscribable)

theorem whole_contentType : i.inscription.contentType.length % 2 = 0 := by
  show (utf8ToHex i.contentType).length % 2 = 0
  rw [length_utf8ToHex i.scalars]
  omega

theorem elements : ∀ e ∈ envelopeElements i.inscription, Element e :=
  element_envelope (element_encodeText i.whole_contentType i.short.1)
    (element_encodeText i.whole i.short.2)

theorem hexDigits_envelope : HexDigits (buildInscriptionEnvelope i.inscription) := by
  have htext {text : HexText} (hwhole : text.length % 2 = 0) (h : HexDigits text) :
      HexDigits (encodeText text) := by
    by_cases hne : text = []
    · subst hne
      intro c hc
      change c ∈ ['0', '0'] at hc
      simp only [List.mem_cons, List.not_mem_nil, or_false, or_self] at hc
      exact hc ▸ rfl
    · rw [encodeText_push hne hwhole]
      exact (hexDigits_pushHeader _).append h
  have hhead : HexDigits "0063036f726451".toList := by
    have hall : ("0063036f726451".toList).all fun c => (hexDigit? c).isSome := by decide
    exact fun c hc => List.all_eq_true.mp hall c hc
  have hpair (high low : Char) (hhigh : (hexDigit? high).isSome) (hlow : (hexDigit? low).isSome) :
      HexDigits [high, low] := fun c hc => by
    rcases List.mem_cons.mp hc with rfl | hc
    · exact hhigh
    · exact List.mem_singleton.mp hc ▸ hlow
  unfold buildInscriptionEnvelope
  exact (((hhead.append (htext i.whole_contentType (hexDigits_utf8ToHex i.scalars))).append
    (hpair '0' '0' rfl rfl)).append (htext i.whole i.digits)).append (hpair '6' '8' rfl rfl)

/-- What the search finds in the envelope is the inscription exactly when it is readable. -/
theorem inscriptionIn_iff :
    inscriptionIn (envelopeElements i.inscription) = some i.inscription ↔ i.Readable := by
  rw [inscriptionIn_envelope i.whole_contentType i.whole]
  have hnil := utf8ToHex_eq_nil i.scalars
  have hself := hexToUtf8_eq_self_iff i.scalars
  constructor
  · intro h
    split at h
    · rename_i hboth
      have hsame := congrArg Inscription.contentType (Option.some.inj h)
      exact ⟨fun heq => hboth.1 (hnil.mpr heq), hself.mp hsame, hboth.2⟩
    · exact nomatch h
  · rintro ⟨hct, hmark, hdata⟩
    rw [if_pos ⟨fun heq => hct (hnil.mp heq), hdata⟩]
    exact congrArg (fun t => some (Inscription.mk t i.data)) (hself.mpr hmark)

end Inscribable

/-! ## Scripts -/

/-- The locking script of some code and a state. -/
def lockingText (fields : List StateField) (code : HexText) (state : Record) :
    Except String HexText :=
  if fields = [] then .ok code
  else do
    let stateHex ← Codec.serializeState fields state
    .ok (if stateHex = [] then code else code ++ ['6', 'a'] ++ stateHex)

section LockingText

variable {fields : List StateField} {code code' script : HexText} {state : Record}

theorem lockingText_cases (h : lockingText fields code state = .ok script) :
    (fields = [] ∧ script = code) ∨ fields ≠ [] ∧
      ∃ stateHex, Codec.serializeState fields state = .ok stateHex ∧
        script = if stateHex = [] then code else code ++ ['6', 'a'] ++ stateHex := by
  rw [lockingText] at h
  split at h
  · rename_i hfields
    exact .inl ⟨hfields, (Except.ok.inj h).symm⟩
  · rename_i hfields
    cases hser : Codec.serializeState fields state with
    | error message =>
      rw [hser] at h
      exact nomatch h
    | ok stateHex =>
      rw [hser] at h
      exact .inr ⟨hfields, stateHex, rfl, (Except.ok.inj h).symm⟩

/-- The code stands at the start of the script. -/
theorem lockingText_prefix (h : lockingText fields code state = .ok script) :
    ∃ rest, script = code ++ rest := by
  rcases lockingText_cases h with ⟨-, rfl⟩ | ⟨-, stateHex, -, rfl⟩
  · exact ⟨[], (List.append_nil _).symm⟩
  · split
    · exact ⟨[], (List.append_nil _).symm⟩
    · exact ⟨['6', 'a'] ++ stateHex, List.append_assoc _ _ _⟩

/-- Scripts with one state have one code. -/
theorem lockingText_inj (h : lockingText fields code state = .ok script)
    (h' : lockingText fields code' state = .ok script) : code = code' := by
  rcases lockingText_cases h with ⟨hnil, rfl⟩ | ⟨hne, stateHex, hser, heq⟩
  · rcases lockingText_cases h' with ⟨-, heq⟩ | ⟨hne, -⟩
    · exact heq
    · exact absurd hnil hne
  · rcases lockingText_cases h' with ⟨hnil, -⟩ | ⟨-, stateHex', hser', heq'⟩
    · exact absurd hnil hne
    · obtain rfl := Except.ok.inj (hser.symm.trans hser')
      rw [heq] at heq'
      split at heq'
      · exact heq'
      · exact List.append_cancel_right (List.append_cancel_right heq')

end LockingText

theorem getLockingScript_code {tools : Toolbox} {r : RunarContract} {code : HexText}
    (h : r.codeScript = some code) : getLockingScript (withCodec tools) r =
      lockingText (r.artifact.stateFields.map (·.toStateField)) code r.state := by
  rw [getLockingScript, lockingText, h]
  simp only [List.map_eq_nil_iff]
  rfl

theorem getLockingScript_template {tools : Toolbox} {r : RunarContract}
    (h : r.codeScript = none) : getLockingScript (withCodec tools) r =
      lockingText (r.artifact.stateFields.map (·.toStateField))
        (buildCodeScript r.artifact r.constructorArgs ++ envelopeOf r) r.state := by
  rw [getLockingScript, lockingText, h]
  simp only [List.map_eq_nil_iff]
  rfl

theorem parsesInscription_elements {es : List HexText} (hes : ∀ e ∈ es, Whole e) :
    ParsesInscription es.flatten (inscriptionIn es) :=
  ⟨es.length + 1, parses_elements hes []⟩

theorem slice_left (text after : HexText) : slice (text ++ after) 0 text.length = text :=
  slice_append [] text after rfl (by simp)

theorem slice_right (before text : HexText) :
    slice (before ++ text) before.length (before ++ text).length = text := by
  have h := slice_append before text [] rfl
    (show ((before ++ text).length : Int) = before.length + text.length by
      rw [List.length_append]; push_cast; rfl)
  rwa [List.append_nil] at h

/-- The elements before the first OP_RETURN. -/
theorem split_return {es : List HexText} (hes : ∀ e ∈ es, Whole e) :
    (∀ e ∈ es, Element e) ∨ ∃ front ret rest, es = front ++ ret :: rest ∧
      (∀ e ∈ front, Element e) ∧ IsByte ret 0x6a := by
  induction es with
  | nil => exact .inl fun _ h => nomatch h
  | cons e es ih =>
    obtain ⟨he | hret, hes⟩ := List.forall_mem_cons.mp hes
    · rcases ih hes with hall | ⟨front, ret, rest, rfl, hfront, hret⟩
      · exact .inl (List.forall_mem_cons.mpr ⟨he, hall⟩)
      · exact .inr ⟨e :: front, ret, rest, rfl, List.forall_mem_cons.mpr ⟨he, hfront⟩, hret⟩
    · exact .inr ⟨[], e, es, rfl, fun _ h => (nomatch h), hret⟩

/-! ## Restoring an original -/

/-- With digits for code every search that ends makes an object. -/
theorem restores_of {artifact : RunarArtifact} {utxo : UTXO} {code : HexText} {n m : Nat}
    {inscription : Option Inscription} (state : Record) (hdigits : HexDigits code)
    (hne : code ≠ []) (hcode : codeHexOf n artifact utxo.script = some code)
    (hparse : parseInscriptionEnvelope m code = some inscription)
    (hstate : artifact.stateFields ≠ [] → ∃ offset, walkOpReturn utxo.script n 0 = some offset ∧
      offset ≠ -1 ∧ deserializeState (artifact.stateFields.map (·.toStateField))
        (slice utxo.script (offset + 2) utxo.script.length) = .ok state) :
    ∃ r, Restores artifact utxo r ∧ r.artifact = artifact ∧ r.codeScript = some code ∧
      r.inscription = inscription ∧ (artifact.stateFields = [] → r.state = fun _ => none) ∧
      (artifact.stateFields ≠ [] → r.state = state) := by
  have hcode : codeHexOf (n + m) artifact utxo.script = some code := by
    rw [codeHexOf] at hcode ⊢
    split
    · rename_i hfields
      rwa [if_pos hfields] at hcode
    · rename_i hfields
      rw [if_neg hfields, Option.map_eq_some_iff] at hcode
      obtain ⟨offset, hwalk, heq⟩ := hcode
      rw [walkOpReturn_add hwalk m, Option.map_some, heq]
  have hparse : parseInscriptionEnvelope (n + m) code = some inscription :=
    Nat.add_comm m n ▸ parseInscriptionEnvelope_add hparse n
  have hargs : ∃ args, restoreConstructorArgs (n + m) artifact utxo.script = some (.ok args) ∧
      args.length = artifact.constructorParams.length := by
    rw [restoreConstructorArgs]
    split
    · rename_i hparams
      exact ⟨[], rfl, by rw [hparams]; rfl⟩
    · have hextract : ∃ record, extractConstructorArgs (n + m) artifact utxo.script =
          some (.ok record) := by
        rw [extractConstructorArgs]
        split
        · exact ⟨_, rfl⟩
        · obtain ⟨st, hst⟩ := extractSlots_digits hdigits artifact (slotsAscending artifact)
            ⟨fun _ => none, [], some 0⟩
          rw [hcode, Option.map_some, hst]
          exact ⟨_, rfl⟩
      obtain ⟨record, hrecord⟩ := hextract
      rw [hrecord]
      exact ⟨_, rfl, List.length_map _⟩
  obtain ⟨args, hargs, hlen⟩ := hargs
  have hnew : ∃ contract, newRunarContract artifact args = .ok contract ∧
      contract.artifact = artifact ∧
      contract.state = initialState artifact.constructorParams artifact.stateFields args := by
    rw [newRunarContract, if_neg (not_not_intro hlen)]
    exact ⟨_, rfl, rfl, rfl⟩
  obtain ⟨contract, hnew, hartifact, hinitial⟩ := hnew
  have hrun : ∃ next : Option Record → Searched RunarContract,
      fromUtxo (n + m) artifact utxo =
        (if artifact.stateFields = [] then
          some (.ok { contract with codeScript := some code, inscription,
                                    currentUtxo := some utxo })
        else (extractStateFromScript (n + m) artifact utxo.script).andThen next) ∧
      ∀ state, next (some state) = some (.ok { contract with
        codeScript := some code, inscription, currentUtxo := some utxo, state }) := by
    apply Exists.intro
    constructor
    · rw [fromUtxo, hargs]
      dsimp only [Searched.andThen]
      rw [hnew, hcode]
      dsimp only [Option.map_some]
      rw [if_neg hne, hparse]
      rfl
    · exact fun _ => rfl
  obtain ⟨next, hrun, hnext⟩ := hrun
  by_cases hfields : artifact.stateFields = []
  · rw [if_pos hfields] at hrun
    refine ⟨_, ⟨n + m, hrun⟩, hartifact, rfl, rfl, fun _ => ?_, fun hnot => absurd hfields hnot⟩
    exact hinitial.trans (by rw [hfields]; rfl)
  · obtain ⟨offset, hwalk, hfound, hread⟩ := hstate hfields
    have hextract : extractStateFromScript (n + m) artifact utxo.script =
        some (.ok (some state)) := by
      rw [extractStateFromScript, if_neg hfields, walkOpReturn_add hwalk m, Option.map_some,
        if_neg hfound, hread]
      rfl
    rw [if_neg hfields, hextract] at hrun
    exact ⟨_, ⟨n + m, hrun.trans (hnext state)⟩, hartifact, rfl, rfl,
      fun hnil => absurd hnil hfields, fun _ => rfl⟩

namespace Original

variable (o : Original)

theorem fresh_eq : o.fresh.artifact = o.artifact ∧ o.fresh.constructorArgs = o.args ∧
    o.fresh.codeScript = none := by
  have h := o.built
  rw [newRunarContract] at h
  split at h
  · cases h
  · rw [← Except.ok.inj h]
    exact ⟨rfl, rfl, rfl⟩

/-- The elements of the envelope. -/
def envelopeList : List HexText :=
  (o.inscribed.map fun i => envelopeElements i.inscription).getD []

theorem envelope_eq : envelopeOf o.contract = o.envelopeList.flatten := by
  rw [envelopeOf, envelopeList, contract]
  cases o.inscribed with
  | none => rfl
  | some i => exact (flatten_envelopeElements i.inscription).symm

theorem elements_envelopeList : ∀ e ∈ o.envelopeList, Element e := by
  rw [envelopeList]
  cases o.inscribed with
  | none => exact fun _ h => nomatch h
  | some i => exact i.elements

theorem hexDigits_envelope : HexDigits (envelopeOf o.contract) := by
  rw [envelopeOf, contract]
  cases o.inscribed with
  | none => exact fun _ h => nomatch h
  | some i => exact i.hexDigits_envelope

theorem lockingScript_eq (state : Record) :
    getLockingScript (withCodec o.tools) { o.contract with state } =
      lockingText o.fields (o.template ++ envelopeOf o.contract) state := by
  obtain ⟨hartifact, hargs, hcode⟩ := o.fresh_eq
  refine (getLockingScript_template (r := { o.contract with state }) hcode).trans ?_
  show lockingText (o.fresh.artifact.stateFields.map _)
    (buildCodeScript o.fresh.artifact o.fresh.constructorArgs ++ envelopeOf o.contract) state = _
  rw [hartifact, hargs, fields, template]

theorem deploys_eq :
    lockingText o.fields (o.template ++ envelopeOf o.contract) o.state = .ok o.script :=
  (o.lockingScript_eq o.state).symm.trans o.deploys

theorem codePart_eq : getCodePartHex o.contract = o.template ++ envelopeOf o.contract := by
  obtain ⟨hartifact, hargs, hcode⟩ := o.fresh_eq
  have hnone : o.contract.codeScript = none := hcode
  rw [getCodePartHex, hnone]
  show buildCodeScript o.fresh.artifact o.fresh.constructorArgs ++ _ = _
  rw [hartifact, hargs, template]

/-- What is found in the code, and what is found with the envelope behind it. -/
theorem parses : ∃ own found, ParsesInscription o.template own ∧
    ParsesInscription (o.template ++ envelopeOf o.contract) found ∧
    (found = o.contract.inscription ↔ Kept own o.inscribed) := by
  obtain ⟨es, hes, hcode⟩ := o.code.whole
  have hboth : ∀ e ∈ es ++ o.envelopeList, Whole e :=
    List.forall_mem_append.mpr ⟨hes, fun e he => .inl (o.elements_envelopeList e he)⟩
  have hfound := parsesInscription_elements hboth
  rw [List.flatten_append] at hfound
  refine ⟨inscriptionIn es, inscriptionIn (es ++ o.envelopeList), ?_, ?_, ?_⟩
  · rw [template, hcode]
    exact parsesInscription_elements hes
  · rw [template, hcode, envelope_eq]
    exact hfound
  · show inscriptionIn (es ++ (o.inscribed.map fun i => envelopeElements i.inscription).getD []) =
      o.inscribed.map (·.inscription) ↔ _
    cases o.inscribed with
    | none =>
      rw [Option.map_none, Option.getD_none, List.append_nil]
      cases inscriptionIn es with
      | none => exact ⟨fun _ _ h => (nomatch h), fun _ => rfl⟩
      | some own => exact ⟨fun h => (nomatch h), fun h => (nomatch h)⟩
    | some i =>
      rw [Option.map_some, Option.getD_some, inscriptionIn_append]
      cases inscriptionIn es with
      | none =>
        rw [Option.none_or, Option.map_some, i.inscriptionIn_iff]
        exact ⟨fun h _ hmem => Option.some.inj hmem ▸ h, fun h => h i rfl⟩
      | some own => exact eq_comm

/-- Restoring is lossless only for what can be restored. -/
theorem Lossless.restorable {o : Original} (h : o.Lossless) : o.Restorable := by
  obtain ⟨r, hrestores, hsame⟩ := h ⟨"", 0, 0, o.script⟩ rfl
  obtain ⟨hartifact, code, hcode, hcodeScript, hparse, -, hstate⟩ := hrestores.parts
  have hlocking := hsame.lockingScript
  rw [getLockingScript_code hcodeScript, hartifact, hsame.state] at hlocking
  obtain rfl := lockingText_inj hlocking o.deploys_eq
  refine ⟨fun hfields => ?_, ?_, fun own hown => ?_⟩
  · -- an OP_RETURN in the code would end the code of the restored object
    obtain ⟨es, hes, htemplate⟩ := o.code.whole
    rcases split_return hes with hall | ⟨front, ret, rest, rfl, hfront, hret⟩
    · exact ⟨es, hall, htemplate⟩
    · obtain ⟨after, hscript⟩ := lockingText_prefix o.deploys_eq
      have hsplit : o.script = front.flatten ++
          (ret ++ (rest.flatten ++ envelopeOf o.contract ++ after)) := by
        rw [hscript, template, htemplate, List.flatten_append, List.flatten_cons]
        simp only [List.append_assoc]
      have hwalk := walk_elements hfront hret []
        (rest.flatten ++ envelopeOf o.contract ++ after)
      rw [List.nil_append, List.nil_append, ← hsplit] at hwalk
      rw [CodeOf, if_neg hfields] at hcode
      obtain ⟨offset, hfinds, heq⟩ := hcode
      obtain rfl := hfinds.unique ⟨_, hwalk⟩
      have hcut := slice_left front.flatten
        (ret ++ (rest.flatten ++ envelopeOf o.contract ++ after))
      rw [← hsplit] at hcut
      rw [if_pos (by omega)] at heq
      have hlen := congrArg List.length (heq.trans hcut)
      rw [template, htemplate, List.flatten_append, List.flatten_cons] at hlen
      simp only [List.length_append, hret.length] at hlen
      omega
  · by_cases hfields : o.artifact.stateFields = []
    · intro field hmem
      rw [fields, hfields] at hmem
      cases hmem
    · obtain ⟨offset, -, -, hread⟩ := hstate hfields
      rw [hsame.state] at hread
      refine noRabin_of_deserialize ?_ o.holds hread
      rw [fields, List.map_map]
      exact o.names
  · obtain ⟨own', found, hown', hfound, hiff⟩ := o.parses
    obtain rfl := hown.unique hown'
    refine hiff.mp ((hfound.unique hparse).trans hsame.inscription)

/-- What can be restored is restored without loss. -/
theorem Restorable.lossless {o : Original} (h : o.Restorable) : o.Lossless := by
  intro utxo hutxo
  obtain ⟨own, found, hown, ⟨m, hparse⟩, hiff⟩ := o.parses
  have hinscription := hiff.mpr (h.inscription own hown)
  have hdigits : HexDigits (o.template ++ envelopeOf o.contract) :=
    o.code.digits.append o.hexDigits_envelope
  have hne : o.template ++ envelopeOf o.contract ≠ [] :=
    List.append_ne_nil_of_left_ne_nil o.code.nonempty _
  have hsame {r : RunarContract} (hartifact : r.artifact = o.artifact)
      (hcode : r.codeScript = some (o.template ++ envelopeOf o.contract))
      (hfound : r.inscription = found) (hstate : r.state = o.state) : o.SameAs r := by
    have hlater (state : Record) : getLockingScript (withCodec o.tools) { r with state } =
        lockingText o.fields (o.template ++ envelopeOf o.contract) state := by
      refine (getLockingScript_code (r := { r with state }) hcode).trans ?_
      show lockingText (r.artifact.stateFields.map _) _ state = _
      rw [hartifact, fields]
    refine ⟨hstate, hfound.trans hinscription, ?_, ?_, fun state => ?_⟩
    · rw [← o.deploys_eq, ← hstate]
      exact hlater r.state
    · rw [codePart_eq, getCodePartHex, hcode]
      obtain ⟨c, text, htext⟩ := List.exists_cons_of_ne_nil hne
      rw [htext]
    · rw [hlater, lockingScript_eq]
  by_cases hfields : o.artifact.stateFields = []
  · have hscript : o.script = o.template ++ envelopeOf o.contract := by
      rcases lockingText_cases o.deploys_eq with ⟨-, heq⟩ | ⟨hnot, -⟩
      · exact heq
      · exact absurd (by rw [fields, hfields]; rfl) hnot
    have hnone : o.state = fun _ => none := by
      funext name
      have hpresent := o.holds.present name
      rw [hfields] at hpresent
      cases hvalue : o.state name with
      | none => rfl
      | some value =>
        rw [hvalue] at hpresent
        obtain ⟨_, hmem, -⟩ := hpresent.mp rfl
        cases hmem
    have hcodeHex : codeHexOf 0 o.artifact utxo.script =
        some (o.template ++ envelopeOf o.contract) := by
      rw [codeHexOf, if_pos hfields, hutxo, hscript]
    obtain ⟨r, hrestores, hartifact, hcode, hfound, hstate, -⟩ :=
      restores_of o.state hdigits hne hcodeHex hparse fun hnot => absurd hfields hnot
    exact ⟨r, hrestores, hsame hartifact hcode hfound ((hstate hfields).trans hnone.symm)⟩
  · have hfields' : o.fields ≠ [] := fun hnil => hfields (List.map_eq_nil_iff.mp hnil)
    obtain ⟨-, stateHex, hser, hscript⟩ :=
      (lockingText_cases o.deploys_eq).resolve_left fun hnil => hfields' hnil.1
    have hround := state_roundTrips_iff h.noRabin o.holds
    have hrange : AllInRange o.fields o.state := by
      by_contra hnot
      obtain ⟨message, herror⟩ := hround.2 hnot
      rw [hser] at herror
      cases herror
    obtain ⟨hex, hser', hread⟩ := hround.1 hrange
    obtain rfl := Except.ok.inj (hser.symm.trans hser')
    have hhex : stateHex ≠ [] := by
      rintro rfl
      exact deserializeState_nil o.holds hfields' hread
    rw [if_neg hhex] at hscript
    -- the OP_RETURN before the state is the first one
    obtain ⟨es, hes, htemplate⟩ := h.noReturn hfields
    have hall : ∀ e ∈ es ++ o.envelopeList, Element e :=
      List.forall_mem_append.mpr ⟨hes, o.elements_envelopeList⟩
    have hflat : (es ++ o.envelopeList).flatten = o.template ++ envelopeOf o.contract := by
      rw [List.flatten_append, ← htemplate, envelope_eq]
    have hwalk := walk_elements hall (isByte_hexNumber (k := 0x6a) (by decide)) [] stateHex
    rw [List.nil_append, hflat, ← List.append_assoc] at hwalk
    change walkOpReturn (o.template ++ envelopeOf o.contract ++ ['6', 'a'] ++ stateHex) _ 0 = _
      at hwalk
    rw [← hscript, ← hutxo, List.nil_append] at hwalk
    have hfound : ((o.template ++ envelopeOf o.contract).length : Int) ≠ -1 := by omega
    have hcut : slice utxo.script 0 (o.template ++ envelopeOf o.contract).length =
        o.template ++ envelopeOf o.contract := by
      have hcut := slice_left (o.template ++ envelopeOf o.contract) (['6', 'a'] ++ stateHex)
      rwa [← List.append_assoc, ← hscript, ← hutxo] at hcut
    have hstateHex : slice utxo.script ((o.template ++ envelopeOf o.contract).length + 2)
        utxo.script.length = stateHex := by
      have hcut := slice_right (o.template ++ envelopeOf o.contract ++ ['6', 'a']) stateHex
      have hplace : ((o.template ++ envelopeOf o.contract ++ ['6', 'a']).length : Int) =
          (o.template ++ envelopeOf o.contract).length + 2 := by
        simp only [List.length_append, List.length_cons, List.length_nil]
        omega
      rwa [hplace, ← hscript, ← hutxo] at hcut
    have hcodeHex : codeHexOf ((es ++ o.envelopeList).length + 1) o.artifact utxo.script =
        some (o.template ++ envelopeOf o.contract) := by
      rw [codeHexOf, if_neg hfields, hwalk, Option.map_some, if_pos hfound, hcut]
    obtain ⟨r, hrestores, hartifact, hcode, hinscribed, -, hstate⟩ :=
      restores_of o.state hdigits hne hcodeHex hparse
        fun _ => ⟨_, hwalk, hfound, by rw [hstateHex]; exact hread⟩
    exact ⟨r, hrestores, hsame hartifact hcode hinscribed (hstate hfields)⟩

end Original

/-- An object is restored without loss if and only if its code has no OP_RETURN before the
state, no state is of a Rabin type, and its inscription is the first of the script, is not
empty and has no byte order mark. -/
theorem lossless_iff (o : Original) : o.Lossless ↔ o.Restorable :=
  ⟨Original.Lossless.restorable, Original.Restorable.lossless⟩

/-! ## An inscription without data -/

/-- A content type and nothing else. -/
def bareInscription : Inscribable where
  contentType := [0x74, 0x65, 0x78, 0x74]
  data := []
  scalars := fun c hc => .inl (by
    simp only [List.mem_cons, List.not_mem_nil, or_false] at hc
    omega)
  digits := fun _ h => nomatch h
  whole := rfl
  short := by decide

theorem wellFormedCode_pair : WellFormedCode (buildCodeScript pairArtifact pairArgs) := by
  rw [buildCodeScript_pair]
  refine ⟨⟨[['5', '5'], ['9', 'c']], ?_, rfl⟩, fun c hc => ?_, by decide⟩
  · refine List.forall_mem_cons.mpr ⟨.inl (.op (n := 0x55) ⟨'5', '5', 5, 5, rfl, rfl, rfl, rfl⟩
      (by decide) (by decide)), List.forall_mem_singleton.mpr (.inl (.op (n := 0x9c)
      ⟨'9', 'c', 9, 12, rfl, rfl, rfl, rfl⟩ (by decide) (by decide)))⟩
  · have hall : ("559c".toList).all fun c => (hexDigit? c).isSome := by decide
    exact List.all_eq_true.mp hall c hc

/-- A contract of two numbers with that inscription. -/
def barePair : Original where
  tools := counterTools
  artifact := pairArtifact
  args := pairArgs
  state := fun _ => none
  inscribed := some bareInscription
  fresh := ⟨pairArtifact, pairArgs, fun _ => none, none, none, none, none, none, [], none⟩
  script := buildCodeScript pairArtifact pairArgs ++
    buildInscriptionEnvelope bareInscription.inscription
  built := rfl
  code := wellFormedCode_pair
  names := List.nodup_nil
  holds := ⟨fun _ h => (nomatch h), fun _ h => (nomatch h),
    fun _ => ⟨fun h => (nomatch h), fun ⟨_, h, _⟩ => (nomatch h)⟩⟩
  deploys := rfl

/-- The restored contract has no inscription. -/
theorem not_lossless : ¬ ∀ o : Original, o.Lossless := by
  intro hall
  have hkept := (hall barePair).restorable.inscription none (by
    rw [Original.template, show buildCodeScript barePair.artifact barePair.args =
      "559c".toList from buildCodeScript_pair]
    exact ⟨3, rfl⟩)
  exact (hkept bareInscription rfl).data rfl

end Runar.Sdk
