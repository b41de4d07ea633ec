/-
  Sdk/SeparatorChoice.lean --- which separator the SDK signs from.

  WHAT THIS FILE IS FOR.  A signature check hashes the script behind the last
  OP_CODESEPARATOR that was executed.  The SDK computes the preimage and the signatures
  from a separator of its own choice, by the number of the called method.  It chooses the
  executed one exactly when the number it passes is the number of that separator among
  all, and for a contract without state it always passes zero.
-/
import Runar.Sdk.Failures
import Runar.Sdk.Lossless
import Runar.Sdk.SeparatorOffsets

set_option autoImplicit false

namespace Runar.Sdk

open Script Artifact Codec Logic
open Logic.Attempt (exec exec_pure exec_bind_eq_ok)

/-! ## What may follow the program -/

theorem inertText_flatten {texts : List HexText} (h : ∀ text ∈ texts, InertText text) :
    InertText texts.flatten := by
  induction texts with
  | nil => exact ⟨[], fun _ h => (nomatch h), rfl⟩
  | cons text texts ih =>
    obtain ⟨htext, htexts⟩ := List.forall_mem_cons.mp h
    exact htext.append (ih htexts)

/-- The envelope of an inscription has no separator. -/
theorem Inscribable.inertText (i : Inscribable) :
    InertText (buildInscriptionEnvelope i.inscription) := by
  rw [← flatten_envelopeElements]
  refine ⟨_, fun e he => ⟨.inl (i.elements e he), ?_⟩, rfl⟩
  have hpush {text : HexText} (hwhole : text.length % 2 = 0) :
      opcodeOf (encodeText text) ≠ some 0xab := by
    by_cases hnil : text = []
    · subst hnil
      decide
    · intro hopcode
      have hdata := pushedData_encodeText hwhole
      rw [pushedData, hopcode, Option.bind_some, if_neg (by decide), if_neg hnil] at hdata
      cases hdata
  simp only [envelopeElements, List.mem_cons, List.not_mem_nil, or_false] at he
  rcases he with rfl | rfl | rfl | rfl | rfl | rfl | rfl | rfl
  · decide
  · decide
  · decide
  · decide
  · exact hpush i.whole_contentType
  · decide
  · exact hpush i.whole
  · decide

/-- The envelope of an inscription, if there is one. -/
def inscribedText (inscribed : Option Inscribable) : HexText :=
  (inscribed.map fun i => buildInscriptionEnvelope i.inscription).getD []

/-- An object built from the template with some arguments, or from the chain, where its code
is the deployed one and its arguments are unknown. -/
inductive Origin (artifact : RunarArtifact) (args : List JsValue) (self : RunarContract) : Prop
  | template (code : self.codeScript = none) (same : self.constructorArgs = args)
  | chain (inscribed : Option Inscribable)
      (code : self.codeScript = some (buildCodeScript artifact args ++ inscribedText inscribed))

/-- What `fromUtxo` restores without loss comes from the chain so. -/
theorem Original.Lossless.origin {o : Original} (h : o.Lossless) {utxo : UTXO}
    (hutxo : utxo.script = o.script) :
    ∃ r, Restores o.artifact utxo r ∧ r.artifact = o.artifact ∧ Origin o.artifact o.args r := by
  obtain ⟨r, hrestores, hsame⟩ := h utxo hutxo
  obtain ⟨hartifact, code, hcode, hcodeScript, -⟩ := hrestores.parts
  have hlocking := hsame.lockingScript
  rw [getLockingScript_code hcodeScript, hartifact, hsame.state] at hlocking
  obtain rfl := lockingText_inj hlocking o.deploys_eq
  refine ⟨r, hrestores, hartifact, .chain o.inscribed ?_⟩
  rw [hcodeScript, Original.template, envelopeOf, Original.contract, inscribedText, Option.map_map]
  rfl

/-! ## A call -/

/-- The number of a method that a call passes on. -/
def selectedIndex (artifact : RunarArtifact) (methodName : String) : Nat :=
  let publicMethods := artifact.publicMethods
  let idx := publicMethods.findIdx (·.name = methodName)
  if decide (artifact.stateFields ≠ []) && publicMethods.length > 1 && idx < publicMethods.length
  then idx else 0

/-- It is the one a plan of the call carries. -/
theorem planCall_methodIndex {tools : Toolbox} {signer : Signer} {contract : RunarContract}
    {methodName : String} {args : List JsValue} {options : CallOptions} {now now' : Nat}
    {plan : CallPlan}
    (h : exec (planCall tools signer contract methodName args options) now = (.ok plan, now')) :
    plan.methodIndex = selectedIndex contract.artifact methodName := by
  unfold planCall at h
  dsimp only at h
  split at h
  · exact nomatch h
  split at h
  · exact nomatch h
  split at h
  · exact nomatch h
  obtain ⟨_, _, -, h⟩ := exec_bind_eq_ok h
  obtain ⟨_, _, -, h⟩ := exec_bind_eq_ok h
  obtain ⟨_, _, -, h⟩ := exec_bind_eq_ok h
  split at h
  all_goals
    obtain ⟨_, _, -, h⟩ := exec_bind_eq_ok h
    obtain ⟨_, _, -, h⟩ := exec_bind_eq_ok h
    rw [exec_pure] at h
    rw [← Except.ok.inj (Prod.mk.inj h).1]
    rfl

/-- A method of a deployed contract, and the object it is called on. -/
structure CalledMethod where
  artifact : RunarArtifact
  methods : List StackMethod
  args : List JsValue
  self : RunarContract
  method : ABIMethod
  carries : CarriesSeparators artifact methods
  plain : PlainProgram methods
  own : self.artifact = artifact
  origin : Origin artifact args self
  scalars : ∀ value ∈ args, ∃ type, WellTyped (.primitive type) value
  slots : ∀ slot ∈ artifact.constructorSlots, slot.paramIndex < args.length
  short : ∀ slot ∈ resolvedCodeSepSlotValues artifact args, (encodeNum slot.2).length < 2 ^ 31
  names : artifact.publicMethods.map (·.name) =
    (methods.filter (·.name ≠ "constructor")).map (·.name)
  called : method ∈ artifact.publicMethods

namespace CalledMethod

variable (m : CalledMethod)

/-- The separators of the deployed script. -/
def separators : List (Nat × Nat) := deployedSeparators m.artifact m.args m.methods

/-- The stack the script starts on: the selector above the arguments, if there is one. -/
def stack (items : List Bytes) : List Bytes :=
  if m.artifact.publicMethods.length > 1 then
    encodeNum (m.artifact.publicMethods.findIdx (·.name = m.method.name)) :: items
  else items

/-- The numbers of the separators that a run of the method executes. -/
def executed (cfg : Config) (trace : SpanTrace) (slots : Slots) (items alt : List Bytes) :
    List Nat :=
  separatorsExecuted cfg trace 0 (programInstrs slots m.methods) (.start (m.stack items) alt)

/-- Where the separator of a number stands. -/
def offsetOf (number : Option Nat) : Option Nat :=
  number.bind fun k => m.separators[k]?.map Prod.snd

/-- The index the SDK passes. -/
def index : Nat := selectedIndex m.artifact m.method.name

/-- The script behind a separator, the whole without one. -/
def behind (offset : Option Nat) (script : HexText) : HexText :=
  match offset with
  | some offset => script.drop (2 * (offset + 1))
  | none => script

/-- The SDK signs from the last separator that the run executes, under the sighash type of
the method. -/
structure SelectsRight (executed : List Nat) : Prop where
  signing : ∀ script, getSubscriptForSigning m.self script m.index =
    behind (m.offsetOf executed.getLast?) script
  preimage : ∀ (tools : Toolbox) tx input subscript satoshis,
    computeOpPushTxWithCodeSep tools m.self tx input subscript satoshis m.index =
      tools.computeOpPushTx tx input subscript satoshis
        ((m.offsetOf executed.getLast?).map Int.ofNat) (m.method.sigHashType.getD 0x41)

/-- The recorded separators, by their offsets in the template. -/
def recorded : List Nat := (emit m.methods).codeSeparatorIndices

/-- The number of the separator that belongs to an index: in the template the one recorded
at that index, and without it the last recorded; on the chain the one of that number, and
without a recorded one at that index the first. -/
def chosen (index : Nat) : Option Nat :=
  match m.self.codeScript with
  | none => (m.recorded[index]?.or m.recorded.getLast?).map fun offset =>
      (marks 0 (programPieces m.methods)).idxOf offset
  | some _ =>
      if m.recorded = [] then none
      else if index < m.recorded.length then some index else some 0

/-- The separator of the index is the one executed last, and the method of the index has
the sighash type of the one called. -/
structure ChoosesRight (executed : List Nat) : Prop where
  separator : m.chosen m.index = executed.getLast?
  sighash : ((m.artifact.publicMethods[m.index]?).bind (·.sigHashType)).getD 0x41 =
    m.method.sigHashType.getD 0x41

/-! ## The separator the SDK finds -/

theorem map_fst_separators : m.separators.map Prod.fst = marks 0 (programPieces m.methods) :=
  map_fst_positions 0 0 _

theorem length_separators : m.separators.length = separatorCount (programPieces m.methods) := by
  rw [← length_marks 0, ← map_fst_separators, List.length_map]

theorem recorded_sublist : m.recorded.Sublist (marks 0 (programPieces m.methods)) :=
  (emitted_indices m.plain).1

theorem length_recorded : m.recorded.length ≤ m.separators.length := by
  rw [← List.length_map Prod.fst, map_fst_separators]
  exact m.recorded_sublist.length_le

/-- A recorded separator is the one of its number. -/
theorem separators_idxOf {offset : Nat} (h : offset ∈ m.recorded) :
    ∃ p, m.separators[(marks 0 (programPieces m.methods)).idxOf offset]? = some p ∧
      p.1 = offset := by
  have hmem := m.recorded_sublist.subset h
  have hlt := List.idxOf_lt_length_of_mem hmem
  have hget : (m.separators.map Prod.fst)[(marks 0 (programPieces m.methods)).idxOf offset]? =
      some offset := by
    rw [map_fst_separators, List.getElem?_eq_getElem hlt, List.getElem_idxOf hlt]
  rw [List.getElem?_map] at hget
  obtain ⟨p, hp, hfst⟩ := Option.map_eq_some_iff.mp hget
  exact ⟨p, hp, hfst⟩

theorem inertText_argText {i : Nat} (h : .arg i ∈ programPieces m.methods) :
    InertText (encodeArg (argAt m.args i)) := by
  obtain ⟨f, hwrote, hemit⟩ := emit_wrote m.methods
  have hslots : m.artifact.constructorSlots = argSlots 0 (programPieces m.methods) := by
    rw [m.carries.program.2.1, hemit, hwrote.constructorSlots _ rfl]
    rfl
  have hmem (offset : Nat) {pieces : List Piece} (h : .arg i ∈ pieces) :
      ∃ slot ∈ argSlots offset pieces, slot.paramIndex = i := by
    induction pieces generalizing offset with
    | nil => exact nomatch h
    | cons piece pieces ih =>
      rcases List.mem_cons.mp h with rfl | hrest
      · exact ⟨_, List.mem_cons_self, rfl⟩
      · cases piece with
        | text hex => exact ih _ hrest
        | codeSep => exact ih _ hrest
        | arg paramIndex =>
          obtain ⟨slot, hslot, heq⟩ := ih _ hrest
          exact ⟨slot, List.mem_cons_of_mem _ hslot, heq⟩
  obtain ⟨slot, hslot, rfl⟩ := hmem 0 h
  rw [← hslots] at hslot
  have hlt := m.slots slot hslot
  obtain ⟨type, htyped⟩ := m.scalars m.args[slot.paramIndex] (List.getElem_mem hlt)
  rw [argAt, List.getElem?_eq_getElem hlt, Option.getD_some]
  exact .of_inert (inert_encodeArg htyped)

theorem inertText_sepText (offset : Nat) :
    InertText (Artifact.sepText m.artifact m.args offset) := by
  rw [Artifact.sepText]
  cases hlookup : (resolvedCodeSepSlotValues m.artifact m.args).lookup offset with
  | none => exact .of_inert (inert_encodeScriptNumber (by decide))
  | some value =>
    obtain ⟨before, after, heq, -⟩ := List.lookup_eq_some_iff.mp hlookup
    have hmem : (offset, value) ∈ resolvedCodeSepSlotValues m.artifact m.args := by
      rw [heq]
      exact List.mem_append_right _ List.mem_cons_self
    exact .of_inert (inert_encodeScriptNumber (m.short _ hmem))

theorem inertText_inscribed (inscribed : Option Inscribable) :
    InertText (inscribedText inscribed) := by
  cases inscribed with
  | none => exact ⟨[], fun _ h => (nomatch h), rfl⟩
  | some i => exact i.inertText

/-- The separators stand in the deployed program at their offsets, in order. -/
theorem walked_deployed : Walked (deployedText m.artifact m.args (programPieces m.methods))
    (m.separators.map Prod.snd) := by
  obtain ⟨f, hmarked, -⟩ := emit_marked m.plain
  exact walked_positions hmarked.opcodes (fun i hi => m.inertText_argText hi) m.inertText_sepText 0

/-- The walk over the code from the chain finds the separators of the program. -/
theorem findCodesepOffsets_eq (inscribed : Option Inscribable) :
    findCodesepOffsets (buildCodeScript m.artifact m.args ++ inscribedText inscribed) =
      m.separators.map Prod.snd := by
  obtain ⟨trailing, hcode, htrailing⟩ := buildCodeScript_trailing m.carries.program m.args
  have hinert : InertText trailing := by
    rcases htrailing with rfl | rfl
    · exact ⟨[], fun _ h => (nomatch h), rfl⟩
    · rw [List.flatMap_def]
      refine inertText_flatten fun text htext => ?_
      obtain ⟨value, hvalue, rfl⟩ := List.mem_map.mp htext
      obtain ⟨type, htyped⟩ := m.scalars value hvalue
      exact .of_inert (inert_encodeArg htyped)
  have htail := (hinert.append (inertText_inscribed inscribed)).walked
  rw [hcode, List.append_assoc, (m.walked_deployed.append htail).find_eq]
  exact List.append_nil _

theorem onChainSeparator_template {self : RunarContract} (h : self.codeScript = none) (i : Nat) :
    onChainSeparator self i = none := by
  rw [onChainSeparator, h]
  rfl

theorem codeSeparatorIndex_eq : m.artifact.codeSeparatorIndex = m.recorded.getLast? := by
  rw [m.carries.index, (emitted_indices m.plain).2]
  rfl

theorem codeSeparatorIndices_eq : m.artifact.codeSeparatorIndices =
    if m.recorded = [] then none else some m.recorded := m.carries.indices

/-- A separator of the template is taken to where it stands. -/
theorem adjust_recorded (hargs : m.self.constructorArgs = m.args) {offset : Option Nat}
    (h : ∀ o ∈ offset, o ∈ m.recorded) : offset.map (adjustCodeSepOffset m.self) =
      (m.offsetOf (offset.map fun o =>
        (marks 0 (programPieces m.methods)).idxOf o)).map Int.ofNat := by
  cases offset with
  | none => rfl
  | some o =>
    obtain ⟨p, hp, rfl⟩ := m.separators_idxOf (h o rfl)
    have hadjust := adjustCodeSepOffset_eq m.plain m.carries.program m.own hargs
      (List.mem_of_getElem? hp)
    rw [offsetOf, Option.map_some, hadjust, Option.map_some, Option.bind_some, hp]
    rfl

theorem templateSeparator_eq (i : Nat) : templateSeparator m.self i =
    (m.recorded[i]?.or m.recorded.getLast?).map (adjustCodeSepOffset m.self) := by
  rw [templateSeparator, m.own, codeSeparatorIndices_eq, codeSeparatorIndex_eq]
  by_cases hnil : m.recorded = []
  · rw [if_pos hnil, hnil]
    rfl
  · rw [if_neg hnil]
    dsimp only
    by_cases hlt : i < m.recorded.length
    · rw [if_pos hlt, List.getElem?_eq_getElem hlt, Option.some_or]
    · rw [if_neg hlt, List.getElem?_eq_none (Nat.le_of_not_lt hlt), Option.none_or]

theorem onChainSeparator_eq {inscribed : Option Inscribable} (hcode : m.self.codeScript =
    some (buildCodeScript m.artifact m.args ++ inscribedText inscribed)) (i : Nat) :
    onChainSeparator m.self i = m.offsetOf (m.chosen i) := by
  have hlength := m.length_recorded
  rw [onChainSeparator, chosen, hcode, Option.bind_eq_bind, Option.bind_some,
    m.findCodesepOffsets_eq inscribed, m.own, codeSeparatorIndices_eq, codeSeparatorIndex_eq]
  dsimp only
  by_cases hnil : m.recorded = []
  · -- separators of spans only: the SDK has no use for them
    rw [if_pos hnil, if_pos hnil, hnil]
    cases (m.separators.map Prod.snd).head? <;> rfl
  · rw [if_neg hnil, if_neg hnil]
    have hpos := List.length_pos_of_ne_nil hnil
    obtain ⟨first, rest, hcons⟩ := List.exists_cons_of_length_pos (Nat.lt_of_lt_of_le hpos hlength)
    obtain ⟨last, hlast⟩ : ∃ last, m.recorded.getLast? = some last :=
      Option.ne_none_iff_exists'.mp fun hnone => hnil (List.getLast?_eq_none_iff.mp hnone)
    have hhead : (m.separators.map Prod.snd).head? = some first.2 := by
      rw [hcons]
      rfl
    rw [hhead, hlast, Option.bind_eq_bind, Option.bind_some]
    dsimp only
    rw [List.length_map, List.getElem?_map]
    by_cases hlt : i < m.recorded.length
    · rw [if_pos ⟨hlt, Nat.lt_of_lt_of_le hlt hlength⟩, if_pos hlt]
      rfl
    · rw [if_neg fun h => hlt h.1, if_neg hlt, offsetOf, Option.bind_some, hcons]
      rfl

/-- The SDK finds the separator of the chosen number where it stands. -/
theorem separatorFor_eq (i : Nat) :
    separatorFor m.self i = (m.offsetOf (m.chosen i)).map Int.ofNat := by
  cases m.origin with
  | template code same =>
    have hmem : ∀ o ∈ m.recorded[i]?.or m.recorded.getLast?, o ∈ m.recorded := by
      intro o ho
      rcases Option.or_eq_some_iff.mp ho with ho | ⟨-, ho⟩
      · exact List.mem_of_getElem? ho
      · exact List.mem_of_getLast? ho
    rw [separatorFor, onChainSeparator_template code, Option.map_none, Option.none_or,
      templateSeparator_eq, m.adjust_recorded same hmem, chosen, code]
  | chain inscribed code =>
    rw [separatorFor, m.onChainSeparator_eq code]
    by_cases hnil : m.recorded = []
    · have hnone : templateSeparator m.self i = none := by
        rw [templateSeparator_eq, hnil]
        rfl
      rw [hnone, Option.or_none]
    · have hsome : ∃ offset, m.offsetOf (m.chosen i) = some offset := by
        have hlength := m.length_recorded
        have hpos := List.length_pos_of_ne_nil hnil
        have hoffset {k : Nat} (hk : k < m.separators.length) :
            ∃ offset, m.offsetOf (some k) = some offset := by
          rw [offsetOf, Option.bind_some, List.getElem?_eq_getElem hk]
          exact ⟨_, rfl⟩
        rw [chosen, code]
        dsimp only
        rw [if_neg hnil]
        split
        · exact hoffset (by omega)
        · exact hoffset (by omega)
      obtain ⟨offset, hoffset⟩ := hsome
      rw [hoffset]
      rfl

theorem getSubscriptForSigning_eq (i : Nat) (script : HexText) :
    getSubscriptForSigning m.self script i =
      behind (m.offsetOf (m.chosen i)) script := by
  rw [getSubscriptForSigning, separatorFor_eq]
  cases m.offsetOf (m.chosen i) with
  | none => rfl
  | some offset =>
    have htwo : (((Int.ofNat offset) + 1) * 2).toNat = 2 * (offset + 1) := by
      rw [Int.ofNat_eq_natCast]
      omega
    exact congrArg (script.drop ·) htwo

theorem computeOpPushTx_eq (tools : Toolbox) (tx : Transaction) (input : Nat)
    (subscript : HexText) (satoshis : Int) :
    computeOpPushTxWithCodeSep tools m.self tx input subscript satoshis m.index =
      tools.computeOpPushTx tx input subscript satoshis
        ((m.offsetOf (m.chosen m.index)).map Int.ofNat)
        (((m.artifact.publicMethods[m.index]?).bind (·.sigHashType)).getD 0x41) := by
  rw [computeOpPushTxWithCodeSep, separatorFor_eq, m.own]

/-! ## It is right exactly for the number of the executed one -/

/-- What is behind a separator tells where it stands. -/
theorem behind_inj {a b : Option Nat} (h : ∀ script, behind a script = behind b script) :
    a = b := by
  have hlength (text : HexText) := congrArg List.length (h text)
  cases a with
  | none =>
    cases b with
    | none => rfl
    | some y =>
      have hlen := hlength (List.replicate (2 * (y + 1)) '0')
      simp only [behind, List.length_drop, List.length_replicate] at hlen
      omega
  | some x =>
    cases b with
    | none =>
      have hlen := hlength (List.replicate (2 * (x + 1)) '0')
      simp only [behind, List.length_drop, List.length_replicate] at hlen
      omega
    | some y =>
      have hlen := hlength (List.replicate (2 * (x + y + 1)) '0')
      simp only [behind, List.length_drop, List.length_replicate] at hlen
      congr 1
      omega

/-- Separators of different numbers stand at different offsets. -/
theorem offsetOf_inj {a b : Option Nat} (ha : ∀ k ∈ a, k < m.separators.length)
    (hb : ∀ k ∈ b, k < m.separators.length) (h : m.offsetOf a = m.offsetOf b) : a = b := by
  have hpairwise := List.pairwise_iff_getElem.mp (List.pairwise_map.mp m.walked_deployed.sorted)
  have hoffset {k : Nat} (hk : k < m.separators.length) :
      m.offsetOf (some k) = some m.separators[k].2 := by
    rw [offsetOf, Option.bind_some, List.getElem?_eq_getElem hk]
    rfl
  cases a with
  | none =>
    cases b with
    | none => rfl
    | some y =>
      rw [hoffset (hb y rfl)] at h
      exact nomatch h
  | some x =>
    have hx := ha x rfl
    cases b with
    | none =>
      rw [hoffset hx] at h
      exact nomatch h
    | some y =>
      have hy := hb y rfl
      rw [hoffset hx, hoffset hy] at h
      have heq := Option.some.inj h
      rcases Nat.lt_trichotomy x y with hlt | rfl | hlt
      · have hless := hpairwise x y hx hy hlt
        omega
      · rfl
      · have hless := hpairwise y x hy hx hlt
        omega

theorem chosen_lt (i : Nat) : ∀ k ∈ m.chosen i, k < m.separators.length := by
  intro k hk
  have hlength := m.length_recorded
  rw [chosen] at hk
  cases hcode : m.self.codeScript with
  | none =>
    rw [hcode] at hk
    obtain ⟨offset, hoffset, rfl⟩ := Option.map_eq_some_iff.mp hk
    have hmem : offset ∈ m.recorded := by
      rcases Option.or_eq_some_iff.mp hoffset with hoffset | ⟨-, hoffset⟩
      · exact List.mem_of_getElem? hoffset
      · exact List.mem_of_getLast? hoffset
    obtain ⟨p, hp, -⟩ := m.separators_idxOf hmem
    exact (List.getElem?_eq_some_iff.mp hp).1
  | some code =>
    rw [hcode] at hk
    dsimp only at hk
    split at hk
    · exact nomatch hk
    rename_i hnil
    have hpos := List.length_pos_of_ne_nil hnil
    split at hk <;> obtain rfl := Option.some.inj hk <;> omega

theorem executed_lt (cfg : Config) (trace : SpanTrace) (slots : Slots)
    (items alt : List Bytes) :
    ∀ k ∈ (m.executed cfg trace slots items alt).getLast?, k < m.separators.length := by
  intro k hk
  have hlt := lt_of_mem_separatorsExecuted (List.mem_of_getLast? hk)
  rw [separators_program slots m.plain, Nat.zero_add] at hlt
  rwa [length_separators]

end CalledMethod

/-! ## A contract without state -/

/-- Two methods, each of which binds a preimage. -/
def turnMethods : List StackMethod :=
  [⟨"open", [.opcode .OP_CODESEPARATOR, .push (.boolean true)]⟩,
    ⟨"close", [.opcode .OP_CODESEPARATOR, .push (.boolean true)]⟩]

def closeMethod : ABIMethod :=
  ⟨"close", [⟨"preimage", .primitive .SigHashPreimage⟩], true, none, none⟩

def turnArtifact : RunarArtifact where
  contractName := "Turn"
  parentClass := some "SmartContract"
  constructorParams := []
  methods := [{ closeMethod with name := "open" }, closeMethod]
  script := (emit turnMethods).hex
  stateFields := []
  constructorSlots := (emit turnMethods).constructorSlots
  codeSepIndexSlots := (emit turnMethods).codeSepIndexSlots
  codeSeparatorIndex := (emit turnMethods).codeSeparatorIndex
  codeSeparatorIndices := some (emit turnMethods).codeSeparatorIndices
  anf := none

def turnContract : RunarContract :=
  { artifact := turnArtifact, constructorArgs := [], state := fun _ => none, codeScript := none,
    inscription := none, currentUtxo := none, provider := none, signer := none,
    prevOutScripts := [], serialisedOutputs := none }

def closeCall : CalledMethod where
  artifact := turnArtifact
  methods := turnMethods
  args := []
  self := turnContract
  method := closeMethod
  carries := ⟨⟨rfl, rfl, rfl⟩, rfl, rfl⟩
  plain := by
    refine ⟨fun method hmethod => ?_, by decide⟩
    have hbound : (boolBytes true).length < 2 ^ 31 := by decide
    rcases List.mem_cons.mp hmethod with rfl | hmethod
    · exact ⟨trivial, hbound, trivial⟩
    · obtain rfl := List.mem_singleton.mp hmethod
      exact ⟨trivial, hbound, trivial⟩
  own := rfl
  origin := .template rfl rfl
  scalars := fun _ h => nomatch h
  slots := fun _ h => nomatch h
  short := by
    have hnone : resolvedCodeSepSlotValues turnArtifact [] = [] := by
      rw [resolvedCodeSepSlotValues, show turnArtifact.codeSepIndexSlots = [] from rfl,
        List.mergeSort_nil]
      rfl
    rw [hnone]
    exact fun _ h => nomatch h
  names := by decide
  called := by
    rw [RunarArtifact.publicMethods]
    exact List.mem_filter.mpr ⟨List.mem_cons_of_mem _ List.mem_cons_self, rfl⟩

/-- No span executes a separator. -/
def noSpans : SpanTrace := ⟨fun _ _ => [], fun _ _ _ h => nomatch h⟩

end Runar.Sdk
