/-
  Sdk/TrackedRuns.lean --- the tracked output through runs of the SDK.

  WHAT THIS FILE IS FOR.  Deployments, calls in one step or in two, and objects restored from an
  output follow each other in any order.  This file says when each of them leaves an object whose
  tracked output has its script and is one of the last transaction's, and follows that through
  every run.
-/
import Runar.Sdk.Tracking
import Runar.Sdk.Lossless

set_option autoImplicit false

namespace Runar.Sdk.Tracking

open Script Artifact Logic Attempt

/-! ## Finalizing -/

/-- The transaction that a prepared call is broadcast as. -/
def finalTx (tools : Toolbox) (prepared : PreparedCall) (signatures : List (Nat × HexText)) :
    Session Transaction := do
  let contract ← self
  perform (orThrow do
    setUnlocking (sdk tools) prepared.tx 0 (← finalUnlock contract prepared signatures))

section Finalizing

variable {tools : Toolbox} {outside : Outside} {p : PreparedCall}
  {signatures : List (Nat × HexText)} {w w' w₁ : World} {tx : Transaction}

theorem finalTx_outputs (h : exec (finalTx tools p signatures) w = (.ok tx, w₁)) :
    tx.outputs = p.tx.outputs := by
  obtain ⟨contract, w₂, -, h⟩ := exec_bind_eq_ok h
  obtain ⟨unlock, -, h⟩ := bind_ok (exec_orThrow_ok (exec_perform_ok h).1).1
  exact setUnlocking_outputs h

theorem exec_finalizeCall_ok {txid : String} {txData : TransactionData}
    (h : exec (finalizeCall (sdk tools) outside p signatures) w = (.ok (txid, txData), w')) :
    w'.contract = { w.contract with currentUtxo := nextUtxo p txid } := by
  unfold finalizeCall at h
  obtain ⟨world, w₁, hget, h⟩ := exec_bind_eq_ok h
  rw [exec_get] at hget
  cases hget
  split at h
  · cases h
  obtain ⟨_, w₂, hconsume, h⟩ := exec_bind_eq_ok h
  rw [exec_modify] at hconsume
  cases hconsume
  obtain ⟨refs, w₃, hrefs, h⟩ := exec_bind_eq_ok h
  obtain ⟨hw₃, -, -⟩ := exec_resolveProviderSigner hrefs
  obtain ⟨contract, w₄, hself, h⟩ := exec_bind_eq_ok h
  rw [exec_self] at hself
  cases hself
  obtain ⟨final, w₅, hfinal, h⟩ := exec_bind_eq_ok h
  obtain ⟨_, w₆, hdry, h⟩ := exec_bind_eq_ok h
  obtain ⟨id, w₇, hbroadcast, h⟩ := exec_bind_eq_ok h
  obtain ⟨_, w₈, hstore, h⟩ := exec_bind_eq_ok h
  obtain ⟨data, w₉, hdata, h⟩ := exec_bind_eq_ok h
  cases h
  have hcontract : w₇.contract = w.contract := by
    rw [(exec_perform_ok hbroadcast).2, (exec_perform_ok hdry).2, (exec_perform_ok hfinal).2, hw₃]
  rw [(exec_perform_ok hdata).2]
  unfold setCurrentUtxo at hstore
  rw [exec_modify] at hstore
  cases hstore
  rw [hcontract]

/-- Directly after it was prepared, a finalized call leaves an object that matches. -/
theorem finalizeCall_matches (hfollows : Follows tools w.contract p) {txid : String}
    {txData : TransactionData}
    (h : exec (finalizeCall (sdk tools) outside p signatures) w = (.ok (txid, txData), w'))
    (hbuilt : exec (finalTx tools p signatures) w = (.ok tx, w₁)) :
    Matches tools w'.contract (.built txid tx) := by
  rw [exec_finalizeCall_ok h]
  intro utxo hutxo
  obtain ⟨htxid, hscript, out, hout, hsatoshis, hlocking⟩ := hfollows txid utxo hutxo
  exact ⟨hscript, htxid, out, by rw [finalTx_outputs hbuilt, hout], hsatoshis, hlocking⟩

end Finalizing

/-! ## Calls -/

/-- The transaction that a call of the connected object is broadcast as. -/
def connectedTx (tools : Toolbox) (outside : Outside) (methodName : String) (args : List JsValue)
    (options : CallOptions) : Session Transaction := do
  let prepared ← prepareCall (sdk tools) outside methodName args options
  let signatures ← slotSignatures (sdk tools) outside methodName prepared
  finalTx tools prepared signatures

/-- The transaction of a call. -/
def callTx (tools : Toolbox) (outside : Outside) (methodName : String) (args : List JsValue)
    (target : CallTarget) : Session Transaction := do
  match target with
  | .connected options => connectedTx tools outside methodName args options
  | .explicit provider signer options =>
      connectedAs (some provider) (some signer) (connectedTx tools outside methodName args options)
  | .providerOnly provider => do
      let contract ← self
      connectedAs (some provider) contract.signer
        (connectedTx tools outside methodName args CallOptions.none)

/-- A call is kept under the connection and with the options that it is made with. -/
def CallTargetKept (tools : Toolbox) (outside : Outside) (w : World) (methodName : String)
    (args : List JsValue) : CallTarget → Prop
  | .connected options => PrepareKept tools outside w methodName args options
  | .explicit provider signer options =>
      PrepareKept tools outside (w.connect (some provider) (some signer)) methodName args options
  | .providerOnly provider =>
      PrepareKept tools outside (w.connect (some provider) w.contract.signer) methodName args
        CallOptions.none

section Calling

variable {tools : Toolbox} {outside : Outside} {methodName : String} {args : List JsValue}
  {options : CallOptions} {w w' w₁ : World} {tx : Transaction} {txid : String}
  {txData : TransactionData}

theorem exec_slotSignatures_ok {p : PreparedCall} {signatures : List (Nat × HexText)}
    (h : exec (slotSignatures (sdk tools) outside methodName p) w = (.ok signatures, w')) :
    w'.contract = w.contract := by
  obtain ⟨contract, w₁, hself, h⟩ := exec_bind_eq_ok h
  rw [exec_self] at hself
  cases hself
  split at h
  · rw [(exec_perform_ok h).2]
  · cases h

theorem callConnected_matches (hcode : HasCode w.contract)
    (hkept : PrepareKept tools outside w methodName args options)
    (h : exec (callConnected (sdk tools) outside methodName args options) w =
      (.ok (txid, txData), w'))
    (hbuilt : exec (connectedTx tools outside methodName args options) w = (.ok tx, w₁)) :
    Matches tools w'.contract (.built txid tx) ∧ HasCode w'.contract := by
  obtain ⟨p, w₂, hprepare, h⟩ := exec_bind_eq_ok h
  obtain ⟨signatures, w₃, hsign, h⟩ := exec_bind_eq_ok h
  obtain ⟨hfollows, hsame⟩ := prepareCall_follows hcode hkept hprepare
  unfold connectedTx at hbuilt
  rw [exec_bind_ok hprepare, exec_bind_ok hsign] at hbuilt
  have hcontract := exec_slotSignatures_ok hsign
  rw [← hcontract] at hfollows hsame
  refine ⟨finalizeCall_matches hfollows h hbuilt, ?_⟩
  rw [exec_finalizeCall_ok h]
  exact hsame.hasCode hcode

theorem connectedAs_matches {provider signer : Option Nat}
    (hcode : HasCode w.contract)
    (hkept : PrepareKept tools outside (w.connect provider signer) methodName args options)
    (h : exec (connectedAs provider signer
      (callConnected (sdk tools) outside methodName args options)) w = (.ok (txid, txData), w'))
    (hbuilt : exec (connectedAs provider signer
      (connectedTx tools outside methodName args options)) w = (.ok tx, w₁)) :
    Matches tools w'.contract (.built txid tx) ∧ HasCode w'.contract := by
  rw [exec_connectedAs, Prod.mk.injEq] at h hbuilt
  obtain ⟨hresult, rfl⟩ := h
  have hcall : exec (callConnected (sdk tools) outside methodName args options)
      (w.connect provider signer) = (.ok (txid, txData), _) := Prod.ext hresult rfl
  have htx : exec (connectedTx tools outside methodName args options)
      (w.connect provider signer) = (.ok tx, _) := Prod.ext hbuilt.1 rfl
  have hcode : HasCode (w.connect provider signer).contract := hcode
  have hmatches := callConnected_matches hcode hkept hcall htx
  exact ⟨fun utxo hutxo => hmatches.1 utxo hutxo, hmatches.2⟩

/-- A call leaves an object that matches. -/
theorem call_matches {target : CallTarget} (hcode : HasCode w.contract)
    (hkept : CallTargetKept tools outside w methodName args target)
    (h : exec (call (sdk tools) outside methodName args target) w = (.ok (txid, txData), w'))
    (hbuilt : exec (callTx tools outside methodName args target) w = (.ok tx, w₁)) :
    Matches tools w'.contract (.built txid tx) ∧ HasCode w'.contract := by
  cases target with
  | connected options => exact callConnected_matches hcode hkept h hbuilt
  | explicit provider signer options => exact connectedAs_matches hcode hkept h hbuilt
  | providerOnly provider =>
    unfold call at h
    unfold callTx at hbuilt
    dsimp only at h hbuilt
    rw [exec_bind_ok (exec_self w)] at h hbuilt
    exact connectedAs_matches hcode hkept h hbuilt

end Calling

/-! ## Deployments -/

/-- The transaction that a deployment is broadcast as. -/
def deployTx (tools : Toolbox) (outside : Outside) (target : DeployTarget) :
    Session Transaction := do
  let (providerRef, signerRef, options) ← resolveTarget target
  let contract ← self
  let signed ← perform (signDeploy (sdk tools) (outside.provider providerRef)
    (outside.signer signerRef) (outside.signer (options.fundingSigner.getD signerRef)) contract
    options)
  return signed.1

section Deploying

variable {tools : Toolbox} {outside : Outside} {target : DeployTarget} {w w' w₁ : World}
  {tx : Transaction} {txid : String} {txData : TransactionData}

theorem signDeploy_ok {provider : Provider} {signer fundingSigner : Signer}
    {contract : RunarContract} {options : DeployOptions} {script : HexText} {satoshis : Int}
    {now now' : Nat}
    (h : exec (signDeploy (sdk tools) provider signer fundingSigner contract options) now =
      (.ok (tx, script, satoshis), now')) :
    getLockingScript (sdk tools) contract = .ok script ∧
      ∀ txid, IsOutputOf tools tx ⟨txid, 0, satoshis, script⟩ := by
  unfold signDeploy at h
  obtain ⟨address, now₁, -, h⟩ := exec_bind_eq_ok h
  obtain ⟨lockingScript, now₂, hscript, h⟩ := exec_bind_eq_ok h
  obtain ⟨_, now₃, -, h⟩ := exec_bind_eq_ok h
  obtain ⟨feeRate, now₄, -, h⟩ := exec_bind_eq_ok h
  obtain ⟨allUtxos, now₅, -, h⟩ := exec_bind_eq_ok h
  dsimp only at h
  split at h
  · cases h
  obtain ⟨changeScript, now₆, -, h⟩ := exec_bind_eq_ok h
  obtain ⟨⟨built, inputCount⟩, now₇, hbuilt, h⟩ := exec_bind_eq_ok h
  obtain ⟨signed, now₈, hsigned, h⟩ := exec_bind_eq_ok h
  cases h
  refine ⟨(exec_orThrow_ok hscript).1, fun txid => ?_⟩
  have houtputs : tx.outputs = built.outputs := by
    refine foldlM_outputs (fun tx coin now tx' now' h => ?_) _ hsigned
    obtain ⟨sig, now₁, -, h⟩ := exec_bind_eq_ok h
    obtain ⟨key, now₂, -, h⟩ := exec_bind_eq_ok h
    exact setUnlocking_outputs (exec_orThrow_ok h).1
  obtain ⟨out, hout, hrest⟩ :=
    buildDeployTransaction_outputs (exec_orThrow_ok hbuilt).1 txid
  exact ⟨out, by rw [houtputs, hout], hrest⟩

theorem exec_resolveTarget_ok {resolved : Nat × Nat × DeployOptions}
    (h : exec (resolveTarget target) w = (.ok resolved, w')) : w' = w := by
  cases target with
  | explicit provider signer options =>
    cases h
    rfl
  | connected options =>
    obtain ⟨refs, w₁, hrefs, h⟩ := exec_bind_eq_ok h
    cases h
    exact (exec_resolveProviderSigner hrefs).1
  | invalid => cases h

/-- A deployment leaves an object that matches. -/
theorem deploy_matches (hcode : HasCode w.contract)
    (h : exec (deploy (sdk tools) outside target) w = (.ok (txid, txData), w'))
    (hbuilt : exec (deployTx tools outside target) w = (.ok tx, w₁)) :
    Matches tools w'.contract (.built txid tx) ∧ HasCode w'.contract := by
  unfold deploy at h
  unfold deployTx at hbuilt
  obtain ⟨⟨providerRef, signerRef, options⟩, w₂, hresolved, hrest⟩ := exec_bind_eq_ok h
  rw [exec_bind_ok hresolved] at hbuilt
  rw [exec_resolveTarget_ok hresolved] at hrest hbuilt
  dsimp only at hrest hbuilt
  rw [exec_bind_ok (exec_self w)] at hrest hbuilt
  obtain ⟨⟨signed, script, satoshis⟩, w₃, hsigned, h⟩ := exec_bind_eq_ok hrest
  rw [exec_bind_ok hsigned] at hbuilt
  cases hbuilt
  obtain ⟨id, w₄, hbroadcast, h⟩ := exec_bind_eq_ok h
  obtain ⟨_, w₅, hstore, h⟩ := exec_bind_eq_ok h
  obtain ⟨data, w₆, hdata, h⟩ := exec_bind_eq_ok h
  cases h
  obtain ⟨hscript, houtput⟩ := signDeploy_ok (exec_perform_ok hsigned).1
  have hcontract : w'.contract = { w.contract with
      currentUtxo := some ⟨txid, 0, satoshis, script⟩ } := by
    unfold setCurrentUtxo at hstore
    rw [exec_modify] at hstore
    cases hstore
    rw [(exec_perform_ok hdata).2, (exec_perform_ok hbroadcast).2, (exec_perform_ok hsigned).2]
  rw [hcontract]
  refine ⟨fun utxo hutxo => ?_, hcode⟩
  obtain rfl := Option.some.inj hutxo
  exact ⟨isScriptOf_getLockingScript hcode hscript, rfl, houtput txid⟩

end Deploying

/-! ## Restored objects -/

/-- The script of the output has code, and a state that is written as it was read. -/
def RestoreKept (artifact : RunarArtifact) (utxo : UTXO) : Prop :=
  utxo.script ≠ [] ∧
    (artifact.stateFields ≠ [] → ∃ code text, code ≠ [] ∧ text ≠ [] ∧
      utxo.script = code ++ (['6', 'a'] ++ text) ∧ FindsLastOpReturn utxo.script code.length ∧
      ∀ state,
        Codec.deserializeState (artifact.stateFields.map (·.toStateField)) text = .ok state →
          Codec.serializeState (artifact.stateFields.map (·.toStateField)) state = .ok text)

theorem getCodePartHex_code {contract : RunarContract} {code : HexText}
    (hcode : contract.codeScript = some code) (hne : code ≠ []) :
    getCodePartHex contract = code := by
  unfold getCodePartHex
  rw [hcode]
  cases code with
  | nil => exact absurd rfl hne
  | cons c code => rfl

theorem restores_currentUtxo {artifact : RunarArtifact} {utxo : UTXO} {r : RunarContract}
    (h : Restores artifact utxo r) : r.currentUtxo = some utxo := by
  obtain ⟨fuel, h⟩ := h
  rw [fromUtxo, andThen_eq_ok] at h
  obtain ⟨args, -, h⟩ := h
  obtain ⟨contract, -, h⟩ := andThen_eq_ok.mp h
  obtain ⟨code, -, h⟩ := andThen_eq_ok.mp h
  obtain ⟨inscription, -, h⟩ := andThen_eq_ok.mp h
  dsimp only at h
  split at h
  · obtain rfl := Except.ok.inj (Option.some.inj h)
    rfl
  · obtain ⟨state, -, h⟩ := andThen_eq_ok.mp h
    split at h
    · cases Option.some.inj h
    · obtain rfl := Except.ok.inj (Option.some.inj h)
      rfl

/-- A restored object matches the output it was restored from. -/
theorem restored_matches {tools : Toolbox} {artifact : RunarArtifact} {utxo : UTXO}
    {r : RunarContract} (hkept : RestoreKept artifact utxo) (h : Restores artifact utxo r) :
    Matches tools r (.given utxo) ∧ HasCode r := by
  obtain ⟨hartifact, code, hcode, hscript, -, -, hstate⟩ := h.parts
  obtain ⟨hne, hstateful⟩ := hkept
  suffices hown : code ≠ [] ∧ IsScriptOf r utxo.script by
    refine ⟨fun tracked htracked => ?_, ?_⟩
    · rw [restores_currentUtxo h] at htracked
      obtain rfl := Option.some.inj htracked
      exact ⟨hown.2, rfl⟩
    · rw [HasCode, hscript]
      exact fun hnil => hown.1 (Option.some.inj hnil)
  by_cases hfields : artifact.stateFields = []
  · rw [CodeOf, if_pos hfields] at hcode
    subst hcode
    refine ⟨hne, [], stateHex_of_stateless (by rw [hartifact, hfields]), ?_⟩
    rw [getCodePartHex_code hscript hne]
    exact (List.append_nil _).symm
  · obtain ⟨code', text, hcodeNe, htextNe, hcut, hfound, hagain⟩ := hstateful hfields
    obtain ⟨offset, hoffset, -, hread⟩ := hstate hfields
    obtain rfl := hfound.unique hoffset
    rw [CodeOf, if_neg hfields] at hcode
    obtain ⟨offset, hoffset, hcode⟩ := hcode
    obtain rfl := hfound.unique hoffset
    have hplace : (code'.length : Int) ≠ -1 := by omega
    rw [if_pos hplace, hcut, slice_left] at hcode
    subst hcode
    have htext : Codec.slice utxo.script (code.length + 2) utxo.script.length = text := by
      have hlen : ((code ++ ['6', 'a']).length : Int) = code.length + 2 := by simp
      rw [hcut, ← List.append_assoc, ← hlen, slice_right]
    rw [htext] at hread
    refine ⟨hcodeNe, text, ?_, ?_⟩
    · rw [stateHex, hartifact]
      exact hagain _ hread
    · rw [getCodePartHex_code hscript hcodeNe, stateSection, if_neg htextNe, hcut]

/-! ## Runs -/

/-- The object, the source of its output, the prepared calls with the objects they were prepared
for, and whether nothing was prepared since the output was last tracked. -/
structure Tracker where
  world : World
  source : Source
  prepared : List (PreparedCall × RunarContract)
  settled : Bool

/-- What a caller does with an object. -/
inductive Action where
  | connect (provider signer : Option Nat)
  | deploy (target : DeployTarget)
  | prepareCall (methodName : String) (args : List JsValue) (options : CallOptions)
  | finalizeCall (prepared : PreparedCall) (signatures : List (Nat × HexText))
  | call (methodName : String) (args : List JsValue) (target : CallTarget)
  | fromUtxo (artifact : RunarArtifact) (utxo : UTXO)

/-- The objects have one code part and one state. -/
def SameScript (contract contract' : RunarContract) : Prop :=
  getCodePartHex contract = getCodePartHex contract' ∧ stateHex contract = stateHex contract'

section Runs

variable (tools : Toolbox) (outside : Outside)

/-- An action that succeeds. -/
inductive Step : Tracker → Action → Tracker → Prop
  | connect (t : Tracker) (provider signer : Option Nat) :
      Step t (.connect provider signer) { t with world := t.world.connect provider signer }
  | deploy {t : Tracker} {target : DeployTarget} {txid : String} {txData : TransactionData}
      {w w₁ : World} {tx : Transaction} :
      exec (Sdk.deploy (sdk tools) outside target) t.world = (.ok (txid, txData), w) →
      exec (deployTx tools outside target) t.world = (.ok tx, w₁) →
      Step t (.deploy target) ⟨w, .built txid tx, t.prepared, true⟩
  | prepareCall {t : Tracker} {methodName : String} {args : List JsValue} {options : CallOptions}
      {p : PreparedCall} {w : World} :
      exec (Sdk.prepareCall (sdk tools) outside methodName args options) t.world = (.ok p, w) →
      Step t (.prepareCall methodName args options)
        ⟨w, t.source, (p, w.contract) :: t.prepared, false⟩
  | finalizeCall {t : Tracker} {p : PreparedCall} {signatures : List (Nat × HexText)}
      {txid : String} {txData : TransactionData} {w w₁ : World} {tx : Transaction} :
      exec (Sdk.finalizeCall (sdk tools) outside p signatures) t.world =
        (.ok (txid, txData), w) →
      exec (finalTx tools p signatures) t.world = (.ok tx, w₁) →
      Step t (.finalizeCall p signatures) ⟨w, .built txid tx, t.prepared, true⟩
  | call {t : Tracker} {methodName : String} {args : List JsValue} {target : CallTarget}
      {txid : String} {txData : TransactionData} {w w₁ : World} {tx : Transaction} :
      exec (Sdk.call (sdk tools) outside methodName args target) t.world =
        (.ok (txid, txData), w) →
      exec (callTx tools outside methodName args target) t.world = (.ok tx, w₁) →
      Step t (.call methodName args target) ⟨w, .built txid tx, t.prepared, true⟩
  | fromUtxo {t : Tracker} {artifact : RunarArtifact} {utxo : UTXO} {contract : RunarContract} :
      Restores artifact utxo contract →
      Step t (.fromUtxo artifact utxo)
        ⟨{ t.world with contract }, .given utxo, t.prepared, true⟩

/-- The conditions under which an action keeps the output and the object together.  A prepared
call is finalized while the object has the code part and the state it had when it was prepared. -/
def Action.Kept (t : Tracker) : Action → Prop
  | .connect _ _ => True
  | .deploy _ => True
  | .prepareCall methodName args options =>
      PrepareKept tools outside t.world methodName args options
  | .finalizeCall prepared _ =>
      ∃ contract, (prepared, contract) ∈ t.prepared ∧ SameScript contract t.world.contract
  | .call methodName args target => CallTargetKept tools outside t.world methodName args target
  | .fromUtxo artifact utxo => RestoreKept artifact utxo

/-- A new object, with an inscription or without. -/
def New (t : Tracker) : Prop :=
  ∃ artifact args contract inscription, newRunarContract artifact args = .ok contract ∧
    t.world.contract = { contract with inscription } ∧ t.prepared = []

/-- What every action keeps: the output is the object's, or will be once a prepared call is
finalized. -/
structure Tracked (t : Tracker) : Prop where
  hasCode : HasCode t.world.contract
  follows : ∀ p contract, (p, contract) ∈ t.prepared → Follows tools contract p
  own : t.settled = true → Matches tools t.world.contract t.source

variable {tools outside} {t t' : Tracker}

theorem Follows.of_sameScript {contract contract' : RunarContract} {p : PreparedCall}
    (h : Follows tools contract p) (hsame : SameScript contract contract') :
    Follows tools contract' p := by
  intro txid utxo hutxo
  obtain ⟨htxid, ⟨text, htext, hscript⟩, houtput⟩ := h txid utxo hutxo
  exact ⟨htxid, ⟨text, hsame.2 ▸ htext, hsame.1 ▸ hscript⟩, houtput⟩

theorem newRunarContract_ok {artifact : RunarArtifact} {args : List JsValue}
    {contract : RunarContract} (h : newRunarContract artifact args = .ok contract) :
    contract.codeScript = none ∧ contract.currentUtxo = none := by
  rw [newRunarContract] at h
  split at h
  · cases h
  · obtain rfl := Except.ok.inj h
    exact ⟨rfl, rfl⟩

theorem New.tracked (h : New t) : Tracked tools t := by
  obtain ⟨artifact, args, contract, inscription, hnew, hcontract, hprepared⟩ := h
  obtain ⟨hscript, hutxo⟩ := newRunarContract_ok hnew
  constructor
  · rw [hcontract, HasCode]
    dsimp only
    rw [hscript]
    exact fun hnil => by cases hnil
  · intro p contract hp
    rw [hprepared] at hp
    cases hp
  · intro _ utxo htracked
    rw [hcontract] at htracked
    dsimp only at htracked
    rw [hutxo] at htracked
    cases htracked

/-- An action after which the object matches. -/
theorem Tracked.of_matches (ht : Tracked tools t) {w : World} {source : Source}
    (h : Matches tools w.contract source ∧ HasCode w.contract) :
    Tracked tools ⟨w, source, t.prepared, true⟩ :=
  ⟨h.2, ht.follows, fun _ => h.1⟩

/-- An action whose conditions hold keeps them together. -/
theorem Step.tracked {action : Action} (h : Step tools outside t action t')
    (hkept : action.Kept tools outside t) (ht : Tracked tools t) : Tracked tools t' := by
  cases h with
  | connect provider signer =>
    exact ⟨ht.hasCode, ht.follows, fun hsettled utxo hutxo => ht.own hsettled utxo hutxo⟩
  | deploy hrun hbuilt => exact ht.of_matches (deploy_matches ht.hasCode hrun hbuilt)
  | prepareCall hrun =>
    obtain ⟨hfollows, hsame⟩ := prepareCall_follows ht.hasCode hkept hrun
    refine ⟨hsame.hasCode ht.hasCode, fun p contract hp => ?_, fun hsettled => by cases hsettled⟩
    rcases List.mem_cons.mp hp with hp | hp
    · cases hp
      exact hfollows
    · exact ht.follows p contract hp
  | finalizeCall hrun hbuilt =>
    obtain ⟨contract, hp, hsame⟩ := hkept
    have hfollows := (ht.follows _ _ hp).of_sameScript hsame
    refine ht.of_matches ⟨finalizeCall_matches hfollows hrun hbuilt, ?_⟩
    rw [exec_finalizeCall_ok hrun]
    exact ht.hasCode
  | call hrun hbuilt => exact ht.of_matches (call_matches ht.hasCode hkept hrun hbuilt)
  | fromUtxo hrestores => exact ht.of_matches (restored_matches hkept hrestores)

/-- A run of actions. -/
def Runs (tools : Toolbox) (outside : Outside) : Tracker → Tracker → Prop :=
  Relation.ReflTransGen fun t t' => ∃ action, Step tools outside t action t'

/-- A run of actions whose conditions hold. -/
def KeptRuns (tools : Toolbox) (outside : Outside) : Tracker → Tracker → Prop :=
  Relation.ReflTransGen fun t t' =>
    ∃ action : Action, action.Kept tools outside t ∧ Step tools outside t action t'

theorem KeptRuns.tracked (h : KeptRuns tools outside t t') (ht : Tracked tools t) :
    Tracked tools t' := by
  induction h with
  | refl => exact ht
  | tail _ hstep ih =>
    obtain ⟨action, hkept, hstep⟩ := hstep
    exact hstep.tracked hkept ih

theorem KeptRuns.runs (h : KeptRuns tools outside t t') : Runs tools outside t t' := by
  induction h with
  | refl => exact .refl
  | tail _ hstep ih =>
    obtain ⟨action, -, hstep⟩ := hstep
    exact ih.tail ⟨action, hstep⟩

/-- In a run from a new object whose actions meet their conditions, the output that is tracked
has the code part and the state of the object, and its place and amount are those of an output
of the transaction that was built last. -/
theorem keptRuns_matches (tools : Toolbox) (outside : Outside) (t t' : Tracker) (hnew : New t)
    (hruns : KeptRuns tools outside t t') (hsettled : t'.settled = true) :
    Matches tools t'.world.contract t'.source :=
  (hruns.tracked hnew.tracked).own hsettled

end Runs

/-! ## A counter that is given its outputs -/

/-- The builders of the SDK, with a selection that takes every coin. -/
def everyCoin : Toolbox :=
  { counterTools with
    buildP2PKHScript := fun _ =>
      .ok "76a914751e76e8199196d454941c45d1b3a323f1433bd688ac".toList,
    selectUtxos := fun coins _ _ _ _ _ => coins,
    computeOpPushTx := fun _ _ _ _ _ _ => .ok ("3000".toList, "01".toList) }

/-- A provider that broadcasts and asks for no fee, and a signer with one coin. -/
def providerUp : Outside :=
  { provider := fun _ =>
      { getFeeRate := fun _ => .ok 0,
        getUtxos := fun _ _ => .ok [⟨"bb", 0, 1000, "51".toList⟩],
        broadcast := fun _ _ => .ok "cc",
        getTransaction := fun _ _ => .error "not found" },
    wallet := fun _ => none,
    signer := fun _ =>
      { getAddress := fun _ => .ok "1BgGZ9tcN4rm9KBzDn7KprQz87SZ26SAMH",
        getPublicKey := fun _ =>
          .ok "0279be667ef9dcbbac55a06295ce870b07029bfcdb2dce28d959f2815b16f81798".toList,
        sign := fun _ _ _ _ _ => .ok "3000".toList } }

/-- The counter at zero, new. -/
def newCounter : Tracker :=
  { world :=
      { counterWorld with
        contract := { counterWorld.contract with currentUtxo := none, provider := none,
                                                 signer := none } },
    source := .none, prepared := [], settled := true }

theorem new_newCounter : New newCounter :=
  ⟨counterArtifact, [.bigint 0], newCounter.world.contract, none, rfl, rfl, rfl⟩

/-- The state with a count of one. -/
def countOne : Record := fun key => if key = "count" then some (.bigint 1) else none

/-- The counter, deployed with a thousand satoshis by the first provider and signer. -/
def deployment : Session (String × TransactionData) :=
  deploy (sdk everyCoin) providerUp (.connected ⟨some 1000, none, none⟩)

def deployedWorld : World := (exec deployment (newCounter.world.connect (some 0) (some 0))).2

/-- The counter called, with some options. -/
def increment (options : CallOptions) : Session (String × TransactionData) :=
  call (sdk everyCoin) providerUp "increment" [] (.connected options)

theorem exec_eq_of_isOk {α : Type} {m : Session α} {w : World}
    (h : (exec m w).1.isOk = true) : ∃ a, exec m w = (.ok a, (exec m w).2) := by
  cases hresult : (exec m w).1 with
  | error e =>
    rw [hresult] at h
    cases h
  | ok a => exact ⟨a, Prod.ext hresult rfl⟩

/-- The new counter, connected and deployed. -/
theorem runs_deployed : ∃ source, KeptRuns everyCoin providerUp newCounter
    ⟨deployedWorld, source, [], true⟩ := by
  obtain ⟨⟨txid, txData⟩, hrun⟩ := exec_eq_of_isOk
    (m := deployment) (w := newCounter.world.connect (some 0) (some 0)) (by decide +kernel)
  obtain ⟨tx, hbuilt⟩ := exec_eq_of_isOk
    (m := deployTx everyCoin providerUp (.connected ⟨some 1000, none, none⟩))
    (w := newCounter.world.connect (some 0) (some 0)) (by decide +kernel)
  have hconnect : KeptRuns everyCoin providerUp newCounter
      { newCounter with world := newCounter.world.connect (some 0) (some 0) } :=
    .single ⟨.connect (some 0) (some 0), trivial, .connect _ _ _⟩
  exact ⟨.built txid tx, hconnect.tail ⟨.deploy _, trivial, .deploy hrun hbuilt⟩⟩

theorem predicted_of_noProgram {tools : Toolbox} {contract : RunarContract}
    (h : contract.artifact.anf = none) (plan : CallPlan) : predicted tools contract plan = [] := by
  rw [predicted, interpretCall, h]
  split <;> rfl

/-- A new state with a count of one. -/
def newCount : CallOptions := { CallOptions.none with newState := some countOne }

theorem kept_newCount :
    CallTargetKept everyCoin providerUp deployedWorld "increment" [] (.connected newCount) := by
  intro signer plan now _ _
  have hanf : deployedWorld.contract.artifact.anf.isNone = true := by decide +kernel
  refine Or.inr (Or.inr ?_)
  unfold OutputsKept
  rw [predicted_of_noProgram (Option.isNone_iff_eq_none.mp hanf)]
  exact Or.inl fun hzero => by cases hzero

/-- The counter, deployed and called for a count of one, tracks an output with its own script. -/
theorem keptRuns_matches_counter : ∃ t utxo, KeptRuns everyCoin providerUp newCounter t ∧
    t.world.contract.currentUtxo = some utxo ∧ utxo.script = "516a0100000000000000".toList ∧
      Matches everyCoin t.world.contract t.source := by
  obtain ⟨source, hdeployed⟩ := runs_deployed
  obtain ⟨⟨txid, txData⟩, hrun⟩ := exec_eq_of_isOk (m := increment newCount)
    (w := deployedWorld) (by decide +kernel)
  obtain ⟨tx, hbuilt⟩ := exec_eq_of_isOk
    (m := callTx everyCoin providerUp "increment" [] (.connected newCount))
    (w := deployedWorld) (by decide +kernel)
  have hruns := hdeployed.tail
    ⟨.call "increment" [] (.connected newCount), kept_newCount, .call hrun hbuilt⟩
  have htracked : (exec (increment newCount) deployedWorld).2.contract.currentUtxo.map
      (·.script) = some "516a0100000000000000".toList := by
    decide +kernel
  obtain ⟨utxo, hutxo, hscript⟩ := Option.map_eq_some_iff.mp htracked
  exact ⟨_, utxo, hruns, hutxo, hscript, keptRuns_matches _ _ _ _ new_newCounter hruns rfl⟩

/-- One output with a count of one. -/
def givenOutputs : CallOptions := { CallOptions.none with outputs := [(some 1000, countOne)] }

/-- Called for one output with a count of one, the counter tracks that output and stays at
zero. -/
theorem not_runs_match : ¬ ∀ (tools : Toolbox) (outside : Outside) (t t' : Tracker), New t →
    Runs tools outside t t' → t'.settled = true → Matches tools t'.world.contract t'.source := by
  intro hall
  obtain ⟨source, hdeployed⟩ := runs_deployed
  obtain ⟨⟨txid, txData⟩, hrun⟩ := exec_eq_of_isOk (m := increment givenOutputs)
    (w := deployedWorld) (by decide +kernel)
  obtain ⟨tx, hbuilt⟩ := exec_eq_of_isOk
    (m := callTx everyCoin providerUp "increment" [] (.connected givenOutputs))
    (w := deployedWorld) (by decide +kernel)
  have hmatches := hall everyCoin providerUp newCounter _ new_newCounter
    (hdeployed.runs.tail ⟨.call _ _ _, .call hrun hbuilt⟩) rfl
  have htracked : (exec (increment givenOutputs) deployedWorld).2.contract.currentUtxo.map
      (fun utxo => decide (IsScriptOf
        (exec (increment givenOutputs) deployedWorld).2.contract utxo.script)) = some false := by
    decide +kernel
  obtain ⟨utxo, hutxo, hscript⟩ := Option.map_eq_some_iff.mp htracked
  exact of_decide_eq_false hscript (hmatches utxo hutxo).1

end Runar.Sdk.Tracking
