/-
  Sdk/Tracking.lean --- the output a contract object tracks.

  WHAT THIS FILE IS FOR.  After a deployment or a call the object keeps the output that the next
  call spends.  Its script should be the one the object would push, and its place and amount those
  of an output of the transaction that was built.  This file follows both through the preparation
  of a call: what signing and building keep, and which output is tracked in the end.

  WHERE THEY PART.  A call with several given outputs tracks the first of them and leaves the
  state as it was; an amount of zero is taken for none; and where a method emits only raw outputs,
  the first of these is tracked as if it were the contract's.
-/
import Runar.Sdk.CallTransaction
import Runar.Sdk.StateCodec

set_option autoImplicit false

namespace Runar.Sdk.Tracking

open Script Artifact Logic Attempt

/-! ## The functions of the SDK's other files -/

/-- A toolbox with the serializer of states and the builders of transactions that the SDK has. -/
def sdk (tools : Toolbox) : Toolbox :=
  { tools with
    serializeState := fun fields => Codec.serializeState (fields.map (·.toStateField)),
    buildDeployTransaction := fun lockingScript utxos satoshis changeAddress changeScript feeRate =>
      (Sdk.buildDeployTransaction tools lockingScript utxos satoshis changeAddress changeScript
        feeRate).mapError DeployError.message,
    buildCallTransaction := fun request =>
      (Sdk.buildCallTransaction tools request request.feeRate).mapError CallTxError.message }

/-! ## What is tracked -/

/-- The text of the state of an object. -/
def stateHex (contract : RunarContract) : Except String HexText :=
  Codec.serializeState (contract.artifact.stateFields.map (·.toStateField)) contract.state

/-- The state behind an `OP_RETURN`; a state of no bytes has none. -/
def stateSection (text : HexText) : HexText := if text = [] then [] else ['6', 'a'] ++ text

/-- The script is the code part the object would push and its state. -/
def IsScriptOf (contract : RunarContract) (script : HexText) : Prop :=
  ∃ text, stateHex contract = .ok text ∧ script = getCodePartHex contract ++ stateSection text

theorem isScriptOf_iff_of_ok {contract : RunarContract} {script text : HexText}
    (htext : stateHex contract = .ok text) :
    IsScriptOf contract script ↔ script = getCodePartHex contract ++ stateSection text := by
  constructor
  · rintro ⟨text', htext', h⟩
    obtain rfl := Except.ok.inj (htext.symm.trans htext')
    exact h
  · intro h
    exact ⟨text, htext, h⟩

theorem not_isScriptOf_of_error {contract : RunarContract} {script : HexText} {message : String}
    (htext : stateHex contract = .error message) : ¬ IsScriptOf contract script := by
  rintro ⟨text, htext', -⟩
  cases htext.symm.trans htext'

instance (contract : RunarContract) (script : HexText) : Decidable (IsScriptOf contract script) :=
  match htext : stateHex contract with
  | .ok _ => decidable_of_iff _ (isScriptOf_iff_of_ok htext).symm
  | .error _ => isFalse (not_isScriptOf_of_error htext)

/-- The output is one of the transaction's, in its place and with its amount and script. -/
def IsOutputOf (tools : Toolbox) (tx : Transaction) (utxo : UTXO) : Prop :=
  ∃ out, tx.outputs[utxo.outputIndex]? = some out ∧ out.satoshis = utxo.satoshis ∧
    tools.fromHex utxo.script = .ok out.lockingScript

/-- Where the tracked output comes from: the last transaction that was built, or the caller. -/
inductive Source where
  | none
  | built (txid : String) (tx : Transaction)
  | given (utxo : UTXO)

def Source.Has (tools : Toolbox) : Source → UTXO → Prop
  | .none, _ => False
  | .built txid tx, utxo => utxo.txid = txid ∧ IsOutputOf tools tx utxo
  | .given known, utxo => utxo = known

/-- The tracked output, if there is one, is the object's and comes from the source. -/
def Matches (tools : Toolbox) (contract : RunarContract) (source : Source) : Prop :=
  ∀ utxo, contract.currentUtxo = some utxo →
    IsScriptOf contract utxo.script ∧ source.Has tools utxo

/-- The object has code, or builds it from its artifact. -/
def HasCode (contract : RunarContract) : Prop := contract.codeScript ≠ some []

theorem stateHex_of_stateless {contract : RunarContract} (h : contract.artifact.stateFields = []) :
    stateHex contract = .ok [] := by
  rw [stateHex, h, List.map_nil, Codec.serializeState, List.mergeSort_nil]
  rfl

theorem getLockingScript_eq (tools : Toolbox) {contract : RunarContract} (h : HasCode contract) :
    getLockingScript tools contract =
      if contract.artifact.stateFields = [] then .ok (getCodePartHex contract)
      else (do
        let text ← tools.serializeState contract.artifact.stateFields contract.state
        .ok (if text = [] then getCodePartHex contract
          else getCodePartHex contract ++ ['6', 'a'] ++ text)) := by
  unfold getLockingScript getCodePartHex
  cases hscript : contract.codeScript with
  | none => rfl
  | some code =>
    cases code with
    | nil => exact absurd hscript h
    | cons c code => rfl

/-- The locking script of an object is its script. -/
theorem isScriptOf_getLockingScript {tools : Toolbox} {contract : RunarContract}
    (hcode : HasCode contract) {script : HexText}
    (h : getLockingScript (sdk tools) contract = .ok script) : IsScriptOf contract script := by
  rw [getLockingScript_eq _ hcode] at h
  split at h
  · next hfields =>
    cases h
    exact ⟨[], stateHex_of_stateless hfields, (List.append_nil _).symm⟩
  · obtain ⟨text, htext, h⟩ := bind_ok h
    refine ⟨text, htext, ?_⟩
    cases h
    rw [stateSection]
    split
    · exact (List.append_nil _).symm
    · exact List.append_assoc _ _ _

/-! ## Signing keeps the outputs -/

theorem setUnlocking_outputs {tools : Toolbox} {tx tx' : Transaction} {i : Nat} {unlock : HexText}
    (h : setUnlocking tools tx i unlock = .ok tx') : tx'.outputs = tx.outputs := by
  obtain ⟨script, -, h⟩ := bind_ok h
  split at h
  · cases h
  · cases h
    rfl

theorem exec_orThrow_ok {α : Type} {result : Except String α} {now now' : Nat} {a : α}
    (h : exec (orThrow result) now = (.ok a, now')) : result = .ok a ∧ now' = now := by
  rw [exec_orThrow, Prod.mk.injEq] at h
  exact ⟨h.1, h.2.symm⟩

theorem signFunding_outputs {tools : Toolbox} {signer : Signer} {tx tx' : Transaction} {i : Nat}
    {utxo : UTXO} {now now' : Nat}
    (h : exec (signFunding tools signer tx i utxo) now = (.ok tx', now')) :
    tx'.outputs = tx.outputs := by
  obtain ⟨sig, now₁, -, h⟩ := exec_bind_eq_ok h
  obtain ⟨key, now₂, -, h⟩ := exec_bind_eq_ok h
  exact setUnlocking_outputs (exec_orThrow_ok h).1

/-- A loop over steps that keep the outputs keeps them. -/
theorem foldlM_outputs {α : Type} {f : Transaction → α → Task Transaction}
    (hstep : ∀ tx x now tx' now', exec (f tx x) now = (.ok tx', now') →
      tx'.outputs = tx.outputs)
    (xs : List α) {tx tx' : Transaction} {now now' : Nat}
    (h : exec (xs.foldlM f tx) now = (.ok tx', now')) : tx'.outputs = tx.outputs := by
  induction xs generalizing tx now with
  | nil =>
    cases h
    rfl
  | cons x xs ih =>
    rw [List.foldlM_cons] at h
    obtain ⟨tx₁, now₁, hfirst, h⟩ := exec_bind_eq_ok h
    exact (ih h).trans (hstep _ _ _ _ _ hfirst)

theorem signFundings_outputs {tools : Toolbox} {signer : Signer} {start inputCount : Nat}
    {utxos : List UTXO} {tx tx' : Transaction} {now now' : Nat}
    (h : exec (signFundings tools signer start inputCount utxos tx) now = (.ok tx', now')) :
    tx'.outputs = tx.outputs := by
  refine foldlM_outputs (fun tx coin now tx' now' h => ?_) _ h
  split at h
  · exact signFunding_outputs h
  · cases h
    rfl

/-! ## The transactions that are built -/

/-- What a request pays is in its transaction, in order. -/
theorem buildCallTransaction_outputs {tools : Toolbox} {request : CallTxRequest} {built : CallTx}
    (h : (sdk tools).buildCallTransaction request = .ok built) :
    ∃ paid more, built.tx.outputs = paid ++ more ∧
      List.Forall₂ (fun out txOut => paidOutput tools out = .ok txOut) request.paidOutputs
        paid := by
  have h : (Sdk.buildCallTransaction tools request request.feeRate).mapError CallTxError.message =
    .ok built := h
  cases hbuild : Sdk.buildCallTransaction tools request request.feeRate with
  | error e =>
    rw [hbuild] at h
    cases h
  | ok result =>
    rw [hbuild] at h
    cases h
    rw [Sdk.buildCallTransaction] at hbuild
    split at hbuild
    · cases hbuild
    · split at hbuild
      · cases hbuild
      · next htx =>
        cases hbuild
        obtain ⟨-, paid, more, houtputs, hpaid, -⟩ := callTransaction_parts htx
        exact ⟨paid, more, houtputs, hpaid⟩

/-- The output at a place of what is paid. -/
theorem isOutputOf_of_paid {tools : Toolbox} {outs : List ContractOutput} {tx : Transaction}
    {paid more : List TxOutput} (houtputs : tx.outputs = paid ++ more)
    (hpaid : List.Forall₂ (fun out txOut => paidOutput tools out = .ok txOut) outs paid)
    {i : Nat} {out : ContractOutput} (hout : outs[i]? = some out) (txid : String) :
    IsOutputOf tools tx ⟨txid, i, out.satoshis, out.script⟩ := by
  obtain ⟨hi, rfl⟩ := List.getElem?_eq_some_iff.mp hout
  have hi' : i < paid.length := by rwa [← hpaid.length_eq]
  have hread := hpaid.get (i := i) hi hi'
  obtain ⟨script, hscript, hread⟩ := bind_ok hread
  have htx : tx.outputs[i]? = some paid[i] := by
    rw [houtputs, List.getElem?_append_left hi', List.getElem?_eq_getElem hi']
  have heq : paid[i] = { satoshis := outs[i].satoshis, lockingScript := script } :=
    (Except.ok.inj hread).symm
  refine ⟨paid[i], htx, ?_, ?_⟩
  · rw [heq]
  · rw [heq]
    exact hscript

theorem buildDeployTransaction_outputs {tools : Toolbox} {script : HexText} {utxos : List UTXO}
    {satoshis : Int} {changeAddress : String} {changeScript : HexText} {feeRate : Nat}
    {tx : Transaction} {count : Nat}
    (h : (sdk tools).buildDeployTransaction script utxos satoshis changeAddress changeScript
      feeRate = .ok (tx, count)) (txid : String) :
    IsOutputOf tools tx ⟨txid, 0, satoshis, script⟩ := by
  have h : (Sdk.buildDeployTransaction tools script utxos satoshis changeAddress changeScript
    feeRate).mapError DeployError.message = .ok (tx, count) := h
  cases hbuild : Sdk.buildDeployTransaction tools script utxos satoshis changeAddress changeScript
    feeRate with
  | error e =>
    rw [hbuild] at h
    cases h
  | ok result =>
    rw [hbuild] at h
    cases h
    rw [Sdk.buildDeployTransaction] at hbuild
    split at hbuild
    · cases hbuild
    dsimp only at hbuild
    split at hbuild
    · cases hbuild
    obtain ⟨read, hread, hbuild⟩ := bind_ok hbuild
    have hscript : tools.fromHex script = .ok read := by
      cases hhex : tools.fromHex script with
      | error e =>
        rw [hhex] at hread
        cases hread
      | ok text =>
        rw [hhex] at hread
        exact congrArg Except.ok (Except.ok.inj hread)
    -- the change, if there is some, is behind the output of the contract
    have hfirst : ∃ more, tx.outputs = { satoshis, lockingScript := read } :: more := by
      split at hbuild
      · split at hbuild
        · obtain ⟨_, -, hbuild⟩ := bind_ok hbuild
          obtain ⟨_, -, hbuild⟩ := bind_ok hbuild
          cases hbuild
          exact ⟨_, rfl⟩
        · obtain ⟨_, -, hbuild⟩ := bind_ok hbuild
          obtain ⟨_, -, hbuild⟩ := bind_ok hbuild
          cases hbuild
          exact ⟨_, rfl⟩
      · cases hbuild
        exact ⟨_, rfl⟩
    obtain ⟨more, houtputs⟩ := hfirst
    exact ⟨_, by rw [houtputs]; rfl, rfl, hscript⟩

theorem assembleStateful_outputs {tools : Toolbox} {signer fundingSigner : Signer}
    {contract : RunarContract} {plan : CallPlan} {options : CallOptions} {newAmount : Int}
    {request : CallTxRequest} {funding : List UTXO} {draft : CallTx} {assembled : Assembled}
    {now now' : Nat}
    (h : exec (assembleStateful (sdk tools) signer fundingSigner contract plan options newAmount
      request funding draft) now = (.ok assembled, now')) :
    ∃ paid more, assembled.tx.outputs = paid ++ more ∧
      List.Forall₂ (fun out txOut => paidOutput tools out = .ok txOut) request.paidOutputs
        paid := by
  obtain ⟨first, now₁, -, h⟩ := exec_bind_eq_ok h
  obtain ⟨extraUnlocks, now₂, -, h⟩ := exec_bind_eq_ok h
  obtain ⟨built, now₃, hbuilt, h⟩ := exec_bind_eq_ok h
  obtain ⟨final, now₄, -, h⟩ := exec_bind_eq_ok h
  obtain ⟨tx₁, now₅, hfirst, h⟩ := exec_bind_eq_ok h
  obtain ⟨tx₂, now₆, hextras, h⟩ := exec_bind_eq_ok h
  obtain ⟨tx₃, now₇, hsigned, h⟩ := exec_bind_eq_ok h
  cases h
  obtain ⟨paid, more, houtputs, hpaid⟩ :=
    buildCallTransaction_outputs (exec_orThrow_ok hbuilt).1
  refine ⟨paid, more, ?_, hpaid⟩
  have hunlocked : tx₂.outputs = tx₁.outputs := by
    refine foldlM_outputs (fun tx extra now tx' now' h => ?_) _ hextras
    obtain ⟨unlocked, now₁, -, h⟩ := exec_bind_eq_ok h
    exact setUnlocking_outputs (exec_orThrow_ok h).1
  calc tx₃.outputs = tx₂.outputs := signFundings_outputs hsigned
    _ = tx₁.outputs := hunlocked
    _ = built.tx.outputs := setUnlocking_outputs (exec_orThrow_ok hfirst).1
    _ = paid ++ more := houtputs

/-! ## Prepared calls -/

/-- The output that a prepared call makes the object track is the object's, and one of the
call's. -/
def Follows (tools : Toolbox) (contract : RunarContract) (p : PreparedCall) : Prop :=
  ∀ txid utxo, nextUtxo p txid = some utxo →
    utxo.txid = txid ∧ IsScriptOf contract utxo.script ∧ IsOutputOf tools p.tx utxo

/-- The outputs that the interpreter predicts, in the order of the source. -/
def predicted (tools : Toolbox) (contract : RunarContract) (plan : CallPlan) :
    List OrderedOutputEntry :=
  ((interpretCall (sdk tools) contract plan).map (·.1.outputs)).getD []

/-- The amount that a single predicted state output has. -/
def explicitSatoshis (ordered : List OrderedOutputEntry) : Option Int :=
  match ordered with
  | [entry] => if entry.isRaw then none else some entry.satoshis
  | _ => none

/-- The object once the new state is stored. -/
def stored (tools : Toolbox) (contract : RunarContract) (plan : CallPlan) (options : CallOptions) :
    RunarContract :=
  match stateToStore (sdk tools) contract plan options with
  | some state => { contract with state }
  | none => contract

/-- The outputs of a call leave the object with one of its own.  Of several given outputs the
first has the state the object has, and no envelope is missing from its code; beside raw outputs
there is one with the object's script; and the amount is not zero. -/
def OutputsKept (tools : Toolbox) (contract : RunarContract) (plan : CallPlan)
    (options : CallOptions) : Prop :=
  match options.outputs with
  | first :: _ =>
      (contract.codeScript ≠ none ∨ contract.inscription = none) ∧
        ∃ text, text ≠ [] ∧ stateHex contract = .ok text ∧
          stateHex { contract with state := first.2 } = .ok text
  | [] =>
      let ordered := predicted tools contract plan
      if ordered.any (·.isRaw) then
        ∃ o ∈ ordered, o.isRaw = false ∨
          getLockingScript (sdk tools) (stored tools contract plan options) = .ok o.script
      else
        options.satoshis.or (explicitSatoshis ordered) ≠ some 0 ∨ plan.contractUtxo.satoshis = 0

/-- A call that tracks no output, or one that is the object's. -/
def CallKept (tools : Toolbox) (contract : RunarContract) (plan : CallPlan)
    (options : CallOptions) : Prop :=
  options.terminalOutputs ≠ none ∨ plan.isStateful = false ∨
    OutputsKept tools contract plan options

theorem nextUtxo_of_stateless {p : PreparedCall} (h : p.plan.isStateful = false) (txid : String) :
    nextUtxo p txid = none := by
  rw [nextUtxo]
  split
  · rw [if_neg (by simp [h]), if_neg (by simp [h])]
  · rw [if_neg (by simp [h])]

theorem follows_of_none {tools : Toolbox} {contract : RunarContract} {p : PreparedCall}
    (h : ∀ txid, nextUtxo p txid = none) : Follows tools contract p := by
  intro txid utxo hnext
  rw [h txid] at hnext
  cases hnext

/-! ## The outputs of a call that goes on -/

section Continuations

variable {tools : Toolbox} {contract : RunarContract} {plan : CallPlan} {options : CallOptions}
  {computed : Option (ExecutionResult × Record)} {c : Continuation}

/-- The script of an output that was given with its state. -/
def givenScript (contract : RunarContract) (text : HexText) : HexText :=
  contract.codeScript.getD (buildCodeScript contract.artifact contract.constructorArgs) ++
    ['6', 'a'] ++ text

/-- With given outputs, these are the outputs of the contract. -/
theorem buildContinuation_given (hstateful : plan.isStateful = true)
    {first : Option Int × Record} {rest : List (Option Int × Record)}
    (hgiven : options.outputs = first :: rest)
    (h : buildContinuation (sdk tools) contract plan options computed = .ok c) :
    ∃ text more, stateHex { contract with state := first.2 } = .ok text ∧
      c.contractOutputs = some (⟨givenScript contract text, first.1.getD 1⟩ :: more) := by
  have hne : options.outputs ≠ [] := by rw [hgiven]; exact List.cons_ne_nil _ _
  rw [buildContinuation, if_pos hstateful, if_pos hne] at h
  obtain ⟨outputs, houtputs, h⟩ := bind_ok h
  rw [hgiven, List.mapM_cons] at houtputs
  obtain ⟨head, hhead, houtputs⟩ := bind_ok houtputs
  obtain ⟨more, -, houtputs⟩ := bind_ok houtputs
  obtain ⟨text, htext, hhead⟩ := bind_ok hhead
  cases hhead
  cases houtputs
  obtain ⟨triple, htriple, h⟩ := bind_ok h
  obtain rfl := Except.ok.inj htriple
  refine ⟨text, more, htext, ?_⟩
  dsimp only at h
  split at h
  · obtain ⟨interleaved, hraw, -⟩ := bind_ok h
    unfold interleaveRaw at hraw
    rw [if_pos (Or.inl hne)] at hraw
    cases hraw
  · cases h
    rfl

theorem singleContinuation_ok {ordered : List OrderedOutputEntry}
    {single : Option HexText × Option Int}
    (h : singleContinuation (sdk tools) contract plan options ordered = .ok single) :
    ∃ script, getLockingScript (sdk tools) contract = .ok script ∧
      single = (some script, some ((options.satoshis.or (explicitSatoshis ordered)).getD
        plan.contractUtxo.satoshis)) := by
  obtain ⟨script, hscript, h⟩ := bind_ok h
  obtain ⟨_, -, h⟩ := bind_ok h
  exact ⟨script, hscript, (Except.ok.inj h).symm⟩

/-- Without, the output has the object's script, alone or among raw outputs. -/
theorem buildContinuation_single (hstateful : plan.isStateful = true)
    (hgiven : options.outputs = [])
    (h : buildContinuation (sdk tools) contract plan options computed = .ok c) :
    ∃ script, getLockingScript (sdk tools) contract = .ok script ∧
      c.newLockingScript = some script ∧
      let ordered := (computed.map (·.1.outputs)).getD []
      if ordered.any (·.isRaw) then
        c.contractOutputs = some (ordered.map fun o =>
          ⟨if o.isRaw then o.script else script, o.satoshis⟩)
      else c.contractOutputs = none ∧
        c.newSatoshis = some ((options.satoshis.or (explicitSatoshis ordered)).getD
          plan.contractUtxo.satoshis) := by
  have hne : ¬ options.outputs ≠ [] := not_not_intro hgiven
  rw [buildContinuation, if_pos hstateful, if_neg hne] at h
  obtain ⟨single, hsingle, h⟩ := bind_ok h
  obtain ⟨script, hscript, rfl⟩ := singleContinuation_ok hsingle
  obtain ⟨triple, htriple, h⟩ := bind_ok h
  obtain rfl := Except.ok.inj htriple
  refine ⟨script, hscript, ?_⟩
  dsimp only at h ⊢
  generalize (computed.map (·.1.outputs)).getD [] = ordered at h ⊢
  by_cases hraw : ordered.any (·.isRaw) = true
  · rw [if_pos hraw] at h ⊢
    obtain ⟨interleaved, hinterleaved, h⟩ := bind_ok h
    unfold interleaveRaw at hinterleaved
    dsimp only at hinterleaved
    split at hinterleaved
    · cases hinterleaved
    · cases hinterleaved
      cases h
      exact ⟨rfl, rfl⟩
  · rw [if_neg hraw] at h ⊢
    cases h
    exact ⟨rfl, rfl, rfl⟩

/-- Without an envelope that is missing, given outputs have the code part of the object. -/
theorem isScriptOf_givenScript (hcode : HasCode contract)
    (henvelope : contract.codeScript ≠ none ∨ contract.inscription = none) {text : HexText}
    (htext : stateHex contract = .ok text) (hne : text ≠ []) :
    IsScriptOf contract (givenScript contract text) := by
  have hpart : contract.codeScript.getD
      (buildCodeScript contract.artifact contract.constructorArgs) = getCodePartHex contract := by
    unfold getCodePartHex
    cases hscript : contract.codeScript with
    | none =>
      have hnone := henvelope.resolve_left (not_not_intro hscript)
      rw [envelopeOf, hnone]
      exact (List.append_nil _).symm
    | some code =>
      cases code with
      | nil => exact absurd hscript hcode
      | cons c code => rfl
  refine ⟨text, htext, ?_⟩
  rw [givenScript, hpart, stateSection, if_neg hne, List.append_assoc]

variable {p : PreparedCall} {request : CallTxRequest} {paid more : List TxOutput}

/-- A call with given outputs tracks the first of them. -/
theorem follows_given (hstateful : p.plan.isStateful = true) (hmulti : p.hasMultiOutput = true)
    {first : ContractOutput} {rest : List ContractOutput}
    (hfirst : p.contractOutputs = first :: rest)
    (hscript : IsScriptOf contract first.script)
    (hrequest : request.contractOutputs = some p.contractOutputs)
    (houtputs : p.tx.outputs = paid ++ more)
    (hpaid : List.Forall₂ (fun out txOut => paidOutput tools out = .ok txOut) request.paidOutputs
      paid) : Follows tools contract p := by
  intro txid utxo hnext
  rw [nextUtxo, hfirst] at hnext
  dsimp only at hnext
  rw [if_pos ⟨hstateful, hmulti⟩] at hnext
  obtain rfl := Option.some.inj hnext
  refine ⟨rfl, hscript, isOutputOf_of_paid houtputs hpaid ?_ txid⟩
  rw [CallTxRequest.paidOutputs, CallTxRequest.outputsOfContract, hrequest, hfirst]
  rfl

/-- A call with one output of its own tracks that. -/
theorem follows_single {script : HexText} {satoshis : Int}
    (hscript : IsScriptOf contract script) (hnone : p.contractOutputs = [])
    (hlocking : p.newLockingScript = script) (hsatoshis : p.newSatoshis = satoshis)
    (hamount : satoshis ≠ 0 ∨ p.plan.contractUtxo.satoshis = 0)
    (hrequest : request.contractOutputs = none ∧ request.newLockingScript = some script ∧
      request.newSatoshis = some satoshis)
    (houtputs : p.tx.outputs = paid ++ more)
    (hpaid : List.Forall₂ (fun out txOut => paidOutput tools out = .ok txOut) request.paidOutputs
      paid) : Follows tools contract p := by
  intro txid utxo hnext
  rw [nextUtxo, hnone] at hnext
  dsimp only at hnext
  split at hnext
  · next htracked =>
    have hvalue : (if p.newSatoshis = 0 then p.plan.contractUtxo.satoshis else p.newSatoshis) =
        satoshis := by
      rw [hsatoshis]
      split
      · next hzero => rw [hamount.resolve_left (not_not_intro hzero), hzero]
      · rfl
    rw [hvalue, hlocking] at hnext
    obtain rfl := Option.some.inj hnext
    have hplace : request.paidOutputs[0]? = some ⟨script, satoshis⟩ := ?_
    · exact ⟨rfl, hscript, isOutputOf_of_paid houtputs hpaid hplace txid⟩
    obtain ⟨hrequest, hnew, hamounts⟩ := hrequest
    rw [CallTxRequest.paidOutputs, CallTxRequest.outputsOfContract, hrequest, hnew, hamounts]
    rw [hlocking] at htracked
    cases script with
    | nil => exact absurd rfl htracked.2
    | cons c script => rfl
  · cases hnext

/-- A call with raw outputs tracks the output with the object's script. -/
theorem follows_interleaved (hsingle : p.hasMultiOutput = false) {script : HexText}
    (hscript : IsScriptOf contract script) (hlocking : p.newLockingScript = script)
    (hfound : ∃ out ∈ p.contractOutputs, out.script = script)
    (hrequest : request.contractOutputs = some p.contractOutputs)
    (houtputs : p.tx.outputs = paid ++ more)
    (hpaid : List.Forall₂ (fun out txOut => paidOutput tools out = .ok txOut) request.paidOutputs
      paid) : Follows tools contract p := by
  intro txid utxo hnext
  rw [nextUtxo] at hnext
  have hpaidOutputs : request.paidOutputs = p.contractOutputs ++ request.dataOutputs := by
    rw [CallTxRequest.paidOutputs, CallTxRequest.outputsOfContract, hrequest]
  cases hcontract : p.contractOutputs with
  | nil =>
    obtain ⟨out, hout, -⟩ := hfound
    rw [hcontract] at hout
    cases hout
  | cons first rest =>
    rw [hcontract] at hnext hfound hpaidOutputs
    dsimp only at hnext
    rw [if_neg (by rw [hsingle]; simp)] at hnext
    split at hnext
    · have hlt : (first :: rest).findIdx (fun out => out.script = p.newLockingScript) <
          (first :: rest).length := by
        obtain ⟨out, hout, heq⟩ := hfound
        exact List.findIdx_lt_length_of_exists ⟨out, hout, by rw [hlocking]; simpa using heq⟩
      obtain ⟨out, hget⟩ : ∃ out : ContractOutput, (first :: rest)[(first :: rest).findIdx
          (fun out => out.script = p.newLockingScript)]? = some out :=
        ⟨_, List.getElem?_eq_getElem hlt⟩
      have hsame : out.script = p.newLockingScript := by
        obtain ⟨_, rfl⟩ := List.getElem?_eq_some_iff.mp hget
        simpa using List.findIdx_getElem (w := hlt)
      rw [hget] at hnext
      obtain rfl := Option.some.inj hnext
      have hplace : request.paidOutputs[(first :: rest).findIdx
          (fun out => out.script = p.newLockingScript)]? = some out := by
        rw [hpaidOutputs, List.getElem?_append_left hlt, hget]
      have houtput := isOutputOf_of_paid houtputs hpaid hplace txid
      rw [hsame] at houtput
      exact ⟨rfl, by rw [hlocking]; exact hscript, houtput⟩
    · cases hnext

end Continuations

/-! ## Preparing a call -/

section Preparing

variable {tools : Toolbox} {outside : Outside} {contract : RunarContract} {plan : CallPlan}
  {options : CallOptions} {p : PreparedCall} {now now' : Nat}

theorem prepareTerminal_none {provider : Provider} {signer : Signer}
    {terminalOutputs : List ContractOutput} {id : Nat}
    (h : exec (prepareTerminal tools provider signer contract plan options terminalOutputs id) now =
      (.ok p, now')) (txid : String) : nextUtxo p txid = none := by
  obtain ⟨unlocked, now₁, -, h⟩ := exec_bind_eq_ok h
  have hnone : p.contractOutputs = [] ∧ p.newLockingScript = [] := by
    dsimp only at h
    split at h
    · obtain ⟨tx, now₂, -, h⟩ := exec_bind_eq_ok h
      obtain ⟨sighash, now₃, -, h⟩ := exec_bind_eq_ok h
      cases h
      exact ⟨rfl, rfl⟩
    · obtain ⟨signed, now₂, -, h⟩ := exec_bind_eq_ok h
      obtain ⟨_, now₃, -, h⟩ := exec_bind_eq_ok h
      obtain ⟨tx, now₄, -, h⟩ := exec_bind_eq_ok h
      obtain ⟨sighash, now₅, -, h⟩ := exec_bind_eq_ok h
      cases h
      exact ⟨rfl, rfl⟩
  rw [nextUtxo, hnone.1, hnone.2]
  exact if_neg fun hnew => hnew.2 rfl

/-- A call that goes on tracks an output of the object, where its outputs are kept. -/
theorem completeCall_follows {provider : Provider} {signer fundingSigner : Signer}
    {unlockingScript : HexText} {id : Nat}
    (hcode : HasCode (stored tools contract plan options))
    (hkept : plan.isStateful = false ∨ OutputsKept tools contract plan options)
    (h : exec (completeCall (sdk tools) provider signer fundingSigner
      (stored tools contract plan options) plan options
      (interpretCall (sdk tools) contract plan) unlockingScript id) now = (.ok p, now')) :
    Follows tools (stored tools contract plan options) p := by
  obtain ⟨c, now₁, hcontinuation, h⟩ := exec_bind_eq_ok h
  obtain ⟨feeRate, now₂, -, h⟩ := exec_bind_eq_ok h
  obtain ⟨changeScript, now₃, -, h⟩ := exec_bind_eq_ok h
  obtain ⟨allFundingUtxos, now₄, -, h⟩ := exec_bind_eq_ok h
  obtain ⟨extraUnlocks, now₅, -, h⟩ := exec_bind_eq_ok h
  obtain ⟨funding, now₆, -, h⟩ := exec_bind_eq_ok h
  obtain ⟨draft, now₇, -, h⟩ := exec_bind_eq_ok h
  obtain ⟨tx, now₈, -, h⟩ := exec_bind_eq_ok h
  dsimp only at h
  cases hstateful : plan.isStateful with
  | false =>
    rw [if_neg (by rw [hstateful]; exact Bool.noConfusion)] at h
    obtain ⟨unlocked, now₉, -, h⟩ := exec_bind_eq_ok h
    obtain ⟨assembled, now₁₀, -, h⟩ := exec_bind_eq_ok h
    obtain ⟨sighash, now₁₁, -, h⟩ := exec_bind_eq_ok h
    cases h
    exact follows_of_none (nextUtxo_of_stateless hstateful)
  | true =>
    rw [if_pos hstateful] at h
    obtain ⟨assembled, now₉, hassembled, h⟩ := exec_bind_eq_ok h
    obtain ⟨sighash, now₁₀, -, h⟩ := exec_bind_eq_ok h
    cases h
    have hcontinuation := (exec_orThrow_ok hcontinuation).1
    have hkept := hkept.resolve_left (by rw [hstateful]; exact Bool.noConfusion)
    obtain ⟨paid, more, houtputs, hpaid⟩ := assembleStateful_outputs hassembled
    unfold OutputsKept at hkept
    cases hgiven : options.outputs with
    | cons first rest =>
      rw [hgiven] at hkept
      obtain ⟨henvelope, text, hne, hown, hfirst⟩ := hkept
      have hstored : stored tools contract plan options = contract := by
        rw [stored, stateToStore, if_neg (by rw [hgiven]; simp)]
      rw [hstored] at hcontinuation hcode ⊢
      obtain ⟨text', tail, htext', houts⟩ :=
        buildContinuation_given hstateful hgiven hcontinuation
      obtain rfl : text = text' := Except.ok.inj (hfirst.symm.trans htext')
      refine follows_given hstateful (by simp) (by dsimp only; rw [houts]; rfl)
        (isScriptOf_givenScript hcode henvelope hown hne) ?_ houtputs hpaid
      dsimp only
      rw [houts]
      rfl
    | nil =>
      rw [hgiven] at hkept
      dsimp only at hkept
      obtain ⟨script, hscript, hlocking, hcases⟩ :=
        buildContinuation_single hstateful hgiven hcontinuation
      have hown := isScriptOf_getLockingScript hcode hscript
      dsimp only at hcases
      rw [predicted] at hkept
      split at hkept
      · next hraw =>
        rw [if_pos hraw] at hcases
        refine follows_interleaved (by simp) hown
          (by dsimp only; rw [hlocking]; rfl) ?_ (by dsimp only; rw [hcases]; rfl) houtputs hpaid
        obtain ⟨o, ho, hsame⟩ := hkept
        dsimp only
        rw [hcases]
        refine ⟨_, List.mem_map_of_mem ho, ?_⟩
        dsimp only
        rcases hsame with hstate | hsame
        · rw [hstate]
          rfl
        · have heq : script = o.script := Except.ok.inj (hscript.symm.trans hsame)
          rw [heq, ite_self]
      · next hraw =>
        rw [if_neg hraw] at hcases
        obtain ⟨hnone, hamount⟩ := hcases
        refine follows_single hown (by dsimp only; rw [hnone]; rfl)
          (by dsimp only; rw [hlocking]; rfl) (by dsimp only; rw [hamount]; rfl) ?_
          ⟨hnone, hlocking, hamount⟩ houtputs hpaid
        dsimp only
        rcases hkept with hexplicit | hzero
        · cases hsatoshis : options.satoshis.or (explicitSatoshis _) with
          | none =>
            rw [Option.getD_none]
            exact (em (plan.contractUtxo.satoshis = 0)).symm
          | some satoshis =>
            rw [Option.getD_some]
            rw [hsatoshis] at hexplicit
            exact Or.inl fun hzero => hexplicit (congrArg some hzero)
        · exact Or.inr hzero

/-- However the call is planned, it is kept. -/
def PrepareKept (tools : Toolbox) (outside : Outside) (w : World) (methodName : String)
    (args : List JsValue) (options : CallOptions) : Prop :=
  ∀ signer plan now, w.contract.signer = some signer →
    exec (planCall (sdk tools) (outside.signer signer) w.contract methodName args options) w.clock =
      (.ok plan, now) →
    CallKept tools w.contract plan options

/-- An object that differs in its state at most. -/
def SameBut (contract contract' : RunarContract) : Prop :=
  ∃ state, contract' = { contract with state }

theorem SameBut.hasCode {contract' : RunarContract} (h : SameBut contract contract')
    (hcode : HasCode contract) : HasCode contract' := by
  obtain ⟨state, rfl⟩ := h
  exact hcode

theorem sameBut_stored (tools : Toolbox) (contract : RunarContract) (plan : CallPlan)
    (options : CallOptions) : SameBut contract (stored tools contract plan options) := by
  rw [stored]
  split
  · exact ⟨_, rfl⟩
  · exact ⟨contract.state, rfl⟩

theorem exec_storeState (tools : Toolbox) (w : World) (contract : RunarContract)
    (hcontract : w.contract = contract) (plan : CallPlan) (options : CallOptions) :
    exec (storeState (stateToStore (sdk tools) contract plan options)) w =
      (.ok (), { w with contract := stored tools contract plan options }) := by
  subst hcontract
  rw [stored]
  split
  · next hstate =>
    rw [hstate]
    rfl
  · next hstate =>
    rw [hstate]
    rfl

theorem exec_handOut {prepared : PreparedCall} {w w' : World}
    (h : exec (do
      modify fun w : World => { w with prepared := w.prepared + 1 }
      return prepared : Session PreparedCall) w = (.ok p, w')) :
    p = prepared ∧ w'.contract = w.contract := by
  obtain ⟨_, w₁, hmodify, h⟩ := exec_bind_eq_ok h
  rw [exec_modify] at hmodify
  cases hmodify
  cases h
  exact ⟨rfl, rfl⟩

/-- A prepared call follows the object it leaves. -/
theorem prepareCall_follows {w w' : World} {methodName : String} {args : List JsValue}
    (hcode : HasCode w.contract) (hkept : PrepareKept tools outside w methodName args options)
    (h : exec (prepareCall (sdk tools) outside methodName args options) w = (.ok p, w')) :
    Follows tools w'.contract p ∧ SameBut w.contract w'.contract := by
  unfold prepareCall at h
  obtain ⟨⟨providerRef, signerRef⟩, w₁, hrefs, hrest⟩ := exec_bind_eq_ok h
  obtain ⟨hw₁, -, hsigner⟩ := exec_resolveProviderSigner hrefs
  dsimp only at hrest
  rw [hw₁, exec_bind_ok (exec_self w)] at hrest
  obtain ⟨plan, w₃, hplan, h⟩ := exec_bind_eq_ok hrest
  obtain ⟨hplan, hw₃⟩ := exec_perform_ok hplan
  have hcall := hkept _ _ _ hsigner hplan
  obtain ⟨world, w₄, hget, h⟩ := exec_bind_eq_ok h
  rw [exec_get] at hget
  cases hget
  have hcontract₃ : w₃.contract = w.contract := by rw [hw₃]
  cases hterminal : options.terminalOutputs with
  | some terminalOutputs =>
    rw [hterminal] at h
    dsimp only at h
    obtain ⟨prepared, w₅, hprepared, h⟩ := exec_bind_eq_ok h
    obtain ⟨hprepared, hw₅⟩ := exec_perform_ok hprepared
    obtain ⟨rfl, hw'⟩ := exec_handOut h
    refine ⟨follows_of_none (prepareTerminal_none hprepared), w.contract.state, ?_⟩
    rw [hw', hw₅, hcontract₃]
  | none =>
    rw [hterminal] at h
    dsimp only at h
    obtain ⟨unlock, w₅, hunlock, h⟩ := exec_bind_eq_ok h
    obtain ⟨-, hw₅⟩ := exec_perform_ok hunlock
    have hcontract₅ : w₅.contract = w.contract := by rw [hw₅, hcontract₃]
    rw [exec_bind_ok (exec_storeState tools w₅ w.contract hcontract₅ plan options),
      exec_bind_ok (exec_self _)] at h
    obtain ⟨prepared, w₆, hprepared, h⟩ := exec_bind_eq_ok h
    obtain ⟨hprepared, hw₆⟩ := exec_perform_ok hprepared
    obtain ⟨rfl, hw'⟩ := exec_handOut h
    have hsame := sameBut_stored tools w.contract plan options
    have hcontract : w'.contract = stored tools w.contract plan options := by rw [hw', hw₆]
    rw [hcontract]
    refine ⟨completeCall_follows (hsame.hasCode hcode) ?_ hprepared, hsame⟩
    exact hcall.resolve_left (not_not_intro hterminal)

end Preparing

end Runar.Sdk.Tracking
