/-
  Sdk/CallTransaction.lean --- building a call transaction.

  WHAT THIS FILE IS FOR.  `calling.ts` builds the transaction of a method call: the contract's
  inputs and those that pay, the contract's outputs, its data outputs, and the change.  What the
  inputs bring is never less than what the outputs take.  The change that is returned is that of
  the transaction unless there is change and nobody to send it to: then the output is left out,
  and its amount is returned all the same.
-/
import Mathlib.Data.NNRat.Defs
import Runar.Logic.Nested
import Runar.Sdk.Failures
import Runar.Sdk.Funding

set_option autoImplicit false

namespace Runar.Sdk

open Script Logic

namespace CallTxRequest

/-- The outputs that are spent, in the order of the inputs. -/
def allUtxos (request : CallTxRequest) : List UTXO :=
  request.currentUtxo :: request.additionalContractInputs.map (·.1) ++ request.additionalUtxos

def totalInput (request : CallTxRequest) : Int := totalSatoshis request.allUtxos

/-- Several outputs of the contract, or the one with its new script. -/
def outputsOfContract (request : CallTxRequest) : List ContractOutput :=
  match request.contractOutputs with
  | some outputs => outputs
  | none =>
      match request.newLockingScript with
      | some (c :: script) =>
          [⟨c :: script, request.newSatoshis.getD request.currentUtxo.satoshis⟩]
      | _ => []

/-- The outputs but for the change. -/
def paidOutputs (request : CallTxRequest) : List ContractOutput :=
  request.outputsOfContract ++ request.dataOutputs

def contractOutputSats (request : CallTxRequest) : Int :=
  (request.outputsOfContract.map (·.satoshis)).sum + (request.dataOutputs.map (·.satoshis)).sum

/-- There is somebody to send the change to. -/
def hasChange (request : CallTxRequest) : Bool :=
  request.changeAddress ≠ "" || request.changeScript ≠ []

/-- The bytes of a script with its length in front. -/
def scriptSize (script : HexText) : ℚ := Fees.varIntByteSize (byteLen script) + byteLen script

/-- The bytes of an input with some unlocking script. -/
def inputSize (unlockingScript : HexText) : ℚ := 32 + 4 + scriptSize unlockingScript + 4

def estimatedSize (request : CallTxRequest) : ℚ :=
  let inputsSize := inputSize request.unlockingScript +
    (request.additionalContractInputs.map fun ci => inputSize ci.2).sum +
    request.additionalUtxos.length * 148
  let outputsSize := (request.paidOutputs.map fun out => 8 + scriptSize out.script).sum +
    if request.hasChange then 34 else 0
  10 + inputsSize + outputsSize

def fee (request : CallTxRequest) (feeRate : ℚ≥0) : Int :=
  ⌈request.estimatedSize * feeRate / 1000⌉

def change (request : CallTxRequest) (feeRate : ℚ≥0) : Int :=
  request.totalInput - request.contractOutputSats - request.fee feeRate

end CallTxRequest

/-- Why no call transaction is built. -/
inductive CallTxError where
  | insufficientFunds (need have_ : Int)
  /-- an error of a function of another file -/
  | other (message : String)

def CallTxError.message : CallTxError → String
  | .insufficientFunds need have_ =>
      "buildCallTransaction: insufficient funds. Need " ++ toString need ++ " sats, have " ++
        toString have_
  | .other message => message

/-- An input of the contract, with its unlocking script. -/
def contractInput (tools : Toolbox) (sequence : Nat) (input : UTXO × HexText) :
    Except String TxInput := do
  return { sourceTXID := input.1.txid, sourceOutputIndex := input.1.outputIndex,
           unlockingScript := ← tools.fromHex input.2, sequence }

/-- An output with the script of its text. -/
def paidOutput (tools : Toolbox) (out : ContractOutput) : Except String TxOutput := do
  return { satoshis := out.satoshis, lockingScript := ← tools.fromHex out.script }

/-- The script the change is sent to. -/
def actualChangeScript (tools : Toolbox) (request : CallTxRequest) : Except String HexText :=
  if request.changeScript = [] then tools.buildP2PKHScript request.changeAddress
  else .ok request.changeScript

/-- The output of the change, if there is change and somebody to send it to. -/
def changeOutputs (tools : Toolbox) (request : CallTxRequest) (change : Int) :
    Except String (List TxOutput) :=
  if change > 0 ∧ request.hasChange then do
    let actualChangeScript ← actualChangeScript tools request
    return [{ satoshis := change, lockingScript := ← tools.fromHex actualChangeScript }]
  else .ok []

/-- The transaction, with some change. -/
def callTransaction (tools : Toolbox) (request : CallTxRequest) (change : Int) :
    Except String Transaction := do
  let inputSequence := resolveInputSequence request.locktime request.sequence
  let contractInputs ← ((request.currentUtxo, request.unlockingScript) ::
    request.additionalContractInputs).mapM (contractInput tools inputSequence)
  let outputs ← request.paidOutputs.mapM (paidOutput tools)
  let change ← changeOutputs tools request change
  return { version := 1,
           inputs := contractInputs ++ request.additionalUtxos.map (unsignedInput inputSequence),
           outputs := outputs ++ change, lockTime := request.locktime.getD 0 }

/-- The call transaction at a fee rate, which may be any number in place of the request's. -/
def buildCallTransaction (tools : Toolbox) (request : CallTxRequest) (feeRate : ℚ≥0) :
    Except CallTxError CallTx :=
  let change := request.change feeRate
  if request.totalInput < request.contractOutputSats then
    .error (.insufficientFunds (request.contractOutputSats + request.fee feeRate)
      request.totalInput)
  else
    match callTransaction tools request change with
    | .error message => .error (.other message)
    | .ok tx =>
        .ok { tx, inputCount := request.allUtxos.length,
              changeAmount := if change > 0 then change else 0 }

/-! ## What is spent and paid -/

/-- The amounts of the outputs of a transaction. -/
def totalPaid (tx : Transaction) : Int := (tx.outputs.map (·.satoshis)).sum

/-- The inputs spend the outputs of the request; they bring at least what is paid; and behind the
outputs of the contract and its data outputs there is one output with the change returned, or
none where no change is. -/
structure Balanced (tools : Toolbox) (request : CallTxRequest) (result : CallTx) : Prop where
  spends : result.tx.inputs.map (fun input => (input.sourceTXID, input.sourceOutputIndex)) =
    request.allUtxos.map fun utxo => (utxo.txid, utxo.outputIndex)
  pays : totalPaid result.tx ≤ request.totalInput
  ordered : ∃ paid change, result.tx.outputs = paid ++ change ∧
    List.Forall₂ (fun out txOut => paidOutput tools out = .ok txOut)
      (request.outputsOfContract ++ request.dataOutputs) paid ∧
    change.map (·.satoshis) = if result.changeAmount = 0 then [] else [result.changeAmount]

/-- Every transaction returned for the request is balanced, and none is where the inputs bring
less than the outputs take. -/
def ConservesValue (tools : Toolbox) (request : CallTxRequest) (feeRate : ℚ≥0) : Prop :=
  (∀ result, buildCallTransaction tools request feeRate = .ok result →
    Balanced tools request result) ∧
  (request.totalInput < request.contractOutputSats →
    ∀ result, buildCallTransaction tools request feeRate ≠ .ok result)

/-- The scripts that are read from their texts before the change. -/
def CallTxRequest.scripts (request : CallTxRequest) : List HexText :=
  request.unlockingScript :: request.additionalContractInputs.map (·.2) ++
    request.paidOutputs.map (·.script)

/-- Every script is one of hexadecimal digits. -/
def CallTxRequest.AllHex (tools : Toolbox) (request : CallTxRequest) : Prop :=
  ∀ script ∈ request.scripts, ∃ read, tools.fromHex script = .ok read

theorem scriptSize_nonneg (script : HexText) : 0 ≤ CallTxRequest.scriptSize script := by
  have hvar (n : ℚ) : 0 ≤ Fees.varIntByteSize n := by
    unfold Fees.varIntByteSize
    split
    · norm_num
    split
    · norm_num
    split <;> norm_num
  have hlen : 0 ≤ byteLen script := by
    unfold byteLen
    positivity
  exact add_nonneg (hvar _) hlen

theorem sum_nonneg_of {α : Type} (f : α → ℚ) (xs : List α) (h : ∀ x, 0 ≤ f x) :
    0 ≤ (xs.map f).sum := by
  refine List.sum_nonneg fun y hy => ?_
  obtain ⟨x, -, rfl⟩ := List.mem_map.mp hy
  exact h x

theorem fee_nonneg (request : CallTxRequest) (feeRate : ℚ≥0) : 0 ≤ request.fee feeRate := by
  have hinput (script : HexText) : 0 ≤ CallTxRequest.inputSize script := by
    have := scriptSize_nonneg script
    unfold CallTxRequest.inputSize
    positivity
  have hinputs := sum_nonneg_of (fun ci : UTXO × HexText => CallTxRequest.inputSize ci.2)
    request.additionalContractInputs fun ci => hinput ci.2
  have houtputs := sum_nonneg_of
    (fun out : ContractOutput => 8 + CallTxRequest.scriptSize out.script) request.paidOutputs
    fun out => add_nonneg (by norm_num) (scriptSize_nonneg _)
  have hsize : 0 ≤ request.estimatedSize := by
    have := hinput request.unlockingScript
    unfold CallTxRequest.estimatedSize
    dsimp only
    split <;> positivity
  unfold CallTxRequest.fee
  have hrate : (0 : ℚ) ≤ feeRate := feeRate.coe_nonneg
  exact Int.ceil_nonneg (by positivity)

/-! ## The transaction that is built -/

section Building

variable {tools : Toolbox} {request : CallTxRequest}

theorem exists_mapM_ok {α β : Type} (f : α → Except String β) (xs : List α)
    (h : ∀ x ∈ xs, ∃ y, f x = .ok y) : ∃ ys, xs.mapM f = .ok ys := by
  induction xs with
  | nil => exact ⟨[], rfl⟩
  | cons x xs ih =>
    obtain ⟨y, hy⟩ := h x List.mem_cons_self
    obtain ⟨ys, hys⟩ := ih fun x hx => h x (List.mem_cons_of_mem _ hx)
    exact ⟨y :: ys, by rw [List.mapM_cons, hy, hys]; rfl⟩

/-- A result of a step followed by others is a result of the step. -/
theorem bind_ok {ε α β : Type} {x : Except ε α} {f : α → Except ε β} {b : β}
    (h : (x >>= f) = .ok b) : ∃ a, x = .ok a ∧ f a = .ok b := by
  cases x with
  | error e => exact nomatch h
  | ok a => exact ⟨a, rfl, h⟩

theorem changeOutputs_satoshis {change : Int} {outputs : List TxOutput}
    (h : changeOutputs tools request change = .ok outputs) :
    outputs.map (·.satoshis) = if change > 0 ∧ request.hasChange then [change] else [] := by
  rw [changeOutputs] at h
  split at h
  · next hchange =>
    obtain ⟨script, -, h⟩ := bind_ok h
    obtain ⟨read, -, h⟩ := bind_ok h
    cases h
    rw [if_pos hchange]
    rfl
  · next hchange =>
    cases h
    rw [if_neg hchange]
    rfl

/-- What a transaction that is built consists of. -/
theorem callTransaction_parts {change : Int} {tx : Transaction}
    (h : callTransaction tools request change = .ok tx) :
    tx.inputs.map (fun input => (input.sourceTXID, input.sourceOutputIndex)) =
      request.allUtxos.map (fun utxo => (utxo.txid, utxo.outputIndex)) ∧
    ∃ paid more, tx.outputs = paid ++ more ∧
      List.Forall₂ (fun out txOut => paidOutput tools out = .ok txOut) request.paidOutputs paid ∧
      more.map (·.satoshis) = if change > 0 ∧ request.hasChange then [change] else [] := by
  obtain ⟨inputs, hinputs, h⟩ := bind_ok h
  obtain ⟨paid, hpaid, h⟩ := bind_ok h
  obtain ⟨more, hmore, h⟩ := bind_ok h
  cases h
  refine ⟨?_, paid, more, rfl, forall₂_of_mapM_ok hpaid, changeOutputs_satoshis hmore⟩
  have hread : inputs.map (fun input => (input.sourceTXID, input.sourceOutputIndex)) =
      ((request.currentUtxo, request.unlockingScript) :: request.additionalContractInputs).map
        fun input => (input.1.txid, input.1.outputIndex) := by
    have hall := forall₂_of_mapM_ok hinputs
    refine (List.forall₂_eq_eq_eq ▸ List.forall₂_map_left_iff.mpr
      (List.forall₂_map_right_iff.mpr (hall.flip.imp fun txInput input hinput => ?_)))
    obtain ⟨script, -, hinput⟩ := bind_ok hinput
    cases hinput
    rfl
  rw [List.map_append, hread, CallTxRequest.allUtxos, List.cons_append, List.map_cons,
    List.map_cons, List.map_append, List.map_map, List.map_map]
  rfl

/-- The outputs that are paid have the amounts of the request. -/
theorem sum_paid {outs : List ContractOutput} {paid : List TxOutput}
    (h : List.Forall₂ (fun out txOut => paidOutput tools out = .ok txOut) outs paid) :
    (paid.map (·.satoshis)).sum = (outs.map (·.satoshis)).sum := by
  induction h with
  | nil => rfl
  | cons hout _ ih =>
    obtain ⟨script, -, hout⟩ := bind_ok hout
    cases hout
    rw [List.map_cons, List.map_cons, List.sum_cons, List.sum_cons, ih]

theorem sum_paidOutputs (request : CallTxRequest) :
    (request.paidOutputs.map (·.satoshis)).sum = request.contractOutputSats := by
  rw [CallTxRequest.paidOutputs, List.map_append, List.sum_append]
  rfl

/-- The scripts of a transaction that is built are read. -/
theorem allHex_of_callTransaction {change : Int} {tx : Transaction}
    (h : callTransaction tools request change = .ok tx) : request.AllHex tools := by
  obtain ⟨inputs, hinputs, h⟩ := bind_ok h
  obtain ⟨paid, hpaid, -⟩ := bind_ok h
  intro script hscript
  rw [CallTxRequest.scripts, List.mem_append] at hscript
  rcases hscript with hscript | hscript
  · have hmem : script ∈ ((request.currentUtxo, request.unlockingScript) ::
        request.additionalContractInputs).map (·.2) := hscript
    obtain ⟨input, hinput, rfl⟩ := List.mem_map.mp hmem
    obtain ⟨txInput, -, hread⟩ := exists_of_forall₂ (forall₂_of_mapM_ok hinputs) hinput
    obtain ⟨read, hread, -⟩ := bind_ok hread
    exact ⟨read, hread⟩
  · obtain ⟨out, hout, rfl⟩ := List.mem_map.mp hscript
    obtain ⟨txOut, -, hread⟩ := exists_of_forall₂ (forall₂_of_mapM_ok hpaid) hout
    obtain ⟨read, hread, -⟩ := bind_ok hread
    exact ⟨read, hread⟩

/-- Where every script is read and no change is sent, the transaction is built. -/
theorem callTransaction_allHex (hhex : request.AllHex tools) {change : Int}
    (h : ¬ (change > 0 ∧ request.hasChange)) :
    ∃ tx, callTransaction tools request change = .ok tx := by
  obtain ⟨inputs, hinputs⟩ := exists_mapM_ok
    (contractInput tools (resolveInputSequence request.locktime request.sequence))
    ((request.currentUtxo, request.unlockingScript) :: request.additionalContractInputs)
    fun input hinput => by
      obtain ⟨read, hread⟩ := hhex input.2 (List.mem_append_left _ (by
        rw [← List.map_cons (f := fun input : UTXO × HexText => input.2) (a :=
          (request.currentUtxo, request.unlockingScript))]
        exact List.mem_map_of_mem hinput))
      exact ⟨_, by rw [contractInput, hread]; rfl⟩
  obtain ⟨paid, hpaid⟩ := exists_mapM_ok (paidOutput tools) request.paidOutputs
    fun out hout => by
      obtain ⟨read, hread⟩ := hhex out.script (List.mem_append_right _
        (List.mem_map_of_mem hout))
      exact ⟨_, by rw [paidOutput, hread]; rfl⟩
  have hchange : changeOutputs tools request change = .ok [] := if_neg h
  exact ⟨_, by rw [callTransaction, hinputs, hpaid, hchange]; rfl⟩

end Building

/-- Change with nobody to send it to is returned, and not sent. -/
theorem not_conservesValue {tools : Toolbox} {request : CallTxRequest} {feeRate : ℚ≥0}
    (hchange : ¬ request.hasChange = true)
    (hless : request.contractOutputSats + request.fee feeRate < request.totalInput)
    (hhex : request.AllHex tools) : ¬ ConservesValue tools request feeRate := by
  intro h
  have hfee := fee_nonneg request feeRate
  have hsends : ¬ (request.change feeRate > 0 ∧ request.hasChange) := fun hc => hchange hc.2
  obtain ⟨tx, htx⟩ := callTransaction_allHex hhex hsends
  have hpos : request.change feeRate > 0 := by
    unfold CallTxRequest.change
    omega
  have hresult : buildCallTransaction tools request feeRate =
      .ok ⟨tx, request.allUtxos.length, request.change feeRate⟩ := by
    rw [buildCallTransaction, if_neg (by omega), htx]
    dsimp only
    rw [if_pos hpos]
  obtain ⟨paid, more, houtputs, hpaid, hmore⟩ := (h.1 _ hresult).ordered
  obtain ⟨-, paid', more', houtputs', hpaid', hmore'⟩ := callTransaction_parts htx
  -- both lists of paid outputs have the length of the request's, so nothing is left for change
  have hne : ¬ request.change feeRate = 0 := by omega
  rw [if_neg hsends, List.map_eq_nil_iff] at hmore'
  dsimp only at hmore
  rw [if_neg hne] at hmore
  have hlength := congrArg List.length (houtputs.symm.trans houtputs')
  have hlengths := hpaid.length_eq.symm.trans hpaid'.length_eq
  have hone := congrArg List.length hmore
  rw [hmore', List.append_nil, List.length_append] at hlength
  rw [List.length_map, List.length_singleton] at hone
  omega

/-- A transaction that is built is balanced where its change is sent, or there is none. -/
theorem balanced_of_build {tools : Toolbox} {request : CallTxRequest} {feeRate : ℚ≥0}
    (h : request.hasChange = true ∨
      request.totalInput ≤ request.contractOutputSats + request.fee feeRate)
    {result : CallTx} (hresult : buildCallTransaction tools request feeRate = .ok result) :
    Balanced tools request result := by
  have hfee := fee_nonneg request feeRate
  have hchange : request.change feeRate =
    request.totalInput - request.contractOutputSats - request.fee feeRate := rfl
  rw [buildCallTransaction] at hresult
  split at hresult
  · exact nomatch hresult
  · next hcovers =>
    split at hresult
    · exact nomatch hresult
    · next tx htx =>
      cases hresult
      obtain ⟨hspends, paid, more, houtputs, hpaid, hmore⟩ := callTransaction_parts htx
      have hsum := (sum_paid hpaid).trans (sum_paidOutputs request)
      have htotal : totalPaid tx = request.contractOutputSats + (more.map (·.satoshis)).sum := by
        rw [totalPaid, houtputs, List.map_append, List.sum_append, hsum]
      refine ⟨hspends, ?_, paid, more, houtputs, hpaid, ?_⟩
      · rw [htotal, hmore]
        split
        · rw [List.sum_singleton]
          omega
        · rw [List.sum_nil]
          omega
      · rw [hmore]
        dsimp only
        by_cases hpos : request.change feeRate > 0
        · have hsends : request.hasChange = true := h.resolve_right (by omega)
          rw [if_pos ⟨hpos, hsends⟩, if_pos hpos, if_neg (by omega)]
        · rw [if_neg (fun hc => hpos hc.1), if_neg hpos, if_pos rfl]

/-- No transaction is built where the inputs bring less than is paid. -/
theorem build_ne_ok {tools : Toolbox} {request : CallTxRequest} {feeRate : ℚ≥0}
    (hless : request.totalInput < request.contractOutputSats) (result : CallTx) :
    buildCallTransaction tools request feeRate ≠ .ok result := by
  rw [buildCallTransaction, if_pos hless]
  exact fun h => nomatch h

/-- The transactions for a request are balanced exactly where there is somebody to send change
to, or no change, or a script that is no text of hexadecimal digits, for which there is no
transaction. -/
theorem conservesValue_iff (tools : Toolbox) (request : CallTxRequest) (feeRate : ℚ≥0) :
    ConservesValue tools request feeRate ↔
      request.hasChange = true ∨
      request.totalInput ≤ request.contractOutputSats + request.fee feeRate ∨
      ¬ request.AllHex tools := by
  constructor
  · intro h
    by_contra hno
    push Not at hno
    obtain ⟨hchange, hless, hhex⟩ := hno
    exact not_conservesValue hchange hless hhex h
  · intro h
    refine ⟨fun result hresult => ?_, fun hless => build_ne_ok hless⟩
    rcases h with h | h | h
    · exact balanced_of_build (.inl h) hresult
    · exact balanced_of_build (.inr h) hresult
    · -- a script that is not read ends the call
      refine absurd ?_ h
      rw [buildCallTransaction] at hresult
      split at hresult
      · exact nomatch hresult
      · split at hresult
        · exact nomatch hresult
        · next tx htx => exact allHex_of_callTransaction htx

/-- A contract of 10000 that keeps 1000, without an address for its change. -/
def unaddressed : CallTxRequest :=
  { currentUtxo := ⟨"", 0, 10000, []⟩, unlockingScript := [], newLockingScript := some ['5', '1'],
    newSatoshis := some 1000, changeAddress := "", changeScript := [], additionalUtxos := [],
    feeRate := 100, contractOutputs := none, additionalContractInputs := [], dataOutputs := [],
    locktime := none, sequence := none }

/-- Its change is returned, but its transaction has no such output. -/
theorem not_conserves_unaddressed :
    ¬ ∀ (tools : Toolbox) (request : CallTxRequest) (feeRate : ℚ≥0),
      ConservesValue tools request feeRate := by
  intro h
  refine (?_ : ¬ ConservesValue counterTools unaddressed 100) (h counterTools unaddressed 100)
  refine not_conservesValue (by decide) ?_ (fun script _ => ⟨script, rfl⟩)
  have hsize : unaddressed.estimatedSize = 61 := by
    norm_num [CallTxRequest.estimatedSize, CallTxRequest.inputSize, CallTxRequest.scriptSize,
      CallTxRequest.paidOutputs, CallTxRequest.outputsOfContract, CallTxRequest.hasChange,
      unaddressed, byteLen, Fees.varIntByteSize]
  have hfee : unaddressed.fee 100 = 7 := by
    rw [CallTxRequest.fee, hsize, Int.ceil_eq_iff]
    norm_num
  rw [hfee]
  decide

end Runar.Sdk
