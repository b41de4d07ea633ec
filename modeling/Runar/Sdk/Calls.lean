/-
  Sdk/Calls.lean --- deploying a contract object and calling its methods.

  WHAT THIS FILE IS FOR.  `deploy`, `deployWithWallet`, `prepareCall`, `finalizeCall`
  and `call` change the contract object and ask the world for prices, coins and
  signatures, each of which may be refused.  This file has them in the order of their
  steps, so that it can be asked what a refusal leaves behind.

  TYPES.  The work between two writes of the object is a `Task`, which cannot write it.
-/
import Runar.Sdk.Assembly

set_option autoImplicit false

namespace Runar.Sdk

open Script Artifact Logic

/-! ## Sessions -/

/-- The object, the number of requests made, and the prepared calls handed out and
finalized. -/
structure World where
  contract : RunarContract
  clock : Nat
  prepared : Nat
  consumed : List Nat

/-- A method of the object. -/
abbrev Session (α : Type) : Type := Attempt World String α

/-- Work that does not write the object. -/
def perform {α : Type} (task : Task α) : Session α :=
  Attempt.zoom (·.clock) (fun clock w => { w with clock }) task

def self : Session RunarContract := fun w => (.ok w.contract, w)

def setCurrentUtxo (utxo : Option UTXO) : Session Unit :=
  modify fun w => { w with contract := { w.contract with currentUtxo := utxo } }

def setState (state : Record) : Session Unit :=
  modify fun w => { w with contract := { w.contract with state } }

/-- Store a state, if there is one to store. -/
def storeState : Option Record → Session Unit
  | some state => setState state
  | none => pure ()

/-! ## Options and prepared calls -/

structure DeployOptions where
  satoshis : Option Int
  changeAddress : Option String
  fundingSigner : Option Nat

structure CallOptions where
  satoshis : Option Int
  changeAddress : Option String
  changePubKey : Option HexText
  newState : Option Record
  outputs : List (Option Int × Record)
  additionalContractInputs : List UTXO
  additionalContractInputArgs : Option (List (List JsValue))
  terminalOutputs : Option (List ContractOutput)
  feeUtxo : Option UTXO
  dataOutputs : Option (List ContractOutput)
  locktime : Option Nat
  sequence : Option Nat
  maxFundingInputs : Option Nat
  fundingSigner : Option Nat
  dryRun : Bool

/-- No options. -/
def CallOptions.none : CallOptions :=
  { satoshis := Option.none, changeAddress := Option.none, changePubKey := Option.none,
    newState := Option.none, outputs := [], additionalContractInputs := [],
    additionalContractInputArgs := Option.none, terminalOutputs := Option.none,
    feeUtxo := Option.none, dataOutputs := Option.none, locktime := Option.none,
    sequence := Option.none, maxFundingInputs := Option.none, fundingSigner := Option.none,
    dryRun := false }

/-- What `prepareCall` knows of a call before any transaction is built. -/
structure CallPlan where
  methodName : String
  userParams : List ABIParam
  isStateful : Bool
  parentStateful : Bool
  methodNeedsChange : Bool
  methodNeedsNewAmount : Bool
  methodUsesCodePart : Bool
  contractUtxo : UTXO
  address : String
  changeAddress : String
  sigIndices : List Nat
  prevoutsIndices : List Nat
  preimageIndex : Option Nat
  resolvedArgs : List JsValue
  needsOpPushTx : Bool
  methodSelectorHex : HexText
  methodIndex : Nat
  changePKHHex : HexText
  witnessHex : HexText

/-- The result of `prepareCall`.  `id` is the identity of the object handed out. -/
structure PreparedCall where
  id : Nat
  sighash : HexText
  preimage : HexText
  opPushTxSig : HexText
  tx : Transaction
  plan : CallPlan
  resolvedArgs : List JsValue
  isTerminal : Bool
  methodNeedsNewAmount : Bool
  changeAmount : Int
  newAmount : Int
  newLockingScript : HexText
  newSatoshis : Int
  hasMultiOutput : Bool
  contractOutputs : List ContractOutput
  dryRun : Bool

/-- A null argument resolved: a signature slot, a preimage slot, or a slot for the
outpoints of the inputs. -/
structure ResolvedArgs where
  sigIndices : List Nat
  prevoutsIndices : List Nat
  preimageIndex : Option Nat
  args : List JsValue

/-! ## The checks of a call -/

/-- `'00'.repeat(n)` -/
def zeros (n : Nat) : HexText := List.replicate (2 * n) '0'

def isAutoInjectedWitnessParam (name : String) : Bool :=
  isPrevOutParam name || name = "_serialisedOutputs"

/-- The parameters a caller passes. -/
def userParamsOf (isStateful : Bool) (method : ABIMethod) : List ABIParam :=
  method.params.filter fun p =>
    !isAutoInjectedWitnessParam p.name &&
      !(isStateful && (p.type = .primitive .SigHashPreimage || p.name = "_changePKH" ||
        p.name = "_changeAmount" || p.name = "_newAmount"))

/-- Whether the contract is of the stateful class, mutable fields or not. -/
def isParentStateful (artifact : RunarArtifact) (isStateful : Bool) : Bool :=
  match artifact.parentClass with
  | some parent => parent = "StatefulSmartContract"
  | none => isStateful

/-- Resolve one argument. -/
def resolveArg (signer : Signer) (extraInputs : Nat) (acc : ResolvedArgs)
    (arg : (ABIParam × JsValue) × Nat) : Task ResolvedArgs :=
  let keep (value : JsValue) : ResolvedArgs := { acc with args := acc.args ++ [value] }
  match arg.1.2, arg.1.1.type with
  | .null, .primitive .Sig =>
      pure { keep (.string (zeros 72)) with sigIndices := acc.sigIndices ++ [arg.2] }
  | .null, .primitive .PubKey => do
      let key ← await signer.getPublicKey
      pure (keep (.string key))
  | .null, .primitive .SigHashPreimage =>
      pure { keep (.string (zeros 181)) with preimageIndex := some arg.2 }
  | .null, .primitive .ByteString =>
      if arg.1.1.name ≠ "allPrevouts" then
        throw ("RunarContract.prepareCall: null arg for ByteString param '" ++ arg.1.1.name ++
          "' (index " ++ toString arg.2 ++ "): null is only auto-resolved for " ++
          "Sig (auto-signed), PubKey (taken from the signer), SigHashPreimage, " ++
          "and the 'allPrevouts' outpoint slot. Pass an explicit " ++
          "value (hex string, or '' for an empty ByteString).")
      else
        pure { keep (.string (zeros (36 * (1 + extraInputs + 1)))) with
          prevoutsIndices := acc.prevoutsIndices ++ [arg.2] }
  | value, _ => pure (keep value)

/-- The hash of the key change is paid to. -/
def changePKH (tools : Toolbox) (signer : Signer) (changePubKey : Option HexText) :
    Task HexText := do
  let key ← match changePubKey with
    | some key => pure key
    | none => await signer.getPublicKey
  orThrow (tools.hash160 key)

/-- The checks and the look-ups before a transaction is built. -/
def planCall (tools : Toolbox) (signer : Signer) (contract : RunarContract) (methodName : String)
    (args : List JsValue) (options : CallOptions) : Task CallPlan := do
  let artifact := contract.artifact
  match artifact.methods.find? fun m => m.name = methodName && m.isPublic with
  | none =>
      throw ("RunarContract.prepareCall: method '" ++ methodName ++ "' not found in " ++
        artifact.contractName)
  | some method =>
  let isStateful := decide (artifact.stateFields ≠ [])
  let parentStateful := isParentStateful artifact isStateful
  let methodNeedsChange := method.params.any (·.name = "_changePKH")
  let methodNeedsNewAmount := method.params.any (·.name = "_newAmount")
  let methodUsesCodePart := method.usesCodePart.getD methodNeedsChange
  let userParams := userParamsOf isStateful method
  if userParams.length ≠ args.length then
    throw ("RunarContract.prepareCall: method '" ++ methodName ++ "' expects " ++
      toString userParams.length ++ " args, got " ++ toString args.length)
  match contract.currentUtxo with
  | none =>
      throw ("RunarContract.prepareCall: contract is not deployed. Call deploy() or fromTxId() " ++
        "first.")
  | some contractUtxo =>
  orThrow (assertScriptHexUnderLimit contractUtxo.script maxScriptBytes
    (artifact.contractName ++ ".call(" ++ methodName ++ ")"))
  let address ← await signer.getAddress
  let changeAddress := options.changeAddress.getD address
  let resolved ← (userParams.zip args).zipIdx.foldlM
    (resolveArg signer options.additionalContractInputs.length)
    { sigIndices := [], prevoutsIndices := [], preimageIndex := none, args := [] }
  let needsOpPushTx := resolved.preimageIndex.isSome || isStateful
  let publicMethods := artifact.publicMethods
  let idx := publicMethods.findIdx (·.name = methodName)
  let selected := isStateful && publicMethods.length > 1 && idx < publicMethods.length
  let changePKHHex ←
    if isStateful && methodNeedsChange then changePKH tools signer options.changePubKey
    else pure []
  let witnessHex ← orThrow (buildIntentWitnessHex contract method)
  return { methodName, userParams, isStateful, parentStateful, methodNeedsChange,
           methodNeedsNewAmount, methodUsesCodePart, contractUtxo, address, changeAddress,
           sigIndices := resolved.sigIndices, prevoutsIndices := resolved.prevoutsIndices,
           preimageIndex := resolved.preimageIndex, resolvedArgs := resolved.args, needsOpPushTx,
           methodSelectorHex := if selected then encodeScriptNumber idx else [],
           methodIndex := if selected then idx else 0, changePKHHex, witnessHex }

/-! ## Unlocking scripts -/

/-- The unlocking script with placeholders, for its size. -/
def placeholderUnlock (contract : RunarContract) (plan : CallPlan) (args : List JsValue) :
    Except String HexText := do
  let unlock ← buildUnlockingScript contract.artifact plan.methodName args
  return (if plan.needsOpPushTx then encodePushData (zeros 72) else []) ++ unlock ++
    plan.witnessHex

/-- The unlocking script of a stateful input. -/
def statefulUnlock (contract : RunarContract) (plan : CallPlan) (args : List JsValue)
    (changeAmount newAmount : Int) (needsNewAmount : Bool) (preimage : HexText) : HexText :=
  buildStatefulPrefix contract plan.methodUsesCodePart ++ args.flatMap encodeArg ++
    (if plan.methodNeedsChange ∧ plan.changePKHHex ≠ [] then
      encodePushData plan.changePKHHex ++ encodeArg (.bigint changeAmount) else []) ++
    (if needsNewAmount then encodeArg (.bigint newAmount) else []) ++
    encodePushData preimage ++ plan.witnessHex ++ plan.methodSelectorHex

/-- Put an unlocking script into an input. -/
def setUnlocking (tools : Toolbox) (tx : Transaction) (i : Nat) (unlock : HexText) :
    Except String Transaction := do
  let script ← tools.fromHex unlock
  match tx.inputs[i]? with
  | none => .error "Cannot set properties of undefined (setting 'unlockingScript')"
  | some input =>
      .ok { tx with inputs := tx.inputs.set i { input with unlockingScript := script } }

/-- A transaction with its primary input unlocked. -/
structure Unlocked where
  tx : Transaction
  opPushTxSig : HexText
  preimage : HexText
  resolvedArgs : List JsValue

/-- The primary input of a stateless contract, its signatures left as placeholders. -/
def unlockStateless (tools : Toolbox) (contract : RunarContract) (plan : CallPlan)
    (tx : Transaction) : Except String Unlocked := do
  let opPushTx (tx : Transaction) : Except String (HexText × HexText) :=
    computeOpPushTxWithCodeSep tools contract tx 0 plan.contractUtxo.script
      plan.contractUtxo.satoshis plan.methodIndex
  let unlock (args : List JsValue) : Except String HexText :=
    buildUnlockingScript contract.artifact plan.methodName args
  match plan.preimageIndex with
  | none =>
      if plan.sigIndices = [] then return { tx, opPushTxSig := [], preimage := [], resolvedArgs := plan.resolvedArgs }
      else
        let tx ← setUnlocking tools tx 0 (← unlock plan.resolvedArgs)
        return { tx, opPushTxSig := [], preimage := [], resolvedArgs := plan.resolvedArgs }
  | some preimageIndex =>
      let (sigHex, preimageHex) ← opPushTx tx
      let args := plan.resolvedArgs.set preimageIndex (.string preimageHex)
      let realUnlock ← unlock args
      if sigHex = [] then
        let tx ← setUnlocking tools tx 0 realUnlock
        return { tx, opPushTxSig := sigHex, preimage := preimageHex, resolvedArgs := args }
      else
        let tx ← setUnlocking tools tx 0 (buildStatefulPrefix contract false ++ realUnlock)
        let (finalSig, finalPre) ← opPushTx tx
        let args := args.set preimageIndex (.string finalPre)
        let realUnlock ← unlock args
        let tx ← setUnlocking tools tx 0 (buildStatefulPrefix contract false ++ realUnlock)
        return { tx, opPushTxSig := finalSig, preimage := finalPre, resolvedArgs := args }

/-! ## Terminal calls -/

/-- `resolveInputSequence` -/
def resolveInputSequence (locktime sequence : Option Nat) : Nat :=
  match sequence, locktime with
  | some sequence, _ => sequence
  | none, some (_ + 1) => 0xfffffffe
  | none, _ => 0xffffffff

/-- The transaction of a terminal call: the contract's input, the fee input, and the
outputs as given. -/
def buildTerminalTx (tools : Toolbox) (options : CallOptions) (contractUtxo : UTXO)
    (terminalOutputs : List ContractOutput) (unlock : HexText) : Except String Transaction := do
  let sequence := resolveInputSequence options.locktime options.sequence
  let unlockingScript ← tools.fromHex unlock
  let input : TxInput :=
    { sourceTXID := contractUtxo.txid, sourceOutputIndex := contractUtxo.outputIndex,
      unlockingScript, sequence }
  let feeInputs := options.feeUtxo.toList.map fun (fee : UTXO) =>
    ({ sourceTXID := fee.txid, sourceOutputIndex := fee.outputIndex, unlockingScript := [],
       sequence } : TxInput)
  let outputs ← terminalOutputs.mapM fun out => do
    return { satoshis := out.satoshis, lockingScript := ← tools.fromHex out.script }
  return { version := 1, inputs := input :: feeInputs, outputs, lockTime := options.locktime.getD 0 }

/-- The transaction of a terminal call with its primary input unlocked. -/
def unlockTerminal (tools : Toolbox) (contract : RunarContract) (plan : CallPlan)
    (options : CallOptions) (terminalOutputs : List ContractOutput) : Except String Unlocked := do
  let build := buildTerminalTx tools options plan.contractUtxo terminalOutputs
  let tx ← build (← placeholderUnlock contract plan plan.resolvedArgs)
  if plan.isStateful then
    let unlock (tx : Transaction) : Except String (HexText × HexText × HexText) := do
      let (opSig, preimage) ← computeOpPushTxWithCodeSep tools contract tx 0
        plan.contractUtxo.script plan.contractUtxo.satoshis plan.methodIndex
      return (statefulUnlock contract plan plan.resolvedArgs 0 plan.contractUtxo.satoshis
        plan.methodNeedsNewAmount preimage, opSig, preimage)
    let first ← unlock tx
    let tx ← build first.1
    let second ← unlock tx
    let tx ← setUnlocking tools tx 0 second.1
    return { tx, opPushTxSig := second.2.1, preimage := second.2.2,
             resolvedArgs := plan.resolvedArgs }
  else unlockStateless tools contract plan tx

/-- Sign an input that pays to a public key hash. -/
def signFunding (tools : Toolbox) (fundingSigner : Signer) (tx : Transaction) (i : Nat)
    (utxo : UTXO) : Task Transaction := do
  let sig ← await fun now => fundingSigner.sign now (tools.toHex tx) i utxo.script utxo.satoshis
  let pubKey ← await fundingSigner.getPublicKey
  orThrow (setUnlocking tools tx i (encodePushData sig ++ encodePushData pubKey))

/-- The digest of a preimage, if there is one. -/
def sighashOf (tools : Toolbox) (preimage : HexText) : Except String HexText :=
  if preimage = [] then .ok [] else tools.computeBip143Sighash preimage

/-- A terminal call, prepared.  The fee rate is asked for advice only, and its refusal
ignored. -/
def prepareTerminal (tools : Toolbox) (provider : Provider) (fundingSigner : Signer)
    (contract : RunarContract) (plan : CallPlan) (options : CallOptions)
    (terminalOutputs : List ContractOutput) (id : Nat) : Task PreparedCall := do
  let unlocked ← orThrow (unlockTerminal tools contract plan options terminalOutputs)
  let tx ← match options.feeUtxo with
    | none => pure unlocked.tx
    | some feeUtxo => do
        let tx ← signFunding tools fundingSigner unlocked.tx 1 feeUtxo
        let _ ← awaitOr provider.getFeeRate 0
        pure tx
  let sighash ← orThrow (sighashOf tools unlocked.preimage)
  return { id, sighash, preimage := unlocked.preimage, opPushTxSig := unlocked.opPushTxSig, tx,
           plan, resolvedArgs := unlocked.resolvedArgs, isTerminal := true,
           methodNeedsNewAmount := false, changeAmount := 0, newAmount := 0,
           newLockingScript := [], newSatoshis := 0, hasMultiOutput := false,
           contractOutputs := [], dryRun := options.dryRun }

/-! ## The outputs of a call that goes on -/

/-- What the interpreter predicts, if the artifact has a program and it does not
throw. -/
def interpretCall (tools : Toolbox) (contract : RunarContract) (plan : CallPlan) :
    Option (ExecutionResult × Record) :=
  if plan.isStateful then
    contract.artifact.anf.bind fun anf =>
      let flatState := flattenFixedArrayState contract.state contract.artifact.stateFields
      let flatCtorArgs :=
        flattenFixedArrayArgs contract.constructorArgs contract.artifact.constructorParams
      (tools.computeNewStateAndDataOutputs anf plan.methodName flatState
        (buildNamedArgs plan.userParams plan.resolvedArgs) flatCtorArgs).toOption.map
          fun result => (result, flatState)
  else none

/-- The state that is stored before the continuation is built: the caller's new state,
or else the computed one.  With several outputs none is stored. -/
def stateToStore (tools : Toolbox) (contract : RunarContract) (plan : CallPlan)
    (options : CallOptions) : Option Record :=
  if plan.isStateful ∧ options.outputs = [] then
    match options.newState with
    | some newState => some (contract.state.spread newState)
    | none =>
        if plan.methodNeedsChange then
          (interpretCall tools contract plan).map fun computed =>
            contract.state.spread
              (regroupFixedArrayState (computed.2.spread computed.1.state)
                contract.artifact.stateFields)
        else none
  else none

/-- The outputs of the contract in the transaction to build. -/
structure Continuation where
  newLockingScript : Option HexText
  newSatoshis : Option Int
  contractOutputs : Option (List ContractOutput)
  dataOutputs : List ContractOutput

/-- The single continuation: its script from the object's state, its amount from the
options, the interpreter or the spent output. -/
def singleContinuation (tools : Toolbox) (contract : RunarContract) (plan : CallPlan)
    (options : CallOptions) (ordered : List OrderedOutputEntry) :
    Except String (Option HexText × Option Int) := do
  let explicit := match ordered with
    | [entry] => if entry.isRaw then none else some entry.satoshis
    | _ => none
  let newSatoshis :=
    (options.satoshis.or explicit).getD plan.contractUtxo.satoshis
  let newLockingScript ← getLockingScript tools contract
  assertScriptHexUnderLimit newLockingScript maxScriptBytes
    (contract.artifact.contractName ++ ".call(" ++ plan.methodName ++ ").continuation")
  return (some newLockingScript, some newSatoshis)

/-- The outputs of a method that also emits raw ones, in source order. -/
def interleaveRaw (plan : CallPlan) (options : CallOptions) (ordered : List OrderedOutputEntry)
    (newLockingScript : Option HexText) (newSatoshis : Option Int) :
    Except String (Option (List ContractOutput) × Option Int) :=
  let stateEntries := ordered.filter (!·.isRaw)
  if options.outputs ≠ [] ∨ stateEntries.length ≥ 2 ∨
      (stateEntries.length = 1 ∧ newLockingScript.getD [] = []) then
    .error ("RunarContract.call('" ++ plan.methodName ++
      "'): cannot build a transaction that interleaves raw outputs with " ++
      toString stateEntries.length ++ " state continuations; the SDK currently " ++
      "supports raw outputs alongside a single state continuation only (finding G1).")
  else
    .ok (some (ordered.map fun o =>
        { script := if o.isRaw then o.script else newLockingScript.getD [],
          satoshis := o.satoshis }),
      match stateEntries with
      | [entry] => some entry.satoshis
      | _ => newSatoshis)

/-- The contract outputs, from the object as it is after the new state was stored;
`computed` is the interpreter's result from before. -/
def buildContinuation (tools : Toolbox) (contract : RunarContract) (plan : CallPlan)
    (options : CallOptions) (computed : Option (ExecutionResult × Record)) :
    Except String Continuation := do
  let ordered := (computed.map (·.1.outputs)).getD []
  let given := options.dataOutputs.getD []
  let dataOutputs := if given = [] then (computed.map (·.1.dataOutputs)).getD [] else given
  if plan.isStateful then
    let (newLockingScript, newSatoshis, contractOutputs) ←
      if options.outputs ≠ [] then do
        let codeScript := contract.codeScript.getD
          (buildCodeScript contract.artifact contract.constructorArgs)
        let outputs ← options.outputs.mapM fun out => do
          let stateHex ← tools.serializeState contract.artifact.stateFields out.2
          return { script := codeScript ++ ['6', 'a'] ++ stateHex, satoshis := out.1.getD 1 }
        pure (none, none, some outputs)
      else do
        let single ← singleContinuation tools contract plan options ordered
        pure (single.1, single.2, none)
    if ordered.any (·.isRaw) then
      let interleaved ← interleaveRaw plan options ordered newLockingScript newSatoshis
      return { newLockingScript, newSatoshis := interleaved.2, contractOutputs := interleaved.1,
               dataOutputs }
    else return { newLockingScript, newSatoshis, contractOutputs, dataOutputs }
  else return { newLockingScript := none, newSatoshis := none, contractOutputs := none, dataOutputs }

/-! ## Funding -/

/-- The bytes of the length of a script of this many bytes. -/
def varIntByteSize (len : Nat) : Nat :=
  if len < 0xfd then 1 else if len ≤ 0xffff then 3 else if len ≤ 0xffffffff then 5 else 9

def perInputBytes (unlockHex : HexText) : Nat :=
  32 + 4 + varIntByteSize (unlockHex.length / 2) + unlockHex.length / 2 + 4

def outputFraming (byteLen : Nat) : Nat := 8 + varIntByteSize byteLen + byteLen

/-- The arguments of an extra input, its null arguments filled in. -/
def resolvePerInputArgs (plan : CallPlan) (options : CallOptions) (inputArgs : List JsValue) :
    List JsValue :=
  inputArgs.zipIdx.map fun arg =>
    match arg.1, (plan.userParams[arg.2]?).map (·.type) with
    | .null, some (.primitive .Sig) => .string (zeros 72)
    | .null, some (.primitive .PubKey) =>
        argAt plan.resolvedArgs (plan.userParams.findIdx (·.type = .primitive .PubKey))
    | .null, some (.primitive .ByteString) =>
        .string (zeros (36 * (1 + options.additionalContractInputs.length + 1)))
    | value, _ => value

/-- The resolved arguments of the extra input `i`, if some were given. -/
def extraArgs? (plan : CallPlan) (options : CallOptions) (i : Nat) : Option (List JsValue) :=
  (options.additionalContractInputArgs.bind (·[i]?)).map (resolvePerInputArgs plan options)

/-- The coins that pay for a call. -/
def selectFunding (tools : Toolbox) (plan : CallPlan) (options : CallOptions)
    (continuation : Continuation) (feeRate : Nat) (candidates : List UTXO)
    (unlockingScript : HexText) (extraUnlocks : List HexText) : Except String (List UTXO) :=
  let sumSats (outputs : List ContractOutput) : Int := (outputs.map (·.satoshis)).sum
  let contractOutputSats :=
    (match continuation.contractOutputs with
      | some outputs => sumSats outputs
      | none => continuation.newSatoshis.getD 0) + sumSats continuation.dataOutputs
  let contractInputSats := plan.contractUtxo.satoshis +
    (options.additionalContractInputs.map (·.satoshis)).sum
  let fundingTarget := max 0 (contractOutputSats - contractInputSats)
  let fundingLockLen :=
    (match continuation.newLockingScript with
      | some script => script.length
      | none => ((continuation.contractOutputs.bind List.head?).map (·.script.length)).getD 0) / 2
  let numContractInputs := 1 + options.additionalContractInputs.length
  let contractInputBytes := perInputBytes unlockingScript + (extraUnlocks.map perInputBytes).sum +
    numContractInputs * (2 * fundingLockLen + 512)
  let outputLens :=
    (match continuation.contractOutputs with
      | some outputs => outputs.map (·.script.length / 2)
      | none => continuation.newLockingScript.toList.map (·.length / 2)) ++
    continuation.dataOutputs.map (·.script.length / 2)
  let extraOutputBytes := (outputLens.map outputFraming).sum - outputFraming fundingLockLen
  let additionalUtxos :=
    if candidates = [] then []
    else
      tools.selectUtxos candidates fundingTarget fundingLockLen feeRate contractInputBytes
        extraOutputBytes
  match options.maxFundingInputs with
  | some limit =>
      if additionalUtxos.length > limit then
        .error ("RunarContract.call(" ++ plan.methodName ++ "): funding requires " ++
          toString additionalUtxos.length ++ " input(s) but maxFundingInputs=" ++ toString limit ++
          ". Increase maxFundingInputs, use larger UTXOs, or consolidate.")
      else .ok additionalUtxos
  | none => .ok additionalUtxos

/-- Sign the funding inputs, which start at an index. -/
def signFundings (tools : Toolbox) (fundingSigner : Signer) (start inputCount : Nat)
    (utxos : List UTXO) (tx : Transaction) : Task Transaction :=
  (utxos.zipIdx start).foldlM (fun tx coin =>
    if coin.2 < inputCount then signFunding tools fundingSigner tx coin.2 coin.1 else pure tx) tx

/-- A text of bytes, its bytes reversed. -/
def reverseBytes : HexText → HexText
  | high :: low :: rest => reverseBytes rest ++ [high, low]
  | _ => []

/-- The outpoints of the inputs, as the preimage hashes them. -/
def allPrevouts (tx : Transaction) : HexText :=
  tx.inputs.flatMap fun input =>
    reverseBytes input.sourceTXID.toList ++
      reverseBytes (padStart 8 '0' (Nat.toDigits 16 input.sourceOutputIndex))

/-- Put a value at each of some indices. -/
def setAll (args : List JsValue) (indices : List Nat) (value : JsValue) : List JsValue :=
  indices.foldl (fun args i => args.set i value) args

/-- The unlocking script of one stateful input.  Extra inputs are signed, the primary
one keeps its placeholders. -/
def buildStatefulUnlock (tools : Toolbox) (signer : Signer) (contract : RunarContract)
    (plan : CallPlan) (newAmount : Int) (tx : Transaction) (inputIdx : Nat) (utxo : UTXO)
    (baseArgs : List JsValue) (changeAmount : Int) : Task (HexText × HexText × HexText) := do
  let (opSig, preimage) ← orThrow (computeOpPushTxWithCodeSep tools contract tx inputIdx
    utxo.script utxo.satoshis plan.methodIndex)
  let subscript := getSubscriptForSigning contract utxo.script plan.methodIndex
  let inputArgs ←
    if inputIdx > 0 then
      plan.sigIndices.foldlM (fun args i => do
        let sig ← await fun now =>
          signer.sign now (tools.toHex tx) inputIdx subscript utxo.satoshis
        pure (args.set i (.string sig))) baseArgs
    else pure baseArgs
  let inputArgs := setAll inputArgs plan.prevoutsIndices (.string (allPrevouts tx))
  return (statefulUnlock contract plan inputArgs changeAmount newAmount plan.methodNeedsNewAmount
    preimage, opSig, preimage)

/-- A call transaction with its inputs unlocked. -/
structure Assembled extends Unlocked where
  changeAmount : Int

/-- The transaction of a stateful call: unlocked once to learn the sizes, built again,
and unlocked against the final transaction. -/
def assembleStateful (tools : Toolbox) (signer fundingSigner : Signer) (contract : RunarContract)
    (plan : CallPlan) (options : CallOptions) (newAmount : Int) (request : CallTxRequest)
    (funding : List UTXO) (draft : CallTx) : Task Assembled := do
  let extras := options.additionalContractInputs.zipIdx
  let unlock (tx : Transaction) (changeAmount : Int) (i : Nat) (utxo : UTXO)
      (args : List JsValue) : Task (HexText × HexText × HexText) :=
    buildStatefulUnlock tools signer contract plan newAmount tx i utxo args changeAmount
  let argsOf (i : Nat) : List JsValue := (extraArgs? plan options i).getD plan.resolvedArgs
  let first ← unlock draft.tx draft.changeAmount 0 plan.contractUtxo plan.resolvedArgs
  let extraUnlocks ← extras.mapM fun extra => do
    let unlocked ← unlock draft.tx draft.changeAmount (extra.2 + 1) extra.1 (argsOf extra.2)
    pure (extra.1, unlocked.1)
  let built ← orThrow (tools.buildCallTransaction
    { request with unlockingScript := first.1, additionalContractInputs := extraUnlocks })
  let final ← unlock built.tx built.changeAmount 0 plan.contractUtxo plan.resolvedArgs
  let tx ← orThrow (setUnlocking tools built.tx 0 final.1)
  let tx ← extras.foldlM (fun tx extra => do
    let unlocked ← unlock tx built.changeAmount (extra.2 + 1) extra.1 (argsOf extra.2)
    orThrow (setUnlocking tools tx (extra.2 + 1) unlocked.1)) tx
  let tx ← signFundings tools fundingSigner (1 + extras.length) built.inputCount funding tx
  return { tx, opPushTxSig := final.2.1, preimage := final.2.2,
           resolvedArgs := setAll plan.resolvedArgs plan.prevoutsIndices (.string (allPrevouts tx)),
           changeAmount := built.changeAmount }

/-- Fund, build and sign a call that goes on, from the object as it is after the new
state was stored. -/
def completeCall (tools : Toolbox) (provider : Provider) (signer fundingSigner : Signer)
    (contract : RunarContract) (plan : CallPlan) (options : CallOptions)
    (computed : Option (ExecutionResult × Record)) (unlockingScript : HexText) (id : Nat) :
    Task PreparedCall := do
  let continuation ← orThrow (buildContinuation tools contract plan options computed)
  let feeRate ← await provider.getFeeRate
  let changeScript ← orThrow (tools.buildP2PKHScript plan.changeAddress)
  let allFundingUtxos ← await fun now => provider.getUtxos now plan.address
  let candidates := allFundingUtxos.filter fun u =>
    !(u.txid = plan.contractUtxo.txid && u.outputIndex = plan.contractUtxo.outputIndex)
  let extras := options.additionalContractInputs.zipIdx
  let extraUnlocks ← extras.mapM fun extra => do
    let unlock ← orThrow (buildUnlockingScript contract.artifact plan.methodName
      ((extraArgs? plan options extra.2).getD plan.resolvedArgs))
    pure (encodePushData (zeros 72) ++ unlock ++ plan.witnessHex)
  let funding ← orThrow (selectFunding tools plan options continuation feeRate candidates
    unlockingScript extraUnlocks)
  let request : CallTxRequest :=
    { currentUtxo := plan.contractUtxo, unlockingScript,
      newLockingScript := continuation.newLockingScript,
      newSatoshis := continuation.newSatoshis, changeAddress := plan.changeAddress, changeScript,
      additionalUtxos := funding, feeRate, contractOutputs := continuation.contractOutputs,
      additionalContractInputs := options.additionalContractInputs.zip extraUnlocks,
      dataOutputs := continuation.dataOutputs, locktime := options.locktime,
      sequence := options.sequence }
  let draft ← orThrow (tools.buildCallTransaction request)
  let tx ← signFundings tools fundingSigner (1 + extras.length) draft.inputCount funding draft.tx
  let newAmount := continuation.newSatoshis.getD plan.contractUtxo.satoshis
  let assembled ←
    if plan.isStateful then
      assembleStateful tools signer fundingSigner contract plan options newAmount request funding
        { draft with tx }
    else do
      let unlocked ← orThrow (unlockStateless tools contract plan tx)
      pure { unlocked with changeAmount := draft.changeAmount }
  let sighash ← orThrow (sighashOf tools assembled.preimage)
  return { id, sighash, preimage := assembled.preimage, opPushTxSig := assembled.opPushTxSig,
           tx := assembled.tx, plan, resolvedArgs := assembled.resolvedArgs, isTerminal := false,
           methodNeedsNewAmount := plan.methodNeedsNewAmount,
           changeAmount := assembled.changeAmount, newAmount,
           newLockingScript := continuation.newLockingScript.getD [],
           newSatoshis := continuation.newSatoshis.getD 0,
           hasMultiOutput := decide (options.outputs ≠ []),
           contractOutputs := continuation.contractOutputs.getD [], dryRun := options.dryRun }

/-! ## The methods of the object -/

variable (tools : Toolbox) (outside : Outside)

/-- The connected provider and signer. -/
def resolveProviderSigner : Session (Nat × Nat) := do
  let contract ← self
  match contract.provider, contract.signer with
  | some provider, some signer => pure (provider, signer)
  | _, _ => throw "No provider/signer available. Call connect() or pass them explicitly."

/-- Prepare a call.  The new state is stored before the continuation is built. -/
def prepareCall (methodName : String) (args : List JsValue) (options : CallOptions) :
    Session PreparedCall := do
  let (providerRef, signerRef) ← resolveProviderSigner
  let provider := outside.provider providerRef
  let signer := outside.signer signerRef
  let fundingSigner := outside.signer (options.fundingSigner.getD signerRef)
  let contract ← self
  let plan ← perform (planCall tools signer contract methodName args options)
  let world ← get
  match options.terminalOutputs with
  | some terminalOutputs =>
      let prepared ← perform (prepareTerminal tools provider fundingSigner contract plan options
        terminalOutputs world.prepared)
      modify fun w => { w with prepared := w.prepared + 1 }
      return prepared
  | none =>
      let unlockingScript ← perform (orThrow (placeholderUnlock contract plan plan.resolvedArgs))
      let computed := interpretCall tools contract plan
      storeState (stateToStore tools contract plan options)
      let contract ← self
      let prepared ← perform (completeCall tools provider signer fundingSigner contract plan options
        computed unlockingScript world.prepared)
      modify fun w => { w with prepared := w.prepared + 1 }
      return prepared

/-- The unlocking script of a prepared call with its signatures. -/
def finalUnlock (contract : RunarContract) (prepared : PreparedCall)
    (signatures : List (Nat × HexText)) : Except String HexText := do
  let plan := prepared.plan
  let args := plan.sigIndices.foldl (fun args i =>
    match signatures.lookup i with
    | some sig => args.set i (.string sig)
    | none => args) prepared.resolvedArgs
  if plan.isStateful then
    return statefulUnlock contract plan args prepared.changeAmount prepared.newAmount
      prepared.methodNeedsNewAmount prepared.preimage
  else if plan.needsOpPushTx then
    let args := match plan.preimageIndex with
      | some i => args.set i (.string prepared.preimage)
      | none => args
    let unlock ← buildUnlockingScript contract.artifact plan.methodName args
    return buildStatefulPrefix contract false ++ unlock
  else buildUnlockingScript contract.artifact plan.methodName args

/-- The output the object tracks after a call. -/
def nextUtxo (prepared : PreparedCall) (txid : String) : Option UTXO :=
  let plan := prepared.plan
  match prepared.contractOutputs with
  | first :: rest =>
      if plan.isStateful ∧ prepared.hasMultiOutput then
        some { txid, outputIndex := 0, satoshis := first.satoshis, script := first.script }
      else if plan.isStateful ∧ prepared.newLockingScript ≠ [] then
        let contIdx := (first :: rest).findIdx (·.script = prepared.newLockingScript)
        match (first :: rest)[contIdx]? with
        | some out =>
            some { txid, outputIndex := contIdx, satoshis := out.satoshis,
                   script := prepared.newLockingScript }
        | none =>
            some { txid, outputIndex := 0,
                   satoshis := if prepared.newSatoshis = 0 then plan.contractUtxo.satoshis
                     else prepared.newSatoshis,
                   script := prepared.newLockingScript }
      else none
  | [] =>
      if plan.isStateful ∧ prepared.newLockingScript ≠ [] then
        some { txid, outputIndex := 0,
               satoshis := if prepared.newSatoshis = 0 then plan.contractUtxo.satoshis
                 else prepared.newSatoshis,
               script := prepared.newLockingScript }
      else none

/-- The local check of the primary input, when it was asked for. -/
def dryRun (prepared : PreparedCall) (tx : Transaction) : Except String Unit :=
  if prepared.dryRun then
    match tools.dryRunContractInput tx 0 prepared.plan.contractUtxo.script
        prepared.plan.contractUtxo.satoshis with
    | none => .ok ()
    | some error =>
        .error ("RunarContract.finalizeCall: local pre-broadcast dry-run rejected the primary " ++
          "contract input (deep-review C8)" ++
          (if error = "" then " (script evaluated to false)" else ": " ++ error) ++
          ". Refusing to broadcast a tx the network would reject. Omit " ++
          "\x7b dryRun: true \x7d in CallOptions to bypass (see PreparedCall docs).")
  else .ok ()

/-- Finalize a prepared call: sign, check, broadcast, and track the new output. -/
def finalizeCall (prepared : PreparedCall) (signatures : List (Nat × HexText)) :
    Session (String × TransactionData) := do
  let world ← get
  if prepared.id ∈ world.consumed then
    throw ("RunarContract.finalizeCall: this PreparedCall has already been finalized " ++
      "(deep-review C29). A PreparedCall is one-shot — call prepareCall() again to build a " ++
      "fresh one.")
  modify fun w => { w with consumed := prepared.id :: w.consumed }
  let (providerRef, _) ← resolveProviderSigner
  let provider := outside.provider providerRef
  let contract ← self
  let finalTx ← perform (orThrow do
    setUnlocking tools prepared.tx 0 (← finalUnlock contract prepared signatures))
  perform (orThrow (dryRun tools prepared finalTx))
  let txid ← perform (await fun now => provider.broadcast now finalTx)
  setCurrentUtxo (nextUtxo prepared txid)
  let txData ← perform (awaitOr (fun now => provider.getTransaction now txid)
    (txToTransactionData tools txid finalTx))
  return (txid, txData)

/-- Sign the slots of a prepared call with the connected signer. -/
def signSlots (signer : Signer) (contract : RunarContract) (methodName : String)
    (prepared : PreparedCall) : Task (List (Nat × HexText)) := do
  let plan := prepared.plan
  let publicMethods := contract.artifact.publicMethods
  let idx := publicMethods.findIdx (·.name = methodName)
  let mIdx := if plan.parentStateful ∧ publicMethods.length > 1 ∧ idx < publicMethods.length
    then idx else 0
  let sigSubscript := if plan.parentStateful
    then getSubscriptForSigning contract plan.contractUtxo.script mIdx
    else plan.contractUtxo.script
  plan.sigIndices.mapM fun i => do
    let sig ← await fun now => signer.sign now (tools.toHex prepared.tx) 0 sigSubscript
      plan.contractUtxo.satoshis
    pure (i, sig)

/-- The signatures of the connected signer. -/
def slotSignatures (methodName : String) (prepared : PreparedCall) :
    Session (List (Nat × HexText)) := do
  let contract ← self
  match contract.signer with
  | some signer => perform (signSlots tools (outside.signer signer) contract methodName prepared)
  | none => throw "Cannot read properties of null (reading 'sign')"

/-- A call by the connected provider and signer. -/
def callConnected (methodName : String) (args : List JsValue) (options : CallOptions) :
    Session (String × TransactionData) := do
  let prepared ← prepareCall tools outside methodName args options
  let signatures ← slotSignatures tools outside methodName prepared
  finalizeCall tools outside prepared signatures

/-- Whose provider and signer a call uses. -/
inductive CallTarget where
  | connected (options : CallOptions)
  | explicit (provider signer : Nat) (options : CallOptions)
  /-- A provider without a signer: the options are not passed on. -/
  | providerOnly (provider : Nat)

/-- Connect others for the time of a computation. -/
def connectedAs {α : Type} (provider signer : Option Nat) (m : Session α) : Session α := do
  let contract ← self
  modify fun w => { w with contract := { w.contract with provider, signer } }
  Attempt.withFinally m fun w =>
    { w with contract := { w.contract with provider := contract.provider,
                                           signer := contract.signer } }

/-- Call a public method. -/
def call (methodName : String) (args : List JsValue) (target : CallTarget) :
    Session (String × TransactionData) := do
  match target with
  | .connected options => callConnected tools outside methodName args options
  | .explicit provider signer options =>
      connectedAs (some provider) (some signer)
        (callConnected tools outside methodName args options)
  | .providerOnly provider => do
      let contract ← self
      connectedAs (some provider) contract.signer
        (callConnected tools outside methodName args CallOptions.none)

/-! ## Deployment -/

/-- The transaction of a deployment, signed. -/
def signDeploy (provider : Provider) (signer fundingSigner : Signer) (contract : RunarContract)
    (options : DeployOptions) : Task (Transaction × HexText × Int) := do
  let address ← await signer.getAddress
  let changeAddress := options.changeAddress.getD address
  let deploySatoshis := options.satoshis.getD 1
  let lockingScript ← orThrow (getLockingScript tools contract)
  orThrow (assertScriptHexUnderLimit lockingScript maxScriptBytes
    (contract.artifact.contractName ++ ".deploy"))
  let feeRate ← await provider.getFeeRate
  let allUtxos ← await fun now => provider.getUtxos now address
  if allUtxos = [] then
    throw ("RunarContract.deploy: no UTXOs found for address " ++ address)
  let utxos := tools.selectUtxos allUtxos deploySatoshis (lockingScript.length / 2) feeRate 0 0
  let changeScript ← orThrow (tools.buildP2PKHScript changeAddress)
  let (tx, inputCount) ← orThrow (tools.buildDeployTransaction lockingScript utxos deploySatoshis
    changeAddress changeScript feeRate)
  let unsignedHex := tools.toHex tx
  let tx ← (utxos.zipIdx.take inputCount).foldlM (fun tx coin => do
    let sig ← await fun now =>
      fundingSigner.sign now unsignedHex coin.2 coin.1.script coin.1.satoshis
    let pubKey ← await fundingSigner.getPublicKey
    orThrow (setUnlocking tools tx coin.2 (encodePushData sig ++ encodePushData pubKey))) tx
  return (tx, lockingScript, deploySatoshis)

/-- How `deploy` is called. -/
inductive DeployTarget where
  | connected (options : DeployOptions)
  | explicit (provider signer : Nat) (options : DeployOptions)
  | invalid

/-- The provider, the signer and the options of a deployment. -/
def resolveTarget : DeployTarget → Session (Nat × Nat × DeployOptions)
  | .explicit provider signer options => pure (provider, signer, options)
  | .connected options => do
      let resolved ← resolveProviderSigner
      pure (resolved.1, resolved.2, options)
  | .invalid =>
      throw ("RunarContract.deploy: invalid arguments. Pass (options) or (provider, signer, " ++
        "options).")

/-- Deploy the contract and track its output. -/
def deploy (target : DeployTarget) : Session (String × TransactionData) := do
  let (providerRef, signerRef, options) ← resolveTarget target
  let provider := outside.provider providerRef
  let contract ← self
  let (tx, lockingScript, satoshis) ← perform (signDeploy tools provider (outside.signer signerRef)
    (outside.signer (options.fundingSigner.getD signerRef)) contract options)
  let txid ← perform (await fun now => provider.broadcast now tx)
  setCurrentUtxo (some { txid, outputIndex := 0, satoshis, script := lockingScript })
  let txData ← perform (awaitOr (fun now => provider.getTransaction now txid)
    (txToTransactionData tools txid tx))
  return (txid, txData)

/-- Where a wallet put the contract's output, and its amount. -/
def locateOutput (lockingScript : HexText) (satoshis : Int)
    (result : Option String × Option HexText) : Nat × Int :=
  match result.2.map tools.outputsOfBeef with
  | some (.ok outputs) =>
      let outputIndex := outputs.findIdx (·.1 = some lockingScript)
      match outputs[outputIndex]? with
      | some out => (outputIndex, out.2.getD satoshis)
      | none => (0, satoshis)
  | _ => (0, satoshis)

/-- Deploy by a wallet, which makes the transaction itself. -/
def deployWithWallet (satoshis : Option Int) (description : Option String) :
    Session (String × Nat) := do
  let contract ← self
  match contract.provider.bind outside.wallet with
  | none =>
      throw ("deployWithWallet requires a connected WalletProvider. Call " ++
        "connect(walletProvider, signer) first.")
  | some wallet =>
      let lockingScript ← perform (orThrow (getLockingScript tools contract))
      let satoshis := satoshis.getD 1
      perform (orThrow (assertScriptHexUnderLimit lockingScript maxScriptBytes
        (contract.artifact.contractName ++ ".deployWithWallet")))
      let result ← perform (await fun now => wallet.createAction now lockingScript satoshis
        (description.getD "Runar contract deployment"))
      let txid := result.1.getD ""
      let located := locateOutput tools lockingScript satoshis result
      setCurrentUtxo (some { txid, outputIndex := located.1, satoshis := located.2,
                             script := lockingScript })
      return (txid, located.1)

end Runar.Sdk
