/-
  Sdk/Assembly.lean --- what the SDK asks of the world and assembles for a transaction.

  WHAT THIS FILE IS FOR.  Deploying and calling a contract means asking a provider and
  a signer, who may refuse, and assembling scripts that the object's methods build.
  This file has the requests, the transactions, and the methods that read the object
  without changing it.

  CODE OF OTHER FILES.  `Toolbox` holds the functions of the SDK's other files and of
  the transaction library: each takes values and returns one or throws, and none holds
  the contract object.
-/
import Runar.Sdk.Contract
import Runar.Logic.Atomic

set_option autoImplicit false

namespace Runar.Sdk

open Script Artifact Logic

/-! ## Transactions -/

structure TxInput where
  sourceTXID : String
  sourceOutputIndex : Nat
  unlockingScript : HexText
  sequence : Nat

structure TxOutput where
  satoshis : Int
  lockingScript : HexText

structure Transaction where
  version : Nat
  inputs : List TxInput
  outputs : List TxOutput
  lockTime : Nat

/-- A transaction as a provider reports it. -/
structure TransactionData where
  txid : String
  version : Nat
  inputs : List TxInput
  outputs : List TxOutput
  locktime : Nat
  raw : HexText

/-- A script and its amount. -/
structure ContractOutput where
  script : HexText
  satoshis : Int

/-- A state or raw output, in source order. -/
structure OrderedOutputEntry where
  isRaw : Bool
  satoshis : Int
  script : HexText

/-- What the interpreter computes for a call. -/
structure ExecutionResult where
  state : Record
  dataOutputs : List ContractOutput
  outputs : List OrderedOutputEntry

/-- What a call transaction is built from. -/
structure CallTxRequest where
  currentUtxo : UTXO
  unlockingScript : HexText
  newLockingScript : Option HexText
  newSatoshis : Option Int
  changeAddress : String
  changeScript : HexText
  additionalUtxos : List UTXO
  feeRate : Nat
  contractOutputs : Option (List ContractOutput)
  additionalContractInputs : List (UTXO × HexText)
  dataOutputs : List ContractOutput
  locktime : Option Nat
  sequence : Option Nat

structure CallTx where
  tx : Transaction
  inputCount : Nat
  changeAmount : Int

/-! ## Code of other files -/

/-- The functions of other files. -/
structure Toolbox where
  serializeState : List InitialField → Record → Except String HexText
  computeNewStateAndDataOutputs :
    ANFProgram → String → Record → Record → List JsValue → Except String ExecutionResult
  /-- `LockingScript.fromHex` and `UnlockingScript.fromHex` -/
  fromHex : HexText → Except String HexText
  toHex : Transaction → HexText
  hash160 : HexText → Except String HexText
  computeBip143Sighash : HexText → Except String HexText
  buildP2PKHScript : String → Except String HexText
  selectUtxos : List UTXO → Int → Nat → Nat → Nat → Nat → List UTXO
  buildDeployTransaction :
    HexText → List UTXO → Int → String → HexText → Nat → Except String (Transaction × Nat)
  buildCallTransaction : CallTxRequest → Except String CallTx
  /-- The signature and the preimage of an input, from the separator's offset and the
  sighash type. -/
  computeOpPushTx :
    Transaction → Nat → HexText → Int → Option Int → Nat → Except String (HexText × HexText)
  /-- `none` when the script interpreter accepts the input. -/
  dryRunContractInput : Transaction → Nat → HexText → Int → Option String
  /-- The scripts and amounts of the outputs of a wallet's transaction. -/
  outputsOfBeef : HexText → Except String (List (Option HexText × Option Int))

/-- The transaction as the SDK itself reports it. -/
def txToTransactionData (tools : Toolbox) (txid : String) (tx : Transaction) : TransactionData :=
  { txid, version := tx.version, inputs := tx.inputs, outputs := tx.outputs,
    locktime := tx.lockTime, raw := tools.toHex tx }

/-! ## Providers and signers -/

/-- What a provider answers, by the number of requests made before. -/
structure Provider where
  getFeeRate : Nat → Except String Nat
  getUtxos : Nat → String → Except String (List UTXO)
  broadcast : Nat → Transaction → Except String String
  getTransaction : Nat → String → Except String TransactionData

/-- What a signer answers, by the number of requests made before. -/
structure Signer where
  getAddress : Nat → Except String String
  getPublicKey : Nat → Except String HexText
  sign : Nat → HexText → Nat → HexText → Int → Except String HexText

/-- What a wallet answers to `createAction`: a transaction id and a transaction, either
of which may be missing. -/
structure Wallet where
  createAction : Nat → HexText → Int → String → Except String (Option String × Option HexText)

/-- The providers and signers behind the references.  A provider may be a wallet. -/
structure Outside where
  provider : Nat → Provider
  wallet : Nat → Option Wallet
  signer : Nat → Signer

/-- Work that cannot touch the contract object: it counts its requests, and may throw. -/
abbrev Task (α : Type) : Type := Attempt Nat String α

/-- A request. -/
def await {α : Type} (answer : Nat → Except String α) : Task α := fun now => (answer now, now + 1)

/-- A computation that may throw. -/
def orThrow {α : Type} (result : Except String α) : Task α := fun now => (result, now)

/-- A request whose refusal is replaced by a value. -/
def awaitOr {α : Type} (answer : Nat → Except String α) (fallback : α) : Task α := fun now =>
  (.ok ((answer now).toOption.getD fallback), now + 1)

/-! ## Limits and witnesses -/

/-- `InputLimits.MAX_SCRIPT_BYTES` -/
def maxScriptBytes : Nat := 4 * 1024 * 1024

def assertScriptHexUnderLimit (scriptHex : HexText) (limit : Nat) (context : String) :
    Except String Unit :=
  let actualBytes := (scriptHex.length + 1) / 2
  if actualBytes > limit then
    .error ("script exceeds MAX_SCRIPT_BYTES (limit=" ++ toString limit ++ ", actual=" ++
      toString actualBytes ++ ", context=" ++ context ++ ")")
  else .ok ()

def witnessMissing (paramName contractName methodName : String) : String :=
  "witness value missing for auto-injected param '" ++ paramName ++ "' on " ++ contractName ++
    "." ++ methodName ++
    " — call setPrevOutScript(i, bytes) or setSerialisedOutputs(bytes) before invoking the method"

/-- `name.startsWith('_prevOutScript_')` -/
def isPrevOutParam (name : String) : Bool := "_prevOutScript_".toList.isPrefixOf name.toList

/-- The index in the name of a witness parameter. -/
def prevOutIndex? (name : String) : Option (Option Nat) :=
  if isPrevOutParam name then
    some (String.ofList (name.toList.drop "_prevOutScript_".length)).toNat?
  else none

/-- The pushes of the witness values of a method, in the order of its parameters. -/
def buildIntentWitnessHex (self : RunarContract) (method : ABIMethod) : Except String HexText :=
  method.params.foldlM (fun hex p =>
    let missing := witnessMissing p.name self.artifact.contractName method.name
    match prevOutIndex? p.name with
    | some idx =>
        match idx.bind fun i => self.prevOutScripts.lookup i with
        | some val => .ok (hex ++ encodePushData val)
        | none => .error missing
    | none =>
        if p.name = "_serialisedOutputs" then
          match self.serialisedOutputs with
          | some val => .ok (hex ++ encodePushData val)
          | none => .error missing
        else .ok hex) []

/-! ## Scripts of the object -/

/-- The envelope of an inscription.  Its pushes are framed as those of the state: no byte
has an opcode of its own. -/
def buildInscriptionEnvelope (inscription : Inscription) : HexText :=
  "0063036f726451".toList ++ encodeText inscription.contentType ++ ['0', '0'] ++
    encodeText inscription.data ++ ['6', '8']

/-- The envelope of the object, if it has one. -/
def envelopeOf (self : RunarContract) : HexText :=
  (self.inscription.map buildInscriptionEnvelope).getD []

/-- The locking script: the code, the envelope unless the code came from the chain with
it, and the state behind an `OP_RETURN`. -/
def getLockingScript (tools : Toolbox) (self : RunarContract) : Except String HexText := do
  let script :=
    match self.codeScript with
    | some code => code
    | none => buildCodeScript self.artifact self.constructorArgs ++ envelopeOf self
  if self.artifact.stateFields = [] then .ok script
  else
    let stateHex ← tools.serializeState self.artifact.stateFields self.state
    .ok (if stateHex = [] then script else script ++ ['6', 'a'] ++ stateHex)

/-- The code with its envelope. -/
def getCodePartHex (self : RunarContract) : HexText :=
  match self.codeScript with
  | some (c :: code) => c :: code
  | _ => buildCodeScript self.artifact self.constructorArgs ++ envelopeOf self

/-- The arguments and, among several public methods, the selector. -/
def buildUnlockingScript (artifact : RunarArtifact) (methodName : String) (args : List JsValue) :
    Except String HexText :=
  let script := args.flatMap encodeArg
  let publicMethods := artifact.publicMethods
  if publicMethods.length > 1 then
    let methodIndex := publicMethods.findIdx (·.name = methodName)
    if methodIndex < publicMethods.length then
      .ok (script ++ encodeScriptNumber methodIndex)
    else .error ("buildUnlockingScript: public method '" ++ methodName ++ "' not found")
  else .ok script

/-- The code part, where the method builds outputs from it. -/
def buildStatefulPrefix (self : RunarContract) (needsCodePart : Bool) : HexText :=
  if needsCodePart ∧ self.artifact.codeSeparatorIndex.isSome then
    encodePushData (getCodePartHex self)
  else []

/-- The offsets of the code separators of a script, skipping what pushes push. -/
def codesepOffsets (bytePos : Nat) (script : HexText) : List Nat :=
  match script with
  | high :: low :: rest =>
      let op := (parseByte high low).getD 0
      let byteAt (i : Nat) : Nat :=
        match rest.drop (2 * i) with
        | h :: l :: _ => (parseByte h l).getD 0
        | _ => 0
      let jump (size : Nat) (len : Nat) : List Nat :=
        codesepOffsets (bytePos + 1 + size + len) (rest.drop (2 * (size + len)))
      if op = 0xab then bytePos :: codesepOffsets (bytePos + 1) rest
      else if 0x01 ≤ op ∧ op ≤ 0x4b then jump 0 op
      else if op = 0x4c then
        if rest.length < 2 then [] else jump 1 (byteAt 0)
      else if op = 0x4d then
        if rest.length < 4 then [] else jump 2 (byteAt 0 + 256 * byteAt 1)
      else if op = 0x4e then
        let len := byteAt 0 + 256 * byteAt 1 + 65536 * byteAt 2 + 16777216 * byteAt 3
        if rest.length < 8 ∨ rest.length < 8 + 2 * len then [] else jump 4 len
      else codesepOffsets (bytePos + 1) rest
  | _ => []
termination_by script.length
decreasing_by all_goals simp only [List.length_drop, List.length_cons]; omega

def findCodesepOffsets (scriptHex : HexText) : List Nat := codesepOffsets 0 scriptHex

/-- An offset in the template, in the script with its slots filled. -/
def adjustCodeSepOffset (self : RunarContract) (baseOffset : Nat) : Int :=
  baseOffset + constructorShift self.artifact.constructorSlots self.constructorArgs baseOffset +
    codeSepShift (resolvedCodeSepSlotValues self.artifact self.constructorArgs) baseOffset

/-- The separator of a method in a code script from the chain. -/
def onChainSeparator (self : RunarContract) (methodIndex : Nat) : Option Nat := do
  let code ← self.codeScript
  let realOffsets := findCodesepOffsets code
  let first ← realOffsets.head?
  match self.artifact.codeSeparatorIndices with
  | some indices =>
      if methodIndex < indices.length ∧ methodIndex < realOffsets.length then
        realOffsets[methodIndex]?
      else self.artifact.codeSeparatorIndex.map fun _ => first
  | none => self.artifact.codeSeparatorIndex.map fun _ => first

/-- The separator of a method in the template, moved by the slots before it. -/
def templateSeparator (self : RunarContract) (methodIndex : Nat) : Option Int :=
  let index :=
    match self.artifact.codeSeparatorIndices with
    | some indices =>
        if methodIndex < indices.length then indices[methodIndex]?
        else self.artifact.codeSeparatorIndex
    | none => self.artifact.codeSeparatorIndex
  index.map (adjustCodeSepOffset self)

/-- The separator of a method: where it is on the chain, else where the template puts
it. -/
def separatorFor (self : RunarContract) (methodIndex : Nat) : Option Int :=
  ((onChainSeparator self methodIndex).map Int.ofNat).or (templateSeparator self methodIndex)

/-- The script after the separator. -/
def getSubscriptForSigning (self : RunarContract) (fullScript : HexText) (methodIndex : Nat) :
    HexText :=
  match separatorFor self methodIndex with
  | some off => fullScript.drop ((off + 1) * 2).toNat
  | none => fullScript

def computeOpPushTxWithCodeSep (tools : Toolbox) (self : RunarContract) (tx : Transaction)
    (inputIndex : Nat) (subscript : HexText) (satoshis : Int) (methodIndex : Nat) :
    Except String (HexText × HexText) :=
  let sigHashType := ((self.artifact.publicMethods[methodIndex]?).bind (·.sigHashType)).getD 0x41
  tools.computeOpPushTx tx inputIndex subscript satoshis (separatorFor self methodIndex) sigHashType

/-! ## Array state -/

/-- The lengths of the layers of an array type, outermost first. -/
def fixedArrayDims : FieldType → List Nat
  | .primitive _ => []
  | .fixedArray elementType length => length :: fixedArrayDims elementType

/-- The leaves of a nested array, `undefined` for a missing one. -/
def flattenNested : List Nat → JsValue → List JsValue
  | [], value => [value]
  | _ :: rest, .array values => values.flatMap (flattenNested rest)
  | dim :: rest, _ => List.replicate ((dim :: rest).foldl (· * ·) 1) .undefined

/-- The nested array of a list of leaves, and how many it used. -/
def regroupNested (flat : List JsValue) : List Nat → Nat → List JsValue × Nat
  | [], _ => ([], 0)
  | [outerLen], offset =>
      ((List.range outerLen).map fun i => flat[offset + i]?.getD .undefined, outerLen)
  | outerLen :: rest, offset =>
      (List.range outerLen).foldl (fun acc _ =>
        let sub := regroupNested flat rest (offset + acc.2)
        (acc.1 ++ [.array sub.1], acc.2 + sub.2)) ([], 0)

/-- The state with an entry for each element of an array. -/
def flattenFixedArrayState (state : Record) (stateFields : List InitialField) : Record :=
  stateFields.foldl (fun out field =>
    match field.shape, state.get field.name with
    | .fixedArray elementType length syntheticNames, .array values =>
        let flat := flattenNested (fixedArrayDims (.fixedArray elementType length)) (.array values)
        syntheticNames.zipIdx.foldl (fun out synth =>
          if (out synth.1).isSome then out
          else out.set synth.1 (flat[synth.2]?.getD .undefined)) out
    | _, _ => out) state

/-- The state with each array rebuilt from the entries of its elements. -/
def regroupFixedArrayState (state : Record) (stateFields : List InitialField) : Record :=
  stateFields.foldl (fun out field =>
    match field.shape with
    | .scalar _ => out
    | .fixedArray elementType length syntheticNames =>
        if syntheticNames.all fun synth => (out synth).isNone then out
        else
          let dims := fixedArrayDims (.fixedArray elementType length)
          let flat := syntheticNames.map out.get
          let flat :=
            match state.get field.name with
            | .array prior =>
                flat.zipIdx.map fun leaf =>
                  match leaf.1 with
                  | .undefined => (flattenNested dims (.array prior))[leaf.2]?.getD .undefined
                  | value => value
            | _ => flat
          out.set field.name (.array (regroupNested flat dims 0).1)) state

/-- Constructor arguments with each array replaced by its leaves. -/
def flattenFixedArrayArgs (args : List JsValue) (abiParams : List ABIParam) : List JsValue :=
  args.zipIdx.flatMap fun arg =>
    match (abiParams[arg.2]?).map (·.type), arg.1 with
    | some (.fixedArray elementType length), .array values =>
        flattenNested (fixedArrayDims (.fixedArray elementType length)) (.array values)
    | _, value => [value]

/-- The arguments by the names of their parameters. -/
def buildNamedArgs (userParams : List ABIParam) (resolvedArgs : List JsValue) : Record :=
  (userParams.zip resolvedArgs).foldl (fun named p => named.set p.1.name p.2) fun _ => none

end Runar.Sdk
