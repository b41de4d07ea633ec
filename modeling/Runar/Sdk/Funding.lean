/-
  Sdk/Funding.lean --- paying for a deployment.

  WHAT THIS FILE IS FOR.  `deployment.ts` estimates the fee of a deploy transaction, selects the
  outputs that pay for it and builds it.  The selection takes the largest outputs first, and the
  fee grows with the number of them; no other choice of one output or more gets by with fewer.
  Amounts are integers and the fee rate is a rational number.
-/
import Mathlib.Algebra.Order.Floor.Ring
import Mathlib.Data.Rat.Floor
import Mathlib.Data.List.Sort
import Runar.Logic.Largest
import Runar.Sdk.Assembly

set_option autoImplicit false

namespace Runar.Sdk

open Script Logic

/-! ## Fees -/

namespace Fees

/-- The bytes of a P2PKH input, of a P2PKH output, and of what every transaction has. -/
def P2PKH_INPUT_SIZE : ℚ := 148
def P2PKH_OUTPUT_SIZE : ℚ := 34
def TX_OVERHEAD : ℚ := 10

def varIntByteSize (n : ℚ) : ℚ :=
  if n < 0xfd then 1 else if n ≤ 0xffff then 3 else if n ≤ 0xffffffff then 5 else 9

end Fees

/-- Half the characters of a text of hexadecimal digits. -/
def byteLen (hex : HexText) : ℚ := hex.length / 2

def estimateDeployFee (numInputs : Nat) (lockingScriptByteLen feeRate extraInputBytes
    extraOutputBytes : ℚ) : Int :=
  let inputsSize := numInputs * Fees.P2PKH_INPUT_SIZE + extraInputBytes
  let contractOutputSize := 8 + Fees.varIntByteSize lockingScriptByteLen + lockingScriptByteLen
  let changeOutputSize := Fees.P2PKH_OUTPUT_SIZE
  let txSize :=
    Fees.TX_OVERHEAD + inputsSize + contractOutputSize + extraOutputBytes + changeOutputSize
  ⌈txSize * feeRate / 1000⌉

/-- The amounts of some outputs together. -/
def totalSatoshis (utxos : List UTXO) : Int := (utxos.map (·.satoshis)).sum

/-! ## Selecting outputs -/

/-- What outputs are selected for. -/
structure Funding where
  targetSatoshis : Int
  lockingScriptByteLen : ℚ
  feeRate : ℚ
  extraInputBytes : ℚ := 0
  extraOutputBytes : ℚ := 0

namespace Funding

variable (funding : Funding)

/-- The fee with some number of inputs. -/
def fee (numInputs : Nat) : Int :=
  estimateDeployFee numInputs funding.lockingScriptByteLen funding.feeRate funding.extraInputBytes
    funding.extraOutputBytes

/-- The outputs pay the target and the fee of spending them. -/
def Covers (utxos : List UTXO) : Prop :=
  funding.targetSatoshis + funding.fee utxos.length ≤ totalSatoshis utxos

instance (utxos : List UTXO) : Decidable (funding.Covers utxos) :=
  inferInstanceAs (Decidable (_ ≤ _))

end Funding

/-- The larger amounts first. -/
def largestFirst (utxos : List UTXO) : List UTXO :=
  utxos.mergeSort fun a b => decide (b.satoshis ≤ a.satoshis)

/-- The largest outputs until they cover the target, or all of them. -/
def selectUtxos (utxos : List UTXO) (funding : Funding) : List UTXO :=
  takeUntil (fun selected => decide (funding.Covers selected)) [] (largestFirst utxos)

theorem largestFirst_perm (utxos : List UTXO) : (largestFirst utxos).Perm utxos :=
  List.mergeSort_perm _ _

theorem pairwise_largestFirst (utxos : List UTXO) :
    (largestFirst utxos).Pairwise fun a b => b.satoshis ≤ a.satoshis := by
  have hsorted := @List.pairwise_mergeSort UTXO (fun a b => decide (b.satoshis ≤ a.satoshis))
    (fun a b c hab hbc => by
      rw [decide_eq_true_eq] at hab hbc ⊢
      exact Int.le_trans hbc hab)
    (fun a b => by
      rw [Bool.or_eq_true, decide_eq_true_eq, decide_eq_true_eq]
      exact Int.le_total _ _) utxos
  exact hsorted.imp fun h => of_decide_eq_true h

/-- Each output is selected once at most. -/
theorem selectUtxos_subperm (utxos : List UTXO) (funding : Funding) :
    (selectUtxos utxos funding).Subperm utxos := by
  obtain ⟨k, -, heq⟩ := takeUntil_prefix (fun selected => decide (funding.Covers selected)) []
    (largestFirst utxos)
  rw [selectUtxos, heq, List.nil_append]
  exact ((List.take_sublist _ _).subperm).trans (largestFirst_perm utxos).subperm

theorem selectUtxos_ne_nil {utxos : List UTXO} (h : utxos ≠ []) (funding : Funding) :
    selectUtxos utxos funding ≠ [] := by
  refine takeUntil_ne_nil fun hnil => h ?_
  have hperm := largestFirst_perm utxos
  rw [List.nil_append] at hnil
  rw [hnil] at hperm
  exact List.nil_perm.mp hperm

/-- Where a choice covers the target, so do as many of the largest. -/
theorem Funding.Covers.largest {funding : Funding} {utxos chosen : List UTXO}
    (hchosen : chosen.Subperm utxos) (h : funding.Covers chosen) :
    funding.Covers ((largestFirst utxos).take chosen.length) := by
  have hsub : chosen.Subperm (largestFirst utxos) :=
    hchosen.trans (largestFirst_perm utxos).symm.subperm
  have hlength : ((largestFirst utxos).take chosen.length).length = chosen.length := by
    rw [List.length_take, Nat.min_eq_left hsub.length_le]
  rw [Funding.Covers, hlength]
  exact Int.le_trans h (sum_subperm_le (pairwise_largestFirst utxos) hsub)

/-- The selection covers the target where any choice of outputs does, with no more outputs. -/
theorem selectUtxos_minimal {funding : Funding} {utxos chosen : List UTXO}
    (hchosen : chosen.Subperm utxos) (hne : chosen ≠ []) (h : funding.Covers chosen) :
    funding.Covers (selectUtxos utxos funding) ∧
      (selectUtxos utxos funding).length ≤ chosen.length := by
  have hlength : chosen.length ≤ (largestFirst utxos).length := by
    rw [(largestFirst_perm utxos).length_eq]
    exact hchosen.length_le
  obtain ⟨hcovers, hle⟩ := takeUntil_enough
    (fun selected => decide (funding.Covers selected)) []
    (List.length_pos_of_ne_nil hne) hlength (decide_eq_true (h.largest hchosen))
  rw [List.length_nil, Nat.zero_add] at hle
  exact ⟨of_decide_eq_true hcovers, hle⟩

/-! ## The deploy transaction -/

/-- Why no deploy transaction is built. -/
inductive DeployError where
  | noUtxos
  | insufficientFunds (need have_ : Int)
  /-- an error of a function of another file -/
  | other (message : String)

def DeployError.message : DeployError → String
  | .noUtxos => "buildDeployTransaction: no UTXOs provided"
  | .insufficientFunds need have_ =>
      "buildDeployTransaction: insufficient funds. Need " ++ toString need ++ " sats, have " ++
        toString have_
  | .other message => message

/-- The result of a function of another file. -/
def orOther {α : Type} (result : Except String α) : Except DeployError α :=
  result.mapError .other

/-- The inputs of a transaction that spends some outputs, without their signatures. -/
def unsignedInput (sequence : Nat) (utxo : UTXO) : TxInput :=
  { sourceTXID := utxo.txid, sourceOutputIndex := utxo.outputIndex, unlockingScript := [],
    sequence }

def buildDeployTransaction (tools : Toolbox) (lockingScript : HexText) (utxos : List UTXO)
    (satoshis : Int) (changeAddress : String) (changeScript : HexText) (feeRate : ℚ) :
    Except DeployError (Transaction × Nat) :=
  if utxos.length = 0 then .error .noUtxos
  else
    let totalInput := totalSatoshis utxos
    let fee := estimateDeployFee utxos.length (byteLen lockingScript) feeRate 0 0
    let change := totalInput - satoshis - fee
    if change < 0 then .error (.insufficientFunds (satoshis + fee) totalInput)
    else do
      let script ← orOther (tools.fromHex lockingScript)
      let contractOutput : TxOutput := { satoshis, lockingScript := script }
      let changeOutputs ← if change > 0 then do
          let actualChangeScript ← if changeScript = [] then
              orOther (tools.buildP2PKHScript changeAddress) else .ok changeScript
          let script ← orOther (tools.fromHex actualChangeScript)
          .ok [({ satoshis := change, lockingScript := script } : TxOutput)]
        else .ok []
      .ok ({ version := 1, inputs := utxos.map (unsignedInput 0xffffffff),
             outputs := contractOutput :: changeOutputs, lockTime := 0 }, utxos.length)

/-- The transaction is refused for its funds exactly where its inputs do not cover what it pays. -/
theorem buildDeployTransaction_insufficient_iff (tools : Toolbox) (lockingScript : HexText)
    {utxos : List UTXO} (hne : utxos ≠ []) (satoshis : Int) (changeAddress : String)
    (changeScript : HexText) (feeRate : ℚ) :
    (∃ need have_, buildDeployTransaction tools lockingScript utxos satoshis changeAddress
      changeScript feeRate = .error (.insufficientFunds need have_)) ↔
      ¬ Funding.Covers ⟨satoshis, byteLen lockingScript, feeRate, 0, 0⟩ utxos := by
  have hlength : ¬ utxos.length = 0 := fun h => hne (List.length_eq_zero_iff.mp h)
  have hcovers : Funding.Covers ⟨satoshis, byteLen lockingScript, feeRate, 0, 0⟩ utxos ↔
      satoshis + estimateDeployFee utxos.length (byteLen lockingScript) feeRate 0 0 ≤
        totalSatoshis utxos := Iff.rfl
  rw [hcovers, buildDeployTransaction, if_neg hlength]
  dsimp only
  split
  · next hless => exact ⟨fun _ => by omega, fun _ => ⟨_, _, rfl⟩⟩
  · next hless =>
    refine ⟨fun ⟨need, have_, h⟩ => ?_, fun h => absurd (by omega) h⟩
    -- no error is left but those of the other functions
    have herror {α β : Type} {result : Except String α} {next : α → Except DeployError β}
        (hnext : ∀ a, next a ≠ .error (.insufficientFunds need have_)) :
        (orOther result >>= next) ≠ .error (.insufficientFunds need have_) := by
      cases result with
      | ok a => exact hnext a
      | error e => exact fun h => nomatch h
    refine absurd h (herror fun script => ?_)
    split
    · split
      · exact herror fun _ => herror fun _ h => nomatch h
      · show (orOther (tools.fromHex changeScript) >>= _) ≠ _
        exact herror fun _ h => nomatch h
    · exact fun h => nomatch h

/-- What is selected pays for the deployment with the fewest outputs, where any outputs do, and
the transaction is refused where it does not. -/
theorem selectUtxos_pays (utxos : List UTXO) (funding : Funding) :
    (selectUtxos utxos funding).Subperm utxos ∧
    (∀ chosen : List UTXO, chosen.Subperm utxos → chosen ≠ [] → funding.Covers chosen →
      funding.Covers (selectUtxos utxos funding) ∧
        (selectUtxos utxos funding).length ≤ chosen.length) ∧
    ∀ (tools : Toolbox) (lockingScript : HexText) (changeAddress : String) (changeScript : HexText),
      let deployment : Funding :=
        ⟨funding.targetSatoshis, byteLen lockingScript, funding.feeRate, 0, 0⟩
      let selected := selectUtxos utxos deployment
      let result := buildDeployTransaction tools lockingScript selected funding.targetSatoshis
        changeAddress changeScript funding.feeRate
      (utxos = [] → result = .error .noUtxos) ∧
      (utxos ≠ [] → ((∃ need have_, result = .error (.insufficientFunds need have_)) ↔
        ¬ deployment.Covers selected)) := by
  refine ⟨selectUtxos_subperm utxos funding,
    fun chosen hchosen hne h => selectUtxos_minimal hchosen hne h,
    fun tools lockingScript changeAddress changeScript => ⟨?_, fun hne => ?_⟩⟩
  · rintro rfl
    have hnil := List.subperm_nil.mp (selectUtxos_subperm []
      ⟨funding.targetSatoshis, byteLen lockingScript, funding.feeRate, 0, 0⟩)
    show buildDeployTransaction _ _ (selectUtxos [] _) _ _ _ _ = _
    rw [hnil]
    rfl
  · exact buildDeployTransaction_insufficient_iff tools lockingScript
      (selectUtxos_ne_nil hne _) funding.targetSatoshis changeAddress changeScript funding.feeRate

/-- A target of nothing at no fee is covered by no outputs, and one is selected. -/
theorem selectUtxos_not_fewest :
    ¬ ∀ (utxos : List UTXO) (funding : Funding) (chosen : List UTXO), chosen.Subperm utxos →
      funding.Covers chosen → (selectUtxos utxos funding).length ≤ chosen.length := by
  intro h
  have hcovers : Funding.Covers ⟨0, 0, 0, 0, 0⟩ [] := by
    simp [Funding.Covers, Funding.fee, estimateDeployFee, totalSatoshis]
  have hselected := h [⟨"", 0, 1, []⟩] ⟨0, 0, 0, 0, 0⟩ [] (List.nil_subperm) hcovers
  exact absurd (List.length_eq_zero_iff.mp (Nat.le_zero.mp hselected))
    (selectUtxos_ne_nil (List.cons_ne_nil _ _) _)

end Runar.Sdk
