/-
  Sdk/FromUtxo.lean --- a contract restored from the chain.

  WHAT THIS FILE IS FOR.  `RunarContract.fromUtxo` builds an object from the script of an
  output: arguments, code, inscription and state are read back from it.  The file has
  that function, and what a restored object is made of.  The searches are given some
  rounds, as a search may not end.
-/
import Runar.Sdk.EnvelopeSearch

set_option autoImplicit false

namespace Runar.Sdk

open Script Codec Logic

/-! ## Steps that may throw or not end -/

/-- `none` where a search does not end. -/
abbrev Searched (α : Type) : Type := Option (Except String α)

def Searched.andThen {α β : Type} (first : Searched α) (next : α → Searched β) : Searched β :=
  match first with
  | none => none
  | some (.error message) => some (.error message)
  | some (.ok a) => next a

theorem andThen_eq_ok {α β : Type} {first : Searched α} {next : α → Searched β} {b : β} :
    first.andThen next = some (.ok b) ↔ ∃ a, first = some (.ok a) ∧ next a = some (.ok b) := by
  constructor
  · intro h
    match first, h with
    | some (.ok a), h => exact ⟨a, rfl, h⟩
  · rintro ⟨a, rfl, h⟩
    exact h

/-! ## Restoring -/

/-- The constructor arguments in a script, zero where one has no place in it. -/
def restoreConstructorArgs (fuel : Nat) (artifact : RunarArtifact) (scriptHex : HexText) :
    Searched (List JsValue) :=
  if artifact.constructorParams = [] then some (.ok [])
  else
    (extractConstructorArgs fuel artifact scriptHex).map fun extracted =>
      extracted.map fun args =>
        artifact.constructorParams.map fun param => (args param.name).getD (.bigint 0)

/-- The state in a script, `none` where there is none. -/
def extractStateFromScript (fuel : Nat) (artifact : RunarArtifact) (scriptHex : HexText) :
    Searched (Option Record) :=
  if artifact.stateFields = [] then some (.ok none)
  else
    (walkOpReturn scriptHex fuel 0).map fun opReturnPos =>
      if opReturnPos = -1 then .ok none
      else
        (deserializeState (artifact.stateFields.map (·.toStateField))
          (slice scriptHex (opReturnPos + 2) scriptHex.length)).map some

def noStateSection (artifact : RunarArtifact) : String :=
  "RunarContract.fromUtxo: could not extract state for " ++ artifact.contractName ++ " — " ++
    "no state section (OP_RETURN) found in the UTXO script, but the artifact declares " ++
    toString artifact.stateFields.length ++ " state field(s). Refusing to silently present " ++
    "constructor-initial state as live on-chain state."

def fromUtxo (fuel : Nat) (artifact : RunarArtifact) (utxo : UTXO) : Searched RunarContract :=
  (restoreConstructorArgs fuel artifact utxo.script).andThen fun args =>
  Searched.andThen (some (newRunarContract artifact args)) fun contract =>
  Searched.andThen ((codeHexOf fuel artifact utxo.script).map .ok) fun codeScript =>
  -- an empty code is not searched
  Searched.andThen (if codeScript = [] then some (.ok none)
    else (parseInscriptionEnvelope fuel codeScript).map .ok) fun inscription =>
  let contract :=
    { contract with codeScript := some codeScript, inscription, currentUtxo := some utxo }
  if artifact.stateFields = [] then some (.ok contract)
  else
    (extractStateFromScript fuel artifact utxo.script).andThen fun
      | none => some (.error (noStateSection artifact))
      | some state => some (.ok { contract with state })

/-- `fromUtxo` returns `contract`. -/
def Restores (artifact : RunarArtifact) (utxo : UTXO) (contract : RunarContract) : Prop :=
  ∃ fuel, fromUtxo fuel artifact utxo = some (.ok contract)

/-! ## Rounds -/

theorem walkOpReturn_add {hex : HexText} {fuel : Nat} {offset result : Int}
    (h : walkOpReturn hex fuel offset = some result) (more : Nat) :
    walkOpReturn hex (fuel + more) offset = some result := by
  induction fuel generalizing offset with
  | zero => exact nomatch h
  | succ fuel ih =>
    rw [Nat.succ_add]
    rw [walkOpReturn] at h ⊢
    split at h
    · exact h
    · exact ih h

theorem parseInscriptionEnvelope_add {hex : HexText} {fuel : Nat} {result : Option Inscription}
    (h : parseInscriptionEnvelope fuel hex = some result) (more : Nat) :
    parseInscriptionEnvelope (fuel + more) hex = some result := by
  rw [parseInscriptionEnvelope, Option.map_eq_some_iff] at h ⊢
  obtain ⟨bounds, hfind, hread⟩ := h
  exact ⟨bounds, findInscriptionEnvelope_add hfind more, hread⟩

theorem parsesInscription_nil : ParsesInscription [] none := ⟨1, rfl⟩

/-! ## What a restored object is made of -/

/-- The code of a script. -/
def CodeOf (artifact : RunarArtifact) (script code : HexText) : Prop :=
  if artifact.stateFields = [] then code = script
  else ∃ offset, FindsLastOpReturn script offset ∧
    code = if offset ≠ -1 then slice script 0 offset else script

section Restored

variable {artifact : RunarArtifact} {utxo : UTXO} {r : RunarContract}

theorem codeOf_of_codeHexOf {fuel : Nat} {script code : HexText}
    (h : codeHexOf fuel artifact script = some code) : CodeOf artifact script code := by
  rw [codeHexOf] at h
  rw [CodeOf]
  split
  · rename_i hfields
    rw [if_pos hfields] at h
    exact (Option.some.inj h).symm
  · rename_i hfields
    rw [if_neg hfields, Option.map_eq_some_iff] at h
    obtain ⟨offset, hwalk, rfl⟩ := h
    exact ⟨offset, ⟨fuel, hwalk⟩, rfl⟩

/-- The parts of a restored object. -/
theorem Restores.parts (h : Restores artifact utxo r) : r.artifact = artifact ∧
    ∃ code, CodeOf artifact utxo.script code ∧ r.codeScript = some code ∧
      ParsesInscription code r.inscription ∧
      (artifact.stateFields = [] → r.state = fun _ => none) ∧
      (artifact.stateFields ≠ [] → ∃ offset, FindsLastOpReturn utxo.script offset ∧ offset ≠ -1 ∧
        deserializeState (artifact.stateFields.map (·.toStateField))
          (slice utxo.script (offset + 2) utxo.script.length) = .ok r.state) := by
  obtain ⟨fuel, h⟩ := h
  rw [fromUtxo, andThen_eq_ok] at h
  obtain ⟨args, -, h⟩ := h
  obtain ⟨contract, hnew, h⟩ := andThen_eq_ok.mp h
  obtain ⟨code, hcode, h⟩ := andThen_eq_ok.mp h
  obtain ⟨inscription, hparse, h⟩ := andThen_eq_ok.mp h
  dsimp only at h
  have hcode : codeHexOf fuel artifact utxo.script = some code := by
    obtain ⟨_, hcode, heq⟩ := Option.map_eq_some_iff.mp hcode
    rwa [← Except.ok.inj heq]
  have hinscription : ParsesInscription code inscription := by
    split at hparse
    · rename_i hnil
      obtain rfl := Except.ok.inj (Option.some.inj hparse)
      rw [hnil]
      exact parsesInscription_nil
    · obtain ⟨_, hparse, heq⟩ := Option.map_eq_some_iff.mp hparse
      exact ⟨fuel, Except.ok.inj heq ▸ hparse⟩
  have hartifact : contract.artifact = artifact ∧
      contract.state = initialState artifact.constructorParams artifact.stateFields args := by
    have hnew := Option.some.inj hnew
    rw [newRunarContract] at hnew
    split at hnew
    · cases hnew
    · obtain rfl := Except.ok.inj hnew
      exact ⟨rfl, rfl⟩
  by_cases hfields : artifact.stateFields = []
  · rw [if_pos hfields] at h
    obtain rfl := Except.ok.inj (Option.some.inj h)
    refine ⟨hartifact.1, code, codeOf_of_codeHexOf hcode, rfl, hinscription, fun _ => ?_,
      fun hne => absurd hfields hne⟩
    exact hartifact.2.trans (by rw [hfields]; rfl)
  · rw [if_neg hfields] at h
    obtain ⟨state, hstate, h⟩ := andThen_eq_ok.mp h
    rw [extractStateFromScript, if_neg hfields, Option.map_eq_some_iff] at hstate
    obtain ⟨offset, hwalk, hstate⟩ := hstate
    split at hstate
    · obtain rfl := Except.ok.inj hstate
      cases Option.some.inj h
    · rename_i hfound
      cases hread : deserializeState (artifact.stateFields.map (·.toStateField))
          (slice utxo.script (offset + 2) utxo.script.length) with
      | error message =>
        rw [hread] at hstate
        cases hstate
      | ok read =>
        rw [hread] at hstate
        obtain rfl := Except.ok.inj hstate
        obtain rfl := Except.ok.inj (Option.some.inj h)
        exact ⟨hartifact.1, code, codeOf_of_codeHexOf hcode, rfl, hinscription,
          fun hnil => absurd hnil hfields, fun _ => ⟨offset, ⟨fuel, hwalk⟩, hfound, hread⟩⟩

end Restored

end Runar.Sdk
