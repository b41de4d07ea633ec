/-
  Sdk/Failures.lean --- what a failed deploy or call leaves behind.

  WHAT THIS FILE IS FOR.  A caller that catches an error reads the contract object
  again, so the object must be as it was.  Deploying and finalizing write it only when
  nothing can be refused any more.  Preparing a call stores the new state first and
  asks for the fee rate afterwards, and this file says exactly when that shows.
-/
import Runar.Sdk.Calls

set_option autoImplicit false

namespace Runar.Sdk

open Script Artifact Logic Attempt

/-- What a caller sees of the object: state, output and inscription. -/
def objectView (w : World) : Record × Option UTXO × Option Inscription :=
  (w.contract.state, w.contract.currentUtxo, w.contract.inscription)

/-! ## Steps that keep the object -/

section Steps

variable {α : Type}

theorem keeps_perform (task : Task α) (w : World) : Keeps objectView (perform task) w :=
  keeps_zoom fun _ => rfl

theorem keeps_self (w : World) : Keeps objectView self w := rfl

/-- Work does not write the object; it moves the clock. -/
theorem exec_perform (task : Task α) (w : World) :
    exec (perform task) w =
      ((exec task w.clock).1, { w with clock := (exec task w.clock).2 }) := rfl

theorem exec_self (w : World) : exec self w = (.ok w.contract, w) := rfl

theorem exec_perform_ok {task : Task α} {w w' : World} {a : α}
    (h : exec (perform task) w = (.ok a, w')) :
    exec task w.clock = (.ok a, w'.clock) ∧ w' = { w with clock := w'.clock } := by
  rw [exec_perform, Prod.mk.injEq] at h
  obtain ⟨hresult, rfl⟩ := h
  exact ⟨Prod.ext hresult rfl, rfl⟩

theorem exec_orThrow (result : Except String α) (now : Nat) :
    exec (orThrow result) now = (result, now) := rfl

theorem exec_await (answer : Nat → Except String α) (now : Nat) :
    exec (await answer) now = (answer now, now + 1) := rfl

theorem total_perform_awaitOr (answer : Nat → Except String α) (fallback : α) :
    Total (perform (awaitOr answer fallback)) := fun _ _ => nofun

theorem exec_resolveProviderSigner {w w' : World} {refs : Nat × Nat}
    (h : exec resolveProviderSigner w = (.ok refs, w')) :
    w' = w ∧ w.contract.provider = some refs.1 ∧ w.contract.signer = some refs.2 := by
  unfold resolveProviderSigner at h
  rw [exec_bind_ok (exec_self w)] at h
  cases hp : w.contract.provider with
  | none => simp [hp] at h
  | some p =>
      cases hs : w.contract.signer with
      | none => simp [hp, hs] at h
      | some s =>
          simp only [hp, hs, exec_pure, Prod.mk.injEq, Except.ok.injEq] at h
          obtain ⟨rfl, rfl⟩ := h
          exact ⟨rfl, rfl, rfl⟩

theorem keeps_resolveProviderSigner (w : World) : Keeps objectView resolveProviderSigner w := by
  unfold resolveProviderSigner
  refine (keeps_self w).bind fun contract w₁ _ => ?_
  split
  · exact keeps_pure _ w₁
  · exact keeps_throw _ w₁

theorem keeps_resolveTarget (target : DeployTarget) (w : World) :
    Keeps objectView (resolveTarget target) w := by
  cases target with
  | explicit provider signer options => exact keeps_pure _ w
  | connected options =>
      exact (keeps_resolveProviderSigner w).bind fun _ w₁ _ => keeps_pure _ w₁
  | invalid => exact keeps_throw _ w

theorem keeps_slotSignatures (tools : Toolbox) (outside : Outside) (methodName : String)
    (prepared : PreparedCall) (w : World) :
    Keeps objectView (slotSignatures tools outside methodName prepared) w := by
  unfold slotSignatures
  refine (keeps_self w).bind fun contract w₁ _ => ?_
  split
  · exact keeps_perform _ w₁
  · exact keeps_throw _ w₁

end Steps

/-! ## The early write -/

/-- The call passes its checks, and stores a state that is not the one the object
has. -/
def StoresNewState (tools : Toolbox) (outside : Outside) (w : World) (methodName : String)
    (args : List JsValue) (options : CallOptions) : Prop :=
  options.terminalOutputs = none ∧
  ∃ provider signer plan now unlock state,
    w.contract.provider = some provider ∧ w.contract.signer = some signer ∧
    exec (planCall tools (outside.signer signer) w.contract methodName args options) w.clock =
      (.ok plan, now) ∧
    placeholderUnlock w.contract plan plan.resolvedArgs = .ok unlock ∧
    stateToStore tools w.contract plan options = some state ∧ state ≠ w.contract.state

/-- Storing a state that is the object's own changes nothing. -/
theorem exec_storeState_same {state? : Option Record} {w : World}
    (h : ∀ state, state? = some state → state = w.contract.state) :
    exec (storeState state?) w = (.ok (), w) := by
  cases state? with
  | none => rfl
  | some state =>
      have hstate := h state rfl
      subst hstate
      rfl

/-- Handing out a prepared call keeps the object. -/
theorem keeps_handOut (prepared : PreparedCall) (w : World) :
    Keeps objectView (do
      modify fun w : World => { w with prepared := w.prepared + 1 }
      return prepared : Session PreparedCall) w :=
  (keeps_modify rfl).bind fun _ w₁ _ => keeps_pure prepared w₁

/-- A call that stores nothing new is prepared without changing the object. -/
theorem keeps_prepareCall {tools : Toolbox} {outside : Outside} {w : World}
    {methodName : String} {args : List JsValue} {options : CallOptions}
    (h : ¬ StoresNewState tools outside w methodName args options) :
    Keeps objectView (prepareCall tools outside methodName args options) w := by
  unfold prepareCall
  refine (keeps_resolveProviderSigner w).bind fun refs w₁ h₁ => ?_
  obtain ⟨rfl, hprovider, hsigner⟩ := exec_resolveProviderSigner h₁
  refine (keeps_self w₁).bind fun contract w₂ h₂ => ?_
  obtain ⟨rfl, rfl⟩ : contract = w₁.contract ∧ w₁ = w₂ := by simpa [exec_self, eq_comm] using h₂
  refine (keeps_perform _ w₁).bind fun plan w₃ h₃ => ?_
  obtain ⟨hplan, hw₃⟩ := exec_perform_ok h₃
  refine (keeps_get w₃).bind fun world w₄ h₄ => ?_
  obtain ⟨rfl, rfl⟩ : world = w₃ ∧ w₃ = w₄ := by simpa [eq_comm] using h₄
  cases hterminal : options.terminalOutputs with
  | some outs =>
      exact (keeps_perform _ world).bind fun prepared w₅ _ => keeps_handOut prepared w₅
  | none =>
      refine (keeps_perform _ world).bind fun unlock w₅ h₅ => ?_
      obtain ⟨hunlock, hw₅⟩ := exec_perform_ok h₅
      have hsame : ∀ state, stateToStore tools w₁.contract plan options = some state →
          state = w₅.contract.state := by
        intro state hstate
        by_contra hne
        refine h ⟨hterminal, refs.1, refs.2, plan, _, unlock, state, hprovider, hsigner, hplan,
          congrArg Prod.fst hunlock, hstate, ?_⟩
        rwa [hw₅, hw₃] at hne
      have hstore : Keeps objectView (storeState (stateToStore tools w₁.contract plan options))
          w₅ := by
        unfold Keeps
        rw [exec_storeState_same hsame]
      refine hstore.bind fun _ w₆ _ => ?_
      refine (keeps_self w₆).bind fun contract w₇ _ => ?_
      exact (keeps_perform _ w₇).bind fun prepared w₈ _ => keeps_handOut prepared w₈

/-! ## What writes last -/

theorem finalizeCall_failsClean (tools : Toolbox) (outside : Outside) (prepared : PreparedCall)
    (signatures : List (Nat × HexText)) (w : World) :
    FailsClean objectView (finalizeCall tools outside prepared signatures) w := by
  unfold finalizeCall
  refine FailsClean.after (keeps_get w) fun world w₁ _ => ?_
  split
  · exact (keeps_throw _ w₁).failsClean
  refine FailsClean.after (keeps_modify rfl) fun _ w₂ _ => ?_
  refine FailsClean.after (keeps_resolveProviderSigner w₂) fun refs w₃ _ => ?_
  refine FailsClean.after (keeps_self w₃) fun contract w₄ _ => ?_
  refine FailsClean.after (keeps_perform _ w₄) fun finalTx w₅ _ => ?_
  refine FailsClean.after (keeps_perform _ w₅) fun _ w₆ _ => ?_
  refine FailsClean.after (keeps_perform _ w₆) fun txid w₇ _ => ?_
  -- nothing after the broadcast can be refused
  apply Total.failsClean
  refine (total_modify _).bind fun _ => ?_
  exact (total_perform_awaitOr _ _).bind fun txData => total_pure _

theorem deploy_failsClean (tools : Toolbox) (outside : Outside) (target : DeployTarget)
    (w : World) : FailsClean objectView (deploy tools outside target) w := by
  unfold deploy
  refine FailsClean.after (keeps_resolveTarget target w) fun resolved w₁ _ => ?_
  refine FailsClean.after (keeps_self w₁) fun contract w₂ _ => ?_
  refine FailsClean.after (keeps_perform _ w₂) fun signed w₃ _ => ?_
  refine FailsClean.after (keeps_perform _ w₃) fun txid w₄ _ => ?_
  apply Total.failsClean
  refine (total_modify _).bind fun _ => ?_
  exact (total_perform_awaitOr _ _).bind fun txData => total_pure _

theorem deployWithWallet_failsClean (tools : Toolbox) (outside : Outside) (satoshis : Option Int)
    (description : Option String) (w : World) :
    FailsClean objectView (deployWithWallet tools outside satoshis description) w := by
  unfold deployWithWallet
  refine FailsClean.after (keeps_self w) fun contract w₁ _ => ?_
  split
  · exact (keeps_throw _ w₁).failsClean
  refine FailsClean.after (keeps_perform _ w₁) fun lockingScript w₂ _ => ?_
  refine FailsClean.after (keeps_perform _ w₂) fun _ w₃ _ => ?_
  refine FailsClean.after (keeps_perform _ w₃) fun result w₄ _ => ?_
  exact ((total_modify _).bind fun _ => total_pure _).failsClean w₄

/-! ## Calls -/

theorem callConnected_failsClean {tools : Toolbox} {outside : Outside} {w : World}
    {methodName : String} {args : List JsValue} {options : CallOptions}
    (h : ¬ StoresNewState tools outside w methodName args options) :
    FailsClean objectView (callConnected tools outside methodName args options) w := by
  unfold callConnected
  refine FailsClean.after (keeps_prepareCall h) fun prepared w₁ _ => ?_
  refine FailsClean.after (keeps_slotSignatures tools outside methodName prepared w₁)
    fun signatures w₂ _ => ?_
  exact finalizeCall_failsClean tools outside prepared signatures w₂

/-- The world with others connected. -/
def World.connect (w : World) (provider signer : Option Nat) : World :=
  { w with contract := { w.contract with provider, signer } }

theorem exec_connectedAs {α : Type} (provider signer : Option Nat) (m : Session α) (w : World) :
    exec (connectedAs provider signer m) w = ((exec m (w.connect provider signer)).1,
      (exec m (w.connect provider signer)).2.connect w.contract.provider w.contract.signer) := by
  unfold connectedAs
  rw [exec_bind_ok (exec_self w), exec_bind_ok (exec_modify _ w)]
  rfl

/-- A computation under another connection fails clean if it does. -/
theorem connectedAs_failsClean_iff {α : Type} {provider signer : Option Nat} {m : Session α}
    {w : World} :
    FailsClean objectView (connectedAs provider signer m) w ↔
      FailsClean objectView m (w.connect provider signer) := by
  unfold FailsClean
  rw [exec_connectedAs]
  exact Iff.rfl

/-! ## A refusal after the early write -/

/-- The world outside, with every fee rate refused. -/
def Outside.refuseFees (outside : Outside) : Outside :=
  { outside with
    provider := fun ref =>
      { outside.provider ref with getFeeRate := fun _ => .error "fee rate unavailable" } }

/-- Without a fee rate a call that goes on is not completed. -/
theorem completeCall_refused (tools : Toolbox) (outside : Outside) (providerRef : Nat)
    (signer fundingSigner : Signer) (contract : RunarContract) (plan : CallPlan)
    (options : CallOptions) (computed : Option (ExecutionResult × Record))
    (unlock : HexText) (id now : Nat) :
    ∃ e now', exec (completeCall tools (outside.refuseFees.provider providerRef) signer
      fundingSigner contract plan options computed unlock id) now = (.error e, now') := by
  unfold completeCall
  cases hcont : buildContinuation tools contract plan options computed with
  | error e => exact ⟨e, now, exec_bind_error (exec_orThrow _ now)⟩
  | ok continuation =>
      refine ⟨"fee rate unavailable", now + 1, ?_⟩
      rw [exec_bind_ok (exec_orThrow (.ok continuation) now)]
      exact exec_bind_error (exec_await _ now)

theorem prepareCall_refused {tools : Toolbox} {outside : Outside} {w : World}
    {methodName : String} {args : List JsValue} {options : CallOptions}
    (h : StoresNewState tools outside w methodName args options) :
    ∃ e, (exec (prepareCall tools outside.refuseFees methodName args options) w).1 = .error e ∧
      (exec (prepareCall tools outside.refuseFees methodName args options) w).2.contract.state ≠
        w.contract.state := by
  obtain ⟨hterminal, provider, signer, plan, now, unlock, state, hprovider, hsigner, hplan,
    hunlock, hstate, hne⟩ := h
  have hresolve : exec resolveProviderSigner w = (.ok (provider, signer), w) := by
    unfold resolveProviderSigner
    rw [exec_bind_ok (exec_self w)]
    simp only [hprovider, hsigner, exec_pure]
  -- the checks ask the signer only, so they pass as before
  have hperform : exec (perform (planCall tools (outside.refuseFees.signer signer) w.contract
      methodName args options)) w = (.ok plan, { w with clock := now }) := by
    rw [exec_perform]
    exact congrArg (fun r => (r.1, { w with clock := r.2 })) hplan
  have hplaceholder : exec (perform (orThrow (placeholderUnlock w.contract plan
      plan.resolvedArgs))) { w with clock := now } = (.ok unlock, { w with clock := now }) := by
    rw [exec_perform, exec_orThrow, hunlock]
  have hstore : exec (storeState (stateToStore tools w.contract plan options))
      { w with clock := now } =
        (.ok (), { w with clock := now, contract := { w.contract with state } }) := by
    rw [hstate]
    rfl
  obtain ⟨e, now', hrefused⟩ := completeCall_refused tools outside provider
    (outside.signer signer) (outside.signer (options.fundingSigner.getD signer))
    { w.contract with state } plan options (interpretCall tools w.contract plan) unlock
    w.prepared now
  have hcomplete : exec (perform (completeCall tools (outside.refuseFees.provider provider)
      (outside.refuseFees.signer signer)
      (outside.refuseFees.signer (options.fundingSigner.getD signer))
      { w.contract with state } plan options (interpretCall tools w.contract plan) unlock
      w.prepared)) { w with clock := now, contract := { w.contract with state } } =
        (.error e, { w with clock := now', contract := { w.contract with state } }) := by
    rw [exec_perform]
    exact congrArg (fun r => (r.1, { w with clock := r.2, contract := { w.contract with state } }))
      hrefused
  have hrun : exec (prepareCall tools outside.refuseFees methodName args options) w =
      (.error e, { w with clock := now', contract := { w.contract with state } }) := by
    unfold prepareCall
    rw [exec_bind_ok hresolve, exec_bind_ok (exec_self w), exec_bind_ok hperform,
      exec_bind_ok (exec_get _)]
    simp only [hterminal]
    rw [exec_bind_ok hplaceholder, exec_bind_ok hstore, exec_bind_ok (exec_self _)]
    exact exec_bind_error hcomplete
  exact ⟨e, by rw [hrun], by rw [hrun]; exact hne⟩

/-! ## Every operation -/

/-- The operations that can fail. -/
inductive Operation where
  | deploy (target : DeployTarget)
  | deployWithWallet (satoshis : Option Int) (description : Option String)
  | prepareCall (methodName : String) (args : List JsValue) (options : CallOptions)
  | finalizeCall (prepared : PreparedCall) (signatures : List (Nat × HexText))
  | call (methodName : String) (args : List JsValue) (target : CallTarget)

/-- Run an operation for what it does to the object. -/
def Operation.run (tools : Toolbox) (outside : Outside) : Operation → Session Unit
  | .deploy target => discard (Sdk.deploy tools outside target)
  | .deployWithWallet satoshis description =>
      discard (Sdk.deployWithWallet tools outside satoshis description)
  | .prepareCall methodName args options =>
      discard (Sdk.prepareCall tools outside methodName args options)
  | .finalizeCall prepared signatures =>
      discard (Sdk.finalizeCall tools outside prepared signatures)
  | .call methodName args target => discard (Sdk.call tools outside methodName args target)

/-- The operation prepares a call that stores a new state, under the connection the
call is made with. -/
def Operation.StoresNewState (tools : Toolbox) (outside : Outside) (w : World) :
    Operation → Prop
  | .prepareCall methodName args options =>
      Sdk.StoresNewState tools outside w methodName args options
  | .call methodName args (.connected options) =>
      Sdk.StoresNewState tools outside w methodName args options
  | .call methodName args (.explicit provider signer options) =>
      Sdk.StoresNewState tools outside (w.connect (some provider) (some signer)) methodName args
        options
  | .call methodName args (.providerOnly provider) =>
      Sdk.StoresNewState tools outside (w.connect (some provider) w.contract.signer) methodName
        args CallOptions.none
  | _ => False

theorem exec_discard {α : Type} (m : Session α) (w : World) :
    exec (discard m) w = ((exec m w).1.map fun _ => (), (exec m w).2) := by
  rcases h : exec m w with ⟨r, w'⟩
  cases r with
  | error e => exact exec_bind_error h
  | ok a => exact exec_bind_ok h

theorem failsClean_discard_iff {α : Type} {m : Session α} {w : World} :
    FailsClean objectView (discard m) w ↔ FailsClean objectView m w := by
  unfold FailsClean
  rw [exec_discard]
  refine forall_congr' fun e => ?_
  cases (exec m w).1 with
  | error e' => simp [Except.map]
  | ok a => simp [Except.map]

theorem callConnected_refused {tools : Toolbox} {outside : Outside} {w : World}
    {methodName : String} {args : List JsValue} {options : CallOptions}
    (h : StoresNewState tools outside w methodName args options) :
    ¬ FailsClean objectView (callConnected tools outside.refuseFees methodName args options) w := by
  intro hclean
  obtain ⟨e, he, hne⟩ := prepareCall_refused h
  have hprepare := FailsClean.of_bind hclean e he
  exact hne (congrArg Prod.fst hprepare)

/-- A failed operation leaves the object as it was, whatever the world outside answers,
exactly if no answers make it store a new state. -/
theorem failures_keep_object_iff (tools : Toolbox) (w : World) (op : Operation) :
    (∀ outside, FailsClean objectView (op.run tools outside) w) ↔
      ∀ outside, ¬ op.StoresNewState tools outside w := by
  constructor
  · intro hclean outside hstores
    have hrefused := hclean outside.refuseFees
    cases op with
    | deploy target => exact hstores
    | deployWithWallet satoshis description => exact hstores
    | finalizeCall prepared signatures => exact hstores
    | prepareCall methodName args options =>
        obtain ⟨e, he, hne⟩ := prepareCall_refused hstores
        exact hne (congrArg Prod.fst (failsClean_discard_iff.mp hrefused e he))
    | call methodName args target =>
        have hcall := failsClean_discard_iff.mp hrefused
        cases target with
        | connected options => exact callConnected_refused hstores hcall
        | explicit provider signer options =>
            exact callConnected_refused hstores (connectedAs_failsClean_iff.mp hcall)
        | providerOnly provider =>
            have hinner : FailsClean objectView (connectedAs (some provider) w.contract.signer
                (callConnected tools outside.refuseFees methodName args CallOptions.none)) w := by
              intro e he
              have hread := hcall.rest (exec_self w) e he
              exact hread
            exact callConnected_refused hstores (connectedAs_failsClean_iff.mp hinner)
  · intro hstores outside
    have hnot := hstores outside
    cases op with
    | deploy target => exact failsClean_discard_iff.mpr (deploy_failsClean tools outside target w)
    | deployWithWallet satoshis description =>
        exact failsClean_discard_iff.mpr
          (deployWithWallet_failsClean tools outside satoshis description w)
    | finalizeCall prepared signatures =>
        exact failsClean_discard_iff.mpr (finalizeCall_failsClean tools outside prepared signatures w)
    | prepareCall methodName args options =>
        exact failsClean_discard_iff.mpr (keeps_prepareCall hnot).failsClean
    | call methodName args target =>
        apply failsClean_discard_iff.mpr
        cases target with
        | connected options => exact callConnected_failsClean hnot
        | explicit provider signer options =>
            exact connectedAs_failsClean_iff.mpr (callConnected_failsClean hnot)
        | providerOnly provider =>
            refine FailsClean.after (keeps_self w) fun contract w₁ h₁ => ?_
            obtain ⟨rfl, rfl⟩ : contract = w.contract ∧ w = w₁ := by
              simpa [exec_self, eq_comm] using h₁
            exact connectedAs_failsClean_iff.mpr (callConnected_failsClean hnot)

/-! ## A counter whose call is refused -/

/-- The artifact of a counter: one number, one method that pays change. -/
def counterArtifact : RunarArtifact :=
  { contractName := "Counter", parentClass := some "StatefulSmartContract",
    constructorParams := [{ name := "count", type := .primitive .bigint }],
    methods := [{ name := "increment",
                  params := [{ name := "_changePKH", type := .primitive .Ripemd160 },
                             { name := "_changeAmount", type := .primitive .bigint },
                             { name := "txPreimage", type := .primitive .SigHashPreimage }],
                  isPublic := true, usesCodePart := some true, sigHashType := none }],
    script := "51".toList,
    stateFields := [{ name := "count", shape := .scalar .bigint, index := 0,
                      initialValue := none }],
    constructorSlots := [], codeSepIndexSlots := [], codeSeparatorIndex := none,
    codeSeparatorIndices := none, anf := none }

/-- The counter at zero, deployed and connected. -/
def counterWorld : World :=
  { contract :=
      { artifact := counterArtifact, constructorArgs := [.bigint 0],
        state := initialState counterArtifact.constructorParams counterArtifact.stateFields
          [.bigint 0],
        codeScript := none, inscription := none,
        currentUtxo := some { txid := "aa", outputIndex := 0, satoshis := 1000,
                              script := "516a0000000000000000".toList },
        provider := some 0, signer := some 0, prevOutScripts := [], serialisedOutputs := none },
    clock := 0, prepared := 0, consumed := [] }

/-- The functions of other files, as they behave for this call. -/
def counterTools : Toolbox :=
  { serializeState := fun _ state =>
      match state.get "count" with
      | .bigint n =>
          match encodeNum2Bin n 8 "count" with
          | .ok hex => .ok hex
          | .error e => .error e.message
      | _ => .error "Cannot convert undefined to a BigInt",
    computeNewStateAndDataOutputs := fun _ _ _ _ _ => .error "no program",
    fromHex := fun hex => .ok hex, toHex := fun _ => [],
    hash160 := fun _ => .ok "751e76e8199196d454941c45d1b3a323f1433bd6".toList,
    computeBip143Sighash := fun hex => .ok hex,
    buildP2PKHScript := fun _ => .error "not reached",
    selectUtxos := fun _ _ _ _ _ _ => [],
    buildDeployTransaction := fun _ _ _ _ _ _ => .error "not reached",
    buildCallTransaction := fun _ => .error "not reached",
    computeOpPushTx := fun _ _ _ _ _ _ => .error "not reached",
    dryRunContractInput := fun _ _ _ _ => none,
    outputsOfBeef := fun _ => .error "not reached" }

/-- A provider that is down, and a signer that answers. -/
def providerDown : Outside :=
  { provider := fun _ =>
      { getFeeRate := fun _ => .error "connect ECONNREFUSED",
        getUtxos := fun _ _ => .error "connect ECONNREFUSED",
        broadcast := fun _ _ => .error "connect ECONNREFUSED",
        getTransaction := fun _ _ => .error "connect ECONNREFUSED" },
    wallet := fun _ => none,
    signer := fun _ =>
      { getAddress := fun _ => .ok "1BgGZ9tcN4rm9KBzDn7KprQz87SZ26SAMH",
        getPublicKey := fun _ =>
          .ok "0279be667ef9dcbbac55a06295ce870b07029bfcdb2dce28d959f2815b16f81798".toList,
        sign := fun _ _ _ _ _ => .error "not reached" } }

/-- The call that sets the counter to one fails, and the counter is one. -/
theorem not_failures_keep_object :
    ¬ ∀ (tools : Toolbox) (outside : Outside) (w : World) (op : Operation),
      FailsClean objectView (op.run tools outside) w := by
  intro hall
  have hclean := hall counterTools providerDown counterWorld
    (.prepareCall "increment" []
      { CallOptions.none with newState := some fun key =>
          if key = "count" then some (.bigint 1) else none })
    "connect ECONNREFUSED" rfl
  have hcount := congrFun (congrArg Prod.fst hclean) "count"
  have hone : some (JsValue.bigint 1) = some (JsValue.bigint 0) := hcount
  simp at hone

end Runar.Sdk
