/-
  Validate/Sighash.lean --- the calls a sighash mode allows.

  WHAT THIS FILE IS FOR.  A public method may declare what of the transaction its
  preimage signs.  A relaxed mode clears fields of the preimage or signs fewer outputs,
  and the validator rejects the methods that read what is cleared or emit what is not
  signed.  It walks over the method's text and counts the calls it sees.

  WHAT IT MISSES.  The walk does not look into the operand of `++` and `--`, and counts a
  call in a loop once.
-/
import Runar.Validate.CallPaths

set_option autoImplicit false

namespace Runar.Validate

open Ast AnfLower Logic

/-! ## Modes -/

def baseTypeMask : Nat := 0x1f

def baseAll : Nat := 0x01

def baseNone : Nat := 0x02

def baseSingle : Nat := 0x03

def flagForkid : Nat := 0x40

def flagAnyonecanpay : Nat := 0x80

def sighashBase (mode : Nat) : Nat := mode &&& baseTypeMask

def anyonecanpay (mode : Nat) : Bool := mode &&& flagAnyonecanpay != 0

def describeSighash (mode : Nat) : String :=
  let base :=
    if sighashBase mode = baseAll then "ALL"
    else if sighashBase mode = baseNone then "NONE"
    else if sighashBase mode = baseSingle then "SINGLE"
    else "0x" ++ String.ofList (Nat.toDigits 16 (sighashBase mode))
  "|".intercalate ([base] ++ (if anyonecanpay mode then ["ANYONECANPAY"] else []) ++
    if mode &&& flagForkid != 0 then ["FORKID"] else [])

/-- The digest of the inputs' sequence numbers is signed by plain `ALL` only. -/
def hashSequenceSound (mode : Nat) : Bool := sighashBase mode == baseAll && !anyonecanpay mode

/-! ## The scan of a method -/

def hashPrevoutsReaders : List String := ["extractHashPrevouts"]

def hashSequenceReaders : List String := ["extractHashSequence"]

def hashOutputsReaders : List String := ["extractOutputHash", "extractOutputs"]

def prevoutScriptIntrinsics : List String := ["extractPrevOutputScript"]

def outputAssertIntrinsics : List String := ["requireOutputP2PKH"]

structure MethodScan where
  hashPrevoutsReads : List String
  hashSequenceReads : List String
  hashOutputsReads : List String
  prevoutScriptReads : List String
  outputAsserts : List String
  stateOutputCount : Nat
  dataOutputCount : Nat
  deriving DecidableEq, Repr

def scanCalls (calls : List String) : MethodScan where
  hashPrevoutsReads := calls.filter hashPrevoutsReaders.contains
  hashSequenceReads := calls.filter hashSequenceReaders.contains
  hashOutputsReads := calls.filter hashOutputsReaders.contains
  prevoutScriptReads := calls.filter prevoutScriptIntrinsics.contains
  outputAsserts := calls.filter outputAssertIntrinsics.contains
  stateOutputCount := calls.countP stateOutputIntrinsics.contains
  dataOutputCount := calls.countP dataOutputIntrinsics.contains

def scanMethod (contract : ContractNode) (m : MethodNode) : MethodScan :=
  scanCalls (walkMethod contract m)

/-! ## The rules -/

inductive Severity where
  | error
  | warning
  deriving DecidableEq, Repr

structure Diagnostic where
  message : String
  severity : Severity
  deriving DecidableEq, Repr

/-- One error for each call of a list. -/
def pushAll (calls : List String) (message : String → String) : List Diagnostic :=
  calls.map fun name => ⟨message name, .error⟩

section Rules

variable (label : String) (scan : MethodScan) (needsContinuation : Bool)

def anyonecanpayRule : List Diagnostic :=
  pushAll scan.hashPrevoutsReads (fun name =>
    "@sighash " ++ label ++ ": '" ++ name ++ "' reads hashPrevouts, which is zeroed under " ++
    "ANYONECANPAY (only this input is signed) — the covenant cannot constrain the input set, " ++
    "so any check on it is trivially bypassable. Remove ANYONECANPAY or drop the " ++ name ++
    " read.") ++
  pushAll scan.prevoutScriptReads fun name =>
    "@sighash " ++ label ++ ": '" ++ name ++ "' binds a companion input's prevout script, but " ++
    "ANYONECANPAY zeroes hashPrevouts so the input set is unconstrained — an attacker can " ++
    "substitute inputs freely. Companion-input covenants require the full prevout set to be " ++
    "committed (drop ANYONECANPAY)."

def hashSequenceRule : List Diagnostic :=
  pushAll scan.hashSequenceReads fun name =>
    "@sighash " ++ label ++ ": '" ++ name ++ "' reads hashSequence, which is zeroed under any " ++
    "mode other than SIGHASH_ALL (NONE / SINGLE / ANYONECANPAY all clear it) — the read yields " ++
    "attacker-chosen zeros. Use SIGHASH_ALL or drop the " ++ name ++ " read."

/-- The outputs a method emits as the walk counts them. -/
def emittedCount : Nat := scan.stateOutputCount + scan.dataOutputCount

def noneRule : List Diagnostic :=
  (if needsContinuation then
    [⟨"@sighash " ++ label ++ ": this stateful method binds a state-continuation output via " ++
      "hashOutputs, but NONE commits to NO outputs (hashOutputs is zeroed) — the continuation " ++
      "is unenforceable, so the next-state covenant is meaningless and the spend is unsound. A " ++
      "continuation covenant cannot use NONE.", .error⟩]
  else []) ++
  pushAll scan.hashOutputsReads (fun name =>
    "@sighash " ++ label ++ ": '" ++ name ++ "' reads hashOutputs, which is zeroed under NONE " ++
    "— the read yields attacker-chosen zeros. Drop the output read or use ALL/SINGLE.") ++
  pushAll scan.outputAsserts (fun name =>
    "@sighash " ++ label ++ ": '" ++ name ++ "' asserts an output, but NONE commits to no " ++
    "outputs — the assertion cannot be enforced. Use ALL/SINGLE.") ++
  if emittedCount scan > 0 then
    [⟨"@sighash " ++ label ++ ": this method emits " ++ toString (emittedCount scan) ++
      " output(s) (addOutput/addRawOutput/addDataOutput), but NONE commits to no outputs — " ++
      "those outputs are unenforceable. Use ALL/SINGLE.", .error⟩]
  else []

/-- The outputs of a state: those emitted, or the one the compiler adds. -/
def stateOutputs : Nat :=
  if scan.stateOutputCount > 0 then scan.stateOutputCount else if needsContinuation then 1 else 0

def committedCount : Nat := stateOutputs scan needsContinuation + scan.dataOutputCount

def singleRule : List Diagnostic :=
  pushAll scan.outputAsserts (fun name =>
    "@sighash " ++ label ++ ": '" ++ name ++ "' asserts an output at a fixed index, but SINGLE " ++
    "commits ONLY to the output at THIS input's index — the asserted index cannot be statically " ++
    "proven equal to the input index, so the assertion may bind an uncommitted " ++
    "(attacker-controllable) output or silently brick the spend. Use ALL.") ++
  if needsContinuation ∧ scan.stateOutputCount = 0 ∧ scan.dataOutputCount = 0 then
    [⟨"@sighash " ++ label ++ ": this stateful method's state continuation is sized by the " ++
      "caller-chosen _newAmount, but SINGLE commits ONLY to the same-index output WITHOUT " ++
      "pinning its value — a spender can set _newAmount to dust, drive the change output to " ++
      "zero, and append a draining output while the covenant + OP_PUSH_TX binding still " ++
      "validate (value skim); an honest change>0 leaves the UTXO unspendable. A mutate-only " ++
      "SINGLE continuation is unsound. Use ALL, or emit an explicit addOutput/addRawOutput that " ++
      "carries the full protected value at this input's index.", .error⟩]
  else if committedCount scan needsContinuation > 1 then
    [⟨"@sighash " ++ label ++ ": SINGLE commits ONLY to the output at this input's index, but " ++
      "this method binds " ++ toString (committedCount scan needsContinuation) ++ " outputs (" ++
      toString scan.stateOutputCount ++ " addOutput + " ++ toString scan.dataOutputCount ++
      " addDataOutput" ++
      (if stateOutputs scan needsContinuation > scan.stateOutputCount then " + state continuation"
        else "") ++
      "). Outputs beyond the same-index one are uncommitted and attacker-controllable. A SINGLE " ++
      "covenant must bind exactly one same-index output.", .error⟩]
  else if committedCount scan needsContinuation = 1 then
    [⟨"@sighash " ++ label ++ ": SINGLE commits ONLY to the output at this input's index. This " ++
      "method binds exactly one output there, which is sound ONLY if that output carries the " ++
      "FULL protected value — SINGLE does not pin the amount, so a short-changed same-index " ++
      "output cannot be caught at compile time. Ensure the caller places the fully-valued " ++
      "output at this input's index.", .warning⟩]
  else []

end Rules

/-- The effects of a method; of methods of one name, the first counts. -/
def methodEffects (contract : ContractNode) (m : MethodNode) : Option MethodEffects :=
  (computeSideEffectSummary contract).lookup m.name

/-- The compiler binds outputs of its own to the method. -/
def needsContinuation (contract : ContractNode) (m : MethodNode) : Bool :=
  contract.parentClass == .statefulSmartContract &&
    (methodEffects contract m).any fun effects => (continuationShape effects).needsChange

/-- The diagnostics of a method with a declared mode. -/
def validateMethodSighash (contract : ContractNode) (m : MethodNode) (mode : Nat) :
    List Diagnostic :=
  let label := describeSighash mode
  let scan := scanMethod contract m
  (if anyonecanpay mode then anyonecanpayRule label scan else []) ++
  (if hashSequenceSound mode then [] else hashSequenceRule label scan) ++
  (if sighashBase mode = baseNone then noneRule label scan (needsContinuation contract m)
    else []) ++
  if sighashBase mode = baseSingle then singleRule label scan (needsContinuation contract m)
    else []

def validateSighashUsage (contract : ContractNode) : List Diagnostic :=
  contract.methods.flatMap fun m =>
    match m.visibility, m.sighashType with
    | .isPublic, some mode => validateMethodSighash contract m mode
    | _, _ => []

/-- The validator has no error to report. -/
def Accepted (contract : ContractNode) : Prop :=
  ∀ d ∈ validateSighashUsage contract, d.severity ≠ .error

instance (contract : ContractNode) : Decidable (Accepted contract) :=
  inferInstanceAs (Decidable (∀ d ∈ validateSighashUsage contract, d.severity ≠ .error))

/-! ## What a mode allows -/

/-- A call that emits an output. -/
def emitsOutput (name : String) : Bool :=
  stateOutputIntrinsics.contains name || dataOutputIntrinsics.contains name

/-- A call that reads the outputs, asserts one or emits one. -/
def usesOutputs (name : String) : Bool :=
  hashOutputsReaders.contains name || outputAssertIntrinsics.contains name || emitsOutput name

/-- A call that reads the digest of the inputs. -/
def usesPrevouts (name : String) : Bool :=
  hashPrevoutsReaders.contains name || prevoutScriptIntrinsics.contains name

/-- The compiler adds an output with the new state. -/
def addsStateOutput (contract : ContractNode) (m : MethodNode) : Bool :=
  contract.parentClass == .statefulSmartContract &&
    (methodEffects contract m).any fun effects => (continuationShape effects).needsNewAmount

/-- The calls of an execution keep to the mode: none reads a field that is cleared, under
`NONE` nothing is bound to an output, and under `SINGLE` at most one output is committed.
The change output, which a spender may leave out, is not counted. -/
structure Respects (contract : ContractNode) (m : MethodNode) (mode : Nat) (path : List String) :
    Prop where
  prevouts : anyonecanpay mode = true → ∀ name ∈ path, usesPrevouts name = false
  sequence : hashSequenceSound mode = false →
    ∀ name ∈ path, hashSequenceReaders.contains name = false
  outputs : sighashBase mode = baseNone →
    needsContinuation contract m = false ∧ ∀ name ∈ path, usesOutputs name = false
  single : sighashBase mode = baseSingle →
    path.countP emitsOutput + (addsStateOutput contract m).toNat ≤ 1

/-- Every execution of the method keeps to the mode. -/
def MethodRespects (contract : ContractNode) (m : MethodNode) (mode : Nat) : Prop :=
  ∀ path ∈ methodPaths contract m, Respects contract m mode path

/-- A call that the mode forbids. -/
def forbidden (mode : Nat) (name : String) : Bool :=
  (anyonecanpay mode && usesPrevouts name) ||
    (!hashSequenceSound mode && hashSequenceReaders.contains name) ||
    (sighashBase mode == baseNone && usesOutputs name)

/-! ## Executions against the count -/

section Counts

variable {contract : ContractNode} {m : MethodNode} {mode : Nat} {path : List String}

theorem respects_iff :
    Respects contract m mode path ↔
      (∀ name ∈ path, forbidden mode name = false) ∧
      (sighashBase mode = baseNone → needsContinuation contract m = false) ∧
      (sighashBase mode = baseSingle →
        path.countP emitsOutput + (addsStateOutput contract m).toNat ≤ 1) := by
  constructor
  · intro h
    refine ⟨fun name hname => ?_, fun hnone => (h.outputs hnone).1, h.single⟩
    simp only [forbidden, Bool.or_eq_false_iff, Bool.and_eq_false_imp, beq_iff_eq,
      Bool.not_eq_true']
    exact ⟨⟨fun hacp => h.prevouts hacp name hname,
      fun hsequence => h.sequence hsequence name hname⟩,
      fun hnone => (h.outputs hnone).2 name hname⟩
  · rintro ⟨hforbidden, hnone, hsingle⟩
    simp only [forbidden, Bool.or_eq_false_iff, Bool.and_eq_false_imp, beq_iff_eq,
      Bool.not_eq_true'] at hforbidden
    exact {
      prevouts := fun hacp name hname => (hforbidden name hname).1.1 hacp
      sequence := fun hsequence name hname => (hforbidden name hname).1.2 hsequence
      outputs := fun h => ⟨hnone h, fun name hname => (hforbidden name hname).2 h⟩
      single := hsingle }

/-- Every execution keeps to the mode if the counts over the text do. -/
theorem methodRespects_iff :
    MethodRespects contract m mode ↔
      (countMethod contract (forbidden mode) m).most = 0 ∧
      (sighashBase mode = baseNone → needsContinuation contract m = false) ∧
      (sighashBase mode = baseSingle →
        (countMethod contract emitsOutput m).most + (addsStateOutput contract m).toNat ≤ 1) := by
  have hpeak := peak_method contract emitsOutput m
  obtain ⟨path, hpath, hmost⟩ := hpeak.attained
  rw [← forall_paths_iff]
  simp only [MethodRespects, respects_iff]
  constructor
  · intro h
    refine ⟨fun p hp => (h p hp).1, (h path hpath).2.1, fun hsingle => ?_⟩
    rw [← hmost]
    exact (h path hpath).2.2 hsingle
  · rintro ⟨hforbidden, hnone, hsingle⟩ p hp
    refine ⟨hforbidden p hp, hnone, fun h => ?_⟩
    have hbound := hpeak.bound p hp
    have hle := hsingle h
    omega

end Counts

/-! ## What acceptance says -/

/-- No diagnostic is an error. -/
def NoErrors (diagnostics : List Diagnostic) : Prop := ∀ d ∈ diagnostics, d.severity ≠ .error

theorem noErrors_append {ds ds' : List Diagnostic} :
    NoErrors (ds ++ ds') ↔ NoErrors ds ∧ NoErrors ds' := List.forall_mem_append

theorem not_noErrors_error {message : String} {ds : List Diagnostic} :
    ¬ NoErrors (⟨message, .error⟩ :: ds) := fun h => h _ List.mem_cons_self rfl

/-- Every call of a list that is reported is an error, so without errors there is none. -/
theorem forall_of_noErrors_pushAll {calls readers : List String} {message : String → String}
    (h : NoErrors (pushAll (calls.filter readers.contains) message)) :
    ∀ name ∈ calls, readers.contains name = false := by
  intro name hname
  by_contra hread
  have hmem : name ∈ calls.filter readers.contains :=
    List.mem_filter.mpr ⟨hname, by simpa using hread⟩
  exact h _ (List.mem_map_of_mem hmem) rfl

section Acceptance

variable {label : String} {calls : List String} {continues : Bool}

theorem usesPrevouts_of_noErrors (h : NoErrors (anyonecanpayRule label (scanCalls calls))) :
    ∀ name ∈ calls, usesPrevouts name = false := by
  obtain ⟨hprevouts, hscript⟩ := noErrors_append.mp h
  intro name hname
  rw [usesPrevouts, forall_of_noErrors_pushAll hprevouts name hname,
    forall_of_noErrors_pushAll hscript name hname, Bool.or_false]

/-- Under `NONE` the rules leave neither a continuation nor a call about outputs. -/
theorem usesOutputs_of_noErrors (h : NoErrors (noneRule label (scanCalls calls) continues)) :
    continues = false ∧ ∀ name ∈ calls, usesOutputs name = false := by
  obtain ⟨h, hemits⟩ := noErrors_append.mp h
  obtain ⟨h, hasserts⟩ := noErrors_append.mp h
  obtain ⟨hcontinues, hreads⟩ := noErrors_append.mp h
  constructor
  · cases continues with
    | false => rfl
    | true => exact absurd hcontinues not_noErrors_error
  · have hzero : emittedCount (scanCalls calls) = 0 := by
      by_contra hne
      rw [if_pos (Nat.pos_of_ne_zero hne)] at hemits
      exact not_noErrors_error hemits
    obtain ⟨hstate, hdata⟩ := Nat.add_eq_zero_iff.mp hzero
    intro name hname
    have hnstate := List.countP_eq_zero.mp hstate name hname
    have hndata := List.countP_eq_zero.mp hdata name hname
    rw [usesOutputs, emitsOutput, forall_of_noErrors_pushAll hreads name hname,
      forall_of_noErrors_pushAll hasserts name hname, Bool.eq_false_of_not_eq_true hnstate,
      Bool.eq_false_of_not_eq_true hndata]
    rfl

end Acceptance

section Accepted

variable {contract : ContractNode} {m : MethodNode} {mode : Nat}

theorem Accepted.noErrors (h : Accepted contract) (hm : m ∈ contract.methods)
    (hpublic : m.visibility = .isPublic) (hmode : m.sighashType = some mode) :
    NoErrors (validateMethodSighash contract m mode) := by
  intro d hd
  refine h d (List.mem_flatMap.mpr ⟨m, hm, ?_⟩)
  rw [hpublic, hmode]
  exact hd

/-- The walk over an accepted method sees no call that its mode forbids. -/
theorem forbidden_of_noErrors (h : NoErrors (validateMethodSighash contract m mode)) :
    ∀ name ∈ walkMethod contract m, forbidden mode name = false := by
  obtain ⟨h, -⟩ := noErrors_append.mp h
  obtain ⟨h, hnone⟩ := noErrors_append.mp h
  obtain ⟨hacp, hsequence⟩ := noErrors_append.mp h
  intro name hname
  simp only [forbidden, Bool.or_eq_false_iff, Bool.and_eq_false_imp, beq_iff_eq,
    Bool.not_eq_true']
  refine ⟨⟨fun hpay => ?_, fun hunsound => ?_⟩, fun hbase => ?_⟩
  · rw [if_pos hpay] at hacp
    exact usesPrevouts_of_noErrors hacp name hname
  · rw [hunsound] at hsequence
    exact forall_of_noErrors_pushAll hsequence name hname
  · rw [if_pos hbase] at hnone
    exact (usesOutputs_of_noErrors hnone).2 name hname

theorem needsContinuation_of_noErrors (h : NoErrors (validateMethodSighash contract m mode))
    (hbase : sighashBase mode = baseNone) : needsContinuation contract m = false := by
  obtain ⟨h, -⟩ := noErrors_append.mp h
  obtain ⟨-, hnone⟩ := noErrors_append.mp h
  rw [if_pos hbase] at hnone
  exact (usesOutputs_of_noErrors hnone).1

end Accepted

/-! ## A read in an operand -/

/-- `this.slots[bin2num(extractHashPrevouts(this.txPreimage))]` -/
def slotOfPrevouts : Expression :=
  .indexAccess (.propertyAccess "slots")
    (.callExpr (.identifier "bin2num")
      [.callExpr (.identifier "extractHashPrevouts") [.propertyAccess "txPreimage"] none] none)

/-- `const before = …; assert(before > 0n);` under `ALL|ANYONECANPAY|FORKID`. -/
def slotMethod (init : Expression) : MethodNode where
  name := "take"
  params := []
  body := [.variableDecl "before" none init,
    .expressionStatement (.callExpr (.identifier "assert")
      [.binaryExpr .gt (.identifier "before") (.bigintLiteral 0)] none)]
  visibility := .isPublic
  sighashType := some 0xc1

def slotContract (init : Expression) : ContractNode where
  parentClass := .statefulSmartContract
  properties := [⟨"slots", .fixedArray (.primitive .bigint) 4, false, none, false⟩]
  constructor := ⟨"constructor", [], [], .isPublic, none⟩
  methods := [slotMethod init]

end Runar.Validate
