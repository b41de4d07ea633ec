/-
  Testing/PathAnalyzer.lean --- the execution paths of a script.

  WHAT THIS FILE IS FOR.  `analyzer/path-analyzer.ts` matches the conditionals of a script, and
  for each pattern of choices, one for every OP_IF and OP_NOTIF, walks along the script as the
  choices say.  The effects of the opcodes it comes by are added up.
-/
import Runar.Testing.StackAnalyzer

set_option autoImplicit false

namespace Runar.Testing

open Script Logic

/-! ## Kinds of opcodes -/

/-- An OP_IF or OP_NOTIF. -/
def opensBranch (op : ParsedOpcode) : Bool := op.opcode == 0x63 || op.opcode == 0x64

def isFlowControl (op : ParsedOpcode) : Bool :=
  opensBranch op || op.opcode == 0x67 || op.opcode == 0x68

def isCheckSigOpcode (op : ParsedOpcode) : Bool :=
  op.opcode == 0xac || op.opcode == 0xad || op.opcode == 0xae || op.opcode == 0xaf

/-- The opcodes that can fail a script. -/
def VERIFICATION_OPCODES : List UInt8 := [0x69, 0x6a, 0x88, 0x9d, 0xac, 0xad, 0xae, 0xaf]

def MAX_PATHS : Nat := 256

/-! ## The branch structure -/

structure BranchPoint where
  ifIndex : Nat
  /-- `none` where the source has -1 -/
  elseIndex : Option Nat
  endifIndex : Nat
  isNotIf : Bool
  deriving DecidableEq, Repr

/-- A conditional that is open. -/
structure OpenBranch where
  ifIndex : Nat
  elseIndex : Option Nat
  isNotIf : Bool
  deriving DecidableEq, Repr

/-- What the loop over the opcodes has: the open conditionals, innermost first, and what it has
found. -/
structure BranchStructure where
  stack : List OpenBranch
  branches : List BranchPoint
  findings : List AnalysisFinding

def unmatched (op : ParsedOpcode) (name message : String) : AnalysisFinding :=
  { severity := .error, code := .UNBALANCED_IF_ENDIF, message, offset := some op.offset,
    opcode := some name }

/-- One round of the loop. -/
def structureStep (i : Nat) (op : ParsedOpcode) (s : BranchStructure) : BranchStructure :=
  if opensBranch op then { s with stack := ⟨i, none, op.opcode == 0x64⟩ :: s.stack }
  else if op.opcode = 0x67 then
    match s.stack with
    | [] => { s with
        findings := s.findings ++ [unmatched op "OP_ELSE" "OP_ELSE without matching OP_IF"] }
    | branch :: rest => { s with stack := { branch with elseIndex := some i } :: rest }
  else if op.opcode = 0x68 then
    match s.stack with
    | [] => { s with
        findings := s.findings ++ [unmatched op "OP_ENDIF" "OP_ENDIF without matching OP_IF"] }
    | branch :: rest => { s with
        stack := rest
        branches := s.branches ++ [⟨branch.ifIndex, branch.elseIndex, i, branch.isNotIf⟩] }
  else s

def structureLoop : Nat → List ParsedOpcode → BranchStructure → BranchStructure
  | _, [], s => s
  | i, op :: opcodes, s => structureLoop (i + 1) opcodes (structureStep i op s)

/-- The conditionals of a script, in the order in which they are closed. -/
def buildBranchStructure (opcodes : List ParsedOpcode) :
    List BranchPoint × List AnalysisFinding :=
  let s := structureLoop 0 opcodes ⟨[], [], []⟩
  let left := s.stack.reverse.filterMap fun branch =>
    opcodes[branch.ifIndex]?.map fun op =>
      unmatched op op.name (op.name ++ " at offset " ++ toString op.offset ++
        " has no matching OP_ENDIF")
  (s.branches, s.findings ++ left)

/-- `map.set`: the conditional takes the place of one with its key, or comes last. -/
def setBranch (lookup : List BranchPoint) (branch : BranchPoint) : List BranchPoint :=
  if lookup.any (·.ifIndex == branch.ifIndex) then
    lookup.map fun other => if other.ifIndex == branch.ifIndex then branch else other
  else lookup ++ [branch]

/-- The map from the places of the OP_IF, as its values in their order. -/
def buildBranchLookup (branches : List BranchPoint) : List BranchPoint :=
  branches.foldl setBranch []

def getBranch (lookup : List BranchPoint) (ifIndex : Nat) : Option BranchPoint :=
  lookup.find? fun branch => branch.ifIndex == ifIndex

def findBranchByElse (lookup : List BranchPoint) (elseIndex : Nat) : Option BranchPoint :=
  lookup.find? fun branch => branch.elseIndex == some elseIndex

/-! ## The opcodes of a path -/

/-- Where the walk goes on from a conditional. -/
def afterChoice (branch : BranchPoint) (i : Nat) (choice : Bool) : Nat :=
  if choice then i + 1
  else
    match branch.elseIndex with
    | some elseIndex => elseIndex + 1
    | none => branch.endifIndex + 1

/-- The walk from a place on, for some rounds at most. -/
def collectLoop (opcodes : List ParsedOpcode) (choices : List Bool) (lookup : List BranchPoint) :
    Nat → Nat → Nat → Option (List ParsedOpcode)
  | 0, _, _ => none
  | fuel + 1, i, choiceIdx =>
      match opcodes[i]? with
      | none => some []
      | some op =>
          if opensBranch op then
            match getBranch lookup i with
            | none => collectLoop opcodes choices lookup fuel (i + 1) choiceIdx
            | some branch =>
                let choice := choices[choiceIdx]?.getD true
                collectLoop opcodes choices lookup fuel (afterChoice branch i choice)
                  (choiceIdx + 1)
          else if op.opcode = 0x67 then
            -- at the end of an arm that was taken
            match findBranchByElse lookup i with
            | some branch =>
                collectLoop opcodes choices lookup fuel (branch.endifIndex + 1) choiceIdx
            | none => collectLoop opcodes choices lookup fuel (i + 1) choiceIdx
          else if op.opcode = 0x68 then
            collectLoop opcodes choices lookup fuel (i + 1) choiceIdx
          else (collectLoop opcodes choices lookup fuel (i + 1) choiceIdx).map (op :: ·)

/-- The opcodes on the path with these choices.  Each round goes on behind its place. -/
def collectPathOpcodes (opcodes : List ParsedOpcode) (choices : List Bool)
    (lookup : List BranchPoint) : Option (List ParsedOpcode) :=
  collectLoop opcodes choices lookup (opcodes.length + 1) 0 0

def countBranchPoints (opcodes : List ParsedOpcode) : Nat := (opcodes.filter opensBranch).length

/-! ## Findings about paths and conditionals -/

def isUnconditionallySuccessful (pathOpcodes : List ParsedOpcode) : Bool :=
  !pathOpcodes.isEmpty && pathOpcodes.all fun op => !VERIFICATION_OPCODES.contains op.opcode

/-- The sum of the effects in a range without a conditional. -/
def flatBranchDelta (opcodes : List ParsedOpcode) (start stop : Nat) : Option Int :=
  let range := (opcodes.drop start).take (stop - start)
  if range.any opensBranch then none
  else some ((range.filter fun op => !isFlowControl op).map tableChange).sum

def inconsistentDepth (opcodes : List ParsedOpcode) (branch : BranchPoint) (message : String) :
    List AnalysisFinding :=
  opcodes[branch.endifIndex]?.toList.map fun endifOp =>
    { severity := .warning, code := .INCONSISTENT_BRANCH_DEPTH, message,
      offset := some endifOp.offset, opcode := some endifOp.name }

def detectInconsistentBranchDepth (opcodes : List ParsedOpcode) (branches : List BranchPoint) :
    List AnalysisFinding :=
  branches.flatMap fun branch =>
    match branch.elseIndex with
    | none =>
        match flatBranchDelta opcodes (branch.ifIndex + 1) branch.endifIndex with
        | none => []
        | some thenDelta =>
            if thenDelta ≠ 0 then
              inconsistentDepth opcodes branch ("OP_IF body has net stack delta " ++
                toString thenDelta ++ "; without an OP_ELSE the depth after OP_ENDIF depends on " ++
                "the branch condition")
            else []
    | some elseIndex =>
        match flatBranchDelta opcodes (branch.ifIndex + 1) elseIndex,
            flatBranchDelta opcodes (elseIndex + 1) branch.endifIndex with
        | some thenDelta, some elseDelta =>
            if thenDelta ≠ elseDelta then
              inconsistentDepth opcodes branch ("IF/ELSE branches leave different stack depths " ++
                "(THEN: " ++ toString thenDelta ++ ", ELSE: " ++ toString elseDelta ++
                ") — code after OP_ENDIF will see a depth that depends on which branch ran")
            else []
        | _, _ => []

def describeChoices (choices : List Bool) (opcodes : List ParsedOpcode) : String :=
  if choices.isEmpty then "linear (no branches)"
  else
    let parts := List.zipWith (fun (choice : Bool) (op : ParsedOpcode) =>
      (if op.opcode = 0x64 then "NOTIF" else "IF") ++ "[" ++ (if choice then "true" else "false") ++
        "] at " ++ toString op.offset) choices (opcodes.filter opensBranch)
    " -> ".intercalate parts

/-! ## The paths -/

structure ExecutionPath where
  id : Nat
  description : String
  branchChoices : List Bool
  reachable : Bool
  hasCheckSig : Bool
  stackDepthAtEnd : Int

structure Analysis where
  paths : List ExecutionPath
  findings : List AnalysisFinding

def pathOf (id : Nat) (description : String) (branchChoices : List Bool)
    (pathOpcodes : List ParsedOpcode) : ExecutionPath :=
  { id, description, branchChoices, reachable := true,
    hasCheckSig := pathOpcodes.any isCheckSigOpcode,
    stackDepthAtEnd := (analyzeStackLinear pathOpcodes 0).depth }

def succeeds (description : String) (pathOpcodes : List ParsedOpcode) : List AnalysisFinding :=
  if isUnconditionallySuccessful pathOpcodes then
    [{ severity := .warning, code := .UNCONDITIONALLY_SUCCEEDS,
       message := "Execution path has no verification opcode — any unlocking input will satisfy it",
       path := some description }]
  else []

/-- The choices of a combination: its bits, lowest first.  The source takes no bit from the
thirty-first on. -/
def choicesOf (numBranches combo : Nat) : List Bool :=
  (List.range numBranches).map fun b => if b < 31 then combo.testBit b else false

/-- The opcodes of the path with these choices. -/
def pathOpcodes (opcodes : List ParsedOpcode) (choices : List Bool) : Option (List ParsedOpcode) :=
  if countBranchPoints opcodes = 0 then some (opcodes.filter fun op => !isFlowControl op)
  else collectPathOpcodes opcodes choices (buildBranchLookup (buildBranchStructure opcodes).1)

/-- The path of a script without conditionals. -/
def linearPath (taken : List ParsedOpcode) : ExecutionPath × List AnalysisFinding :=
  (pathOf 0 "linear (no branches)" [] taken,
    (analyzeStackLinear taken 0).findings ++ succeeds "linear (no branches)" taken)

/-- The path of a combination of choices. -/
def branchingPath (opcodes : List ParsedOpcode) (combo : Nat) :
    Option (ExecutionPath × List AnalysisFinding) :=
  let choices := choicesOf (countBranchPoints opcodes) combo
  let description := describeChoices choices opcodes
  (pathOpcodes opcodes choices).map fun taken =>
    (pathOf combo description choices taken,
      (analyzeStackLinear taken 0).findings.map (fun f => { f with path := some description }) ++
        succeeds description taken)

/-- How many combinations are looked at. -/
def totalCombinations (numBranches : Nat) : Nat :=
  if numBranches < 53 then min (2 ^ numBranches) MAX_PATHS else MAX_PATHS

def truncated (numBranches : Nat) : List AnalysisFinding :=
  if numBranches < 53 ∧ 2 ^ numBranches ≤ MAX_PATHS then []
  else
    let pathsClause :=
      if numBranches < 53 then
        "2^" ++ toString numBranches ++ " = " ++ toString (2 ^ numBranches) ++ " paths"
      else "more than 2^53 paths"
    [{ severity := .warning, code := .PATHS_TRUNCATED,
       message := "Script has " ++ toString numBranches ++ " branch points (" ++ pathsClause ++
         "); analysis truncated to the first 256. Consider reducing branching or splitting the " ++
         "contract into smaller spending paths." }]

/-- The paths of a script and what was found on them. -/
def analyzePaths (opcodes : List ParsedOpcode) : Option Analysis :=
  let (branches, findings) := buildBranchStructure opcodes
  if findings.any (·.code == .UNBALANCED_IF_ENDIF) then some ⟨[], findings⟩
  else
    let numBranches := countBranchPoints opcodes
    let each : Option (List (ExecutionPath × List AnalysisFinding)) :=
      if numBranches = 0 then (pathOpcodes opcodes []).map fun taken => [linearPath taken]
      else (List.range (totalCombinations numBranches)).mapM (branchingPath opcodes)
    let early := if numBranches = 0 then [] else truncated numBranches
    each.map fun each => ⟨each.map (·.1),
      findings ++ early ++ each.flatMap (·.2) ++ detectInconsistentBranchDepth opcodes branches⟩

end Runar.Testing
