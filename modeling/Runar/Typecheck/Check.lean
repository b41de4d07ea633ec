/-
  Typecheck/Check.lean --- the type checker.

  WHAT THIS FILE IS FOR.  The checker walks over a method with an environment of
  scopes, infers a type for every expression and reports what does not fit.  It
  also reports a signature or a preimage that is consumed twice.  The return types
  of private methods are guessed beforehand, from their return expressions alone.

  A CONTRACT IS ACCEPTED when nothing is reported.
-/
import Runar.Typecheck.Types

set_option autoImplicit false

namespace Runar.Typecheck

open Ast

/-! ## Diagnostics -/

/-- What the checker reports. -/
inductive Diagnostic where
  | notAssignable (actual expected : TType)
  | ifCondition (actual : TType)
  | forCondition (actual : TType)
  | undefinedVariable (name : String)
  | noSuchProperty (name : String)
  | noSuchMember (name : String)
  | ternaryCondition (actual : TType)
  | ternaryBranches (consequent alternate : TType)
  | arrayIndex (actual : TType)
  | increment (op : String) (actual : TType)
  | arrayElement (expected actual : TType)
  | operand (side : String) (op : BinaryOp) (expected : String) (actual : TType)
  | compare (left right : TType) (op : BinaryOp)
  | unaryOperand (op : String) (expected : String) (actual : TType)
  | unknownFunction (name : String)
  | unknownMethod (name : String)
  | statefulOnly (func : String)
  | statefulMethodsOnly (func : String)
  | arity (func : String) (expected : String) (actual : Nat)
  | outputArg (func arg : String) (expected : String) (actual : TType)
  | argument (index : Nat) (func : String) (expected actual : TType)
  | assertCondition (actual : TType)
  | indexLiteral (func problem : String)
  | prefixLenLiteral (problem : String)
  | consumedTwice (label : String)
  deriving Repr

namespace TType

/-- The text of a type. -/
def text : TType → String
  | .prim .bigint => "bigint"
  | .prim .boolean => "boolean"
  | .prim .ByteString => "ByteString"
  | .prim .PubKey => "PubKey"
  | .prim .Sig => "Sig"
  | .prim .Sha256 => "Sha256"
  | .prim .Ripemd160 => "Ripemd160"
  | .prim .Addr => "Addr"
  | .prim .SigHashPreimage => "SigHashPreimage"
  | .prim .RabinSig => "RabinSig"
  | .prim .RabinPubKey => "RabinPubKey"
  | .prim .Point => "Point"
  | .prim .P256Point => "P256Point"
  | .prim .P384Point => "P384Point"
  | .void => "void"
  | .unknown => "<unknown>"
  | .inferred => "<inferred>"
  | .this => "<this>"
  | .super => "<super>"
  | .builtin => "<builtin>"
  | .namespaceType => "<namespace>"
  | .method => "<method>"
  | .custom name => name
  | .array element => element.text ++ "[]"

end TType

namespace Diagnostic

private def quoted (s : String) : String := "'" ++ s ++ "'"

/-- The text of a diagnostic. -/
def message : Diagnostic → String
  | notAssignable actual expected =>
      "Type " ++ quoted actual.text ++ " is not assignable to type " ++ quoted expected.text
  | ifCondition actual => "If condition must be boolean, got " ++ quoted actual.text
  | forCondition actual => "For loop condition must be boolean, got " ++ quoted actual.text
  | undefinedVariable name => "Undefined variable " ++ quoted name
  | noSuchProperty name => "Property " ++ quoted name ++ " does not exist on the contract"
  | noSuchMember name => "Property or method " ++ quoted name ++ " does not exist on the contract"
  | ternaryCondition actual => "Ternary condition must be boolean, got " ++ quoted actual.text
  | ternaryBranches consequent alternate =>
      "Ternary branches have incompatible types: " ++ quoted consequent.text ++ " and " ++
        quoted alternate.text
  | arrayIndex actual => "Array index must be bigint, got " ++ quoted actual.text
  | increment op actual => op ++ " operator requires bigint, got " ++ quoted actual.text
  | arrayElement expected actual =>
      "Array element type mismatch: expected " ++ quoted expected.text ++ ", got " ++
        quoted actual.text
  | operand side op expected actual =>
      side ++ " operand of " ++ quoted (opText op) ++ " must be " ++ expected ++ ", got " ++
        quoted actual.text
  | compare left right op =>
      "Cannot compare " ++ quoted left.text ++ " and " ++ quoted right.text ++ " with " ++
        quoted (opText op)
  | unaryOperand op expected actual =>
      "Operand of " ++ op ++ " must be " ++ expected ++ ", got " ++ quoted actual.text
  | unknownFunction name =>
      "Unknown function " ++ quoted name ++
        ". Only Rúnar built-in functions and contract methods are allowed."
  | unknownMethod name =>
      "Unknown method " ++ quoted ("this." ++ name) ++
        ". Only Rúnar built-in methods (addOutput, addRawOutput, addDataOutput, " ++
        "getStateScript) and contract methods are allowed."
  | statefulOnly func => func ++ "() is only available in StatefulSmartContract"
  | statefulMethodsOnly func => func ++ "() is only available in StatefulSmartContract methods"
  | arity func expected actual =>
      func ++ "() " ++ expected ++ ", got " ++ toString actual
  | outputArg func arg expected actual =>
      func ++ "() " ++ arg ++ " must be " ++ expected ++ ", got " ++ quoted actual.text
  | argument index func expected actual =>
      "Argument " ++ toString index ++ " of " ++ func ++ "(): expected " ++ quoted expected.text ++
        ", got " ++ quoted actual.text
  | assertCondition actual => "assert() condition must be boolean, got " ++ quoted actual.text
  | indexLiteral func problem => func ++ "() argument 1 " ++ problem
  | prefixLenLiteral problem => "extractPrevOutputScript() argument 3 (prefixLen) " ++ problem
  | consumedTwice label => "affine value " ++ quoted label ++ " has already been consumed"

end Diagnostic

/-! ## The state of the checker -/

/-- What was reported, and which affine values are consumed in the method: a
parameter under its name, a property under `prop:` and its name. -/
structure CheckState where
  errors : List Diagnostic
  consumedValues : List String
  affineAliases : List (String × String)

abbrev Check : Type → Type := StateM CheckState

def report (d : Diagnostic) : Check Unit :=
  modify fun s => { s with errors := s.errors ++ [d] }

/-- Report unless a condition holds. -/
def require (condition : Bool) (d : Diagnostic) : Check Unit :=
  if condition then pure () else report d

/-- The scopes of a method, innermost first; in a scope the latest definition of a
name counts. -/
abbrev TypeEnv : Type := List (List (String × TType))

namespace TypeEnv

def empty : TypeEnv := [[]]

def pushScope (env : TypeEnv) : TypeEnv := [] :: env

def popScope (env : TypeEnv) : TypeEnv := env.tail

def define (env : TypeEnv) (name : String) (type : TType) : TypeEnv :=
  match env with
  | [] => [[(name, type)]]
  | scope :: scopes => ((name, type) :: scope) :: scopes

def lookup (env : TypeEnv) (name : String) : Option TType :=
  env.findSome? fun scope => scope.lookup name

end TypeEnv

/-- The tables of the checker; a later entry for a name replaces an earlier one. -/
structure TypeChecker where
  contract : ContractNode
  propTypes : List (String × TType)
  methodSigs : List (String × FuncSig)

namespace TypeChecker

def propType (tc : TypeChecker) (name : String) : Option TType :=
  tc.propTypes.reverse.lookup name

def methodSig (tc : TypeChecker) (name : String) : Option FuncSig :=
  tc.methodSigs.reverse.lookup name

def isStateful (tc : TypeChecker) : Bool := tc.contract.parentClass == .statefulSmartContract

def mutableProps (tc : TypeChecker) : List PropertyNode :=
  tc.contract.properties.filter fun p => !p.readonly

end TypeChecker

/-! ## Affine values -/

def isAffineType (t : TType) : Bool := t == .prim .Sig || t == .prim .SigHashPreimage

/-- The arguments a function consumes. -/
def consumedArg (func : String) : Option Nat :=
  if func = "checkSig" ∨ func = "checkMultiSig" ∨ func = "checkPreimage" then some 0 else none

/-- The value a name or a property stands for. -/
def affineOriginOfExpr (aliases : List (String × String)) : Expression → Option String
  | .identifier name => some ((aliases.lookup name).getD name)
  | .propertyAccess property => some ("prop:" ++ property)
  | _ => none

def affineExprType (tc : TypeChecker) (env : TypeEnv) : Expression → Option TType
  | .identifier name => env.lookup name
  | .propertyAccess property => tc.propType property
  | _ => none

def affineLabel (origin : String) : Expression → String
  | .identifier name => name
  | .propertyAccess property => "this." ++ property
  | _ => origin

def checkAffineConsumption (tc : TypeChecker) (env : TypeEnv) (func : String)
    (args : List Expression) : Check Unit := do
  match (consumedArg func).bind (args[·]?) with
  | none => pure ()
  | some arg =>
      if (affineExprType tc env arg).any isAffineType then
        let s ← get
        match affineOriginOfExpr s.affineAliases arg with
        | none => pure ()
        | some origin =>
            if s.consumedValues.contains origin then report (.consumedTwice (affineLabel origin arg))
            else set { s with consumedValues := origin :: s.consumedValues }

/-! ## Operators -/

/-- Both operands are integers. -/
def requireBigints (op : BinaryOp) (expected : String) (left right : TType) : Check Unit := do
  require (isBigintFamily left) (.operand "Left" op expected left)
  require (isBigintFamily right) (.operand "Right" op expected right)

def checkBinaryExpr (op : BinaryOp) (left right : TType) : Check TType :=
  match op with
  | .add =>
      if isByteFamily left && isByteFamily right then pure .byteString
      else do
        requireBigints op "bigint" left right
        pure .bigint
  | .sub | .mul | .div | .mod | .shl | .shr => do
      requireBigints op "bigint" left right
      pure .bigint
  | .lt | .le | .gt | .ge => do
      requireBigints op "bigint" left right
      pure .boolean
  | .eq | .ne => do
      require (isSubtype left right || isSubtype right left || left == .unknown || right == .unknown)
        (.compare left right op)
      pure .boolean
  | .and | .or => do
      require (left == .boolean || left == .unknown) (.operand "Left" op "boolean" left)
      require (right == .boolean || right == .unknown) (.operand "Right" op "boolean" right)
      pure .boolean
  | .bitAnd | .bitOr | .bitXor =>
      if isByteFamily left && isByteFamily right then pure .byteString
      else do
        requireBigints op "bigint or ByteString" left right
        pure .bigint

def checkUnaryExpr (op : UnaryOp) (operand : TType) : Check TType :=
  match op with
  | .not => do
      require (operand == .boolean || operand == .unknown) (.unaryOperand "'!'" "boolean" operand)
      pure .boolean
  | .neg => do
      require (isBigintFamily operand) (.unaryOperand "unary '-'" "bigint" operand)
      pure .bigint
  | .bitNot =>
      if isByteFamily operand then pure .byteString
      else do
        require (isBigintFamily operand) (.unaryOperand "'~'" "bigint or ByteString" operand)
        pure .bigint

/-! ## Names -/

def inferIdentifier (tc : TypeChecker) (env : TypeEnv) (name : String) : Check TType :=
  if name = "this" then pure .this
  else if name = "super" then pure .super
  else if name = "true" ∨ name = "false" then pure .boolean
  else
    match env.lookup name with
    | some t => pure t
    | none =>
        if (builtinSig name).isSome then pure .builtin
        else
          match knownGlobals.lookup name with
          | some t => pure t
          | none =>
              match tc.propType name with
              | some t => pure t
              | none => do
                  report (.undefinedVariable name)
                  pure .unknown

def inferPropertyAccess (tc : TypeChecker) (property : String) : Check TType :=
  match tc.propType property with
  | some t => pure t
  | none => do
      report (.noSuchProperty property)
      pure .unknown

/-- The methods a contract has without declaring them. -/
def outputIntrinsics : List String := ["addOutput", "addRawOutput", "addDataOutput"]

def inferMemberExpr (tc : TypeChecker) (object : Expression) (property : String)
    (objType : TType) : Check TType :=
  if objType = .this then
    match tc.propType property with
    | some t => pure t
    | none =>
        if (tc.methodSig property).isSome then pure .method
        else if property = "getStateScript" then pure .method
        else do
          report (.noSuchMember property)
          pure .unknown
  else if objType = .statefulContext ∧ property = "txPreimage" then pure (.prim .SigHashPreimage)
  else if objType = .statefulContext ∧
      (property = "getStateScript" ∨ property ∈ outputIntrinsics) then pure .method
  else
    match object with
    | .identifier "SigHash" => pure .bigint
    | _ => pure .unknown

/-! ## Arguments -/

/-- The bounds on a literal index. -/
def checkIndexLiteral (func : String) (arg : Expression) : Check Unit :=
  let bounded (n : Int) : Check Unit :=
    if n > 9223372036854775807 ∨ n < -9223372036854775808 then
      report (.indexLiteral func ("(index) must fit in int64; got " ++ toString n))
    else do
      require (decide (0 ≤ n)) (.indexLiteral func ("(index) must be >= 0; got " ++ toString n))
      require (decide (func ≠ "requireOutputP2PKH" ∨ n ≤ 1000))
        (.indexLiteral func ("(outputIndex) bound to <= 1000; got " ++ toString n ++
          " (the emitted Stack-IR computes byte-offset = idx*34; unrealistic indexes " ++
          "indicate a programming error)"))
  match arg with
  | .bigintLiteral n => bounded n
  | .unaryExpr .neg (.bigintLiteral n) => bounded (-n)
  | _ => report (.indexLiteral func "(index) must be an integer literal")

/-- The bounds on a literal prefix length. -/
def checkPrefixLen (arg : Expression) : Check Unit :=
  match arg with
  | .bigintLiteral n =>
      if n > 9223372036854775807 ∨ n < -9223372036854775808 then
        report (.prefixLenLiteral ("must fit in int64; got " ++ toString n))
      else do
        require (decide (32 ≤ n)) (.prefixLenLiteral
          ("must be >= 32 (the hash assertion compares a 32-byte SHA-256); got " ++ toString n))
        require (decide (n ≤ 4 * 1024 * 1024)) (.prefixLenLiteral
          ("must be <= MAX_SCRIPT_BYTES (4 MiB); got " ++ toString n))
  | _ => report (.prefixLenLiteral "must be an integer literal when supplied")

/-- The check of the argument at a position, around its inference. -/
abbrev Visit : Type := Nat → Check TType → Check Unit

/-- Infer, and nothing else. -/
def visitOnly : Visit := fun _ infer => do
  let _ ← infer

/-- An argument against the type it is for. -/
def visitArgument (func : String) (params : List TType) : Visit := fun i infer => do
  let argType ← infer
  match params[i]? with
  | none => pure ()
  | some expected =>
      require (isSubtype argType expected || argType == .unknown)
        (.argument (i + 1) func expected argType)

/-- `assert` reads a condition and a message. -/
def visitAssert : Visit := fun i infer =>
  match i with
  | 0 => do
      let condType ← infer
      require (condType == .boolean || condType == .unknown) (.assertCondition condType)
  | 1 => visitOnly 1 infer
  | _ => pure ()

/-- `extractPrevOutputScript` has an optional third argument. -/
def visitPrevOutputScript (args : List Expression) : Visit := fun i infer =>
  match i with
  | 1 => do
      let argType ← infer
      require (isSubtype argType .byteString || argType == .unknown)
        (.argument 2 "extractPrevOutputScript" .byteString argType)
  | 2 =>
      if args.length = 3 then do
        (args[2]?).forM checkPrefixLen
        visitOnly 2 infer
      else pure ()
  | i => visitOnly i infer

/-- The arguments of `addOutput`: an amount and the state values. -/
def visitAddOutput (tc : TypeChecker) : Visit := fun i infer => do
  let argType ← infer
  match i with
  | 0 =>
      require (isBigintFamily argType || argType == .unknown)
        (.outputArg "addOutput" "first argument (satoshis)" "bigint" argType)
  | i + 1 =>
      match tc.mutableProps[i]? with
      | none => pure ()
      | some prop =>
          require (isSubtype argType (typeNodeToTType prop.type) || argType == .unknown)
            (.outputArg "addOutput"
              ("argument " ++ toString (i + 2) ++ " (" ++ prop.name ++ ")")
              ("'" ++ (typeNodeToTType prop.type).text ++ "'") argType)

/-- The arguments of `addRawOutput` and `addDataOutput`: an amount and a script. -/
def visitScriptOutput (func : String) : Visit := fun i infer =>
  match i with
  | 0 => do
      let argType ← infer
      require (isBigintFamily argType || argType == .unknown)
        (.outputArg func "first argument (satoshis)" "bigint" argType)
  | 1 => do
      let argType ← infer
      require (isSubtype argType .byteString || argType == .unknown)
        (.outputArg func "second argument (scriptBytes)" "ByteString" argType)
  | _ => pure ()

/-- The number of arguments of `addOutput`, with an array literal of state values
flattened. -/
def addOutputArgCount : List Expression → Nat
  | [_, .arrayLiteral elements] => elements.length + 1
  | args => args.length

/-- What is checked before and around the arguments of a call. -/
def visitCall (func : String) (sig : FuncSig) (args : List Expression) : Visit :=
  if func = "assert" then visitAssert
  else if func = "checkMultiSig" ∧ args.length ≠ 2 then visitOnly
  else if func = "extractPrevOutputScript" then visitPrevOutputScript args
  else visitArgument func sig.params

/-- The checks of a call that do not look at the arguments' types. -/
def checkCallShape (tc : TypeChecker) (func : String) (sig : FuncSig) (args : List Expression) :
    Check Unit := do
  if func = "assert" then
    require (decide (1 ≤ args.length ∧ args.length ≤ 2))
      (.arity func "expects 1 or 2 arguments" args.length)
  else if func = "checkMultiSig" ∧ args.length ≠ 2 then
    report (.arity func "expects 2 arguments" args.length)
  else
    if func = "extractPrevOutputScript" ∨ func = "requireOutputP2PKH" then
      (args[0]?).forM (checkIndexLiteral func)
    if func = "extractPrevOutputScript" then
      require (decide (args.length = 2 ∨ args.length = 3))
        (.arity func "expects 2 or 3 arguments" args.length)
    else
      if func = "requireOutputP2PKH" ∨ func = "currentBlockHeight" then
        require tc.isStateful (.statefulMethodsOnly func)
      require (args.length == sig.params.length)
        (.arity func ("expects " ++ toString sig.params.length ++ " argument(s)") args.length)

/-- Whether a call is checked for consumption. -/
def consumes (func : String) : Bool := func ≠ "assert" ∧ func ≠ "extractPrevOutputScript"

/-! ## Expressions -/

mutual

/-- Infer the type of an expression. -/
def inferExprType (tc : TypeChecker) (env : TypeEnv) : Expression → Check TType
  | .bigintLiteral _ => pure .bigint
  | .boolLiteral _ => pure .boolean
  | .bytestringLiteral _ => pure .byteString
  | .identifier name => inferIdentifier tc env name
  | .propertyAccess property => inferPropertyAccess tc property
  | .memberExpr object property => do
      let objType ← inferExprType tc env object
      inferMemberExpr tc object property objType
  | .binaryExpr op left right => do
      let leftType ← inferExprType tc env left
      let rightType ← inferExprType tc env right
      checkBinaryExpr op leftType rightType
  | .unaryExpr op operand => do
      let operandType ← inferExprType tc env operand
      checkUnaryExpr op operandType
  | .callExpr callee args asmReturnType =>
      match callee with
      | .identifier name =>
          if name = "super" then do
            inferEach tc env visitOnly args
            pure .void
          else if name = "asm" then do
            inferEach tc env visitOnly args
            pure (match asmReturnType with
              | some t => .prim t
              | none => .void)
          else
            match (builtinSig name).orElse fun _ => tc.methodSig name with
            | some sig => do
                checkCallShape tc name sig args
                inferEach tc env (visitCall name sig args) args
                if consumes name then checkAffineConsumption tc env name args
                pure sig.returnType
            | none => do
                if (env.lookup name).isNone then report (.unknownFunction name)
                inferEach tc env visitOnly args
                pure .unknown
      | .propertyAccess property =>
          if property = "getStateScript" then do
            require args.isEmpty (.arity "getStateScript" "takes no arguments" args.length)
            pure .byteString
          else if property = "addOutput" then
            if tc.isStateful then do
              require (addOutputArgCount args == tc.mutableProps.length + 1)
                (.arity "addOutput" ("expects " ++ toString (tc.mutableProps.length + 1) ++
                  " argument(s): satoshis + " ++ toString tc.mutableProps.length ++
                  " state value(s)") (addOutputArgCount args))
              inferAddOutput tc env args
              pure .void
            else do
              report (.statefulOnly "addOutput")
              pure .void
          else if property = "addRawOutput" ∨ property = "addDataOutput" then
            if tc.isStateful then do
              require (args.length == 2)
                (.arity property "expects 2 arguments (satoshis, scriptBytes)" args.length)
              inferEach tc env (visitScriptOutput property) args
              pure .void
            else do
              report (.statefulOnly property)
              pure .void
          else
            match tc.methodSig property with
            | some sig => do
                checkCallShape tc property sig args
                inferEach tc env (visitCall property sig args) args
                if consumes property then checkAffineConsumption tc env property args
                pure sig.returnType
            | none => do
                report (.unknownMethod property)
                inferEach tc env visitOnly args
                pure .unknown
      | .memberExpr object property => do
          let objType ← inferExprType tc env object
          if objType = .statefulContext ∧ property = "getStateScript" then do
            require args.isEmpty (.arity "getStateScript" "takes no arguments" args.length)
            pure .byteString
          else if objType = .this ∧ property = "getStateScript" then pure .byteString
          else if (objType = .statefulContext ∨ objType = .this) ∧ property = "addOutput" then
            if tc.isStateful then do
              require (addOutputArgCount args == tc.mutableProps.length + 1)
                (.arity "addOutput" ("expects " ++ toString (tc.mutableProps.length + 1) ++
                  " argument(s): satoshis + " ++ toString tc.mutableProps.length ++
                  " state value(s)") (addOutputArgCount args))
              inferAddOutput tc env args
              pure .void
            else do
              report (.statefulOnly "addOutput")
              pure .void
          else if (objType = .statefulContext ∨ objType = .this) ∧
              (property = "addRawOutput" ∨ property = "addDataOutput") then
            if tc.isStateful then do
              require (args.length == 2)
                (.arity property "expects 2 arguments (satoshis, scriptBytes)" args.length)
              inferEach tc env (visitScriptOutput property) args
              pure .void
            else do
              report (.statefulOnly property)
              pure .void
          else
            match if objType = .this then tc.methodSig property else none with
            | some sig => do
                checkCallShape tc property sig args
                inferEach tc env (visitCall property sig args) args
                if consumes property then checkAffineConsumption tc env property args
                pure sig.returnType
            | none => do
                report (.unknownFunction ((match object with
                  | .identifier name => name
                  | _ => "<expr>") ++ "." ++ property))
                inferEach tc env visitOnly args
                pure .unknown
      | callee => do
          let _ ← inferExprType tc env callee
          inferEach tc env visitOnly args
          pure .unknown
  | .ternaryExpr condition consequent alternate => do
      let condType ← inferExprType tc env condition
      require (condType == .boolean) (.ternaryCondition condType)
      let consequentType ← inferExprType tc env consequent
      let alternateType ← inferExprType tc env alternate
      if consequentType = alternateType then pure consequentType
      else if isSubtype alternateType consequentType then pure consequentType
      else if isSubtype consequentType alternateType then pure alternateType
      else do
        report (.ternaryBranches consequentType alternateType)
        pure consequentType
  | .indexAccess object index => do
      let objType ← inferExprType tc env object
      let indexType ← inferExprType tc env index
      require (isBigintFamily indexType) (.arrayIndex indexType)
      match objType with
      | .array element => pure element
      | _ => pure .unknown
  | .incrementExpr operand _ => do
      let operandType ← inferExprType tc env operand
      require (isBigintFamily operandType) (.increment "++" operandType)
      pure .bigint
  | .decrementExpr operand _ => do
      let operandType ← inferExprType tc env operand
      require (isBigintFamily operandType) (.increment "--" operandType)
      pure .bigint
  | .arrayLiteral elements =>
      match elements with
      | [] => pure (.array .unknown)
      | first :: rest => do
          let elemType ← inferExprType tc env first
          inferEach tc env (fun _ infer => do
            let et ← infer
            require (isSubtype et elemType || et == .unknown) (.arrayElement elemType et)) rest
          pure (.array elemType)

/-- Visit the arguments in order. -/
def inferEach (tc : TypeChecker) (env : TypeEnv) (visit : Visit) : List Expression → Check Unit
  | [] => pure ()
  | arg :: rest => do
      visit 0 (inferExprType tc env arg)
      inferEach tc env (fun i => visit (i + 1)) rest

/-- Visit the arguments of `addOutput`, flattened. -/
def inferAddOutput (tc : TypeChecker) (env : TypeEnv) : List Expression → Check Unit
  | [] => pure ()
  | arg :: rest => do
      visitAddOutput tc 0 (inferExprType tc env arg)
      match rest with
      | [.arrayLiteral elements] => inferEach tc env (fun i => visitAddOutput tc (i + 1)) elements
      | rest => inferEach tc env (fun i => visitAddOutput tc (i + 1)) rest

end

/-! ## Statements -/

/-- A new affine local stands for the value it is initialised with. -/
def recordAlias (name : String) (declType : TType) (init : Expression) : Check Unit :=
  modify fun s =>
    if isAffineType declType then
      match affineOriginOfExpr s.affineAliases init with
      | some origin => { s with affineAliases := (name, origin) :: s.affineAliases }
      | none => s
    else s

def checkVariableDecl (tc : TypeChecker) (env : TypeEnv) (name : String) (type : Option TypeNode)
    (init : Expression) : Check TypeEnv := do
  let initType ← inferExprType tc env init
  match type with
  | some type => do
      let declaredType := typeNodeToTType type
      require (isSubtype initType declaredType) (.notAssignable initType declaredType)
      recordAlias name declaredType init
      pure (env.define name declaredType)
  | none => do
      recordAlias name initType init
      pure (env.define name initType)

mutual

/-- Check a statement; gives the environment after it.  The scope of a block ends
with the block. -/
def checkStatement (tc : TypeChecker) (env : TypeEnv) : Statement → Check TypeEnv
  | .variableDecl name type init => checkVariableDecl tc env name type init
  | .assignment target value => do
      let targetType ← inferExprType tc env target
      let valueType ← inferExprType tc env value
      require (isSubtype valueType targetType) (.notAssignable valueType targetType)
      pure env
  | .ifStatement condition thenBody elseBody => do
      let condType ← inferExprType tc env condition
      require (condType == .boolean) (.ifCondition condType)
      let _ ← checkStatements tc env.pushScope thenBody
      match elseBody with
      | some elseBody => do
          let _ ← checkStatements tc env.pushScope elseBody
          pure env
      | none => pure env
  | .forStatement name type init condition _ body => do
      let loopEnv ← checkVariableDecl tc env.pushScope name type init
      let condType ← inferExprType tc loopEnv condition
      require (condType == .boolean) (.forCondition condType)
      let _ ← checkStatements tc loopEnv body
      pure env
  | .expressionStatement expression => do
      let _ ← inferExprType tc env expression
      pure env
  | .returnStatement value =>
      match value with
      | some value => do
          let _ ← inferExprType tc env value
          pure env
      | none => pure env

def checkStatements (tc : TypeChecker) (env : TypeEnv) : List Statement → Check TypeEnv
  | [] => pure env
  | stmt :: rest => do
      let env ← checkStatement tc env stmt
      checkStatements tc env rest

end

/-! ## Return types of private methods -/

/-- The type of an expression as far as it can be told without an environment. -/
def inferExprTypeStatic : Expression → TType
  | .bigintLiteral _ => .bigint
  | .boolLiteral _ => .boolean
  | .bytestringLiteral _ => .byteString
  | .identifier name => if name = "true" ∨ name = "false" then .boolean else .unknown
  | .binaryExpr op _ _ =>
      match op with
      | .add | .sub | .mul | .div | .mod | .bitAnd | .bitOr | .bitXor | .shl | .shr => .bigint
      | .eq | .ne | .lt | .gt | .le | .ge | .and | .or => .boolean
  | .unaryExpr op _ =>
      match op with
      | .not => .boolean
      | .neg | .bitNot => .bigint
  | .callExpr callee _ _ =>
      match callee with
      | .identifier name | .propertyAccess name =>
          match builtinSig name with
          | some sig => sig.returnType
          | none => .unknown
      | _ => .unknown
  | .ternaryExpr _ consequent alternate =>
      if inferExprTypeStatic consequent ≠ .unknown then inferExprTypeStatic consequent
      else inferExprTypeStatic alternate
  | .propertyAccess _ | .memberExpr _ _ | .indexAccess _ _ => .unknown
  | .incrementExpr _ _ | .decrementExpr _ _ => .bigint
  | .arrayLiteral _ => .array .unknown

mutual

def collectReturnTypesOf : Statement → List TType
  | .returnStatement value =>
      match value with
      | some value => [inferExprTypeStatic value]
      | none => []
  | .ifStatement _ thenBody elseBody =>
      collectReturnTypes thenBody ++
        match elseBody with
        | some elseBody => collectReturnTypes elseBody
        | none => []
  | .forStatement _ _ _ _ _ body => collectReturnTypes body
  | .variableDecl _ _ _ | .assignment _ _ | .expressionStatement _ => []

/-- The types of the return expressions of some statements. -/
def collectReturnTypes : List Statement → List TType
  | [] => []
  | stmt :: rest => collectReturnTypesOf stmt ++ collectReturnTypes rest

end

def inferMethodReturnType (method : MethodNode) : TType :=
  match collectReturnTypes method.body with
  | [] => .void
  | first :: rest =>
      if rest.all (· == first) then first
      else if isBigintFamily first && rest.all isBigintFamily then .bigint
      else if isByteFamily first && rest.all isByteFamily then .byteString
      -- mixed types: the first as a best effort
      else first

/-! ## Contracts -/

def methodSigOf (method : MethodNode) : FuncSig where
  params := method.params.map fun p => typeNodeToTType p.type
  returnType :=
    match method.visibility with
    | .isPublic => .void
    | .isPrivate => inferMethodReturnType method

def TypeChecker.ofContract (contract : ContractNode) : TypeChecker where
  contract := contract
  propTypes := (contract.properties.map fun p => (p.name, typeNodeToTType p.type)) ++
    if contract.parentClass = .statefulSmartContract then [("txPreimage", .prim .SigHashPreimage)]
    else []
  methodSigs := contract.methods.map fun m => (m.name, methodSigOf m)

/-- The environment of the parameters of a method. -/
def paramEnv (params : List ParamNode) : TypeEnv :=
  params.foldl (fun env p => env.define p.name (typeNodeToTType p.type)) .empty

/-- Affine values are tracked within one method. -/
def resetAffine : Check Unit :=
  modify fun s => { s with consumedValues := [], affineAliases := [] }

def checkConstructor (tc : TypeChecker) : Check Unit := do
  resetAffine
  let env := tc.contract.properties.foldl (fun env p => env.define p.name (typeNodeToTType p.type))
    (paramEnv tc.contract.constructor.params)
  let _ ← checkStatements tc env tc.contract.constructor.body

def checkMethod (tc : TypeChecker) (method : MethodNode) : Check Unit := do
  resetAffine
  let _ ← checkStatements tc (paramEnv method.params) method.body

/-- What the checker reports for a contract. -/
def typecheck (contract : ContractNode) : List Diagnostic :=
  let tc := TypeChecker.ofContract contract
  ((do
    checkConstructor tc
    contract.methods.forM (checkMethod tc) : Check Unit).run ⟨[], [], []⟩).2.errors

/-- The contract passes the checker. -/
def Accepted (contract : ContractNode) : Prop := typecheck contract = []

instance (contract : ContractNode) : Decidable (Accepted contract) :=
  decidable_of_iff ((typecheck contract).isEmpty = true) List.isEmpty_iff

end Runar.Typecheck
