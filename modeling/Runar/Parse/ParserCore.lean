/-
  Parse/ParserCore.lean --- the parser of expressions.

  WHAT THIS FILE IS FOR.  `parser-core.ts` reads binary operators level by level, each level a
  loop over the next tighter one; the Solidity parser has the same levels, and its own unary,
  postfix and primary expressions.  The two loops over calls, members and indices differ in one
  place: behind a point the Solidity parser expects an identifier, the other takes any token.

  A token has the text that the tokenizer gives it: an operator or a keyword its own.
-/
import Runar.Anf.Syntax

set_option autoImplicit false

namespace Runar.Parse.Core

/-! ## Tokens -/

inductive Symbol where
  | lparen | rparen | lbrace | rbrace | lbracket | rbracket | semicolon | comma | dot | colon
  | plus | minus | star | slash | percent
  | equal | notEqual | less | lessEqual | greater | greaterEqual | andAnd | orOr
  | shiftLeft | shiftRight
  | amp | pipe | caret | tilde | bang
  | assign | plusAssign | minusAssign
  | plusPlus | minusMinus
  deriving DecidableEq, Repr

def Symbol.text : Symbol → String
  | .lparen => "(" | .rparen => ")" | .lbrace => "\x7b" | .rbrace => "\x7d" | .lbracket => "["
  | .rbracket => "]" | .semicolon => ";" | .comma => "," | .dot => "." | .colon => ":"
  | .plus => "+" | .minus => "-" | .star => "*" | .slash => "/" | .percent => "%"
  | .equal => "==" | .notEqual => "!=" | .less => "<" | .lessEqual => "<=" | .greater => ">"
  | .greaterEqual => ">=" | .andAnd => "&&" | .orOr => "||"
  | .shiftLeft => "<<" | .shiftRight => ">>"
  | .amp => "&" | .pipe => "|" | .caret => "^" | .tilde => "~" | .bang => "!"
  | .assign => "=" | .plusAssign => "+=" | .minusAssign => "-="
  | .plusPlus => "++" | .minusMinus => "--"

inductive Keyword where
  | pragmaWord | contractWord | isWord | functionWord | constructorWord | publicWord
  | privateWord | immutableWord | requireWord | ifWord | elseWord | forWord | returnWord
  | trueWord | falseWord | letWord | statefulWord
  deriving DecidableEq, Repr

def Keyword.text : Keyword → String
  | .pragmaWord => "pragma" | .contractWord => "contract" | .isWord => "is"
  | .functionWord => "function" | .constructorWord => "constructor" | .publicWord => "public"
  | .privateWord => "private" | .immutableWord => "immutable" | .requireWord => "require"
  | .ifWord => "if" | .elseWord => "else" | .forWord => "for" | .returnWord => "return"
  | .trueWord => "true" | .falseWord => "false" | .letWord => "let" | .statefulWord => "stateful"

inductive TokenType where
  | symbol (symbol : Symbol)
  | keyword (keyword : Keyword)
  | ident
  | number
  | hexstring
  | eof
  deriving DecidableEq, Repr

def TokenType.text : TokenType → String
  | .symbol s => s.text
  | .keyword k => k.text
  | .ident => "ident"
  | .number => "number"
  | .hexstring => "hexstring"
  | .eof => "eof"

/-- Some digits, at least one. -/
structure Digits where
  chars : List Char
  digits : ∀ c ∈ chars, c.isDigit = true
  nonempty : chars ≠ []
  deriving DecidableEq

/-- `BigInt` of some digits. -/
def Digits.value (digits : Digits) : Nat := Nat.ofDigitChars 10 digits.chars 0

/-- The type of a token together with its text. -/
inductive Lexeme where
  | symbol (symbol : Symbol)
  | keyword (keyword : Keyword)
  | ident (name : String)
  | number (digits : Digits)
  | hexstring (text : String)
  | eof
  deriving DecidableEq

namespace Lexeme

def type : Lexeme → TokenType
  | symbol s => .symbol s
  | keyword k => .keyword k
  | ident _ => .ident
  | number _ => .number
  | hexstring _ => .hexstring
  | eof => .eof

def value : Lexeme → String
  | symbol s => s.text
  | keyword k => k.text
  | ident name => name
  | number digits => String.ofList digits.chars
  | hexstring text => text
  | eof => ""

end Lexeme

structure Token where
  lexeme : Lexeme
  line : Nat
  column : Nat

/-- What the tokenizer returns: some tokens and the end of the file. -/
structure TokenList where
  front : List Token
  last : Token
  ends : last.lexeme = .eof

def TokenList.tokens (list : TokenList) : List Token := list.front ++ [list.last]

/-! ## The state of a parser -/

structure Diagnostic where
  message : String
  line : Nat
  column : Nat
  deriving DecidableEq

structure Parser where
  list : TokenList
  pos : Nat
  errors : List Diagnostic

namespace Parser

/-- Behind the tokens the last one stays. -/
def current (p : Parser) : Token := p.list.tokens[p.pos]?.getD p.list.last

def advance (p : Parser) : Parser := { p with pos := p.pos + 1 }

/-- The error of a token of another type; its text is empty only at the end. -/
def unexpected (type : TokenType) (t : Token) : Diagnostic :=
  let got := if t.lexeme.value = "" then t.lexeme.type.text else t.lexeme.value
  ⟨"Expected '" ++ type.text ++ "', got '" ++ got ++ "'", t.line, t.column⟩

/-- Go on behind a token, with an error where it has another type. -/
def expect (type : TokenType) (p : Parser) : Parser :=
  if p.current.lexeme.type = type then p.advance
  else { p.advance with errors := p.errors ++ [unexpected type p.current] }

end Parser

/-! ## Expressions -/

/-- The expressions, with the literals of bytes as text. -/
inductive Expression where
  | bigintLiteral (value : Int)
  | boolLiteral (value : Bool)
  | bytestringLiteral (value : String)
  | identifier (name : String)
  | propertyAccess (property : String)
  | memberExpr (object : Expression) (property : String)
  | binaryExpr (op : BinaryOp) (left right : Expression)
  | unaryExpr (op : UnaryOp) (operand : Expression)
  | callExpr (callee : Expression) (args : List Expression)
  | indexAccess (object index : Expression)
  | incrementExpr (operand : Expression) (isPrefix : Bool)
  | decrementExpr (operand : Expression) (isPrefix : Bool)
  | arrayLiteral (elements : List Expression)

/-- A parser of an expression, if its rounds are enough. -/
abbrev ParseFn : Type := Parser → Option (Expression × Parser)

/-! ## Binary operators -/

/-- The operator at a place, of some. -/
def oneOf (operators : List (Symbol × BinaryOp)) (p : Parser) : Option BinaryOp :=
  match p.current.lexeme with
  | .symbol s => operators.lookup s
  | _ => none

/-- An operator that the same token does not follow. -/
def single (s : Symbol) (op : BinaryOp) (p : Parser) : Option BinaryOp :=
  if p.current.lexeme.type = .symbol s ∧
      p.list.tokens[p.pos + 1]?.map (·.lexeme.type) ≠ some (.symbol s) then some op
  else none

/-- The loop of a level. -/
def binaryLoop (operatorAt : Parser → Option BinaryOp) (operand : ParseFn) :
    Nat → Expression → ParseFn
  | 0, _, _ => none
  | n + 1, left, p =>
      match operatorAt p with
      | none => some (left, p)
      | some op =>
          (operand p.advance).bind fun right =>
            binaryLoop operatorAt operand n (.binaryExpr op left right.1) right.2

def binaryLevel (operatorAt : Parser → Option BinaryOp) (operand : ParseFn) (n : Nat) : ParseFn :=
  fun p => (operand p).bind fun left => binaryLoop operatorAt operand n left.1 left.2

section Chain

variable (parseUnary : ParseFn) (n : Nat)

def parseMulDiv : ParseFn :=
  binaryLevel (oneOf [(.star, .mul), (.slash, .div), (.percent, .mod)]) parseUnary n

def parseAddSub : ParseFn :=
  binaryLevel (oneOf [(.plus, .add), (.minus, .sub)]) (parseMulDiv parseUnary n) n

def parseShift : ParseFn :=
  binaryLevel (oneOf [(.shiftLeft, .shl), (.shiftRight, .shr)]) (parseAddSub parseUnary n) n

def parseComparison : ParseFn :=
  binaryLevel (oneOf [(.less, .lt), (.lessEqual, .le), (.greater, .gt), (.greaterEqual, .ge)])
    (parseShift parseUnary n) n

def parseEquality : ParseFn :=
  binaryLevel (oneOf [(.equal, .eq), (.notEqual, .ne)]) (parseComparison parseUnary n) n

def parseBitAnd : ParseFn := binaryLevel (single .amp .bitAnd) (parseEquality parseUnary n) n

def parseBitXor : ParseFn :=
  binaryLevel (oneOf [(.caret, .bitXor)]) (parseBitAnd parseUnary n) n

def parseBitOr : ParseFn := binaryLevel (single .pipe .bitOr) (parseBitXor parseUnary n) n

def parseAnd : ParseFn := binaryLevel (oneOf [(.andAnd, .and)]) (parseBitOr parseUnary n) n

def parseOr : ParseFn := binaryLevel (oneOf [(.orOr, .or)]) (parseAnd parseUnary n) n

/-- The chain, over the unary expressions. -/
def parseExpressionOf : ParseFn := parseOr parseUnary n

end Chain

/-! ## Calls, members and indices -/

/-- What is read behind a point, and the names whose members are properties. -/
structure PostfixChain where
  strict : Bool
  selfNames : List String

/-- `parsePostfix` of the Solidity parser. -/
def PostfixChain.sol : PostfixChain := ⟨true, ["this"]⟩

/-- `parsePostfixChain`. -/
def PostfixChain.core (selfNames : List String) : PostfixChain := ⟨false, selfNames⟩

/-- A member of an expression. -/
def PostfixChain.member (chain : PostfixChain) (object : Expression) (property : String) :
    Expression :=
  match object with
  | .identifier name =>
      if name ∈ chain.selfNames then .propertyAccess property else .memberExpr object property
  | object => .memberExpr object property

/-- Expressions up to a closing token, with a comma behind any of them. -/
def parseList (close : Symbol) (parseExpression : ParseFn) :
    Nat → List Expression → Parser → Option (List Expression × Parser)
  | 0, _, _ => none
  | n + 1, elements, p =>
      if p.current.lexeme.type = .symbol close ∨ p.current.lexeme.type = .eof then
        some (elements, p)
      else
        (parseExpression p).bind fun element =>
          let p := element.2
          let p := if p.current.lexeme.type = .symbol .comma then p.advance else p
          parseList close parseExpression n (elements ++ [element.1]) p

def postfixLoop (chain : PostfixChain) (parseExpression : ParseFn) : Nat → Expression → ParseFn
  | 0, _, _ => none
  | n + 1, expr, p =>
      if p.current.lexeme.type = .symbol .lparen then
        (parseList .rparen parseExpression n [] p.advance).bind fun args =>
          postfixLoop chain parseExpression n (.callExpr expr args.1)
            (args.2.expect (.symbol .rparen))
      else if p.current.lexeme.type = .symbol .dot then
        let p := p.advance
        let property := p.current.lexeme.value
        let p := if chain.strict then p.expect .ident else p.advance
        postfixLoop chain parseExpression n (chain.member expr property) p
      else if p.current.lexeme.type = .symbol .lbracket then
        (parseExpression p.advance).bind fun index =>
          postfixLoop chain parseExpression n (.indexAccess expr index.1)
            (index.2.expect (.symbol .rbracket))
      else some (expr, p)

/-! ## Primary and unary expressions -/

def parsePrimary (parseExpression : ParseFn) (n : Nat) : ParseFn := fun p =>
  match p.current.lexeme with
  | .number digits => some (.bigintLiteral digits.value, p.advance)
  | .hexstring text => some (.bytestringLiteral text, p.advance)
  | .keyword .trueWord => some (.boolLiteral true, p.advance)
  | .keyword .falseWord => some (.boolLiteral false, p.advance)
  | .symbol .lparen =>
      (parseExpression p.advance).bind fun expr => some (expr.1, expr.2.expect (.symbol .rparen))
  | .symbol .lbracket =>
      (parseList .rbracket parseExpression n [] p.advance).bind fun elements =>
        some (.arrayLiteral elements.1, elements.2.expect (.symbol .rbracket))
  | .ident name => some (.identifier name, p.advance)
  | lexeme => some (.identifier lexeme.value, p.advance)

def parsePostfix (chain : PostfixChain) (parseExpression : ParseFn) (n : Nat) : ParseFn := fun p =>
  (parsePrimary parseExpression n p).bind fun expr =>
    postfixLoop chain parseExpression n expr.1 expr.2

/-- Unary expressions, for some rounds. -/
def parseUnary (chain : PostfixChain) : Nat → ParseFn
  | 0 => fun _ => none
  | n + 1 => fun p =>
      let parsePostfix := parsePostfix chain (parseExpressionOf (parseUnary chain n) n) n
      match p.current.lexeme with
      | .symbol .bang =>
          (parseUnary chain n p.advance).bind fun operand =>
            some (.unaryExpr .not operand.1, operand.2)
      | .symbol .minus =>
          (parseUnary chain n p.advance).bind fun operand =>
            some (.unaryExpr .neg operand.1, operand.2)
      | .symbol .tilde =>
          (parseUnary chain n p.advance).bind fun operand =>
            some (.unaryExpr .bitNot operand.1, operand.2)
      | .symbol .plusPlus =>
          (parsePostfix p.advance).bind fun operand =>
            some (.incrementExpr operand.1 true, operand.2)
      | .symbol .minusMinus =>
          (parsePostfix p.advance).bind fun operand =>
            some (.decrementExpr operand.1 true, operand.2)
      | _ => parsePostfix p

/-- Expressions, for some rounds. -/
def parseExpression (chain : PostfixChain) (n : Nat) : ParseFn :=
  parseExpressionOf (parseUnary chain n) n

end Runar.Parse.Core
