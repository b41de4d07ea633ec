/-
  Parse/Printer.lean --- expressions with the parentheses they need.

  WHAT THIS FILE IS FOR.  An expression stands at a height: calls, members, indices and literals
  lowest, above them the unary operators, and above these the binary ones in the order of their
  precedences.  An operand is printed with parentheses where its height is above the one that
  its place allows; the left operand of an operator may stand as high as the operator, the right
  one may not.
-/
import Runar.Parse.ParserCore

set_option autoImplicit false

namespace Runar.Parse.Core

/-! ## Operators -/

def opSymbol : BinaryOp → Symbol
  | .mul => .star | .div => .slash | .mod => .percent
  | .add => .plus | .sub => .minus
  | .shl => .shiftLeft | .shr => .shiftRight
  | .lt => .less | .le => .lessEqual | .gt => .greater | .ge => .greaterEqual
  | .eq => .equal | .ne => .notEqual
  | .bitAnd => .amp | .bitXor => .caret | .bitOr => .pipe
  | .and => .andAnd | .or => .orOr

def unarySymbol : UnaryOp → Symbol
  | .not => .bang | .neg => .minus | .bitNot => .tilde

/-- How many levels are tighter than an operator. -/
def opLevel : BinaryOp → Nat
  | .mul | .div | .mod => 0
  | .add | .sub => 1
  | .shl | .shr => 2
  | .lt | .le | .gt | .ge => 3
  | .eq | .ne => 4
  | .bitAnd => 5
  | .bitXor => 6
  | .bitOr => 7
  | .and => 8
  | .or => 9

/-- The postfix expressions are at 0, the unary ones at 1. -/
def height : Expression → Nat
  | .binaryExpr op _ _ => opLevel op + 2
  | .unaryExpr _ _ | .incrementExpr _ _ | .decrementExpr _ _ => 1
  | _ => 0

theorem opLevel_le (op : BinaryOp) : opLevel op ≤ 9 := by
  cases op <;> decide

theorem height_le (e : Expression) : height e ≤ 11 := by
  cases e with
  | binaryExpr op => exact Nat.add_le_add_right (opLevel_le op) 2
  | _ => exact Nat.le_of_ble_eq_true rfl

/-! ## The printer -/

/-- The digits of a number. -/
def digitsOf (n : Nat) : Digits :=
  ⟨Nat.toDigits 10 n, fun _ => Nat.isDigit_of_mem_toDigits (by decide) (by decide),
    Nat.toDigits_ne_nil⟩

theorem value_digitsOf (n : Nat) : (digitsOf n).value = n := Nat.ofDigitChars_ten_toDigits

/-- The text of an expression in a place that allows some height. -/
def wrap (allowed : Nat) (e : Expression) (text : List Lexeme) : List Lexeme :=
  if height e ≤ allowed then text else .symbol .lparen :: (text ++ [.symbol .rparen])

mutual

def print : Expression → List Lexeme
  | .bigintLiteral value => [.number (digitsOf value.toNat)]
  | .boolLiteral value => [.keyword (if value then .trueWord else .falseWord)]
  | .bytestringLiteral value => [.hexstring value]
  | .identifier name => [.ident name]
  | .propertyAccess property => [.ident "this", .symbol .dot, .ident property]
  | .memberExpr object property =>
      wrap 0 object (print object) ++ [.symbol .dot, .ident property]
  | .binaryExpr op left right =>
      wrap (opLevel op + 2) left (print left) ++
        .symbol (opSymbol op) :: wrap (opLevel op + 1) right (print right)
  | .unaryExpr op operand => .symbol (unarySymbol op) :: wrap 1 operand (print operand)
  | .callExpr callee args =>
      wrap 0 callee (print callee) ++ .symbol .lparen :: (printList args ++ [.symbol .rparen])
  | .indexAccess object index =>
      wrap 0 object (print object) ++ .symbol .lbracket :: (print index ++ [.symbol .rbracket])
  | .incrementExpr operand _ => .symbol .plusPlus :: wrap 0 operand (print operand)
  | .decrementExpr operand _ => .symbol .minusMinus :: wrap 0 operand (print operand)
  | .arrayLiteral elements => .symbol .lbracket :: (printList elements ++ [.symbol .rbracket])

def printList : List Expression → List Lexeme
  | [] => []
  | e :: rest => print e ++ printRest rest

/-- The further entries of a list. -/
def printRest : List Expression → List Lexeme
  | [] => []
  | e :: rest => .symbol .comma :: (print e ++ printRest rest)

end

def printAt (allowed : Nat) (e : Expression) : List Lexeme := wrap allowed e (print e)

/-! ## Expressions that are printed -/

mutual

/-- Made of literals, identifiers, binary and prefix operators, calls, members and indices. -/
def Printable : Expression → Prop
  | .bigintLiteral value => 0 ≤ value
  | .boolLiteral _ | .bytestringLiteral _ | .identifier _ => True
  | .propertyAccess _ => False
  | .memberExpr object _ => Printable object
  | .binaryExpr _ left right => Printable left ∧ Printable right
  | .unaryExpr _ operand => Printable operand
  | .callExpr callee args => Printable callee ∧ AllPrintable args
  | .indexAccess object index => Printable object ∧ Printable index
  | .incrementExpr operand isPrefix | .decrementExpr operand isPrefix =>
      isPrefix = true ∧ Printable operand
  | .arrayLiteral elements => AllPrintable elements

def AllPrintable : List Expression → Prop
  | [] => True
  | e :: rest => Printable e ∧ AllPrintable rest

end

mutual

/-- The same expression, with every member of a self name a property. -/
def resolve (chain : PostfixChain) : Expression → Expression
  | .memberExpr object property => chain.member (resolve chain object) property
  | .binaryExpr op left right => .binaryExpr op (resolve chain left) (resolve chain right)
  | .unaryExpr op operand => .unaryExpr op (resolve chain operand)
  | .callExpr callee args => .callExpr (resolve chain callee) (resolveList chain args)
  | .indexAccess object index => .indexAccess (resolve chain object) (resolve chain index)
  | .incrementExpr operand isPrefix => .incrementExpr (resolve chain operand) isPrefix
  | .decrementExpr operand isPrefix => .decrementExpr (resolve chain operand) isPrefix
  | .arrayLiteral elements => .arrayLiteral (resolveList chain elements)
  | .bigintLiteral value => .bigintLiteral value
  | .boolLiteral value => .boolLiteral value
  | .bytestringLiteral value => .bytestringLiteral value
  | .identifier name => .identifier name
  | .propertyAccess property => .propertyAccess property

def resolveList (chain : PostfixChain) : List Expression → List Expression
  | [] => []
  | e :: rest => resolve chain e :: resolveList chain rest

end

mutual

/-- No member of a self name occurs. -/
def SelfFree (chain : PostfixChain) : Expression → Prop
  | .memberExpr object _ =>
      SelfFree chain object ∧ ∀ name ∈ chain.selfNames, object ≠ .identifier name
  | .binaryExpr _ left right => SelfFree chain left ∧ SelfFree chain right
  | .unaryExpr _ operand => SelfFree chain operand
  | .callExpr callee args => SelfFree chain callee ∧ AllSelfFree chain args
  | .indexAccess object index => SelfFree chain object ∧ SelfFree chain index
  | .incrementExpr operand _ | .decrementExpr operand _ => SelfFree chain operand
  | .arrayLiteral elements => AllSelfFree chain elements
  | _ => True

def AllSelfFree (chain : PostfixChain) : List Expression → Prop
  | [] => True
  | e :: rest => SelfFree chain e ∧ AllSelfFree chain rest

end

theorem member_eq {chain : PostfixChain} {object : Expression}
    (h : ∀ name ∈ chain.selfNames, object ≠ .identifier name) (property : String) :
    chain.member object property = .memberExpr object property := by
  cases object with
  | identifier name => exact if_neg fun hself => h name hself rfl
  | _ => rfl

theorem member_self (chain : PostfixChain) {name : String} (h : name ∈ chain.selfNames)
    (property : String) : chain.member (.identifier name) property = .propertyAccess property :=
  if_pos h

mutual

/-- Without members of self names an expression is what is read for it. -/
theorem resolve_eq (chain : PostfixChain) : ∀ e, SelfFree chain e → resolve chain e = e
  | .memberExpr object property, h => by
      rw [resolve, resolve_eq chain object h.1, member_eq h.2]
  | .binaryExpr op left right, h => by
      rw [resolve, resolve_eq chain left h.1, resolve_eq chain right h.2]
  | .unaryExpr op operand, h => by rw [resolve, resolve_eq chain operand h]
  | .callExpr callee args, h => by
      rw [resolve, resolve_eq chain callee h.1, resolveList_eq chain args h.2]
  | .indexAccess object index, h => by
      rw [resolve, resolve_eq chain object h.1, resolve_eq chain index h.2]
  | .incrementExpr operand isPrefix, h => by rw [resolve, resolve_eq chain operand h]
  | .decrementExpr operand isPrefix, h => by rw [resolve, resolve_eq chain operand h]
  | .arrayLiteral elements, h => by rw [resolve, resolveList_eq chain elements h]
  | .bigintLiteral _, _ => rfl
  | .boolLiteral _, _ => rfl
  | .bytestringLiteral _, _ => rfl
  | .identifier _, _ => rfl
  | .propertyAccess _, _ => rfl

theorem resolveList_eq (chain : PostfixChain) : ∀ elements, AllSelfFree chain elements →
    resolveList chain elements = elements
  | [], _ => rfl
  | e :: elements, h => by
      rw [resolveList, resolve_eq chain e h.1, resolveList_eq chain elements h.2]

end

/-! ## How the text of an expression starts -/

def Lexeme.isPrimary : Lexeme → Bool
  | .number _ | .hexstring _ | .ident _ => true
  | .keyword .trueWord | .keyword .falseWord => true
  | .symbol .lparen | .symbol .lbracket => true
  | _ => false

def Lexeme.isUnary : Lexeme → Bool
  | .symbol .bang | .symbol .minus | .symbol .tilde => true
  | .symbol .plusPlus | .symbol .minusMinus => true
  | _ => false

/-- The text starts with a primary expression, or with an operator where the place allows it. -/
def StartsAt (allowed : Nat) (text : List Lexeme) : Prop :=
  ∃ l rest, text = l :: rest ∧ (l.isPrimary = true ∨ l.isUnary = true ∧ allowed ≠ 0)

theorem StartsAt.append {allowed : Nat} {text : List Lexeme} (h : StartsAt allowed text)
    (more : List Lexeme) : StartsAt allowed (text ++ more) := by
  obtain ⟨l, rest, rfl, hl⟩ := h
  exact ⟨l, rest ++ more, rfl, hl⟩

theorem StartsAt.mono {a b : Nat} {text : List Lexeme} (h : StartsAt a text) (hab : a ≤ b) :
    StartsAt b text := by
  obtain ⟨l, rest, htext, hl⟩ := h
  exact ⟨l, rest, htext, hl.imp_right fun hunary => ⟨hunary.1, by omega⟩⟩

theorem startsAt_wrap {e : Expression} {text : List Lexeme} (h : StartsAt (height e) text)
    (allowed : Nat) : StartsAt allowed (wrap allowed e text) := by
  unfold wrap
  split
  · next hlow => exact h.mono hlow
  · exact ⟨_, _, rfl, .inl rfl⟩

/-- The text of an expression starts as its height says. -/
theorem startsAt_print : ∀ e : Expression, StartsAt (height e) (print e)
  | .bigintLiteral _ => ⟨_, _, rfl, .inl rfl⟩
  | .boolLiteral value => ⟨_, _, rfl, .inl (by cases value <;> rfl)⟩
  | .bytestringLiteral _ => ⟨_, _, rfl, .inl rfl⟩
  | .identifier _ => ⟨_, _, rfl, .inl rfl⟩
  | .propertyAccess _ => ⟨_, _, rfl, .inl rfl⟩
  | .memberExpr object _ => (startsAt_wrap (startsAt_print object) 0).append _
  | .binaryExpr op left _ => (startsAt_wrap (startsAt_print left) (opLevel op + 2)).append _
  | .unaryExpr op _ => ⟨_, _, rfl, .inr ⟨by cases op <;> rfl, Nat.one_ne_zero⟩⟩
  | .callExpr callee _ => (startsAt_wrap (startsAt_print callee) 0).append _
  | .indexAccess object _ => (startsAt_wrap (startsAt_print object) 0).append _
  | .incrementExpr _ _ => ⟨_, _, rfl, .inr ⟨rfl, Nat.one_ne_zero⟩⟩
  | .decrementExpr _ _ => ⟨_, _, rfl, .inr ⟨rfl, Nat.one_ne_zero⟩⟩
  | .arrayLiteral _ => ⟨_, _, rfl, .inl rfl⟩

theorem startsAt_printAt (allowed : Nat) (e : Expression) : StartsAt allowed (printAt allowed e) :=
  startsAt_wrap (startsAt_print e) allowed

end Runar.Parse.Core
