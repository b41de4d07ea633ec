/-
  Parse/ParserTermination.lean --- the parser of expressions ends.

  WHAT THIS FILE IS FOR.  Every primary expression takes a token, and every loop asks for a token
  other than the end of the file before it goes on.  So whatever the tokens are, the parser comes
  to a result, by induction on how many are left.
-/
import Runar.Parse.RoundTrip

set_option autoImplicit false

namespace Runar.Parse.Core

open Logic

/-! ## Tokens that are left -/

namespace Parser

def remaining (p : Parser) : Nat := p.list.tokens.length - p.pos

/-- A state of the same parser, no earlier. -/
structure Later (p q : Parser) : Prop where
  list : q.list = p.list
  pos : p.pos ≤ q.pos

theorem Later.refl (p : Parser) : Later p p := ⟨rfl, Nat.le_refl _⟩

theorem Later.trans {p q r : Parser} (h : Later p q) (h' : Later q r) : Later p r :=
  ⟨h'.list.trans h.list, Nat.le_trans h.pos h'.pos⟩

theorem later_advance (p : Parser) : Later p p.advance := ⟨rfl, Nat.le_succ _⟩

theorem later_advance_expect (type : TokenType) (p : Parser) :
    Later p.advance (p.expect type) := by
  unfold expect
  split
  · exact .refl _
  · exact ⟨rfl, Nat.le_refl _⟩

theorem later_expect (type : TokenType) (p : Parser) : Later p (p.expect type) :=
  (later_advance p).trans (later_advance_expect type p)

theorem Later.remaining_le {p q : Parser} (h : Later p q) : q.remaining ≤ p.remaining := by
  unfold remaining
  rw [h.list]
  exact Nat.sub_le_sub_left h.pos _

/-- Before the end of the file a token is left. -/
theorem remaining_advance {p : Parser} (h : p.current.lexeme.type ≠ .eof) :
    p.advance.remaining < p.remaining := by
  have hpos : p.pos < p.list.tokens.length := by
    by_contra hpast
    have hlast : p.current = p.list.last := by
      rw [current, List.getElem?_eq_none (Nat.not_lt.mp hpast), Option.getD_none]
    rw [hlast, p.list.ends] at h
    exact h rfl
  unfold remaining
  show p.list.tokens.length - (p.pos + 1) < p.list.tokens.length - p.pos
  omega

end Parser

open Runar.Parse.Core.Parser

/-! ## What ends -/

/-- The parser comes to an expression, behind a token at least. -/
def Ends (f : Nat → Option (Expression × Parser)) (p : Parser) : Prop :=
  ∃ result, Yields f result ∧ Later p.advance result.2

/-- The loop comes to a result. -/
def LoopEnds {α : Type} (f : Nat → Nat → Option (α × Parser)) (p : Parser) : Prop :=
  ∃ result, Settles f result ∧ Later p result.2

/-- With fewer tokens than a bound the parsers of all heights end. -/
def EndsBelow (chain : PostfixChain) (bound : Nat) : Prop :=
  ∀ p : Parser, p.remaining < bound → ∀ allowed, Ends (fun n => parserAt chain allowed n p) p

variable {chain : PostfixChain} {bound : Nat} {p : Parser}

/-- Behind a token that is not the end, the parsers end. -/
theorem EndsBelow.advance (h : EndsBelow chain bound) (hp : p.remaining ≤ bound)
    (hcurrent : p.current.lexeme.type ≠ .eof) (allowed : Nat) :
    Ends (fun n => parserAt chain allowed n p.advance) p.advance :=
  h _ (Nat.lt_of_lt_of_le (remaining_advance hcurrent) hp) allowed

theorem parseList_ends (h : EndsBelow chain bound) (close : Symbol) (elements : List Expression)
    (hp : p.remaining < bound) :
    LoopEnds (fun m n => parseList close (parseExpression chain m) n elements p) p := by
  induction hm : p.remaining using Nat.strong_induction_on generalizing p elements with
  | _ m ih =>
  subst hm
  by_cases hend : p.current.lexeme.type = .symbol close ∨ p.current.lexeme.type = .eof
  · refine ⟨(elements, p), .round (.of_eq fun m n => ?_), .refl p⟩
    rw [parseList, if_pos hend]
  · obtain ⟨⟨e, q⟩, hyields, hlater⟩ := h p hp 11
    have hless := remaining_advance (not_or.mp hend).2
    obtain ⟨r, hr, hlater'⟩ : ∃ r, (if q.current.lexeme.type = .symbol .comma then q.advance
        else q) = r ∧ Later q r := by
      refine ⟨_, rfl, ?_⟩
      split
      · exact later_advance q
      · exact .refl q
    have hbehind := hlater.trans hlater'
    have hdown := Nat.lt_of_le_of_lt hbehind.remaining_le hless
    obtain ⟨result, hsettles, hmore⟩ :=
      ih r.remaining hdown (elements ++ [e]) (Nat.lt_trans hdown hp) rfl
    refine ⟨result, .round (.congr (fun m n => ?_) (hyields.settles.bind (k := fun m n element =>
      parseList close (parseExpression chain m) n (elements ++ [element.1])
        (if element.2.current.lexeme.type = .symbol .comma then element.2.advance
          else element.2)) ?_)), (later_advance p).trans (hbehind.trans hmore)⟩
    · rw [parseList, if_neg hend]
      rfl
    · dsimp only
      rw [hr]
      exact hsettles

theorem postfixLoop_ends (h : EndsBelow chain bound) (e : Expression) (hp : p.remaining ≤ bound) :
    LoopEnds (fun m n => loopAt chain 0 m n e p) p := by
  induction hm : p.remaining using Nat.strong_induction_on generalizing p e with
  | _ m ih =>
  subst hm
  have hnext {q : Parser} (hcurrent : p.current.lexeme.type ≠ .eof) (hlater : Later p.advance q)
      (e : Expression) : LoopEnds (fun m n => loopAt chain 0 m n e q) q := by
    have hdown := Nat.lt_of_le_of_lt hlater.remaining_le (remaining_advance hcurrent)
    exact ih _ hdown e (Nat.le_trans (Nat.le_of_lt hdown) hp) rfl
  by_cases hcall : p.current.lexeme.type = .symbol .lparen
  · have hcurrent : p.current.lexeme.type ≠ .eof := by rw [hcall]; exact fun heof => by cases heof
    obtain ⟨args, hargs, hlater⟩ := parseList_ends h .rparen []
      (Nat.lt_of_lt_of_le (remaining_advance hcurrent) hp)
    have hbehind := hlater.trans (later_expect (.symbol .rparen) args.2)
    obtain ⟨result, hsettles, hmore⟩ := hnext hcurrent hbehind (.callExpr e args.1)
    refine ⟨result, .round (.congr (fun m n => ?_) (hargs.bind (k := fun m n args =>
      loopAt chain 0 m n (.callExpr e args.1) (args.2.expect (.symbol .rparen))) hsettles)),
      (later_advance p).trans (hbehind.trans hmore)⟩
    rw [loopAt, postfixLoop, if_pos hcall]
    rfl
  by_cases hmember : p.current.lexeme.type = .symbol .dot
  · have hcurrent : p.current.lexeme.type ≠ .eof := by rw [hmember]; exact fun heof => by cases heof
    obtain ⟨q, hq, hlater⟩ : ∃ q, (if chain.strict then p.advance.expect .ident
        else p.advance.advance) = q ∧ Later p.advance q := by
      refine ⟨_, rfl, ?_⟩
      split
      · exact later_expect .ident _
      · exact later_advance _
    obtain ⟨result, hsettles, hmore⟩ :=
      hnext hcurrent hlater (chain.member e p.advance.current.lexeme.value)
    refine ⟨result, .round (.congr (fun m n => ?_) hsettles),
      (later_advance p).trans (hlater.trans hmore)⟩
    rw [loopAt, postfixLoop, if_neg hcall, if_pos hmember]
    dsimp only
    rw [hq]
    rfl
  by_cases hindex : p.current.lexeme.type = .symbol .lbracket
  · have hcurrent : p.current.lexeme.type ≠ .eof := by rw [hindex]; exact fun heof => by cases heof
    obtain ⟨index, hyields, hlater⟩ := h.advance hp hcurrent 11
    have hbehind := (later_advance p.advance).trans
      (hlater.trans (later_expect (.symbol .rbracket) index.2))
    obtain ⟨result, hsettles, hmore⟩ := hnext hcurrent hbehind (.indexAccess e index.1)
    refine ⟨result, .round (.congr (fun m n => ?_) (hyields.settles.bind (k := fun m n index =>
      loopAt chain 0 m n (.indexAccess e index.1) (index.2.expect (.symbol .rbracket))) hsettles)),
      (later_advance p).trans (hbehind.trans hmore)⟩
    rw [loopAt, postfixLoop, if_neg hcall, if_neg hmember, if_pos hindex]
    rfl
  · refine ⟨(e, p), .round (.of_eq fun m n => ?_), .refl p⟩
    rw [loopAt, postfixLoop, if_neg hcall, if_neg hmember, if_neg hindex]

theorem binaryLoop_ends (h : EndsBelow chain bound) (level : Nat) (left : Expression)
    (hp : p.remaining ≤ bound) : LoopEnds (fun m n => loopAt chain (level + 2) m n left p) p := by
  induction hm : p.remaining using Nat.strong_induction_on generalizing p left with
  | _ m ih =>
  subst hm
  cases hop : levelOperator level p with
  | none =>
    refine ⟨(left, p), .round (.of_eq fun m n => ?_), .refl p⟩
    rw [loopAt, binaryLoop, hop]
  | some op =>
    have hcurrent : p.current.lexeme.type ≠ .eof := by
      rw [(levelOperator_some hop).1]
      exact fun heof => by cases heof
    obtain ⟨right, hyields, hlater⟩ := h.advance hp hcurrent (level + 1)
    have hbehind := (later_advance p.advance).trans hlater
    have hdown := Nat.lt_of_le_of_lt hbehind.remaining_le (remaining_advance hcurrent)
    obtain ⟨result, hsettles, hmore⟩ := ih _ hdown (.binaryExpr op left right.1)
      (Nat.le_trans (Nat.le_of_lt hdown) hp) rfl
    refine ⟨result, .round (.congr (fun m n => ?_) (hyields.settles.bind (k := fun m n right =>
      loopAt chain (level + 2) m n (.binaryExpr op left right.1) right.2) hsettles)),
      (later_advance p).trans (hbehind.trans hmore)⟩
    rw [loopAt, binaryLoop, hop]
    rfl

/-! ## Every height -/

/-- A primary expression takes a token at least. -/
theorem parsePrimary_ends (h : EndsBelow chain bound) (hp : p.remaining ≤ bound) :
    Ends (fun n => parsePrimary (parseExpression chain n) n p) p := by
  cases hl : p.current.lexeme with
  | number _ | hexstring _ | ident _ | eof =>
    exact ⟨(_, p.advance), .of_eq fun n => by rw [parsePrimary, hl], .refl _⟩
  | keyword k =>
    cases k <;> exact ⟨(_, p.advance), .of_eq fun n => by rw [parsePrimary, hl], .refl _⟩
  | symbol s =>
    have hcurrent : p.current.lexeme.type ≠ .eof := by rw [hl]; exact nofun
    cases s with
    | lparen =>
      obtain ⟨expr, hyields, hlater⟩ := h.advance hp hcurrent 11
      refine ⟨(expr.1, expr.2.expect (.symbol .rparen)), .congr (fun n => ?_)
        (hyields.bind (k := fun _ expr => some (expr.1, expr.2.expect (.symbol .rparen)))
          (.of_eq fun _ => rfl)), ?_⟩
      · rw [parsePrimary, hl]
        rfl
      · exact (later_advance p.advance).trans (hlater.trans (later_expect _ _))
    | lbracket =>
      obtain ⟨elements, hsettles, hlater⟩ := parseList_ends h .rbracket []
        (Nat.lt_of_lt_of_le (remaining_advance hcurrent) hp)
      refine ⟨(.arrayLiteral elements.1, elements.2.expect (.symbol .rbracket)),
        .congr (fun n => ?_) (hsettles.yields.bind (k := fun _ elements =>
          some (.arrayLiteral elements.1, elements.2.expect (.symbol .rbracket)))
          (.of_eq fun _ => rfl)), hlater.trans (later_expect _ _)⟩
      rw [parsePrimary, hl]
    | _ => exact ⟨(_, p.advance), .of_eq fun n => by rw [parsePrimary, hl], .refl _⟩

/-- A postfix expression ends, as its loop does. -/
theorem parsePostfix_ends (h : EndsBelow chain bound) (hp : p.remaining ≤ bound) :
    Ends (fun n => parserAt chain 0 n p) p := by
  obtain ⟨expr, hyields, hlater⟩ := parsePrimary_ends h hp
  have hq := Nat.le_trans ((later_advance p).trans hlater).remaining_le hp
  obtain ⟨result, hsettles, hmore⟩ := postfixLoop_ends h expr.1 hq
  exact ⟨result, hyields.bind hsettles.yields, hlater.trans hmore⟩

/-- A prefix operator is a token before its operand. -/
theorem parseUnary_ends (h : EndsBelow chain bound) (hp : p.remaining ≤ bound) :
    Ends (fun n => parserAt chain 1 n p) p := by
  have hprefix (allowed : Nat) (build : Expression → Expression) {s : Symbol}
      (hl : p.current.lexeme = .symbol s)
      (hround : ∀ n, parseUnary chain (n + 1) p =
        (parserAt chain allowed n p.advance).bind fun operand =>
          some (build operand.1, operand.2)) :
      Ends (fun n => parserAt chain 1 n p) p := by
    have hcurrent : p.current.lexeme.type ≠ .eof := by rw [hl]; exact nofun
    obtain ⟨operand, hyields, hlater⟩ := h.advance hp hcurrent allowed
    refine ⟨(build operand.1, operand.2), yields_prefix (hyields.bind (k := fun _ operand =>
      some (build operand.1, operand.2)) (.of_eq fun _ => rfl)) hround rfl, ?_⟩
    exact (later_advance p.advance).trans hlater
  by_cases hunary : p.current.lexeme.isUnary = true
  · cases hl : p.current.lexeme with
    | symbol s =>
      rw [hl] at hunary
      cases s with
      | bang => exact hprefix 1 (.unaryExpr .not) hl fun n => by rw [parseUnary_succ, hl]
      | minus => exact hprefix 1 (.unaryExpr .neg) hl fun n => by rw [parseUnary_succ, hl]
      | tilde => exact hprefix 1 (.unaryExpr .bitNot) hl fun n => by rw [parseUnary_succ, hl]
      | plusPlus =>
        exact hprefix 0 (.incrementExpr · true) hl fun n => by rw [parseUnary_succ, hl]
      | minusMinus =>
        exact hprefix 0 (.decrementExpr · true) hl fun n => by rw [parseUnary_succ, hl]
      | _ => exact absurd hunary Bool.false_ne_true
    | _ =>
      rw [hl] at hunary
      exact absurd hunary Bool.false_ne_true
  · obtain ⟨result, hyields, hlater⟩ := parsePostfix_ends h hp
    exact ⟨result, yields_unary (Bool.not_eq_true _ ▸ hunary) hyields, hlater⟩

theorem parserAt_ends (h : EndsBelow chain bound) (hp : p.remaining ≤ bound) (allowed : Nat) :
    Ends (fun n => parserAt chain allowed n p) p := by
  match allowed with
  | 0 => exact parsePostfix_ends h hp
  | 1 => exact parseUnary_ends h hp
  | level + 2 =>
    obtain ⟨left, hyields, hlater⟩ := parserAt_ends h hp (level + 1)
    have hq := Nat.le_trans ((later_advance p).trans hlater).remaining_le hp
    obtain ⟨result, hsettles, hmore⟩ := binaryLoop_ends h level left.1 hq
    exact ⟨result, hyields.bind hsettles.yields, hlater.trans hmore⟩

theorem endsBelow (chain : PostfixChain) (bound : Nat) : EndsBelow chain bound := by
  induction bound with
  | zero => exact fun p hp => absurd hp (Nat.not_lt_zero _)
  | succ bound ih => exact fun p hp allowed => parserAt_ends ih (Nat.le_of_lt_succ hp) allowed

/-- Whatever the tokens are, the parser of expressions comes to one result. -/
theorem parseExpression_ends (chain : PostfixChain) (p : Parser) :
    ∃ result, Yields (fun n => parseExpression chain n p) result := by
  obtain ⟨result, hyields, -⟩ := endsBelow chain (p.remaining + 1) p (Nat.lt_succ_self _) 11
  exact ⟨result, hyields⟩

/-! ## Both together -/

/-- Parsing inverts printing, up to the members of self names, which become properties: without
such members the same expression comes back.  And whatever the tokens are, parsing ends. -/
theorem parseExpression_inverts (chain : PostfixChain) :
    (∀ (e : Expression) (p : Parser) (next : Lexeme) (rest : List Lexeme), Printable e →
      p.lexemes = print e ++ next :: rest → (∀ k, ¬ Continues k next) →
      Yields (fun n => parseExpression chain n p) (resolve chain e, p.skip (print e).length)) ∧
    (∀ e : Expression, SelfFree chain e → resolve chain e = e) ∧
    ∀ p : Parser, ∃ result, Yields (fun n => parseExpression chain n p) result :=
  ⟨fun _ _ _ _ he htext hnext => parseExpression_print chain he htext hnext, resolve_eq chain,
    parseExpression_ends chain⟩

theorem semicolon_continues_not (k : Nat) : ¬ Continues k (.symbol .semicolon) :=
  not_continues (fun op => by cases op <;> exact nofun)
    (by rintro (h | h | h) <;> exact nomatch h) k

/-- `(a + b) * -c;` -/
def productTokens : Parser :=
  ⟨⟨[⟨.symbol .lparen, 1, 1⟩, ⟨.ident "a", 1, 2⟩, ⟨.symbol .plus, 1, 4⟩, ⟨.ident "b", 1, 6⟩,
    ⟨.symbol .rparen, 1, 7⟩, ⟨.symbol .star, 1, 9⟩, ⟨.symbol .minus, 1, 11⟩, ⟨.ident "c", 1, 12⟩,
    ⟨.symbol .semicolon, 1, 13⟩], ⟨.eof, 1, 14⟩, rfl⟩, 0, []⟩

theorem productTokens_parsed :
    Yields (fun n => parseExpression .sol n productTokens)
        (.binaryExpr .mul (.binaryExpr .add (.identifier "a") (.identifier "b"))
          (.unaryExpr .neg (.identifier "c")), productTokens.skip 8) ∧
      ∃ result, Yields (fun n => parseExpression .sol n productTokens) result :=
  ⟨(parseExpression_inverts .sol).1 (.binaryExpr .mul (.binaryExpr .add (.identifier "a")
      (.identifier "b")) (.unaryExpr .neg (.identifier "c"))) productTokens (.symbol .semicolon)
      [.eof] ⟨⟨trivial, trivial⟩, trivial⟩ rfl semicolon_continues_not,
    (parseExpression_inverts .sol).2.2 productTokens⟩

/-- `this.x;` -/
def thisTokens : Parser :=
  ⟨⟨[⟨.ident "this", 1, 1⟩, ⟨.symbol .dot, 1, 5⟩, ⟨.ident "x", 1, 6⟩,
    ⟨.symbol .semicolon, 1, 7⟩], ⟨.eof, 1, 8⟩, rfl⟩, 0, []⟩

/-- A member of `this` does not come back: it is read as a property. -/
theorem thisMember_not_inverted :
    ¬ ∀ (e : Expression) (p : Parser) (next : Lexeme) (rest : List Lexeme), Printable e →
      p.lexemes = print e ++ next :: rest → (∀ k, ¬ Continues k next) →
      Yields (fun n => parseExpression .sol n p) (e, p.skip (print e).length) := by
  intro hclaim
  have hprintable : Printable (.memberExpr (.identifier "this") "x") := trivial
  have htext : thisTokens.lexemes =
      print (.memberExpr (.identifier "this") "x") ++
        Lexeme.symbol .semicolon :: [Lexeme.eof] := rfl
  have hclaimed := hclaim _ thisTokens _ _ hprintable htext semicolon_continues_not
  have hread := parseExpression_print .sol hprintable htext semicolon_continues_not
  have hsame := congrArg Prod.fst (hclaimed.unique hread)
  have hproperty : resolve .sol (.memberExpr (.identifier "this") "x") = .propertyAccess "x" :=
    member_self .sol List.mem_cons_self "x"
  exact nomatch hsame.trans hproperty

end Runar.Parse.Core
