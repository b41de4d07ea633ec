/-
  Parse/RoundTrip.lean --- parsing what is printed.

  WHAT THIS FILE IS FOR.  The parser of a height comes, on the text of an expression in a place of
  that height, to the loop of the height with the expression in hand; the loop is left open, so
  that the operators of a left operand can follow.  By induction on the expression, from its own
  height up through the heights without its operator and down through the parentheses.
-/
import Runar.Logic.Fuel
import Runar.Parse.Printer

set_option autoImplicit false

namespace Runar.Parse.Core

open Logic

/-! ## The rest of the tokens -/

namespace Parser

/-- What is not read yet. -/
def lexemes (p : Parser) : List Lexeme := (p.list.tokens.drop p.pos).map (·.lexeme)

/-- Some tokens further. -/
def skip (p : Parser) (k : Nat) : Parser := { p with pos := p.pos + k }

theorem skip_skip (p : Parser) (j k : Nat) : (p.skip j).skip k = p.skip (j + k) := by
  rw [skip, skip, skip, Nat.add_assoc]

theorem advance_skip (p : Parser) (k : Nat) : (p.skip k).advance = p.skip (k + 1) := rfl

theorem lexemes_skip (p : Parser) (k : Nat) : (p.skip k).lexemes = p.lexemes.drop k := by
  rw [lexemes, lexemes, skip, ← List.map_drop, List.drop_drop]

theorem lexemes_skip_append {p : Parser} {text rest : List Lexeme}
    (h : p.lexemes = text ++ rest) : (p.skip text.length).lexemes = rest := by
  rw [lexemes_skip, h, List.drop_left]

theorem lexemes_skip_cons {p : Parser} {l : Lexeme} {rest : List Lexeme}
    (h : p.lexemes = l :: rest) : p.advance.lexemes = rest := by
  rw [show p.advance = p.skip 1 from rfl, lexemes_skip, h]
  rfl

theorem current_lexeme (p : Parser) : p.current.lexeme = p.lexemes.headD .eof := by
  unfold current lexemes
  rw [List.headD_eq_head?_getD, List.head?_map, List.head?_drop]
  cases h : p.list.tokens[p.pos]? with
  | none => exact p.list.ends
  | some t => rfl

theorem current_cons {p : Parser} {l : Lexeme} {rest : List Lexeme} (h : p.lexemes = l :: rest) :
    p.current.lexeme = l := by
  rw [current_lexeme, h]
  rfl

theorem current_symbol {p : Parser} {s : Symbol} {rest : List Lexeme}
    (h : p.lexemes = .symbol s :: rest) : p.current.lexeme.type = .symbol s := by
  rw [current_cons h]
  rfl

theorem next_type (p : Parser) :
    p.list.tokens[p.pos + 1]?.map (·.lexeme.type) = p.lexemes[1]?.map (·.type) := by
  rw [lexemes, List.getElem?_map, List.getElem?_drop, Option.map_map]
  rfl

/-- An expected token is taken. -/
theorem expect_cons {p : Parser} {l : Lexeme} {rest : List Lexeme} (h : p.lexemes = l :: rest) :
    p.expect l.type = p.skip 1 := by
  rw [expect, current_cons h, if_pos rfl]
  rfl

theorem expect_symbol {p : Parser} {s : Symbol} {rest : List Lexeme}
    (h : p.lexemes = .symbol s :: rest) : p.expect (.symbol s) = p.skip 1 := expect_cons h

end Parser

/-! ## The levels -/

/-- The operator of a level at a place. -/
def levelOperator : Nat → Parser → Option BinaryOp
  | 0 => oneOf [(.star, .mul), (.slash, .div), (.percent, .mod)]
  | 1 => oneOf [(.plus, .add), (.minus, .sub)]
  | 2 => oneOf [(.shiftLeft, .shl), (.shiftRight, .shr)]
  | 3 => oneOf [(.less, .lt), (.lessEqual, .le), (.greater, .gt), (.greaterEqual, .ge)]
  | 4 => oneOf [(.equal, .eq), (.notEqual, .ne)]
  | 5 => single .amp .bitAnd
  | 6 => oneOf [(.caret, .bitXor)]
  | 7 => single .pipe .bitOr
  | 8 => oneOf [(.andAnd, .and)]
  | 9 => oneOf [(.orOr, .or)]
  | _ => fun _ => none

/-- The chain up to below a level. -/
def climb (parseUnary : ParseFn) (n : Nat) : Nat → ParseFn
  | 0 => parseUnary
  | level + 1 => binaryLevel (levelOperator level) (climb parseUnary n level) n

theorem climb_ten (parseUnary : ParseFn) (n : Nat) :
    climb parseUnary n 10 = parseExpressionOf parseUnary n := rfl

/-- The parser of a height. -/
def parserAt (chain : PostfixChain) : Nat → Nat → ParseFn
  | 0, n => parsePostfix chain (parseExpression chain n) n
  | allowed + 1, n => climb (parseUnary chain n) n allowed

/-- The loop of a height, with an expression in hand. -/
def loopAt (chain : PostfixChain) : Nat → Nat → Nat → Expression → ParseFn
  | 0, m, n => postfixLoop chain (parseExpression chain m) n
  | 1, _, _ => fun e p => some (e, p)
  | level + 2, m, n => binaryLoop (levelOperator level) (climb (parseUnary chain m) m level) n

/-- A token that goes on with an expression of a height. -/
def Continues : Nat → Lexeme → Prop
  | 0, l => l = .symbol .lparen ∨ l = .symbol .dot ∨ l = .symbol .lbracket
  | 1, _ => False
  | level + 2, l => ∃ op, opLevel op = level ∧ l = .symbol (opSymbol op)

/-- A text that does not go on with an expression below a height. -/
def Stops (allowed : Nat) (text : List Lexeme) : Prop :=
  ∀ l ∈ text.head?, ∀ k < allowed, ¬ Continues k l

theorem Stops.mono {a b : Nat} {text : List Lexeme} (h : Stops b text) (hab : a ≤ b) :
    Stops a text := fun l hl k hk => h l hl k (Nat.lt_of_lt_of_le hk hab)

theorem Stops.zero (text : List Lexeme) : Stops 0 text :=
  fun _ _ k hk => absurd hk (Nat.not_lt_zero k)

theorem stops_cons {allowed : Nat} {l : Lexeme} (h : ∀ k < allowed, ¬ Continues k l)
    (rest : List Lexeme) : Stops allowed (l :: rest) := by
  intro l' hl
  obtain rfl := Option.some.inj hl
  exact h

/-- No operator is a token of another kind. -/
theorem not_continues {l : Lexeme} (hop : ∀ op, l ≠ .symbol (opSymbol op))
    (hlow : ¬ Continues 0 l) (k : Nat) : ¬ Continues k l := by
  match k with
  | 0 => exact hlow
  | 1 => exact not_false
  | level + 2 => exact fun ⟨op, _, hl⟩ => hop op hl

theorem opSymbol_inj {op op' : BinaryOp} (h : opSymbol op = opSymbol op') : op = op' := by
  cases op <;> cases op' <;> first | rfl | exact absurd h (by decide)

/-! ## Operators at a place -/

theorem oneOf_some {operators : List (Symbol × BinaryOp)} {level : Nat}
    (htable : ∀ pair ∈ operators, pair.1 = opSymbol pair.2 ∧ opLevel pair.2 = level) {p : Parser}
    {op : BinaryOp} (h : oneOf operators p = some op) :
    p.current.lexeme = .symbol (opSymbol op) ∧ opLevel op = level := by
  unfold oneOf at h
  split at h
  · next s hs =>
    obtain ⟨front, back, hsplit, -⟩ := List.lookup_eq_some_iff.mp h
    have hentry := htable (s, op) (hsplit ▸ List.mem_append_right _ List.mem_cons_self)
    exact ⟨hs.trans (congrArg Lexeme.symbol hentry.1), hentry.2⟩
  · exact nomatch h

theorem single_some {s : Symbol} {op op' : BinaryOp} {p : Parser} (h : single s op p = some op') :
    p.current.lexeme = .symbol s ∧ op' = op := by
  unfold single at h
  split at h
  · next hboth =>
    refine ⟨?_, (Option.some.inj h).symm⟩
    have htype := hboth.1
    cases hl : p.current.lexeme with
    | symbol s' =>
      rw [hl] at htype
      rw [TokenType.symbol.inj htype]
    | _ =>
      rw [hl] at htype
      exact nomatch htype
  · exact nomatch h

/-- An operator that is found stands there, and is one of the level. -/
theorem levelOperator_some {level : Nat} {p : Parser} {op : BinaryOp}
    (h : levelOperator level p = some op) :
    p.current.lexeme = .symbol (opSymbol op) ∧ opLevel op = level := by
  match level with
  | 0 | 1 | 2 | 3 | 4 | 6 | 8 | 9 => exact oneOf_some (by decide) h
  | 5 | 7 =>
    obtain ⟨hs, rfl⟩ := single_some h
    exact ⟨hs, rfl⟩
  | _ + 10 => exact nomatch h

/-- The operator of a level stands before a text that starts as an operand. -/
theorem levelOperator_cons {op : BinaryOp} {p : Parser} {text : List Lexeme} {allowed : Nat}
    (h : p.lexemes = .symbol (opSymbol op) :: text) (hstarts : StartsAt allowed text) :
    levelOperator (opLevel op) p = some op := by
  have hcurrent := Parser.current_cons h
  obtain ⟨l, rest, rfl, hl⟩ := hstarts
  have hnext : p.list.tokens[p.pos + 1]?.map (·.lexeme.type) = some l.type := by
    rw [Parser.next_type, h]
    rfl
  have hne {s : Symbol} (hs : (Lexeme.symbol s).isPrimary = false)
      (hs' : (Lexeme.symbol s).isUnary = false) : l.type ≠ .symbol s := by
    intro htype
    cases l with
    | symbol s' =>
      obtain rfl := TokenType.symbol.inj htype
      rcases hl with hl | hl
      · exact absurd hl (by rw [hs]; exact Bool.false_ne_true)
      · exact absurd hl.1 (by rw [hs']; exact Bool.false_ne_true)
    | _ => exact nomatch htype
  cases op with
  | bitAnd | bitOr =>
    show single _ _ p = _
    rw [single, hcurrent, hnext, if_pos]
    exact ⟨rfl, fun hsame => hne rfl rfl (Option.some.inj hsame)⟩
  | _ =>
    show oneOf _ p = _
    rw [oneOf, hcurrent]
    rfl

/-! ## Where a loop ends -/

/-- The loop of a height ends before a text that does not go on with it. -/
theorem loopAt_stops (chain : PostfixChain) {allowed : Nat} {p : Parser}
    (h : Stops (allowed + 1) p.lexemes) (e : Expression) :
    Settles (fun m n => loopAt chain allowed m n e p) (e, p) := by
  have hcurrent : ∀ l, p.current.lexeme = l → ¬ Continues allowed l := by
    intro l hl hcont
    rw [Parser.current_lexeme] at hl
    cases htext : p.lexemes with
    | nil =>
      rw [htext] at hl
      subst hl
      match allowed with
      | 0 => exact absurd hcont (by rintro (h | h | h) <;> exact nomatch h)
      | 1 => exact hcont
      | level + 2 => exact nomatch hcont
    | cons l' rest =>
      rw [htext] at hl h
      subst hl
      exact h _ rfl _ (Nat.lt_succ_self _) hcont
  refine .round (.of_eq fun m n => ?_)
  match allowed with
  | 0 =>
    have hne {s : Symbol} (hs : Continues 0 (.symbol s)) :
        p.current.lexeme.type ≠ .symbol s := by
      intro htype
      cases hl : p.current.lexeme with
      | symbol s' =>
        rw [hl] at htype
        rw [TokenType.symbol.inj htype] at hl
        exact hcurrent _ hl hs
      | _ =>
        rw [hl] at htype
        exact nomatch htype
    rw [loopAt, postfixLoop, if_neg (hne (.inl rfl)), if_neg (hne (.inr (.inl rfl))),
      if_neg (hne (.inr (.inr rfl)))]
  | 1 => rfl
  | level + 2 =>
    have hnone : levelOperator level p = none := by
      cases hop : levelOperator level p with
      | none => rfl
      | some op =>
        obtain ⟨hl, hlevel⟩ := levelOperator_some hop
        exact absurd ⟨op, hlevel, rfl⟩ (hcurrent _ hl)
    rw [loopAt, binaryLoop, hnone]

/-! ## What the parsers do on a printed expression -/

/-- On the text of an expression the parser of a height comes to its loop behind it. -/
def Reads (chain : PostfixChain) (allowed : Nat) (e : Expression) : Prop :=
  ∀ (p : Parser) (rest : List Lexeme) (result : Expression × Parser),
    p.lexemes = printAt allowed e ++ rest → Stops allowed rest →
    Settles (fun m n => loopAt chain allowed m n (resolve chain e)
      (p.skip (printAt allowed e).length)) result →
    Yields (fun n => parserAt chain allowed n p) result

variable {chain : PostfixChain} {e : Expression} {allowed : Nat}

/-- Before a text that does not go on, the parser returns the expression. -/
theorem Reads.closed (h : Reads chain allowed e) {p : Parser} {rest : List Lexeme}
    (htext : p.lexemes = printAt allowed e ++ rest) (hstops : Stops (allowed + 1) rest) :
    Yields (fun n => parserAt chain allowed n p)
      (resolve chain e, p.skip (printAt allowed e).length) := by
  refine h p rest _ htext (hstops.mono (Nat.le_succ _)) (loopAt_stops chain ?_ _)
  rw [Parser.lexemes_skip_append htext]
  exact hstops

/-- From a primary expression the loop over calls, members and indices goes on. -/
theorem yields_postfix {p p' : Parser} {result : Expression × Parser}
    (hprimary : Yields (fun n => parsePrimary (parseExpression chain n) n p) (e, p'))
    (hloop : Settles (fun m n => loopAt chain 0 m n e p') result) :
    Yields (fun n => parserAt chain 0 n p) result := hprimary.bind hloop.yields

/-- A text without an operator before it is read by the parser below. -/
theorem yields_unary {p : Parser} (hnot : p.current.lexeme.isUnary = false)
    {result : Expression × Parser} (h : Yields (fun n => parserAt chain 0 n p) result) :
    Yields (fun n => parserAt chain 1 n p) result := by
  refine .succ (h.congr fun n => ?_)
  show parseUnary chain (n + 1) p = _
  unfold parseUnary
  dsimp only
  split
  case h_6 => rfl
  all_goals
    next hl =>
    rw [hl] at hnot
    exact nomatch hnot

/-- Where an expression has the same text in a place above, it is read there too. -/
theorem Reads.lift (h : Reads chain allowed e) (hne : height e ≠ allowed + 1) :
    Reads chain (allowed + 1) e := by
  have hsame : printAt (allowed + 1) e = printAt allowed e := by
    unfold printAt wrap
    by_cases hlow : height e ≤ allowed
    · rw [if_pos hlow, if_pos (Nat.le_succ_of_le hlow)]
    · rw [if_neg hlow, if_neg (by omega)]
  intro p rest result htext hstops hloop
  rw [hsame] at htext hloop
  have hclosed := h.closed htext hstops
  match allowed with
  | 0 =>
    have hresult : (resolve chain e, p.skip (printAt 0 e).length) = result := by
      obtain ⟨enough, hloop⟩ := hloop
      exact Option.some.inj (hloop enough enough (Nat.le_refl _) (Nat.le_refl _))
    rw [← hresult]
    refine yields_unary ?_ hclosed
    obtain ⟨l, text, hprint, hl⟩ := startsAt_printAt 0 e
    rw [hprint] at htext
    rw [Parser.current_cons htext]
    rcases hl with hl | hl
    · cases l with
      | symbol s => cases s <;> first | rfl | exact absurd hl Bool.false_ne_true
      | _ => rfl
    · exact absurd rfl hl.2
  | level + 1 => exact hclosed.bind hloop.yields

/-- An expression that is read at its own height is read in every place. -/
theorem Reads.everywhere (h : Reads chain (height e) e) :
    ∀ allowed ≤ 11, Reads chain allowed e := by
  have hup : ∀ k, height e + k ≤ 11 → Reads chain (height e + k) e := by
    intro k hk
    induction k with
    | zero => exact h
    | succ k ih => exact (ih (by omega)).lift (by omega)
  have hhigh : ∀ allowed ≤ 11, height e ≤ allowed → Reads chain allowed e := by
    intro allowed hle hlow
    have hread := hup (allowed - height e) (by omega)
    rwa [Nat.add_sub_cancel' hlow] at hread
  have htop : Reads chain 11 e := hhigh 11 (Nat.le_refl _) (height_le e)
  have hparen : height e ≠ 0 → Reads chain 0 e := by
    intro hne p rest result htext _ hloop
    have hprint : printAt 0 e = Lexeme.symbol .lparen :: (print e ++ [Lexeme.symbol .rparen]) :=
      if_neg (by omega)
    have hprint' : printAt 11 e = print e := if_pos (height_le e)
    rw [hprint] at htext hloop
    rw [List.cons_append, List.append_assoc] at htext
    have hinner := Parser.lexemes_skip_cons htext
    rw [← hprint'] at hinner
    have hread := htop.closed hinner (stops_cons (fun k _ => not_continues
      (fun op => by cases op <;> (intro h; exact nomatch h))
      (by rintro (h | h | h) <;> exact nomatch h) k) _)
    refine yields_postfix ?_ hloop
    refine Yields.congr (fun n => ?_) (hread.bind (k := fun _ expr =>
      some (expr.1, expr.2.expect (.symbol .rparen))) (Yields.of_eq fun _ => ?_))
    · rw [parsePrimary, Parser.current_cons htext]
      rfl
    · have hclose := Parser.lexemes_skip_append hinner
      dsimp only
      rw [Parser.expect_symbol hclose, hprint']
      simp only [List.length_cons, List.length_append, List.length_nil]
      rw [show p.advance = p.skip 1 from rfl, Parser.skip_skip, Parser.skip_skip]
      exact congrArg (fun k => some (resolve chain e, p.skip k)) (by omega)
  have hdown : ∀ k < height e, Reads chain k e := by
    intro k hk
    induction k with
    | zero => exact hparen (by omega)
    | succ k ih => exact (ih (by omega)).lift (by omega)
  intro allowed hle
  rcases Nat.lt_or_ge allowed (height e) with hlow | hlow
  · exact hdown allowed hlow
  · exact hhigh allowed hle hlow

/-! ## Every expression is read -/

theorem printAt_top (e : Expression) : printAt 11 e = print e := if_pos (height_le e)

theorem printAt_height (e : Expression) : printAt (height e) e = print e :=
  if_pos (Nat.le_refl _)

/-- The tokens that end an entry of a list. -/
theorem closing_stops {s : Symbol} (hs : s = .rparen ∨ s = .rbracket ∨ s = .comma)
    (rest : List Lexeme) : Stops 12 (.symbol s :: rest) := by
  refine stops_cons (fun k _ => not_continues (fun op hop => ?_) (fun hlow => ?_) k) rest
  · have hsymbol := Lexeme.symbol.inj hop
    rcases hs with rfl | rfl | rfl <;> cases op <;> exact nomatch hsymbol
  · rcases hs with rfl | rfl | rfl <;> rcases hlow with h | h | h <;> exact nomatch h

/-- No entry starts with a token that ends a list. -/
theorem startsAt_type {allowed : Nat} {text : List Lexeme} (h : StartsAt allowed text)
    {p : Parser} (htext : p.lexemes = text) {s : Symbol} (hs : s = .rparen ∨ s = .rbracket) :
    ¬ (p.current.lexeme.type = .symbol s ∨ p.current.lexeme.type = .eof) := by
  obtain ⟨l, rest, rfl, hl⟩ := h
  rw [Parser.current_cons htext]
  have hstart : l.isPrimary = true ∨ l.isUnary = true := hl.imp_right And.left
  cases l with
  | symbol s' =>
    rintro (h | h)
    · obtain rfl := TokenType.symbol.inj h
      rcases hs with rfl | rfl <;> rcases hstart with h | h <;> exact absurd h Bool.false_ne_true
    · exact nomatch h
  | eof => rcases hstart with h | h <;> exact absurd h Bool.false_ne_true
  | _ => rintro (h | h) <;> exact nomatch h

/-- A literal or an identifier is read. -/
theorem reads_atom {e : Expression} {l : Lexeme} (hheight : height e = 0) (hprint : print e = [l])
    (hresolve : resolve chain e = e)
    (hprimary : ∀ (p : Parser) (n : Nat), p.current.lexeme = l →
      parsePrimary (parseExpression chain n) n p = some (e, p.advance)) :
    Reads chain (height e) e := by
  intro p rest result htext _ hloop
  rw [printAt_height, hprint] at htext hloop
  rw [hheight, hresolve] at hloop
  rw [hheight]
  exact yields_postfix (.of_eq fun n => hprimary p n (Parser.current_cons htext)) hloop

theorem lexemes_tail {p : Parser} {text rest : List Lexeme} {l : Lexeme}
    (h : p.lexemes = text ++ l :: rest) : (p.skip (text.length + 1)).lexemes = rest :=
  Parser.lexemes_skip_cons (Parser.lexemes_skip_append h)

/-- A member is read behind its object. -/
theorem reads_member {object : Expression} (h : Reads chain 0 object) (property : String) :
    Reads chain 0 (.memberExpr object property) := by
  intro p rest result htext _ hloop
  have hprint : printAt 0 (.memberExpr object property) =
      printAt 0 object ++ [Lexeme.symbol .dot, .ident property] := rfl
  rw [hprint, List.append_assoc] at htext
  rw [hprint, List.length_append] at hloop
  have hdot := Parser.lexemes_skip_append htext
  have hname := lexemes_tail htext
  refine h p _ result htext (Stops.zero _) (.round (.congr (fun m n => ?_) hloop))
  rw [loopAt, postfixLoop, Parser.current_symbol hdot, if_neg (by decide), if_pos rfl,
    Parser.advance_skip]
  dsimp only
  rw [Parser.current_cons hname]
  have hnext : (if chain.strict then (p.skip ((printAt 0 object).length + 1)).expect .ident
      else (p.skip ((printAt 0 object).length + 1)).advance) =
      p.skip ((printAt 0 object).length + 2) := by
    split
    · exact Parser.expect_cons hname
    · rfl
  rw [hnext]
  rfl

/-- An index is read behind its object. -/
theorem reads_index {object index : Expression} (h : Reads chain 0 object)
    (hindex : Reads chain 11 index) : Reads chain 0 (.indexAccess object index) := by
  intro p rest result htext _ hloop
  have hprint : printAt 0 (.indexAccess object index) =
      printAt 0 object ++ Lexeme.symbol .lbracket ::
        (printAt 11 index ++ [Lexeme.symbol .rbracket]) := by
    rw [printAt_top]
    rfl
  rw [hprint] at hloop
  rw [hprint, List.append_assoc, List.cons_append, List.append_assoc] at htext
  have hopen := Parser.lexemes_skip_append htext
  have hinner := lexemes_tail htext
  have hread := hindex.closed hinner (closing_stops (.inr (.inl rfl)) _)
  have hclose := Parser.lexemes_skip_append hinner
  refine h p _ result htext (Stops.zero _) (.round ?_)
  refine Settles.congr (fun m n => ?_) (hread.settles.bind (k := fun m n index =>
    postfixLoop chain (parseExpression chain m) n (.indexAccess (resolve chain object) index.1)
      (index.2.expect (.symbol .rbracket))) ?_)
  · rw [loopAt, postfixLoop, Parser.current_symbol hopen, if_neg (by decide), if_neg (by decide),
      if_pos rfl]
    rfl
  · refine .congr (fun m n => ?_) hloop
    dsimp only
    rw [Parser.expect_symbol hclose, Parser.skip_skip, Parser.skip_skip]
    simp only [List.length_append, List.length_cons, List.length_nil]
    exact congrArg (fun k => postfixLoop chain (parseExpression chain m) n
      (.indexAccess (resolve chain object) (resolve chain index)) (p.skip k)) (by omega)

/-- Entries are read as a list. -/
def ReadsList (chain : PostfixChain) (elements : List Expression) : Prop :=
  ∀ (close : Symbol) (p : Parser) (rest : List Lexeme) (before : List Expression),
    close = .rparen ∨ close = .rbracket → p.lexemes = printList elements ++ .symbol close :: rest →
    Settles (fun m n => parseList close (parseExpression chain m) n before p)
      (before ++ resolveList chain elements, p.skip (printList elements).length)

theorem readsList_nil : ReadsList chain [] := by
  intro close p rest before _ htext
  refine .round (.of_eq fun m n => ?_)
  rw [parseList, Parser.current_cons htext, if_pos (.inl rfl), resolveList, List.append_nil]
  rfl

theorem readsList_cons {e : Expression} {elements : List Expression} (h : Reads chain 11 e)
    (hlist : ReadsList chain elements) : ReadsList chain (e :: elements) := by
  intro close p rest before hclose htext
  have hprint : printList (e :: elements) = printAt 11 e ++ printRest elements := by
    rw [printAt_top]
    rfl
  rw [hprint, List.append_assoc] at htext
  have hstarts := startsAt_type ((startsAt_printAt 11 e).append _) htext hclose
  have hafter := Parser.lexemes_skip_append htext
  have hstops : Stops 12 (printRest elements ++ Lexeme.symbol close :: rest) := by
    cases elements with
    | nil => exact closing_stops (hclose.imp_right .inl) _
    | cons => exact closing_stops (.inr (.inr rfl)) _
  have hread := h.closed htext hstops
  refine .round (.congr (fun m n => ?_) (hread.settles.bind (k := fun m n element =>
    parseList close (parseExpression chain m) n (before ++ [element.1])
      (if element.2.current.lexeme.type = .symbol .comma then element.2.advance
        else element.2)) ?_))
  · rw [parseList, if_neg hstarts]
    rfl
  · rw [hprint, resolveList,
      List.append_cons before (resolve chain e) (resolveList chain elements)]
    cases elements with
    | nil =>
      have hne : (TokenType.symbol close) ≠ .symbol .comma := by
        rcases hclose with rfl | rfl <;> decide
      dsimp only
      rw [Parser.current_symbol hafter, if_neg hne, printRest, List.append_nil (printAt 11 e)]
      exact hlist close _ rest _ hclose hafter
    | cons next elements =>
      have hlength : (printAt 11 e ++ printRest (next :: elements)).length =
          (printAt 11 e).length + 1 + (printList (next :: elements)).length := by
        rw [List.length_append, Nat.add_assoc, Nat.add_comm 1]
        rfl
      dsimp only
      rw [Parser.current_symbol hafter, if_pos rfl, hlength, ← Parser.skip_skip]
      exact hlist close _ rest _ hclose (Parser.lexemes_skip_cons hafter)

/-- A call is read behind its callee. -/
theorem reads_call {callee : Expression} {args : List Expression} (h : Reads chain 0 callee)
    (hargs : ReadsList chain args) : Reads chain 0 (.callExpr callee args) := by
  intro p rest result htext _ hloop
  have hprint : printAt 0 (.callExpr callee args) =
      printAt 0 callee ++ Lexeme.symbol .lparen ::
        (printList args ++ [Lexeme.symbol .rparen]) := rfl
  rw [hprint] at hloop
  rw [hprint, List.append_assoc, List.cons_append, List.append_assoc] at htext
  have hopen := Parser.lexemes_skip_append htext
  have hinner := lexemes_tail htext
  have hread := hargs .rparen _ rest [] (.inl rfl) hinner
  have hclose := Parser.lexemes_skip_append hinner
  refine h p _ result htext (Stops.zero _) (.round ?_)
  refine Settles.congr (fun m n => ?_) (hread.bind (k := fun m n args =>
    postfixLoop chain (parseExpression chain m) n (.callExpr (resolve chain callee) args.1)
      (args.2.expect (.symbol .rparen))) ?_)
  · rw [loopAt, postfixLoop, Parser.current_symbol hopen, if_pos rfl]
    rfl
  · refine .congr (fun m n => ?_) hloop
    dsimp only
    rw [Parser.expect_symbol hclose, Parser.skip_skip, Parser.skip_skip]
    simp only [List.length_append, List.length_cons, List.length_nil]
    exact congrArg (fun k => postfixLoop chain (parseExpression chain m) n
      (.callExpr (resolve chain callee) (resolveList chain args)) (p.skip k)) (by omega)

/-- An array is read. -/
theorem reads_array {elements : List Expression} (h : ReadsList chain elements) :
    Reads chain 0 (.arrayLiteral elements) := by
  intro p rest result htext _ hloop
  have hprint : printAt 0 (.arrayLiteral elements) =
      Lexeme.symbol .lbracket :: (printList elements ++ [Lexeme.symbol .rbracket]) := rfl
  rw [hprint] at hloop
  rw [hprint, List.cons_append, List.append_assoc] at htext
  have hinner := Parser.lexemes_skip_cons htext
  have hread := h .rbracket _ rest [] (.inr rfl) hinner
  have hclose := Parser.lexemes_skip_append hinner
  refine yields_postfix ?_ hloop
  refine Yields.congr (fun n => ?_) (hread.yields.bind (k := fun _ elements =>
    some (.arrayLiteral elements.1, elements.2.expect (.symbol .rbracket))) (.of_eq fun _ => ?_))
  · rw [parsePrimary, Parser.current_cons htext]
  · dsimp only
    rw [Parser.expect_symbol hclose, show p.advance = p.skip 1 from rfl, Parser.skip_skip,
      Parser.skip_skip]
    simp only [List.length_cons, List.length_append, List.length_nil]
    exact congrArg (fun k => some (Expression.arrayLiteral (resolveList chain elements), p.skip k))
      (by omega)

/-- The loop of the unary expressions only returns. -/
theorem settles_unary {e : Expression} {p : Parser} {result : Expression × Parser}
    (h : Settles (fun m n => loopAt chain 1 m n e p) result) : (e, p) = result := by
  obtain ⟨enough, hsettles⟩ := h
  exact Option.some.inj (hsettles enough enough (Nat.le_refl _) (Nat.le_refl _))

theorem parseUnary_succ (chain : PostfixChain) (n : Nat) (p : Parser) :
    parseUnary chain (n + 1) p =
      match p.current.lexeme with
      | .symbol .bang =>
          (parserAt chain 1 n p.advance).bind fun operand =>
            some (.unaryExpr .not operand.1, operand.2)
      | .symbol .minus =>
          (parserAt chain 1 n p.advance).bind fun operand =>
            some (.unaryExpr .neg operand.1, operand.2)
      | .symbol .tilde =>
          (parserAt chain 1 n p.advance).bind fun operand =>
            some (.unaryExpr .bitNot operand.1, operand.2)
      | .symbol .plusPlus =>
          (parserAt chain 0 n p.advance).bind fun operand =>
            some (.incrementExpr operand.1 true, operand.2)
      | .symbol .minusMinus =>
          (parserAt chain 0 n p.advance).bind fun operand =>
            some (.decrementExpr operand.1 true, operand.2)
      | _ => parserAt chain 0 n p := rfl

/-- What a round of the unary parser yields, the parser yields. -/
theorem yields_prefix {f : Nat → Option (Expression × Parser)} {p : Parser}
    {result result' : Expression × Parser} (hyields : Yields f result)
    (hround : ∀ n, parseUnary chain (n + 1) p = f n) (hresult : result = result') :
    Yields (fun n => parserAt chain 1 n p) result' :=
  .succ (hresult ▸ hyields.congr hround)

/-- A prefix operator is read before its operand. -/
theorem reads_unary {operand : Expression} (h : Reads chain 1 operand) (op : UnaryOp) :
    Reads chain 1 (.unaryExpr op operand) := by
  intro p rest result htext hstops hloop
  have hprint : printAt 1 (.unaryExpr op operand) =
      Lexeme.symbol (unarySymbol op) :: printAt 1 operand := rfl
  rw [hprint] at htext hloop
  have hread := h _ rest _ (Parser.lexemes_skip_cons htext) hstops (.of_eq fun _ _ => rfl)
  refine yields_prefix (hread.bind (k := fun _ operand =>
    some (.unaryExpr op operand.1, operand.2)) (.of_eq fun _ => rfl)) (fun n => ?_) ?_
  · rw [parseUnary_succ, Parser.current_cons htext]
    cases op <;> rfl
  · rw [← settles_unary hloop, List.length_cons, Nat.add_comm, ← Parser.skip_skip]
    rfl

/-- A step operator is read before its operand. -/
theorem reads_step {operand : Expression} {symbol : Symbol} (node : Expression → Expression)
    (h : Reads chain 0 operand)
    (hprint : printAt 1 (node operand) = .symbol symbol :: printAt 0 operand)
    (hresolve : resolve chain (node operand) = node (resolve chain operand))
    (hround : ∀ n (q : Parser), q.current.lexeme = .symbol symbol →
      parseUnary chain (n + 1) q = (parserAt chain 0 n q.advance).bind fun operand =>
        some (node operand.1, operand.2)) :
    Reads chain 1 (node operand) := by
  intro p rest result htext hstops hloop
  rw [hprint] at htext hloop
  have hread := h.closed (Parser.lexemes_skip_cons htext) hstops
  refine yields_prefix (hread.bind (k := fun _ operand =>
    some (node operand.1, operand.2)) (.of_eq fun _ => rfl))
    (fun n => hround n p (Parser.current_cons htext)) ?_
  rw [← settles_unary hloop, hresolve, List.length_cons, Nat.add_comm, ← Parser.skip_skip]
  rfl

theorem reads_increment {operand : Expression} (h : Reads chain 0 operand) :
    Reads chain 1 (.incrementExpr operand true) :=
  reads_step (.incrementExpr · true) h rfl rfl fun n q hq => by
    rw [parseUnary_succ, hq]

theorem reads_decrement {operand : Expression} (h : Reads chain 0 operand) :
    Reads chain 1 (.decrementExpr operand true) :=
  reads_step (.decrementExpr · true) h rfl rfl fun n q hq => by
    rw [parseUnary_succ, hq]

/-- An operator is read between its operands. -/
theorem reads_binary {left right : Expression} {op : BinaryOp}
    (hleft : Reads chain (opLevel op + 2) left) (hright : Reads chain (opLevel op + 1) right) :
    Reads chain (opLevel op + 2) (.binaryExpr op left right) := by
  intro p rest result htext hstops hloop
  have hprint : printAt (opLevel op + 2) (.binaryExpr op left right) =
      printAt (opLevel op + 2) left ++
        Lexeme.symbol (opSymbol op) :: printAt (opLevel op + 1) right :=
    if_pos (Nat.le_refl _)
  rw [hprint] at hloop
  rw [hprint, List.append_assoc, List.cons_append] at htext
  have hop := Parser.lexemes_skip_append htext
  have hinner := lexemes_tail htext
  have hread := hright.closed hinner hstops
  have hstops' : Stops (opLevel op + 2)
      (.symbol (opSymbol op) :: (printAt (opLevel op + 1) right ++ rest)) := by
    refine stops_cons (fun k hk hcont => ?_) _
    match k with
    | 0 => rcases hcont with h | h | h <;> cases op <;> exact nomatch h
    | 1 => exact hcont
    | level + 2 =>
      obtain ⟨op', hlevel, hsymbol⟩ := hcont
      obtain rfl := opSymbol_inj (Lexeme.symbol.inj hsymbol)
      omega
  refine hleft p _ result htext hstops' (.round ?_)
  refine Settles.congr (fun m n => ?_) (hread.settles.bind (k := fun m n right =>
    binaryLoop (levelOperator (opLevel op)) (climb (parseUnary chain m) m (opLevel op)) n
      (.binaryExpr op (resolve chain left) right.1) right.2) ?_)
  · rw [loopAt, binaryLoop, levelOperator_cons hop ((startsAt_printAt _ right).append rest)]
    rfl
  · refine .congr (fun m n => ?_) hloop
    dsimp only
    rw [Parser.skip_skip, List.length_append, List.length_cons, Nat.add_assoc, Nat.add_comm 1]
    rfl

/-! ## The round trip -/

mutual

/-- Every expression is read at its height. -/
theorem reads (chain : PostfixChain) : ∀ e : Expression, Printable e → Reads chain (height e) e
  | .bigintLiteral value, h => by
      refine reads_atom rfl rfl rfl fun p n hcurrent => ?_
      have hvalue : ((value.toNat : Nat) : Int) = value := Int.toNat_of_nonneg h
      rw [parsePrimary, hcurrent]
      dsimp only
      rw [value_digitsOf, hvalue]
  | .boolLiteral value, _ => by
      refine reads_atom rfl rfl rfl fun p n hcurrent => ?_
      rw [parsePrimary, hcurrent]
      cases value <;> rfl
  | .bytestringLiteral _, _ => reads_atom rfl rfl rfl fun _ _ hcurrent => by
      rw [parsePrimary, hcurrent]
  | .identifier _, _ => reads_atom rfl rfl rfl fun _ _ hcurrent => by
      rw [parsePrimary, hcurrent]
  | .memberExpr object property, h =>
      reads_member ((reads chain object h).everywhere 0 (Nat.zero_le _)) property
  | .binaryExpr op left right, h =>
      have hlevel := opLevel_le op
      reads_binary ((reads chain left h.1).everywhere _ (by omega))
        ((reads chain right h.2).everywhere _ (by omega))
  | .unaryExpr op operand, h =>
      reads_unary ((reads chain operand h).everywhere 1 (by decide)) op
  | .callExpr callee args, h =>
      reads_call ((reads chain callee h.1).everywhere 0 (Nat.zero_le _)) (readsList chain args h.2)
  | .indexAccess object index, h =>
      reads_index ((reads chain object h.1).everywhere 0 (Nat.zero_le _))
        ((reads chain index h.2).everywhere 11 (Nat.le_refl _))
  | .incrementExpr operand isPrefix, h => by
      obtain rfl : isPrefix = true := h.1
      exact reads_increment ((reads chain operand h.2).everywhere 0 (Nat.zero_le _))
  | .decrementExpr operand isPrefix, h => by
      obtain rfl : isPrefix = true := h.1
      exact reads_decrement ((reads chain operand h.2).everywhere 0 (Nat.zero_le _))
  | .arrayLiteral elements, h => reads_array (readsList chain elements h)

theorem readsList (chain : PostfixChain) : ∀ elements, AllPrintable elements →
    ReadsList chain elements
  | [], _ => readsList_nil
  | e :: elements, h =>
      readsList_cons ((reads chain e h.1).everywhere 11 (Nat.le_refl _))
        (readsList chain elements h.2)

end

/-- Before a token that does not go on with an expression, parsing what is printed returns the
expression, and stops at the token. -/
theorem parseExpression_print (chain : PostfixChain) {e : Expression} (he : Printable e)
    {p : Parser} {next : Lexeme} {rest : List Lexeme} (htext : p.lexemes = print e ++ next :: rest)
    (hnext : ∀ k, ¬ Continues k next) :
    Yields (fun n => parseExpression chain n p) (resolve chain e, p.skip (print e).length) := by
  have hread := (reads chain e he).everywhere 11 (Nat.le_refl _)
  rw [← printAt_top] at htext ⊢
  exact hread.closed htext (stops_cons (fun k _ => hnext k) rest)

end Runar.Parse.Core
