import LetScript.Proofs.Grammar.Strata

/-!
# What is spelled is read

Lexemes that spell a tree are read cleanly, and the tree is what is found.

* `Follows`, `Ends` — what may stand behind an expression of a stratum and behind a statement.
* `expression_finds` — an expression of a stratum is read as the left operand of whatever the loop
  behind it finds.  In this form the induction on the rules goes through for left operands.
* `arguments_finds`, `block_finds`, `statement_finds` — the same for the other sorts of tree, in front
  of what closes them.
* `ofLexemes_of_spellsProgram` — whole scripts.
-/

namespace LetScript

namespace Grammar

open Reading

/-! ## What stands behind -/

/-- A lexeme that can stand behind an expression of the stratum: it goes on neither with the last
operand nor with a conditional at the end. -/
structure Follows (tier : Tier) (kind : Kind) : Prop where
  power_le : kind.power ≤ tier.ceiling
  ne_elseKey : kind ≠ .elseKey

/-- A lexeme that can stand behind a statement. -/
structure Ends (s : Stmt) (kind : Kind) : Prop where
  mayLeaveOpen_or : MayLeaveOpen s kind ∨ kind = .semicolon
  ne_elseKey : kind ≠ .elseKey

theorem Follows.next {tier : Tier} {kind : Kind} (hfollows : Follows tier kind) :
    Follows tier.next kind :=
  ⟨Nat.le_trans hfollows.power_le tier.ceiling_le_next, hfollows.ne_elseKey⟩

theorem follows_of_power {tier : Tier} {kind : Kind} (hpower : kind.power = 0)
    (helse : kind ≠ .elseKey) : Follows tier kind :=
  ⟨by rw [hpower]; exact Nat.zero_le _, helse⟩

theorem follows_rParen (tier : Tier) : Follows tier .rParen :=
  follows_of_power rfl (by decide)

theorem follows_comma (tier : Tier) : Follows tier .comma :=
  follows_of_power rfl (by decide)

theorem follows_operator (op : InfixOp) : Follows (.ofInfix op) op.kind := by
  cases op <;> exact ⟨by decide, by decide⟩

theorem follows_lParen : Follows .application .lParen :=
  ⟨by decide, by decide⟩

theorem ends_semicolon (s : Stmt) : Ends s .semicolon :=
  ⟨.inr rfl, by decide⟩

/-- Behind a statement that ends in an expression nothing goes on with the expression. -/
theorem power_eq_zero_of_ends {kind : Kind}
    (hends : (kind ≠ .lParen ∧ ∀ op : InfixOp, kind ≠ op.kind) ∨ kind = .semicolon) :
    kind.power = 0 := by
  rcases hends with ⟨hparen, hop⟩ | rfl
  · exact power_eq_zero hparen hop
  · rfl

theorem nextKind_append_cons (ws : List Lexeme) (lexeme : Lexeme) (rest : List Lexeme) :
    nextKind (ws ++ lexeme :: rest) = firstKind lexeme.kind ws := by
  cases ws <;> rfl

/-- A block does not end where a statement starts. -/
theorem SpellsStmt.nextKind_ne_rBrace {ws rest : List Lexeme} {s : Stmt}
    (hspells : SpellsStmt ws s) : nextKind (ws ++ rest) ≠ .rBrace := by
  obtain ⟨lexeme, others, rfl, hstarts⟩ := hspells.exists_starts
  show lexeme.kind ≠ .rBrace
  intro hkind
  rw [hkind] at hstarts
  cases hstarts

/-- In a row of statements each one stands in front of what can stand behind the one before it. -/
theorem SpellsStmts.ends {closing : Kind} {ws : List Lexeme} {first : Stmt} {others : Block}
    (hothers : SpellsStmts closing ws others) (hclosing : closing = .rBrace ∨ closing = .eof)
    (hopen : MayLeaveOpen first (firstKind closing ws)) :
    Ends first (firstKind closing ws) ∧ firstKind closing ws ≠ .semicolon := by
  rcases hothers.firstKind_eq_or_starts with ⟨-, hkind⟩ | hstarts
  · rw [hkind] at hopen ⊢
    rcases hclosing with rfl | rfl
    · exact ⟨⟨.inl hopen, by decide⟩, by decide⟩
    · exact ⟨⟨.inl hopen, by decide⟩, by decide⟩
  · generalize firstKind closing ws = kind at hopen hstarts ⊢
    refine ⟨⟨.inl hopen, ?_⟩, ?_⟩
    · rintro rfl
      cases hstarts
    · rintro rfl
      cases hstarts

/-! ## Names -/

variable {rest last : List Lexeme}

theorem SpellsMoreNames.finds {ws : List Lexeme} {names : List String} {closing : String}
    (hspells : SpellsMoreNames ws names) :
    (moreParameters (ws ++ ⟨.rParen, closing⟩ :: rest)).Finds names rest := by
  induction hspells with
  | nil => exact finds_moreParameters.2 (.inr ⟨closing, rfl, rfl⟩)
  | @cons comma name ws names hmore ih =>
      exact finds_moreParameters.2 (.inl ⟨comma, _, rfl, name, _, rfl, names, ih, rfl⟩)

theorem SpellsNames.finds {ws : List Lexeme} {names : List String} {closing : String}
    (hspells : SpellsNames ws names) :
    (parameters (ws ++ ⟨.rParen, closing⟩ :: rest)).Finds names rest := by
  cases hspells with
  | nil => exact finds_parameters.2 (.inl ⟨closing, rfl, rfl⟩)
  | @cons name ws names hmore =>
      exact finds_parameters.2 (.inr ⟨name, _, rfl, names, hmore.finds, rfl⟩)

/-! ## Expressions, blocks and statements -/

/-- An operand is the left operand of what the loop behind it finds. -/
theorem finds_expression_of_operand {level : Nat} {input : List Lexeme} {left e : Expr}
    (hoperand : (operand input).Finds left rest)
    (hcontinued : (continued level left rest).Finds e last) :
    (expression level input).Finds e last :=
  finds_expression.2 ⟨left, rest, hoperand, hcontinued⟩

theorem continued_stops {level : Nat} {e : Expr} (hpower : (nextKind rest).power ≤ level) :
    (continued level e rest).Finds e rest :=
  (finds_continued_of_le hpower).2 ⟨rfl, rfl⟩

mutual

theorem expression_finds : ∀ {tier : Tier} {ws : List Lexeme} {e : Expr}, SpellsExpr tier ws e →
    ∀ {level : Nat} {rest last : List Lexeme} {found : Expr}, level ≤ tier.floor →
      Follows tier (nextKind rest) → (continued level e rest).Finds found last →
      (expression level (ws ++ rest)).Finds found last
  | _, _, _, @SpellsExpr.binary op us left text ws right hleft hright,
      level, rest, last, found, hfloor, hfollows, hcontinued => by
      have hpower : (nextKind rest).power ≤ op.power := by
        rw [← Tier.ceiling_ofInfix]
        exact hfollows.power_le
      have hrightFinds : (expression op.power (ws ++ rest)).Finds right rest :=
        expression_finds hright (Tier.power_le_floor_next op) hfollows.next (continued_stops hpower)
      -- The right operand is read at the power of the operator and stops where the whole ends.  What
      -- goes on behind the left operand is then the operator, the right operand and all that follows.
      have hgoesOn : (continued level left (⟨op.kind, text⟩ :: (ws ++ rest))).Finds found last :=
        (finds_continued_operator (Tier.lt_power_iff_le_floor.2 hfloor)).2
          ⟨right, rest, hrightFinds, hcontinued⟩
      rw [List.append_assoc]
      exact expression_finds hleft hfloor (follows_operator op) hgoesOn
  | _, _, _, @SpellsExpr.unary op text ws inner hinner,
      level, rest, last, found, hfloor, hfollows, hcontinued => by
      have hfinds : (expression Kind.prefixPower (ws ++ rest)).Finds inner rest :=
        expression_finds hinner (Nat.le_refl _) hfollows (continued_stops hfollows.power_le)
      refine finds_expression_of_operand ?_ hcontinued
      cases op with
      | bang => exact finds_operand.2 ⟨inner, hfinds, rfl⟩
      | minus => exact finds_operand.2 ⟨inner, hfinds, rfl⟩
  | _, _, _, @SpellsExpr.call us callee opening ws args closing hcallee hargs,
      level, rest, last, found, hfloor, hfollows, hcontinued => by
      have hlevel : level < Kind.callPower := Nat.lt_of_le_of_lt hfloor (by decide)
      have hgoesOn : (continued level callee
          (⟨.lParen, opening⟩ :: (ws ++ ⟨.rParen, closing⟩ :: rest))).Finds found last :=
        (finds_continued_call hlevel).2 ⟨args, rest, arguments_finds hargs, hcontinued⟩
      have hregroup : us ++ ⟨.lParen, opening⟩ :: (ws ++ [⟨.rParen, closing⟩]) ++ rest =
          us ++ (⟨.lParen, opening⟩ :: (ws ++ ⟨.rParen, closing⟩ :: rest)) := by simp
      rw [hregroup]
      exact expression_finds hcallee hfloor follows_lParen hgoesOn
  | _, _, _, .name, _, _, _, _, _, _, hcontinued =>
      finds_expression_of_operand (finds_operand.2 ⟨rfl, rfl⟩) hcontinued
  | _, _, _, .int hvalue, _, _, _, _, _, _, hcontinued =>
      finds_expression_of_operand
        (finds_operand.2 ⟨_, integer?_eq_some_iff.2 hvalue, rfl, rfl⟩) hcontinued
  | _, _, _, .str, _, _, _, _, _, _, hcontinued =>
      finds_expression_of_operand (finds_operand.2 ⟨rfl, rfl⟩) hcontinued
  | _, _, _, .trueKey, _, _, _, _, _, _, hcontinued =>
      finds_expression_of_operand (finds_operand.2 ⟨rfl, rfl⟩) hcontinued
  | _, _, _, .falseKey, _, _, _, _, _, _, hcontinued =>
      finds_expression_of_operand (finds_operand.2 ⟨rfl, rfl⟩) hcontinued
  | _, _, _, @SpellsExpr.group opening ws e closing hinner,
      level, rest, last, found, hfloor, hfollows, hcontinued => by
      have hfinds : (expression 0 (ws ++ ⟨.rParen, closing⟩ :: rest)).Finds e
          (⟨.rParen, closing⟩ :: rest) :=
        expression_finds hinner (Nat.zero_le _) (follows_rParen _) (continued_stops (Nat.le_refl _))
      have hregroup : ⟨.lParen, opening⟩ :: (ws ++ [⟨.rParen, closing⟩]) ++ rest =
          ⟨.lParen, opening⟩ :: (ws ++ ⟨.rParen, closing⟩ :: rest) := by simp
      rw [hregroup]
      exact finds_expression_of_operand (finds_operand.2 ⟨closing, hfinds⟩) hcontinued
  | _, _, _, @SpellsExpr.cond keyword opening us condition closing vs consequence ws alternative
      hcondition hconsequence halternative,
      level, rest, last, found, hfloor, hfollows, hcontinued => by
      have hfinds : (expression 0 (us ++ ⟨.rParen, closing⟩ :: (vs ++ (ws ++ rest)))).Finds condition
          (⟨.rParen, closing⟩ :: (vs ++ (ws ++ rest))) :=
        expression_finds hcondition (Nat.zero_le _) (follows_rParen _)
          (continued_stops (Nat.le_refl _))
      obtain ⟨brace, body, hvs, hbody⟩ := braces_finds hconsequence (ws ++ rest)
      have hother := alternative_finds halternative hfollows.ne_elseKey
      have hconditional : (conditional
          (⟨.lParen, opening⟩ :: (us ++ ⟨.rParen, closing⟩ :: (vs ++ (ws ++ rest))))).Finds
          (.cond condition consequence alternative) rest :=
        finds_conditional.2 ⟨opening, _, rfl, condition, _, hfinds, closing, _, rfl,
          brace, _, hvs, consequence, _, hbody, alternative, hother, rfl⟩
      have hregroup : ⟨.ifKey, keyword⟩ :: ⟨.lParen, opening⟩ ::
            (us ++ ⟨.rParen, closing⟩ :: (vs ++ ws)) ++ rest =
          ⟨.ifKey, keyword⟩ :: ⟨.lParen, opening⟩ ::
            (us ++ ⟨.rParen, closing⟩ :: (vs ++ (ws ++ rest))) := by simp
      rw [hregroup]
      exact finds_expression_of_operand (finds_operand.2 hconditional) hcontinued
  | _, _, _, @SpellsExpr.fn keyword opening us names closing ws body hnames hbody,
      level, rest, last, found, hfloor, hfollows, hcontinued => by
      obtain ⟨brace, inner, hws, hinner⟩ := braces_finds hbody rest
      have hfunction : (function
          (⟨.lParen, opening⟩ :: (us ++ ⟨.rParen, closing⟩ :: (ws ++ rest)))).Finds
          (.fn names body) rest :=
        finds_function.2 ⟨opening, _, rfl, names, _, hnames.finds, brace, _, hws, body, hinner, rfl⟩
      have hregroup : ⟨.function, keyword⟩ :: ⟨.lParen, opening⟩ ::
            (us ++ ⟨.rParen, closing⟩ :: ws) ++ rest =
          ⟨.function, keyword⟩ :: ⟨.lParen, opening⟩ ::
            (us ++ ⟨.rParen, closing⟩ :: (ws ++ rest)) := by simp
      rw [hregroup]
      exact finds_expression_of_operand (finds_operand.2 hfunction) hcontinued
  | _, _, _, .lift habove, _, _, _, _, hfloor, hfollows, hcontinued =>
      expression_finds habove (Nat.le_trans hfloor (Tier.floor_le_next _)) hfollows.next hcontinued

theorem arguments_finds : ∀ {ws : List Lexeme} {args : List Expr}, SpellsArguments ws args →
    ∀ {closing : String} {rest : List Lexeme},
      (arguments (ws ++ ⟨.rParen, closing⟩ :: rest)).Finds args rest
  | _, _, .nil, closing, rest => finds_arguments.2 (.inl ⟨closing, rfl, rfl⟩)
  | _, _, @SpellsArguments.cons us first ws others hfirst hmore, closing, rest => by
      obtain ⟨hothers, hfollows, hpower⟩ :=
        @moreArguments_finds ws others hmore closing rest
      have hfinds : (expression 0 (us ++ (ws ++ ⟨.rParen, closing⟩ :: rest))).Finds first
          (ws ++ ⟨.rParen, closing⟩ :: rest) :=
        expression_finds hfirst (Nat.zero_le _) hfollows (continued_stops hpower)
      obtain ⟨lexeme, vs, rfl, hstarts⟩ := hfirst.exists_starts
      rw [List.append_assoc]
      -- No expression starts with the parenthesis that an empty list of arguments starts with.
      refine finds_arguments.2 (.inr ⟨?_, first, _, hfinds, others, hothers, rfl⟩)
      show lexeme.kind ≠ .rParen
      intro hkind
      rw [hkind] at hstarts
      cases hstarts

theorem moreArguments_finds : ∀ {ws : List Lexeme} {args : List Expr}, SpellsMoreArguments ws args →
    ∀ {closing : String} {rest : List Lexeme},
      (moreArguments (ws ++ ⟨.rParen, closing⟩ :: rest)).Finds args rest ∧
        Follows .equality (nextKind (ws ++ ⟨.rParen, closing⟩ :: rest)) ∧
        (nextKind (ws ++ ⟨.rParen, closing⟩ :: rest)).power ≤ 0
  | _, _, .nil, closing, rest =>
      ⟨finds_moreArguments.2 (.inr ⟨closing, rfl, rfl⟩), follows_rParen _, Nat.le_refl _⟩
  | _, _, @SpellsMoreArguments.cons comma us first ws others hfirst hmore, closing, rest => by
      obtain ⟨hothers, hfollows, hpower⟩ :=
        @moreArguments_finds ws others hmore closing rest
      have hfinds : (expression 0 (us ++ (ws ++ ⟨.rParen, closing⟩ :: rest))).Finds first
          (ws ++ ⟨.rParen, closing⟩ :: rest) :=
        expression_finds hfirst (Nat.zero_le _) hfollows (continued_stops hpower)
      have hregroup : ⟨.comma, comma⟩ :: (us ++ ws) ++ ⟨.rParen, closing⟩ :: rest =
          ⟨.comma, comma⟩ :: (us ++ (ws ++ ⟨.rParen, closing⟩ :: rest)) := by simp
      rw [hregroup]
      refine ⟨finds_moreArguments.2 (.inl ⟨comma, _, rfl, first, _, hfinds, others, hothers, rfl⟩),
        follows_comma _, Nat.le_refl _⟩

theorem alternative_finds : ∀ {ws : List Lexeme} {other : Option Block}, SpellsElse ws other →
    ∀ {rest : List Lexeme}, nextKind rest ≠ .elseKey → (alternative (ws ++ rest)).Finds other rest
  | _, _, .none, rest, helse => finds_alternative.2 (.inr ⟨helse, rfl, rfl⟩)
  | _, _, @SpellsElse.some keyword ws body hbody, rest, _ => by
      obtain ⟨brace, inner, hws, hinner⟩ := braces_finds hbody rest
      exact finds_alternative.2 (.inl ⟨keyword, _, rfl, brace, inner, hws, body, hinner, rfl⟩)

theorem braces_finds : ∀ {ws : List Lexeme} {statements : Block}, SpellsBlock ws statements →
    ∀ rest : List Lexeme, ∃ brace inner,
      ws ++ rest = ⟨.lBrace, brace⟩ :: inner ∧ (block inner).Finds statements rest
  | _, _, @SpellsBlock.braces opening ws statements closing hstatements, rest =>
      ⟨opening, ws ++ ⟨.rBrace, closing⟩ :: rest, by simp, block_finds hstatements rfl⟩

theorem block_finds : ∀ {closing : Kind} {ws : List Lexeme} {statements : Block},
    SpellsStmts closing ws statements → closing = .rBrace → ∀ {text : String} {rest : List Lexeme},
      (block (ws ++ ⟨.rBrace, text⟩ :: rest)).Finds statements rest
  | _, _, _, .nil, _, text, rest => finds_block.2 (.inl ⟨text, rfl, rfl⟩)
  | _, _, _, @SpellsStmts.ended closing us first semicolon ws others hfirst hothers, hclosing,
      text, rest => by
      have hfinds : (statement (us ++ ⟨.semicolon, semicolon⟩ :: (ws ++ ⟨.rBrace, text⟩ :: rest))).Finds
          first (ws ++ ⟨.rBrace, text⟩ :: rest) :=
        statement_finds hfirst (ends_semicolon first) (finds_skipSemicolon.2 (.inl ⟨semicolon, rfl⟩))
      have hrest : (block (ws ++ ⟨.rBrace, text⟩ :: rest)).Finds others rest :=
        block_finds hothers hclosing
      rw [List.append_assoc]
      exact finds_block.2
        (.inr ⟨hfirst.nextKind_ne_rBrace, first, _, hfinds, others, hrest, rfl⟩)
  | _, _, _, @SpellsStmts.leftOpen closing us first ws others hfirst hopen hothers, hclosing,
      text, rest => by
      -- Behind a statement that is left open stands another one or the brace, never a semicolon that
      -- the statement would take for its own.
      obtain ⟨hends, hsemicolon⟩ := hothers.ends (.inl hclosing) hopen
      have hkind : nextKind (ws ++ ⟨.rBrace, text⟩ :: rest) = firstKind closing ws := by
        rw [nextKind_append_cons, hclosing]
      rw [← hkind] at hends hsemicolon
      have hfinds : (statement (us ++ (ws ++ ⟨.rBrace, text⟩ :: rest))).Finds
          first (ws ++ ⟨.rBrace, text⟩ :: rest) :=
        statement_finds hfirst hends (finds_skipSemicolon.2 (.inr ⟨hsemicolon, rfl⟩))
      have hrest : (block (ws ++ ⟨.rBrace, text⟩ :: rest)).Finds others rest :=
        block_finds hothers hclosing
      rw [List.append_assoc]
      exact finds_block.2
        (.inr ⟨hfirst.nextKind_ne_rBrace, first, _, hfinds, others, hrest, rfl⟩)

theorem statement_finds : ∀ {ws : List Lexeme} {s : Stmt}, SpellsStmt ws s →
    ∀ {next rest : List Lexeme}, Ends s (nextKind next) → (skipSemicolon next).Finds () rest →
      (statement (ws ++ next)).Finds s rest
  | _, _, @SpellsStmt.bind keyword name assign ws value hvalue, next, rest, hends, hskip => by
      have hpower := power_eq_zero_of_ends hends.mayLeaveOpen_or
      have hfinds : (expression 0 (ws ++ next)).Finds value next :=
        expression_finds hvalue (Nat.zero_le _) (follows_of_power hpower hends.ne_elseKey)
          (continued_stops (Nat.le_of_eq hpower))
      exact finds_statement_let.2 ⟨name, _, rfl, assign, _, rfl, value, next, hfinds, hskip, rfl⟩
  | _, _, @SpellsStmt.bare keyword, next, rest, hends, hskip => by
      have hbare : nextKind next ∈ [.semicolon, .rBrace, .eof] := by
        rcases hends.mayLeaveOpen_or with (hkind | hkind) | hkind
        all_goals rw [hkind]
        all_goals decide
      exact (finds_statement_bare hbare).2 ⟨hskip, rfl⟩
  | _, _, @SpellsStmt.ret keyword ws value hvalue, next, rest, hends, hskip => by
      have hpower := power_eq_zero_of_ends hends.mayLeaveOpen_or
      have hfinds : (expression 0 (ws ++ next)).Finds value next :=
        expression_finds hvalue (Nat.zero_le _) (follows_of_power hpower hends.ne_elseKey)
          (continued_stops (Nat.le_of_eq hpower))
      obtain ⟨lexeme, vs, rfl, hstarts⟩ := hvalue.exists_starts
      -- The lexeme with which a value starts is none of those that end a bare return.
      have hmore : nextKind (lexeme :: vs ++ next) ∉ [.semicolon, .rBrace, .eof] := by
        show lexeme.kind ∉ [.semicolon, .rBrace, .eof]
        generalize lexeme.kind = kind at hstarts
        revert hstarts
        cases kind <;> decide
      exact (finds_statement_ret hmore).2 ⟨value, next, hfinds, hskip, rfl⟩
  | _, _, @SpellsStmt.expr ws value hvalue, next, rest, hends, hskip => by
      have hpower := power_eq_zero_of_ends hends.mayLeaveOpen_or
      have hfinds : (expression 0 (ws ++ next)).Finds value next :=
        expression_finds hvalue (Nat.zero_le _) (follows_of_power hpower hends.ne_elseKey)
          (continued_stops (Nat.le_of_eq hpower))
      obtain ⟨lexeme, vs, rfl, hstarts⟩ := hvalue.exists_starts
      refine (finds_statement_expr ?_ ?_).2 ⟨value, next, hfinds, hskip, rfl⟩
      · show lexeme.kind ≠ .letKey
        intro hkind
        rw [hkind] at hstarts
        cases hstarts
      · show lexeme.kind ≠ .returnKey
        intro hkind
        rw [hkind] at hstarts
        cases hstarts

end

end Grammar

open Grammar

/-! ## Scripts -/

theorem ofLexemes_of_spellsStmts : ∀ {closing : Kind} {ws : List Lexeme} {statements : Block},
    SpellsStmts closing ws statements → closing = .eof →
      Parsed.ofLexemes ws = ⟨⟨statements⟩, []⟩ := by
  intro closing ws statements hspells hclosing
  induction statements generalizing ws with
  | nil =>
      cases hspells
      rw [Parsed.ofLexemes]
  | cons first others ih =>
      cases hspells with
      | @ended _ us _ semicolon ws _ hfirst hothers =>
          have hfinds : (statement (us ++ ⟨.semicolon, semicolon⟩ :: ws)).Finds first ws :=
            statement_finds hfirst (ends_semicolon first) (finds_skipSemicolon.2 (.inl ⟨semicolon, rfl⟩))
          rw [Parsed.ofLexemes_of_finds hfinds, ih hothers]
      | @leftOpen _ us _ ws _ hfirst hopen hothers =>
          obtain ⟨hends, hsemicolon⟩ := hothers.ends (.inr hclosing) hopen
          rw [hclosing, firstKind_eof] at hends hsemicolon
          have hfinds : (statement (us ++ ws)).Finds first ws :=
            statement_finds hfirst hends (finds_skipSemicolon.2 (.inr ⟨hsemicolon, rfl⟩))
          rw [Parsed.ofLexemes_of_finds hfinds, ih hothers]

theorem ofLexemes_of_spellsProgram {ws : List Lexeme} {program : Program}
    (hspells : SpellsProgram ws program) : Parsed.ofLexemes ws = ⟨program, []⟩ :=
  ofLexemes_of_spellsStmts hspells rfl

end LetScript
