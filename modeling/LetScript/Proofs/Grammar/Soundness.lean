import LetScript.Proofs.Grammar.Strata

/-!
# What is read is spelled

If the reading of lexemes is clean, then the lexemes that it used up spell what it found.

* `operand_spells`, `continued_spells`, `expression_spells` — the invariant of the reading of
  expressions: what stands to the left of the next lexeme is an expression of a stratum whose ceiling
  the next lexeme does not exceed, so that it can become the left operand of any operator that is read.
* `block_spells`, `statement_spells` — blocks and statements, with the place of the semicolon.
* `spellsProgram_of_ofLexemes` — whole scripts.
-/

namespace LetScript

namespace Grammar

open Reading

theorem moreParameters_spells {input rest : List Lexeme} {names : List String}
    (hfinds : (moreParameters input).Finds names rest) :
    ∃ ws closing, input = ws ++ ⟨.rParen, closing⟩ :: rest ∧ SpellsMoreNames ws names := by
  rcases finds_moreParameters.1 hfinds with
    ⟨comma, _, rfl, name, middle, rfl, others, hothers, rfl⟩ | ⟨closing, rfl, rfl⟩
  · obtain ⟨ws, closing, rfl, hws⟩ := moreParameters_spells hothers
    exact ⟨⟨.comma, comma⟩ :: ⟨.ident, name⟩ :: ws, closing, rfl, .cons hws⟩
  · exact ⟨[], closing, rfl, .nil⟩
termination_by input.length

theorem parameters_spells {input rest : List Lexeme} {names : List String}
    (hfinds : (parameters input).Finds names rest) :
    ∃ ws closing, input = ws ++ ⟨.rParen, closing⟩ :: rest ∧ SpellsNames ws names := by
  rcases finds_parameters.1 hfinds with
    ⟨closing, rfl, rfl⟩ | ⟨name, middle, rfl, others, hothers, rfl⟩
  · exact ⟨[], closing, rfl, .nil⟩
  · obtain ⟨ws, closing, rfl, hws⟩ := moreParameters_spells hothers
    exact ⟨⟨.ident, name⟩ :: ws, closing, rfl, .cons hws⟩

mutual

/- The measures are those of the reading itself: eight times the lexemes left, and a rank that tells apart
the steps that may start another one without using up a lexeme. -/

theorem expression_spells {level : Nat} {input rest : List Lexeme} {e : Expr}
    (hlevel : level ≤ Kind.prefixPower) (hfinds : (expression level input).Finds e rest) :
    ∃ tier ws, input = ws ++ rest ∧ SpellsExpr tier ws e ∧ level ≤ tier.floor ∧
      (nextKind rest).power ≤ level := by
  obtain ⟨left, middle, hleft, hcontinued⟩ := finds_expression.1 hfinds
  obtain ⟨tier, us, rfl, hus, hfloor, hceiling⟩ := operand_spells hleft
  obtain ⟨tier, ws, rfl, hws, hlast⟩ :=
    continued_spells hlevel hus (Nat.le_trans hlevel hfloor) hceiling hcontinued
  exact ⟨tier, us ++ ws, (List.append_assoc us ws rest).symm, hws, hlast⟩
termination_by 8 * input.length + 2
decreasing_by all_goals first | omega | subst_vars; simp only [List.length_append]; omega

/-- The loop behind an operand.  What has been read so far keeps to a stratum in which the next lexeme
can go on. -/
theorem continued_spells {level : Nat} {left e : Expr} {tier : Tier} {us input rest : List Lexeme}
    (hlevel : level ≤ Kind.prefixPower) (hleft : SpellsExpr tier us left) (hfloor : level ≤ tier.floor)
    (hceiling : (nextKind input).power ≤ tier.ceiling)
    (hfinds : (continued level left input).Finds e rest) :
    ∃ tier ws, input = ws ++ rest ∧ SpellsExpr tier (us ++ ws) e ∧ level ≤ tier.floor ∧
      (nextKind rest).power ≤ level := by
  by_cases hpower : (nextKind input).power ≤ level
  · obtain ⟨rfl, rfl⟩ := (finds_continued_of_le hpower).1 hfinds
    exact ⟨tier, [], rfl, by simpa using hleft, hfloor, hpower⟩
  · rcases Kind.exists_of_lt_power (Nat.lt_of_not_le hpower) with ⟨op, hkind⟩ | hkind
    · obtain ⟨text, start, rfl⟩ := exists_of_nextKind hkind (by cases op <;> decide)
      have hop : level < op.power := by simpa [nextKind] using hpower
      obtain ⟨right, middle, hright, hcontinued⟩ := (finds_continued_operator hop).1 hfinds
      obtain ⟨above, ws, rfl, hws, habove, hnext⟩ :=
        expression_spells (Nat.le_of_lt op.power_lt_prefixPower) hright
      -- The ceiling lets what stands to the left be an operand of the operator, and the lexeme behind
      -- the right operand binds no tighter than the operator, so the loop goes on with all of it.
      have hoperand := hleft.lower (Tier.rank_ofInfix_le (by simpa [nextKind] using hceiling))
      have hbinary : SpellsExpr (.ofInfix op) (us ++ ⟨op.kind, text⟩ :: ws) (.binary op left right) :=
        .binary hoperand (hws.lower (Tier.rank_next_ofInfix_le habove))
      obtain ⟨tier, vs, rfl, hvs, hlast⟩ := continued_spells hlevel hbinary
        (Tier.lt_power_iff_le_floor.1 hop) (by simpa using hnext) hcontinued
      exact ⟨tier, ⟨op.kind, text⟩ :: ws ++ vs, by simp, by simpa using hvs, hlast⟩
    · obtain ⟨text, start, rfl⟩ := exists_of_nextKind hkind (by decide)
      obtain ⟨args, middle, hargs, hcontinued⟩ :=
        (finds_continued_call (Nat.lt_of_not_le hpower)).1 hfinds
      obtain ⟨ws, closing, rfl, hws⟩ := arguments_spells hargs
      -- Behind an argument list everything can go on.
      have hcall : SpellsExpr .application
          (us ++ ⟨.lParen, text⟩ :: (ws ++ [⟨.rParen, closing⟩])) (.call left args) :=
        .call (hleft.lower (Tier.rank_application_le hceiling)) hws
      obtain ⟨tier, vs, rfl, hvs, hlast⟩ := continued_spells hlevel hcall
        hlevel (Kind.power_le_callPower _) hcontinued
      exact ⟨tier, ⟨.lParen, text⟩ :: (ws ++ [⟨.rParen, closing⟩]) ++ vs, by simp,
        by simpa using hvs, hlast⟩
termination_by 8 * input.length
decreasing_by all_goals first | omega | subst_vars; simp only [List.length_cons, List.length_append]; omega

theorem operand_spells {input rest : List Lexeme} {e : Expr}
    (hfinds : (operand input).Finds e rest) :
    ∃ tier ws, input = ws ++ rest ∧ SpellsExpr tier ws e ∧ Kind.prefixPower ≤ tier.floor ∧
      (nextKind rest).power ≤ tier.ceiling := by
  obtain ⟨kind, text, start, rfl⟩ := exists_of_finds_operand hfinds
  have hcase := finds_operand.1 hfinds
  have hany := Kind.power_le_callPower (nextKind rest)
  cases kind with
  | ident =>
      obtain ⟨rfl, rfl⟩ := hcase
      exact ⟨.primary, [⟨.ident, text⟩], rfl, .name, Nat.le_refl _, hany⟩
  | int =>
      obtain ⟨value, hvalue, rfl, rfl⟩ := hcase
      exact ⟨.primary, [⟨.int, text⟩], rfl, .int (integer?_eq_some_iff.1 hvalue), Nat.le_refl _,
        hany⟩
  | string =>
      obtain ⟨rfl, rfl⟩ := hcase
      exact ⟨.primary, [⟨.string, text⟩], rfl, .str, Nat.le_refl _, hany⟩
  | trueKey =>
      obtain ⟨rfl, rfl⟩ := hcase
      exact ⟨.primary, [⟨.trueKey, text⟩], rfl, .trueKey, Nat.le_refl _, hany⟩
  | falseKey =>
      obtain ⟨rfl, rfl⟩ := hcase
      exact ⟨.primary, [⟨.falseKey, text⟩], rfl, .falseKey, Nat.le_refl _, hany⟩
  | bang =>
      -- The operand binds at least as strongly as the operator, so it is of the same stratum.
      obtain ⟨inner, hinner, rfl⟩ := hcase
      obtain ⟨tier, ws, rfl, hws, hfloor, hnext⟩ := expression_spells (Nat.le_refl _) hinner
      exact ⟨.unary, ⟨.bang, text⟩ :: ws, rfl,
        @SpellsExpr.unary .bang _ _ _ (hws.lower (Tier.rank_unary_le hfloor)), Nat.le_refl _, hnext⟩
  | minus =>
      obtain ⟨inner, hinner, rfl⟩ := hcase
      obtain ⟨tier, ws, rfl, hws, hfloor, hnext⟩ := expression_spells (Nat.le_refl _) hinner
      exact ⟨.unary, ⟨.minus, text⟩ :: ws, rfl,
        @SpellsExpr.unary .minus _ _ _ (hws.lower (Tier.rank_unary_le hfloor)), Nat.le_refl _, hnext⟩
  | lParen =>
      -- In parentheses any stratum may stand, and the whole is one that stands alone.
      obtain ⟨closing, hinner⟩ := hcase
      obtain ⟨tier, ws, rfl, hws, -⟩ := expression_spells (Nat.zero_le _) hinner
      exact ⟨.primary, ⟨.lParen, text⟩ :: (ws ++ [⟨.rParen, closing⟩]), by simp,
        .group hws.toEquality, Nat.le_refl _, hany⟩
  | ifKey =>
      obtain ⟨ws, rfl, hws⟩ := conditional_spells hcase
      exact ⟨.primary, ⟨.ifKey, text⟩ :: ws, rfl, hws text, Nat.le_refl _, hany⟩
  | function =>
      obtain ⟨ws, rfl, hws⟩ := function_spells hcase
      exact ⟨.primary, ⟨.function, text⟩ :: ws, rfl, hws text, Nat.le_refl _, hany⟩
  | _ => exact hcase.elim
termination_by 8 * input.length + 1
decreasing_by all_goals first | omega | subst_vars; simp only [List.length_cons]; omega

theorem conditional_spells {input rest : List Lexeme} {e : Expr}
    (hfinds : (conditional input).Finds e rest) :
    ∃ ws, input = ws ++ rest ∧ ∀ keyword, SpellsExpr .primary (⟨.ifKey, keyword⟩ :: ws) e := by
  obtain ⟨opening, start, rfl, condition, _, hcondition, closing, _, rfl, brace, first, rfl,
    consequence, second, hconsequence, other, hother, rfl⟩ := finds_conditional.1 hfinds
  obtain ⟨tier, us, rfl, hus, -⟩ := expression_spells (Nat.zero_le _) hcondition
  obtain ⟨vs, ending, rfl, hvs⟩ := block_spells hconsequence
  obtain ⟨ws, rfl, hws⟩ := alternative_spells hother
  exact ⟨⟨.lParen, opening⟩ :: (us ++ ⟨.rParen, closing⟩ ::
    (⟨.lBrace, brace⟩ :: (vs ++ [⟨.rBrace, ending⟩]) ++ ws)), by simp,
    fun keyword => .cond hus.toEquality (.braces hvs) hws⟩
termination_by 8 * input.length + 7
decreasing_by all_goals first | omega | subst_vars; simp only [List.length_cons, List.length_append]; omega

theorem alternative_spells {input rest : List Lexeme} {other : Option Block}
    (hfinds : (alternative input).Finds other rest) :
    ∃ ws, input = ws ++ rest ∧ SpellsElse ws other := by
  rcases finds_alternative.1 hfinds with
    ⟨keyword, _, rfl, brace, first, rfl, body, hbody, rfl⟩ | ⟨-, rfl, rfl⟩
  · obtain ⟨ws, ending, rfl, hws⟩ := block_spells hbody
    exact ⟨⟨.elseKey, keyword⟩ :: ⟨.lBrace, brace⟩ :: (ws ++ [⟨.rBrace, ending⟩]), by simp,
      .some (.braces hws)⟩
  · exact ⟨[], rfl, .none⟩
termination_by 8 * input.length + 6
decreasing_by all_goals first | omega | subst_vars; simp only [List.length_cons]; omega

theorem function_spells {input rest : List Lexeme} {e : Expr}
    (hfinds : (function input).Finds e rest) :
    ∃ ws, input = ws ++ rest ∧ ∀ keyword, SpellsExpr .primary (⟨.function, keyword⟩ :: ws) e := by
  obtain ⟨opening, start, rfl, names, _, hnames, brace, first, rfl, body, hbody, rfl⟩ :=
    finds_function.1 hfinds
  obtain ⟨us, closing, rfl, hus⟩ := parameters_spells hnames
  obtain ⟨ws, ending, rfl, hws⟩ := block_spells hbody
  exact ⟨⟨.lParen, opening⟩ :: (us ++ ⟨.rParen, closing⟩ ::
    ⟨.lBrace, brace⟩ :: (ws ++ [⟨.rBrace, ending⟩])), by simp, fun keyword => .fn hus (.braces hws)⟩
termination_by 8 * input.length + 6
decreasing_by all_goals first | omega | subst_vars; simp only [List.length_cons, List.length_append]; omega

theorem arguments_spells {input rest : List Lexeme} {args : List Expr}
    (hfinds : (arguments input).Finds args rest) :
    ∃ ws closing, input = ws ++ ⟨.rParen, closing⟩ :: rest ∧ SpellsArguments ws args := by
  rcases finds_arguments.1 hfinds with
    ⟨closing, rfl, rfl⟩ | ⟨-, first, middle, hfirst, others, hothers, rfl⟩
  · exact ⟨[], closing, rfl, .nil⟩
  · obtain ⟨tier, us, rfl, hus, -⟩ := expression_spells (Nat.zero_le _) hfirst
    obtain ⟨ws, closing, rfl, hws⟩ := moreArguments_spells hothers
    exact ⟨us ++ ws, closing, by simp, .cons hus.toEquality hws⟩
termination_by 8 * input.length + 3
decreasing_by all_goals first | omega | subst_vars; simp only [List.length_append]; omega

theorem moreArguments_spells {input rest : List Lexeme} {args : List Expr}
    (hfinds : (moreArguments input).Finds args rest) :
    ∃ ws closing, input = ws ++ ⟨.rParen, closing⟩ :: rest ∧ SpellsMoreArguments ws args := by
  rcases finds_moreArguments.1 hfinds with
    ⟨comma, start, rfl, next, middle, hnext, others, hothers, rfl⟩ | ⟨closing, rfl, rfl⟩
  · obtain ⟨tier, us, rfl, hus, -⟩ := expression_spells (Nat.zero_le _) hnext
    obtain ⟨ws, closing, rfl, hws⟩ := moreArguments_spells hothers
    exact ⟨⟨.comma, comma⟩ :: (us ++ ws), closing, by simp, .cons hus.toEquality hws⟩
  · exact ⟨[], closing, rfl, .nil⟩
termination_by 8 * input.length
decreasing_by all_goals first | omega | subst_vars; simp only [List.length_cons, List.length_append]; omega

theorem block_spells {input rest : List Lexeme} {statements : Block}
    (hfinds : (block input).Finds statements rest) :
    ∃ ws closing, input = ws ++ ⟨.rBrace, closing⟩ :: rest ∧ SpellsStmts .rBrace ws statements := by
  rcases finds_block.1 hfinds with
    ⟨closing, rfl, rfl⟩ | ⟨-, first, middle, hfirst, others, hothers, rfl⟩
  · exact ⟨[], closing, rfl, .nil⟩
  · obtain ⟨us, hus, hends⟩ := statement_spells hfirst
    obtain ⟨lexeme, vs, rfl, -⟩ := hus.exists_starts
    -- A statement is made of one lexeme at least, so the rest of the block is shorter.
    have hshorter : middle.length < input.length := by
      rcases hends with ⟨text, rfl⟩ | ⟨rfl, -⟩
      all_goals simp only [List.length_append, List.length_cons]
      all_goals omega
    obtain ⟨ws, closing, rfl, hws⟩ := block_spells hothers
    rcases hends with ⟨text, rfl⟩ | ⟨rfl, hopen⟩
    · exact ⟨lexeme :: vs ++ ⟨.semicolon, text⟩ :: ws, closing, by simp, .ended hus hws⟩
    · refine ⟨lexeme :: vs ++ ws, closing, by simp, .leftOpen hus ?_ hws⟩
      cases ws with
      | nil => exact hopen
      | cons second ws => exact hopen
termination_by 8 * input.length + 5
decreasing_by all_goals omega

theorem statement_spells {input rest : List Lexeme} {s : Stmt}
    (hfinds : (statement input).Finds s rest) :
    ∃ ws, SpellsStmt ws s ∧ ((∃ text, input = ws ++ ⟨.semicolon, text⟩ :: rest) ∨
      input = ws ++ rest ∧ MayLeaveOpen s (nextKind rest)) := by
  rcases statement_shape input with
    ⟨keyword, start, rfl⟩ | ⟨keyword, start, rfl⟩ | ⟨hlet, hreturn⟩
  · obtain ⟨name, _, rfl, assign, left, rfl, value, right, hvalue, hskip, rfl⟩ :=
      finds_statement_let.1 hfinds
    obtain ⟨tier, ws, rfl, hws, -, hpower⟩ := expression_spells (Nat.zero_le _) hvalue
    refine ⟨⟨.letKey, keyword⟩ :: ⟨.ident, name⟩ :: ⟨.assign, assign⟩ :: ws,
      .bind hws.toEquality, ?_⟩
    rcases finds_skipSemicolon.1 hskip with ⟨text, rfl⟩ | ⟨-, rfl⟩
    · exact .inl ⟨text, rfl⟩
    · exact .inr ⟨rfl, not_goesOn_of_power hpower⟩
  · by_cases hnext : nextKind start ∈ [.semicolon, .rBrace, .eof]
    · obtain ⟨hskip, rfl⟩ := (finds_statement_bare hnext).1 hfinds
      refine ⟨[⟨.returnKey, keyword⟩], .bare, ?_⟩
      rcases finds_skipSemicolon.1 hskip with ⟨text, rfl⟩ | ⟨hkind, rfl⟩
      · exact .inl ⟨text, rfl⟩
      · exact .inr ⟨rfl, by simpa [hkind, MayLeaveOpen] using hnext⟩
    · obtain ⟨value, right, hvalue, hskip, rfl⟩ := (finds_statement_ret hnext).1 hfinds
      obtain ⟨tier, ws, rfl, hws, -, hpower⟩ := expression_spells (Nat.zero_le _) hvalue
      refine ⟨⟨.returnKey, keyword⟩ :: ws, .ret hws.toEquality, ?_⟩
      rcases finds_skipSemicolon.1 hskip with ⟨text, rfl⟩ | ⟨-, rfl⟩
      · exact .inl ⟨text, rfl⟩
      · exact .inr ⟨rfl, not_goesOn_of_power hpower⟩
  · obtain ⟨value, right, hvalue, hskip, rfl⟩ := (finds_statement_expr hlet hreturn).1 hfinds
    obtain ⟨tier, ws, rfl, hws, -, hpower⟩ := expression_spells (Nat.zero_le _) hvalue
    refine ⟨ws, .expr hws.toEquality, ?_⟩
    rcases finds_skipSemicolon.1 hskip with ⟨text, rfl⟩ | ⟨-, rfl⟩
    · exact .inl ⟨text, rfl⟩
    · exact .inr ⟨rfl, not_goesOn_of_power hpower⟩
termination_by 8 * input.length + 4
decreasing_by all_goals first | omega | subst_vars; simp only [List.length_cons]; omega

end

end Grammar

open Grammar

theorem spellsProgram_of_ofLexemes {ws : List Lexeme} {program : Program}
    (hread : Parsed.ofLexemes ws = ⟨program, []⟩) : SpellsProgram ws program := by
  cases ws with
  | nil =>
      rw [Parsed.ofLexemes] at hread
      obtain rfl : Program.mk [] = program := congrArg Parsed.program hread
      exact .nil
  | cons lexeme others =>
      obtain ⟨s, rest, hfinds⟩ := Parsed.exists_finds_of_errors (congrArg Parsed.errors hread)
      rw [Parsed.ofLexemes_of_finds hfinds] at hread
      obtain rfl : Program.mk (s :: (Parsed.ofLexemes rest).program.statements) = program :=
        congrArg Parsed.program hread
      obtain ⟨us, hus, hends⟩ := statement_spells hfinds
      obtain ⟨first, vs, rfl, -⟩ := hus.exists_starts
      have hshorter : rest.length < (lexeme :: others).length := by
        rcases hends with ⟨text, hinput⟩ | ⟨hinput, -⟩
        all_goals simp only [hinput, List.length_append, List.length_cons]
        all_goals omega
      -- The errors of the rest are among those of the whole, of which there are none.
      have hrest : SpellsProgram rest (Parsed.ofLexemes rest).program := by
        have herrors : (Parsed.ofLexemes rest).errors = [] := congrArg Parsed.errors hread
        exact spellsProgram_of_ofLexemes (by rw [← herrors])
      rcases hends with ⟨text, hinput⟩ | ⟨hinput, hopen⟩
      · rw [hinput]
        exact .ended hus hrest
      · rw [hinput]
        exact .leftOpen hus (by rwa [firstKind_eof]) hrest
termination_by ws.length

end LetScript
