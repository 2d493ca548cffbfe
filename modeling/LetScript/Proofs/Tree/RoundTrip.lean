import LetScript.Proofs.Grammar.Completeness
import LetScript.Proofs.Tree.Lexemes
import LetScript.Proofs.Tree.Signs

/-!
# Canonical texts are read back

The lexemes of the canonical text of a tree spell the tree with each sign as an operation.  A well-formed tree
has no signs, so reading its text gives the tree again.

* `Expr.SpellsBehindSign`, `Expr.spells_lexemes`, `Block.spells_lexemes` — operations stand in parentheses, so
  each canonical expression is a call or stands alone, but for a sign in front, and can be in any place of the
  grammar.
* `Program.ofText_text_respelled`, `Program.ofText_text` — the reading of a canonical text.
* `Program.reading_undoes_writing` — reading undoes writing on well-formed programs.
-/

namespace LetScript

open Grammar

/-! ## Rows with commas -/

/-- Expressions that can stand in any place of the grammar, each with its lexemes. -/
abbrev SpellsEach : List (List Lexeme) → List Expr → Prop :=
  List.Forall₂ fun ws e => SpellsExpr .equality ws e

theorem SpellsEach.spellsMoreArguments {us : List Lexeme} {first : Expr} {uss : List (List Lexeme)}
    {others : List Expr} (hfirst : SpellsExpr .equality us first) (hothers : SpellsEach uss others) :
    SpellsMoreArguments (.symbol .comma :: Lexeme.commaSeparated (us :: uss)) (first :: others) := by
  induction hothers generalizing us first with
  | nil =>
      have hspells : SpellsMoreArguments (.symbol .comma :: (us ++ [])) [first] := .cons hfirst .nil
      rwa [List.append_nil] at hspells
  | cons hsecond hmore ih => exact .cons hfirst (ih hsecond)

theorem SpellsEach.spellsArguments {uss : List (List Lexeme)} {exprs : List Expr}
    (heach : SpellsEach uss exprs) : SpellsArguments (Lexeme.commaSeparated uss) exprs := by
  cases heach with
  | nil => exact .nil
  | @cons us first uss others hfirst hothers =>
      cases hothers with
      | nil =>
          have hspells : SpellsArguments (us ++ []) [first] := .cons hfirst .nil
          rwa [List.append_nil] at hspells
      | cons hsecond hmore => exact .cons hfirst (SpellsEach.spellsMoreArguments hsecond hmore)

/-- The lexemes of names with commas between them. -/
theorem spellsMoreNames_commaSeparated (name : String) (names : List String) :
    SpellsMoreNames
      (.symbol .comma :: Lexeme.commaSeparated ((name :: names).map fun name => [⟨.ident, name⟩]))
      (name :: names) := by
  induction names generalizing name with
  | nil => exact .cons .nil
  | cons second names ih => exact .cons (ih second)

theorem spellsNames_commaSeparated (names : List String) :
    SpellsNames (Lexeme.commaSeparated (names.map fun name => [⟨.ident, name⟩])) names := by
  cases names with
  | nil => exact .nil
  | cons name names =>
      cases names with
      | nil => exact .cons .nil
      | cons second names => exact .cons (spellsMoreNames_commaSeparated second names)

/-! ## Trees -/

/-- The lexemes of an expression are the sign with which its text starts, if there is one, and behind it an
expression that a call can go on with. -/
def Expr.SpellsBehindSign (e : Expr) : Prop :=
  ∃ ws, e.lexemes = (if e.isSigned then [.symbol .minus] else []) ++ ws ∧
    SpellsExpr .application ws e.unsigned

theorem Expr.SpellsBehindSign.of_plain {e : Expr} (hplain : e.isSigned = false)
    (hspells : SpellsExpr .application e.lexemes e.unsigned) : e.SpellsBehindSign :=
  ⟨e.lexemes, by rw [hplain]; rfl, hspells⟩

/-- A sign in front of a call is that of the call. -/
theorem Expr.SpellsBehindSign.toUnary {e : Expr} (hspells : e.SpellsBehindSign) :
    SpellsExpr .unary e.lexemes e.respelled := by
  obtain ⟨ws, hlexemes, hws⟩ := hspells
  cases hsigned : e.isSigned with
  | false =>
      rw [hsigned] at hlexemes
      rw [hlexemes, Expr.respelled_of_plain hsigned]
      exact .lift hws
  | true =>
      rw [hsigned] at hlexemes
      rw [hlexemes, Expr.respelled_of_signed hsigned]
      exact @SpellsExpr.unary .minus _ _ _ (.lift hws)

theorem Expr.SpellsBehindSign.toEquality {e : Expr} (hspells : e.SpellsBehindSign) :
    SpellsExpr .equality e.lexemes e.respelled :=
  hspells.toUnary.toEquality

/-- The digits of a number spell the integer that it is. -/
theorem spellsExpr_toString {value : Int64} {number : Nat} (hnumber : value.toInt = number) :
    SpellsExpr .application [⟨.int, toString number⟩] (.int value) := by
  have hdigits : (toString number).toList = Nat.toDigits 10 number := Nat.toList_repr
  refine .lift (.int ?_)
  rw [hdigits, Nat.ofDigitChars_ten_toDigits, hnumber]

theorem spellsBehindSign_int {value : Int64} (hvalue : value ≠ Int64.minValue) :
    (Expr.int value).SpellsBehindSign := by
  have hnegative : value < 0 ↔ value.toInt < 0 := by rw [Int64.lt_iff_toInt_lt, Int64.toInt_zero]
  unfold Expr.SpellsBehindSign
  rw [Expr.lexemes, Expr.unsigned, Lexeme.ofInt, Expr.isSigned]
  cases hnumber : value.toInt with
  | ofNat number =>
      have hnot : ¬ value < 0 := by
        rw [hnegative, hnumber]
        exact Int.not_lt.2 (Int.natCast_nonneg number)
      rw [if_neg hnot]
      exact ⟨[⟨.int, toString number⟩], by rw [decide_eq_false hnot]; rfl, spellsExpr_toString hnumber⟩
  | negSucc number =>
      have hbelow : value < 0 := by
        rw [hnegative, hnumber]
        exact Int.negSucc_lt_zero number
      have hopposite : (-value).toInt = (number + 1 : Nat) := by
        rw [toInt_neg_of_ne_minValue hvalue, hnumber, Int.neg_negSucc]
      rw [if_pos hbelow]
      exact ⟨[⟨.int, toString (number + 1)⟩], by rw [decide_eq_true hbelow]; rfl, spellsExpr_toString hopposite⟩

theorem spellsExpr_ofBool (value : Bool) :
    SpellsExpr .primary [Lexeme.ofBool value] (.bool value) := by
  cases value with
  | false => exact .falseKey
  | true => exact .trueKey

/-- A canonical statement ends in a semicolon, or it is an expression that gets one as soon as another
statement follows. -/
def Stmt.EndsCanonically (s : Stmt) (us : List Lexeme) : Prop :=
  s.lexemes = us ++ [.symbol .semicolon] ∧ s.terminatorLexemes = [] ∨
    s.lexemes = us ∧ s.terminatorLexemes = [.symbol .semicolon] ∧ ∃ value, s = .expr value

theorem Stmt.EndsCanonically.followed {closing : Kind} {s : Stmt} {us ws : List Lexeme} {others : Block}
    (hends : s.EndsCanonically us) (hfirst : SpellsStmt us s.respelled)
    (hothers : SpellsStmts closing ws others) :
    SpellsStmts closing (s.lexemes ++ (s.terminatorLexemes ++ ws)) (s.respelled :: others) := by
  have hended : SpellsStmts closing (us ++ .symbol .semicolon :: ws) (s.respelled :: others) :=
    .ended hfirst hothers
  rcases hends with ⟨hlexemes, hterminator⟩ | ⟨hlexemes, hterminator, -⟩
  · rw [hlexemes, hterminator, List.append_assoc]
    exact hended
  · rw [hlexemes, hterminator]
    exact hended

theorem Stmt.EndsCanonically.last {closing : Kind} {s : Stmt} {us : List Lexeme}
    (hends : s.EndsCanonically us) (hfirst : SpellsStmt us s.respelled)
    (hclosing : closing = .rBrace ∨ closing = .eof) : SpellsStmts closing s.lexemes [s.respelled] := by
  rcases hends with ⟨hlexemes, -⟩ | ⟨hlexemes, -, value, rfl⟩
  · rw [hlexemes]
    exact .ended hfirst .nil
  · have hopen : MayLeaveOpen (.expr value.respelled) (firstKind closing []) := by
      rcases hclosing with rfl | rfl
      · exact not_goesOn_of_power (Nat.le_refl 0)
      · exact not_goesOn_of_power (Nat.le_refl 0)
    have hspells : SpellsStmts closing (us ++ []) [.expr value.respelled] := .leftOpen hfirst hopen .nil
    rwa [List.append_nil, ← hlexemes] at hspells

mutual

theorem Expr.spells_lexemes : ∀ {e : Expr}, e.isSpellable (· ≠ Int64.minValue) = true → e.SpellsBehindSign
  | .name ident, _ => by
      refine .of_plain rfl ?_
      simp only [Expr.lexemes, Expr.unsigned]
      exact .lift .name
  | .int value, hspellable => by
      simp only [Expr.isSpellable, decide_eq_true_eq] at hspellable
      exact spellsBehindSign_int hspellable
  | .str value, _ => by
      refine .of_plain rfl ?_
      simp only [Expr.lexemes, Expr.unsigned]
      exact .lift .str
  | .bool value, _ => by
      refine .of_plain rfl ?_
      simp only [Expr.lexemes, Expr.unsigned]
      exact .lift (spellsExpr_ofBool value)
  | .unary op operand, hspellable => by
      simp only [Expr.isSpellable] at hspellable
      refine .of_plain rfl ?_
      simp only [Expr.lexemes, Expr.unsigned]
      have hoperand := (Expr.spells_lexemes hspellable).toUnary
      have hunary : SpellsExpr .unary (.symbol op.kind :: operand.lexemes) (.unary op operand.respelled) :=
        .unary hoperand
      exact .lift (.group hunary.toEquality)
  | .binary op left right, hspellable => by
      simp only [Expr.isSpellable, Bool.and_eq_true] at hspellable
      refine .of_plain rfl ?_
      simp only [Expr.lexemes, Expr.unsigned]
      have hleft := (Expr.spells_lexemes hspellable.1).toUnary
      have hright := (Expr.spells_lexemes hspellable.2).toUnary
      -- Whatever is not in parentheses is at most a sign and a call behind it, which fits on both sides.
      have hbinary : SpellsExpr (.ofInfix op) (left.lexemes ++ .symbol op.kind :: right.lexemes)
          (.binary op left.respelled right.respelled) :=
        .binary (hleft.lower (by cases op <;> decide)) (hright.lower (by cases op <;> decide))
      have hgroup : SpellsExpr .primary (.symbol .lParen ::
          (left.lexemes ++ .symbol op.kind :: right.lexemes ++ [.symbol .rParen]))
          (.binary op left.respelled right.respelled) := .group hbinary.toEquality
      rw [List.append_assoc] at hgroup
      exact .lift hgroup
  | .cond condition consequence none, hspellable => by
      simp only [Expr.isSpellable, Bool.and_eq_true] at hspellable
      refine .of_plain rfl ?_
      simp only [Expr.lexemes, Expr.unsigned]
      have hcondition := Expr.spells_lexemes hspellable.1
      have hconsequence := Block.spells_lexemes hspellable.2 (.inl rfl)
      have hcond : SpellsExpr .primary (⟨.ifKey, "if"⟩ :: .symbol .lParen ::
          (condition.lexemes ++ .symbol .rParen :: (Lexeme.braced (Block.lexemes consequence) ++ [])))
          (.cond condition.respelled (Block.respelled consequence) none) :=
        .cond hcondition.toEquality (.braces hconsequence) .none
      rw [List.append_nil] at hcond
      exact .lift hcond
  | .cond condition consequence (some alternative), hspellable => by
      simp only [Expr.isSpellable, Bool.and_eq_true] at hspellable
      refine .of_plain rfl ?_
      simp only [Expr.lexemes, Expr.unsigned]
      have hcondition := Expr.spells_lexemes hspellable.1.1
      have hconsequence := Block.spells_lexemes hspellable.1.2 (.inl rfl)
      have halternative := Block.spells_lexemes hspellable.2 (.inl rfl)
      exact .lift (.cond hcondition.toEquality (.braces hconsequence) (.some (.braces halternative)))
  | .fn parameters body, hspellable => by
      simp only [Expr.isSpellable, Bool.and_eq_true] at hspellable
      refine .of_plain rfl ?_
      simp only [Expr.lexemes, Expr.unsigned]
      have hbody := Block.spells_lexemes hspellable.2 (.inl rfl)
      exact .lift (.fn (spellsNames_commaSeparated parameters) (.braces hbody))
  | .call callee arguments, hspellable => by
      simp only [Expr.isSpellable, Bool.and_eq_true] at hspellable
      obtain ⟨ws, hlexemes, hcallee⟩ := Expr.spells_lexemes hspellable.1
      have harguments := Expr.spells_lexemesEach hspellable.2
      -- The sign of the callee stays in front, so what is called is only what stands behind it.
      have hcall : SpellsExpr .application (ws ++ .symbol .lParen ::
          (Lexeme.commaSeparated (Expr.lexemesEach arguments) ++ [.symbol .rParen]))
          (.call callee.unsigned (Expr.respelledEach arguments)) :=
        .call hcallee harguments.spellsArguments
      refine ⟨_, ?_, by simpa only [Expr.unsigned] using hcall⟩
      rw [Expr.lexemes, Expr.isSigned, hlexemes, List.append_assoc]

theorem Stmt.spells_lexemes : ∀ {s : Stmt}, s.isSpellable (· ≠ Int64.minValue) = true →
    ∃ us, SpellsStmt us s.respelled ∧ s.EndsCanonically us
  | .bind name value, hspellable => by
      simp only [Stmt.isSpellable, Bool.and_eq_true] at hspellable
      have hvalue := Expr.spells_lexemes hspellable.2
      refine ⟨⟨.letKey, "let"⟩ :: ⟨.ident, name⟩ :: .symbol .assign :: value.lexemes,
        .bind hvalue.toEquality, .inl ⟨?_, rfl⟩⟩
      simp only [Stmt.lexemes, List.cons_append]
  | .ret none, _ => by
      refine ⟨[⟨.returnKey, "return"⟩], .bare, .inl ⟨?_, rfl⟩⟩
      simp only [Stmt.lexemes, List.cons_append, List.nil_append]
  | .ret (some value), hspellable => by
      simp only [Stmt.isSpellable] at hspellable
      have hvalue := Expr.spells_lexemes hspellable
      refine ⟨⟨.returnKey, "return"⟩ :: value.lexemes, .ret hvalue.toEquality, .inl ⟨?_, rfl⟩⟩
      simp only [Stmt.lexemes, List.cons_append]
  | .expr value, hspellable => by
      simp only [Stmt.isSpellable] at hspellable
      have hvalue := Expr.spells_lexemes hspellable
      refine ⟨value.lexemes, .expr hvalue.toEquality, .inr ⟨?_, rfl, value, rfl⟩⟩
      simp only [Stmt.lexemes]

theorem Block.spells_lexemes : ∀ {statements : Block} {closing : Kind},
    Block.isSpellable (· ≠ Int64.minValue) statements = true → closing = .rBrace ∨ closing = .eof →
      SpellsStmts closing (Block.lexemes statements) (Block.respelled statements)
  | [], _, _, _ => by
      simp only [Block.lexemes, Block.respelled]
      exact .nil
  | [statement], closing, hspellable, hclosing => by
      simp only [Block.isSpellable, Bool.and_eq_true] at hspellable
      obtain ⟨us, hus, hends⟩ := Stmt.spells_lexemes hspellable.1
      simp only [Block.lexemes, Block.respelled]
      exact hends.last hus hclosing
  | statement :: second :: statements, closing, hspellable, hclosing => by
      rw [Block.isSpellable, Bool.and_eq_true] at hspellable
      obtain ⟨us, hus, hends⟩ := Stmt.spells_lexemes hspellable.1
      have hothers := Block.spells_lexemes hspellable.2 hclosing
      rw [Block.lexemes, Block.respelled]
      · exact hends.followed hus hothers
      · intro hnil
        cases hnil

theorem Expr.spells_lexemesEach : ∀ {exprs : List Expr},
    Expr.areSpellable (· ≠ Int64.minValue) exprs = true →
      SpellsEach (Expr.lexemesEach exprs) (Expr.respelledEach exprs)
  | [], _ => by
      simp only [Expr.lexemesEach, Expr.respelledEach]
      exact .nil
  | expr :: exprs, hspellable => by
      simp only [Expr.areSpellable, Bool.and_eq_true] at hspellable
      simp only [Expr.lexemesEach, Expr.respelledEach]
      exact .cons (Expr.spells_lexemes hspellable.1).toEquality (Expr.spells_lexemesEach hspellable.2)

end

/-! ## Programs -/

/-- The canonical text of a program is read as the program with each sign as an operation. -/
theorem Program.ofText_text_respelled {program : Program}
    (hspellable : Block.isSpellable (· ≠ Int64.minValue) program.statements = true) :
    Parsed.ofText program.text = ⟨program.respelled, []⟩ := by
  have hspells : SpellsProgram (Block.lexemes program.statements) program.respelled :=
    Block.spells_lexemes hspellable (.inr rfl)
  rw [Parsed.ofText, Program.lexemes_ofText_text hspellable]
  exact ofLexemes_of_spellsProgram hspells

theorem Program.ofText_text {program : Program} (hwellFormed : program.isWellFormed = true) :
    Parsed.ofText program.text = ⟨program, []⟩ := by
  have hsame := Program.respelled_eq_self hwellFormed
  have hspellable : Block.isSpellable (· ≠ Int64.minValue) program.statements = true := by
    rw [← Program.isWellFormed_respelled, hsame]
    exact hwellFormed
  rw [Program.ofText_text_respelled hspellable, hsame]

/-- The canonical text of a well-formed program is read without errors and gives the program again, so
writing what was read changes nothing. -/
theorem Program.reading_undoes_writing (program : Program) (hwellFormed : program.isWellFormed = true) :
    Parsed.ofText program.text = ⟨program, []⟩ ∧
      (Parsed.ofText program.text).program.text = program.text := by
  have hread := Program.ofText_text hwellFormed
  refine ⟨hread, ?_⟩
  rw [hread]

/-- A program with forms in unusual places: a conditional and a function that are called, repeated
parameters, an expression in front of one that starts with a parenthesis, and a line break in a string. -/
def Program.crowded : Program :=
  ⟨[.expr (.name "f"),
    .expr (.unary .minus (.int 9223372036854775807)),
    .expr (.call (.cond (.bool true) [] (some [.ret none])) [.fn ["x", "x"] [.ret none], .int 0]),
    .bind "_s1" (.binary .lt (.str "line\nbreak") (.cond (.name "f") [.expr (.name "g")] none)),
    .ret (some (.call (.fn [] [.expr (.unary .bang (.name "f"))]) []))]⟩

theorem Program.crowded_reading_undoes_writing :
    crowded.isWellFormed = true ∧ Parsed.ofText crowded.text = ⟨crowded, []⟩ ∧
      (Parsed.ofText crowded.text).program.text = crowded.text := by
  have hwellFormed : crowded.isWellFormed = true := by decide
  exact ⟨hwellFormed, Program.reading_undoes_writing crowded hwellFormed⟩

end LetScript
