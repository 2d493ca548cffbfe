import LetScript.Proofs.Grammar.Finding

/-!
# The branches of the grammar's steps

One lemma for each step of reading says when it is clean and what it finds, in terms of the steps it
is made of.

* `statement_let`, `statement_bare`, `statement_ret`, `statement_expr`, `block_rBrace`,
  `block_of_ne_rBrace` — the branches of a statement and of a block as equations.
* `reportsStop_expression`, …, `reportsStop_statement` — no step stops without an error.  A block takes
  a stop for a missing statement, and this is why a clean block has dropped none.
* `finds_expression`, `finds_continued_operator`, …, `finds_block` — the equivalences.  Those of a statement are
  `finds_statement_let`, `finds_statement_bare`, `finds_statement_ret` and `finds_statement_expr`.
-/

namespace LetScript

/-- A lexeme that goes on with an expression is an infix operator or opens the arguments of a call. -/
theorem Kind.exists_of_lt_power {level : Nat} {kind : Kind} (hpower : level < kind.power) :
    (∃ op : InfixOp, kind = op.kind) ∨ kind = .lParen := by
  unfold Kind.power at hpower
  split at hpower
  · next op hop => exact .inl ⟨op, InfixOp.ofKind?_eq_some_iff.1 hop⟩
  · split at hpower
    · next hkind => exact .inr hkind
    · omega

@[simp] theorem InfixOp.power_kind (op : InfixOp) : op.kind.power = op.power := by
  cases op <;> rfl

namespace Grammar

open Reading

/-! ## Statements and blocks as equations -/

theorem statement_let {text : String} {rest : List Lexeme} :
    statement (⟨.letKey, text⟩ :: rest) =
      (expect .ident rest).andThen fun name rest _ =>
      (expect .assign rest).andThen fun _ rest _ =>
      ((expression 0 rest).afterOne rest).andThen fun value rest _ =>
      (skipSemicolon rest).map fun _ => .bind name.text value :=
  statement.eq_def _

theorem statement_bare {text : String} {rest : List Lexeme}
    (hnext : nextKind rest ∈ [.semicolon, .rBrace, .eof]) :
    statement (⟨.returnKey, text⟩ :: rest) = (skipSemicolon rest).map fun _ => .ret none :=
  (statement.eq_def _).trans (if_pos hnext)

theorem statement_ret {text : String} {rest : List Lexeme}
    (hnext : nextKind rest ∉ [.semicolon, .rBrace, .eof]) :
    statement (⟨.returnKey, text⟩ :: rest) =
      ((expression 0 rest).afterOne rest).andThen fun value rest _ =>
        (skipSemicolon rest).map fun _ => .ret (some value) :=
  (statement.eq_def _).trans (if_neg hnext)

theorem statement_expr {lexemes : List Lexeme} (hlet : nextKind lexemes ≠ .letKey)
    (hreturn : nextKind lexemes ≠ .returnKey) :
    statement lexemes = (expression 0 lexemes).andThen fun value rest _ =>
      (skipSemicolon rest).map fun _ => .expr value := by
  cases lexemes with
  | nil => exact statement.eq_def _
  | cons lexeme rest =>
      obtain ⟨kind, text⟩ := lexeme
      cases kind with
      | letKey => exact absurd rfl hlet
      | returnKey => exact absurd rfl hreturn
      | _ => exact statement.eq_def _

/-- The three sorts of statement, told apart by their first lexeme. -/
theorem statement_shape (lexemes : List Lexeme) :
    (∃ text rest, lexemes = ⟨.letKey, text⟩ :: rest) ∨
      (∃ text rest, lexemes = ⟨.returnKey, text⟩ :: rest) ∨
        nextKind lexemes ≠ .letKey ∧ nextKind lexemes ≠ .returnKey := by
  rcases lexemes with _ | ⟨⟨kind, text⟩, rest⟩
  · exact .inr (.inr ⟨by decide, by decide⟩)
  · by_cases hlet : kind = .letKey
    · exact .inl ⟨text, rest, by rw [hlet]⟩
    · by_cases hreturn : kind = .returnKey
      · exact .inr (.inl ⟨text, rest, by rw [hreturn]⟩)
      · exact .inr (.inr ⟨hlet, hreturn⟩)

theorem block_rBrace {text : String} {rest : List Lexeme} :
    block (⟨.rBrace, text⟩ :: rest) = Reading.afterOne (_ :: rest) (.done [] rest) := by
  rw [block]
  exact congrArg _ (if_pos rfl)

theorem block_of_ne_rBrace {lexeme : Lexeme} {rest : List Lexeme}
    (hkind : lexeme.kind ≠ .rBrace) :
    block (lexeme :: rest) = Reading.afterOne (lexeme :: rest)
      ((statement (lexeme :: rest)).attempt.andThen fun statement? rest _ =>
        (block rest).map (statement?.toList ++ ·)) := by
  rw [block]
  exact congrArg _ (if_neg hkind)

/-! ## No step stops silently -/

theorem reportsStop_moreParameters (lexemes : List Lexeme) :
    (moreParameters lexemes).ReportsStop := by
  rw [moreParameters.eq_def]
  split
  · next rest =>
      refine ((reportsStop_expect .ident rest).andThen fun name rest hle => ?_).widen _
      exact (reportsStop_moreParameters rest).map _
  · exact (reportsStop_expect _ _).map _
termination_by lexemes.length
decreasing_by grind

theorem reportsStop_parameters (lexemes : List Lexeme) : (parameters lexemes).ReportsStop := by
  unfold parameters
  split
  · exact (reportsStop_done _ _).widen _
  · exact (reportsStop_expect _ _).andThen fun name rest _ =>
      (reportsStop_moreParameters rest).map _

/-- A block attempts its statements, so nothing is asked of a statement here. -/
theorem reportsStop_block (lexemes : List Lexeme) : (block lexemes).ReportsStop := by
  cases lexemes with
  | nil =>
      rw [block]
      exact reportsStop_stop _ _ _
  | cons lexeme rest =>
      by_cases hbrace : lexeme.kind = .rBrace
      · obtain ⟨kind, text⟩ := lexeme
        subst hbrace
        rw [block_rBrace]
        exact (reportsStop_done _ _).widen _
      · rw [block_of_ne_rBrace hbrace]
        refine ReportsStop.widen ((reportsStop_attempt _).andThen fun statement? rest hle => ?_) _
        exact (reportsStop_block rest).map _
termination_by lexemes.length
decreasing_by all_goals grind

theorem reportsStop_alternative (lexemes : List Lexeme) : (alternative lexemes).ReportsStop := by
  rw [alternative.eq_def]
  split
  · next rest =>
      refine ReportsStop.widen ((reportsStop_expect _ _).andThen fun _ rest hle => ?_) _
      exact (reportsStop_block rest).map _
  · exact reportsStop_done _ _

theorem reportsStop_function (lexemes : List Lexeme) : (function lexemes).ReportsStop := by
  rw [function]
  refine (reportsStop_expect _ _).andThen fun _ rest _ => ?_
  refine (reportsStop_parameters rest).andThen fun names rest _ => ?_
  refine (reportsStop_expect _ _).andThen fun _ rest _ => ?_
  exact (reportsStop_block rest).map _

mutual

theorem reportsStop_expression (level : Nat) (lexemes : List Lexeme) :
    (expression level lexemes).ReportsStop := by
  rw [expression]
  exact (reportsStop_operand lexemes).andThen fun left rest hle =>
    reportsStop_continued level left rest
termination_by 8 * lexemes.length + 2
decreasing_by all_goals grind

theorem reportsStop_continued (level : Nat) (left : Expr) (lexemes : List Lexeme) :
    (continued level left lexemes).ReportsStop := by
  cases lexemes with
  | nil =>
      rw [continued]
      exact reportsStop_done _ _
  | cons lexeme rest =>
      rw [continued]
      by_cases hpower : level < lexeme.kind.power
      · rw [if_pos hpower]
        split
        · next op _ =>
            refine ReportsStop.widen (.andThen ?_ fun right rest hle => ?_) _
            · exact (reportsStop_expression op.power rest).widen _
            · exact reportsStop_continued level _ rest
        · refine ReportsStop.widen (.andThen ?_ fun args rest hle => ?_) _
          · exact reportsStop_arguments rest
          · exact reportsStop_continued level _ rest
      · rw [if_neg hpower]
        exact reportsStop_done _ _
termination_by 8 * lexemes.length
decreasing_by all_goals grind

theorem reportsStop_operand (lexemes : List Lexeme) : (operand lexemes).ReportsStop := by
  cases lexemes with
  | nil =>
      rw [operand]
      exact reportsStop_stop _ _ _
  | cons lexeme rest =>
      obtain ⟨kind, text⟩ := lexeme
      rw [operand]
      cases kind with
      | ident | string | trueKey | falseKey => exact reportsStop_done _ _
      | int =>
          cases hvalue : integer? text with
          | some value => exact reportsStop_done _ _
          | none => exact reportsStop_stop _ _ _
      | bang | minus => exact ((reportsStop_expression _ rest).widen _).map _
      | lParen =>
          refine ((reportsStop_expression 0 rest).widen _).andThen fun inner rest hle => ?_
          exact (reportsStop_expect _ _).map _
      | ifKey => exact reportsStop_conditional rest
      | function => exact reportsStop_function rest
      | _ => exact reportsStop_stop _ _ _
termination_by 8 * lexemes.length + 1
decreasing_by all_goals grind

theorem reportsStop_conditional (lexemes : List Lexeme) : (conditional lexemes).ReportsStop := by
  rw [conditional]
  refine (reportsStop_expect _ _).andThen fun _ rest _ => ?_
  refine ((reportsStop_expression 0 rest).widen _).andThen fun condition rest _ => ?_
  refine (reportsStop_expect _ _).andThen fun _ rest _ => ?_
  refine (reportsStop_expect _ _).andThen fun _ rest _ => ?_
  refine (reportsStop_block rest).andThen fun consequence rest _ => ?_
  exact (reportsStop_alternative rest).map _
termination_by 8 * lexemes.length + 7
decreasing_by all_goals grind

theorem reportsStop_arguments (lexemes : List Lexeme) : (arguments lexemes).ReportsStop := by
  rw [arguments.eq_def]
  split
  · exact (reportsStop_done _ _).widen _
  · refine ((reportsStop_expression 0 lexemes).widen _).andThen fun first rest hle => ?_
    exact (reportsStop_moreArguments rest).map _
termination_by 8 * lexemes.length + 3
decreasing_by all_goals grind

theorem reportsStop_moreArguments (lexemes : List Lexeme) :
    (moreArguments lexemes).ReportsStop := by
  rw [moreArguments.eq_def]
  split
  · next rest =>
      refine ReportsStop.widen (.andThen ?_ fun next rest hle => ?_) _
      · exact (reportsStop_expression 0 rest).widen _
      · exact (reportsStop_moreArguments rest).map _
  · exact (reportsStop_expect _ _).map _
termination_by 8 * lexemes.length
decreasing_by all_goals grind

end

theorem reportsStop_statement (lexemes : List Lexeme) : (statement lexemes).ReportsStop := by
  rcases statement_shape lexemes with ⟨text, rest, rfl⟩ | ⟨text, rest, rfl⟩ | ⟨hlet, hreturn⟩
  · rw [statement_let]
    refine (reportsStop_expect _ _).andThen fun name rest _ => ?_
    refine (reportsStop_expect _ _).andThen fun _ rest _ => ?_
    refine ((reportsStop_expression 0 rest).widen _).andThen fun value rest _ => ?_
    exact (reportsStop_skipSemicolon rest).map _
  · by_cases hnext : nextKind rest ∈ [.semicolon, .rBrace, .eof]
    · rw [statement_bare hnext]
      exact (reportsStop_skipSemicolon rest).map _
    · rw [statement_ret hnext]
      refine ((reportsStop_expression 0 rest).widen _).andThen fun value rest _ => ?_
      exact (reportsStop_skipSemicolon rest).map _
  · rw [statement_expr hlet hreturn]
    exact (reportsStop_expression 0 _).andThen fun value rest _ =>
      (reportsStop_skipSemicolon rest).map _

/-! ## What a clean step finds -/

variable {level : Nat} {left e : Expr} {input rest : List Lexeme}

theorem finds_expression :
    (expression level input).Finds e rest ↔
      ∃ left middle, (operand input).Finds left middle ∧ (continued level left middle).Finds e rest := by
  rw [expression, finds_andThen]

theorem finds_continued_of_le (hpower : (nextKind input).power ≤ level) :
    (continued level left input).Finds e rest ↔ left = e ∧ input = rest := by
  cases input with
  | nil => rw [continued, finds_done]
  | cons lexeme others =>
      have hstop : ¬ level < lexeme.kind.power := Nat.not_lt.2 hpower
      rw [continued, if_neg hstop, finds_done]

theorem finds_continued_operator {op : InfixOp} {text : String} (hpower : level < op.power) :
    (continued level left (⟨op.kind, text⟩ :: input)).Finds e rest ↔
      ∃ right middle, (expression op.power input).Finds right middle ∧
        (continued level (.binary op left right) middle).Finds e rest := by
  rw [continued, if_pos (by simpa using hpower), InfixOp.ofKind?_eq_some_iff.2 rfl]
  simp only [finds_afterOne_cons, finds_andThen, finds_afterOne]

theorem finds_continued_call {text : String} (hpower : level < Kind.callPower) :
    (continued level left (⟨.lParen, text⟩ :: input)).Finds e rest ↔
      ∃ args middle, (arguments input).Finds args middle ∧
        (continued level (.call left args) middle).Finds e rest := by
  have hgoesOn : level < (Lexeme.mk .lParen text).kind.power := hpower
  rw [continued, if_pos hgoesOn]
  simp only [InfixOp.ofKind?, finds_afterOne_cons, finds_andThen]

/-- An operand, by the kind of its first lexeme. -/
theorem finds_operand {kind : Kind} {text : String} :
    (operand (⟨kind, text⟩ :: input)).Finds e rest ↔
      match kind with
      | .ident => .name text = e ∧ input = rest
      | .int => ∃ value, integer? text = some value ∧ .int value = e ∧ input = rest
      | .string => .str text = e ∧ input = rest
      | .trueKey => .bool true = e ∧ input = rest
      | .falseKey => .bool false = e ∧ input = rest
      | .bang => ∃ inner, (expression Kind.prefixPower input).Finds inner rest ∧ .unary .bang inner = e
      | .minus => ∃ inner, (expression Kind.prefixPower input).Finds inner rest ∧ .unary .minus inner = e
      | .lParen => ∃ closing, (expression 0 input).Finds e (⟨.rParen, closing⟩ :: rest)
      | .ifKey => (conditional input).Finds e rest
      | .function => (function input).Finds e rest
      | _ => False := by
  rw [operand]
  cases kind with
  | ident | string | trueKey | falseKey => exact finds_done
  | int =>
      cases hvalue : integer? text with
      | some value => simp
      | none => simp
  | bang =>
      show (((expression Kind.prefixPower input).afterOne input).map (.unary .bang)).Finds e rest ↔ _
      simp only [finds_map, finds_afterOne]
  | minus =>
      show (((expression Kind.prefixPower input).afterOne input).map (.unary .minus)).Finds e rest ↔ _
      simp only [finds_map, finds_afterOne]
  | lParen =>
      show (((expression 0 input).afterOne input).andThen fun inner rest _ =>
        (expect .rParen rest).map fun _ => inner).Finds e rest ↔ _
      simp only [↓finds_expect_map, finds_andThen, finds_afterOne]
      constructor
      · rintro ⟨inner, middle, hinner, closing, rfl, rfl⟩
        exact ⟨closing, hinner⟩
      · rintro ⟨closing, hinner⟩
        exact ⟨e, _, hinner, closing, rfl, rfl⟩
  | ifKey | function => exact Iff.rfl
  | _ => exact iff_false_intro not_finds_stop

theorem exists_of_finds_operand (hfinds : (operand input).Finds e rest) :
    ∃ kind text start, input = ⟨kind, text⟩ :: start := by
  cases input with
  | nil =>
      rw [operand] at hfinds
      exact absurd hfinds not_finds_stop
  | cons lexeme start => exact ⟨lexeme.kind, lexeme.text, start, rfl⟩

theorem finds_moreParameters {names : List String} :
    (moreParameters input).Finds names rest ↔
      (∃ comma start, input = ⟨.comma, comma⟩ :: start ∧
        ∃ name middle, start = ⟨.ident, name⟩ :: middle ∧
        ∃ others, (moreParameters middle).Finds others rest ∧ name :: others = names) ∨
      ∃ closing, input = ⟨.rParen, closing⟩ :: rest ∧ [] = names := by
  rw [moreParameters.eq_def]
  split
  · simp [↓finds_expect_andThen, and_assoc]
  · next hcomma =>
      rw [finds_expect_map]
      constructor
      · exact .inr
      · rintro (⟨comma, start, hinput, -⟩ | hclosing)
        · exact (hcomma comma start hinput).elim
        · exact hclosing

theorem finds_parameters {names : List String} :
    (parameters input).Finds names rest ↔
      (∃ closing, input = ⟨.rParen, closing⟩ :: rest ∧ [] = names) ∨
      ∃ name middle, input = ⟨.ident, name⟩ :: middle ∧
        ∃ others, (moreParameters middle).Finds others rest ∧ name :: others = names := by
  unfold parameters
  split
  · simp [and_comm]
  · next hclosing =>
      simp only [↓finds_expect_andThen, finds_map]
      constructor
      · exact .inr
      · rintro (⟨closing, hinput, -⟩ | hnames)
        · exact (hclosing closing rest hinput).elim
        · exact hnames

theorem finds_conditional :
    (conditional input).Finds e rest ↔
      ∃ opening start, input = ⟨.lParen, opening⟩ :: start ∧
      ∃ condition middle, (expression 0 start).Finds condition middle ∧
      ∃ closing left, middle = ⟨.rParen, closing⟩ :: left ∧
      ∃ brace first, left = ⟨.lBrace, brace⟩ :: first ∧
      ∃ consequence second, (block first).Finds consequence second ∧
      ∃ other, (alternative second).Finds other rest ∧ .cond condition consequence other = e := by
  rw [conditional]
  simp only [↓finds_expect_andThen, finds_andThen, finds_afterOne, finds_map]

theorem finds_alternative {other : Option Block} :
    (alternative input).Finds other rest ↔
      (∃ keyword start, input = ⟨.elseKey, keyword⟩ :: start ∧
        ∃ brace first, start = ⟨.lBrace, brace⟩ :: first ∧
        ∃ body, (block first).Finds body rest ∧ some body = other) ∨
      nextKind input ≠ .elseKey ∧ none = other ∧ input = rest := by
  rw [alternative.eq_def]
  split
  · simp [↓finds_expect_andThen, nextKind, and_assoc]
  · next helse =>
      rw [finds_done]
      constructor
      · intro hdone
        refine .inr ⟨?_, hdone⟩
        rintro hkind
        obtain ⟨keyword, start, hinput⟩ := exists_of_nextKind hkind (by decide)
        exact helse keyword start hinput
      · rintro (⟨keyword, start, hinput, -⟩ | ⟨-, hdone⟩)
        · exact (helse keyword start hinput).elim
        · exact hdone

theorem finds_function :
    (function input).Finds e rest ↔
      ∃ opening start, input = ⟨.lParen, opening⟩ :: start ∧
      ∃ names middle, (parameters start).Finds names middle ∧
      ∃ brace first, middle = ⟨.lBrace, brace⟩ :: first ∧
      ∃ body, (block first).Finds body rest ∧ .fn names body = e := by
  rw [function]
  simp only [↓finds_expect_andThen, finds_andThen, finds_map]

theorem finds_arguments {args : List Expr} :
    (arguments input).Finds args rest ↔
      (∃ closing, input = ⟨.rParen, closing⟩ :: rest ∧ [] = args) ∨
      nextKind input ≠ .rParen ∧
        ∃ first middle, (expression 0 input).Finds first middle ∧
        ∃ others, (moreArguments middle).Finds others rest ∧ first :: others = args := by
  rw [arguments.eq_def]
  split
  · simp [nextKind, and_comm]
  · next hclosing =>
      simp only [finds_andThen, finds_afterOne, finds_map]
      constructor
      · intro hargs
        refine .inr ⟨?_, hargs⟩
        intro hkind
        obtain ⟨closing, start, hinput⟩ := exists_of_nextKind hkind (by decide)
        exact hclosing closing start hinput
      · rintro (⟨closing, hinput, -⟩ | ⟨-, hargs⟩)
        · exact (hclosing closing rest hinput).elim
        · exact hargs

theorem finds_moreArguments {args : List Expr} :
    (moreArguments input).Finds args rest ↔
      (∃ comma start, input = ⟨.comma, comma⟩ :: start ∧
        ∃ next middle, (expression 0 start).Finds next middle ∧
        ∃ others, (moreArguments middle).Finds others rest ∧ next :: others = args) ∨
      ∃ closing, input = ⟨.rParen, closing⟩ :: rest ∧ [] = args := by
  rw [moreArguments.eq_def]
  split
  · simp [and_assoc]
  · next hcomma =>
      rw [finds_expect_map]
      constructor
      · exact .inr
      · rintro (⟨comma, start, hinput, -⟩ | hclosing)
        · exact (hcomma comma start hinput).elim
        · exact hclosing

theorem not_finds_statement_nil {s : Stmt} : ¬ (statement []).Finds s rest := by
  rw [statement_expr (by decide) (by decide), finds_andThen]
  rintro ⟨value, middle, hvalue, -⟩
  obtain ⟨left, between, hleft, -⟩ := finds_expression.1 hvalue
  obtain ⟨kind, text, start, hnil⟩ := exists_of_finds_operand hleft
  cases hnil

/-- A clean block has read every one of its statements. -/
theorem finds_block {statements : Block} :
    (block input).Finds statements rest ↔
      (∃ closing, input = ⟨.rBrace, closing⟩ :: rest ∧ [] = statements) ∨
      nextKind input ≠ .rBrace ∧
        ∃ first middle, (statement input).Finds first middle ∧
        ∃ others, (block middle).Finds others rest ∧ first :: others = statements := by
  cases input with
  | nil =>
      rw [block]
      constructor
      · intro hstop
        exact absurd hstop not_finds_stop
      · rintro (⟨closing, hinput, -⟩ | ⟨-, first, middle, hfirst, -⟩)
        · cases hinput
        · exact absurd hfirst not_finds_statement_nil
  | cons lexeme start =>
      by_cases hkind : lexeme.kind = .rBrace
      · obtain ⟨kind, text⟩ := lexeme
        subst hkind
        rw [block_rBrace]
        simp [nextKind, and_comm]
      · rw [block_of_ne_rBrace hkind]
        refine finds_afterOne.trans (finds_andThen.trans ?_)
        -- An attempt hides a stop, but a stop of a statement leaves an error that nothing hides.
        simp only [finds_attempt (reportsStop_statement _), finds_map]
        constructor
        · rintro ⟨_, middle, ⟨first, hfirst, rfl⟩, others, hothers, rfl⟩
          exact .inr ⟨hkind, first, middle, hfirst, others, hothers, rfl⟩
        · rintro (⟨closing, hinput, -⟩ | ⟨-, first, middle, hfirst, others, hothers, rfl⟩)
          · cases hinput
            exact absurd rfl hkind
          · exact ⟨some first, middle, ⟨first, hfirst, rfl⟩, others, hothers, rfl⟩

theorem finds_statement_let {text : String} {s : Stmt} :
    (statement (⟨.letKey, text⟩ :: input)).Finds s rest ↔
      ∃ name middle, input = ⟨.ident, name⟩ :: middle ∧
      ∃ assign left, middle = ⟨.assign, assign⟩ :: left ∧
      ∃ value right, (expression 0 left).Finds value right ∧
        (skipSemicolon right).Finds () rest ∧ .bind name value = s := by
  rw [statement_let]
  refine finds_expect_andThen.trans ?_
  simp only [↓finds_expect_andThen, ↓finds_skipSemicolon_map, finds_andThen, finds_afterOne,
    List.tail_cons]

theorem finds_statement_bare {text : String} {s : Stmt}
    (hnext : nextKind input ∈ [.semicolon, .rBrace, .eof]) :
    (statement (⟨.returnKey, text⟩ :: input)).Finds s rest ↔
      (skipSemicolon input).Finds () rest ∧ .ret none = s := by
  rw [statement_bare hnext]
  exact finds_skipSemicolon_map

theorem finds_statement_ret {text : String} {s : Stmt}
    (hnext : nextKind input ∉ [.semicolon, .rBrace, .eof]) :
    (statement (⟨.returnKey, text⟩ :: input)).Finds s rest ↔
      ∃ value right, (expression 0 input).Finds value right ∧
        (skipSemicolon right).Finds () rest ∧ .ret (some value) = s := by
  rw [statement_ret hnext]
  show (((expression 0 input).afterOne input).andThen fun value rest _ =>
    (skipSemicolon rest).map fun _ => Stmt.ret (some value)).Finds s rest ↔ _
  simp only [↓finds_skipSemicolon_map, finds_andThen, finds_afterOne]

theorem finds_statement_expr {s : Stmt} (hlet : nextKind input ≠ .letKey)
    (hreturn : nextKind input ≠ .returnKey) :
    (statement input).Finds s rest ↔
      ∃ value right, (expression 0 input).Finds value right ∧
        (skipSemicolon right).Finds () rest ∧ .expr value = s := by
  rw [statement_expr hlet hreturn]
  simp only [↓finds_skipSemicolon_map, finds_andThen]

end Grammar

namespace Parsed

open Grammar

/-! ## Scripts -/

/-- A script without errors starts with a statement that is read cleanly. -/
theorem exists_finds_of_errors {lexeme : Lexeme} {others : List Lexeme}
    (herrors : (ofLexemes (lexeme :: others)).errors = []) :
    ∃ s rest, (statement (lexeme :: others)).Finds s rest := by
  rw [ofLexemes] at herrors
  exact reportsStop_statement _ (List.append_eq_nil_iff.1 herrors).1

theorem ofLexemes_of_finds {input rest : List Lexeme} {s : Stmt}
    (hfinds : (statement input).Finds s rest) :
    ofLexemes input = ⟨⟨s :: (ofLexemes rest).program.statements⟩, (ofLexemes rest).errors⟩ := by
  cases input with
  | nil => exact absurd hfinds not_finds_statement_nil
  | cons lexeme others =>
      obtain ⟨herrors, hle, houtcome⟩ := hfinds
      rw [ofLexemes]
      simp [herrors, houtcome, Outcome.nextStatement, Outcome.value?]

end Parsed

end LetScript
