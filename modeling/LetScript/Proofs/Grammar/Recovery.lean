import LetScript.Proofs.Grammar.Branches
import LetScript.Proofs.Token.Lines

/-!
# Errors stay in their statement

A statement that stops is given up to its semicolon.  So what stands behind a semicolon is read by itself,
however broken what stands in front of it is; only a block that is still open goes on behind it.

* `unclosed`, `Ended` — the error of an open block, and lexemes of which a semicolon is the last one.
* `Reading.Extends` — a step that is given more lexemes does the same and leaves these too; one lemma for each
  way in which steps are put together.
* `expression_extends`, `block_extends`, `statement_extends`, … — every step of the grammar does so in front of
  a semicolon, unless a block stays open.
* `Parsed.ofLexemes_append`, `Parsed.errors_stay_in_their_statement` — so the statements and the errors of two
  scripts in a row are those of each.
-/

namespace LetScript.Grammar

/-- The error of a block that is never closed. -/
def unclosed : SyntaxError := .expectedToken .rBrace .eof

/-! ## Up to a semicolon -/

/-- The last lexeme is a semicolon. -/
def Ended (lexemes : List Lexeme) : Prop :=
  lexemes.getLast?.map Lexeme.kind = some .semicolon

/-- The last lexeme, if there is one, is a semicolon. -/
def Spent (lexemes : List Lexeme) : Prop :=
  lexemes = [] ∨ Ended lexemes

theorem not_ended_nil : ¬ Ended [] :=
  nofun

theorem Ended.ne_nil {lexemes : List Lexeme} (hended : Ended lexemes) : lexemes ≠ [] := by
  rintro rfl
  exact not_ended_nil hended

theorem ended_cons {lexeme : Lexeme} {rest : List Lexeme} :
    Ended (lexeme :: rest) ↔ rest = [] ∧ lexeme.kind = .semicolon ∨ Ended rest := by
  cases rest with
  | nil => simp [Ended]
  | cons second rest => simp [Ended]

theorem Ended.spent_tail {lexeme : Lexeme} {rest : List Lexeme} (hended : Ended (lexeme :: rest)) :
    Spent rest :=
  (ended_cons.1 hended).imp_left And.left

/-- Only the semicolon at the end has nothing behind it. -/
theorem Ended.tail {lexeme : Lexeme} {rest : List Lexeme} (hended : Ended (lexeme :: rest))
    (hkind : lexeme.kind ≠ .semicolon) : Ended rest := by
  rcases ended_cons.1 hended with ⟨-, hsemicolon⟩ | hrest
  · exact absurd hsemicolon hkind
  · exact hrest

theorem exists_of_ended {lexemes : List Lexeme} (hended : Ended lexemes) :
    ∃ lexeme rest, lexemes = lexeme :: rest :=
  List.exists_cons_of_ne_nil hended.ne_nil

theorem nextKind_append {lexemes : List Lexeme} (hended : Ended lexemes) (more : List Lexeme) :
    nextKind (lexemes ++ more) = nextKind lexemes := by
  obtain ⟨lexeme, rest, rfl⟩ := exists_of_ended hended
  rfl

/-- A lexeme that goes on with an expression is no semicolon. -/
theorem ne_semicolon_of_lt_power {level : Nat} {kind : Kind} (hpower : level < kind.power) :
    kind ≠ .semicolon := by
  rintro rfl
  exact absurd hpower (Nat.not_lt_zero level)

/-! ## The same step with more behind -/

variable {α β : Type} {input wide : List Lexeme} {more : List Lexeme} {left leftNext : List Lexeme → Prop}

/-- The outcome of a step that was given `more` lexemes in addition is the same, but for these, which it leaves.
Behind a value the step had left lexemes as `left` says; where it stopped it had a semicolon in front of it,
or had just refused one. -/
inductive Outcome.Extends (more : List Lexeme) (left : List Lexeme → Prop) :
    Outcome α wide → Outcome α input → Prop
  | done {value rest hwide hinput} (hleft : left rest) :
      Extends more left (.done value (rest ++ more) hwide) (.done value rest hinput)
  | stopped {refused rest hwide hinput} (hended : Ended (refused.toList ++ rest)) :
      Extends more left (.stopped refused (rest ++ more) hwide) (.stopped refused rest hinput)

namespace Reading

/-- A step that is given more lexemes does the same and leaves these too, unless it did not find the end of
a block. -/
def Extends (longer : Reading α wide) (more : List Lexeme) (left : List Lexeme → Prop)
    (reading : Reading α input) : Prop :=
  unclosed ∈ reading.errors ∨
    longer.errors = reading.errors ∧ longer.outcome.Extends more left reading.outcome

theorem done_extends {value : α} {rest : List Lexeme} (hleft : left rest) :
    (done value (rest ++ more)).Extends more left (done value rest) :=
  .inr ⟨rfl, .done hleft⟩

theorem stop_extends {error : SyntaxError} {refused : Option Lexeme} {rest : List Lexeme}
    (hended : Ended (refused.toList ++ rest)) :
    (stop error refused (rest ++ more) : Reading α _).Extends more left (stop error refused rest) :=
  .inr ⟨rfl, .stopped hended⟩

theorem Extends.widen {reading : Reading α input} {longer : Reading α wide}
    (hextends : longer.Extends more left reading) {input' wide' : List Lexeme}
    (hwide : wide.length ≤ wide'.length) (hinput : input.length ≤ input'.length) :
    (longer.widen hwide).Extends more left (reading.widen hinput) := by
  obtain ⟨errors, outcome⟩ := reading
  obtain ⟨_, outcome'⟩ := longer
  refine hextends.imp_right ?_
  rintro ⟨herrors, houtcome⟩
  refine ⟨herrors, ?_⟩
  cases houtcome with
  | done hleft => exact .done hleft
  | stopped hended => exact .stopped hended

theorem Extends.map {reading : Reading α input} {longer : Reading α wide}
    (hextends : longer.Extends more left reading) (f : α → β) :
    (longer.map f).Extends more left (reading.map f) := by
  obtain ⟨errors, outcome⟩ := reading
  obtain ⟨_, outcome'⟩ := longer
  refine hextends.imp_right ?_
  rintro ⟨herrors, houtcome⟩
  refine ⟨herrors, ?_⟩
  cases houtcome with
  | done hleft => exact .done hleft
  | stopped hended => exact .stopped hended

/-- The second step starts from what the first one has left, and so with more behind it too. -/
theorem Extends.andThen {reading : Reading α input} {longer : Reading α wide}
    {next : α → (rest : List Lexeme) → Reading β rest} (hextends : longer.Extends more left reading)
    (hnext : ∀ value rest, rest.length ≤ input.length → left rest →
      (next value (rest ++ more)).Extends more leftNext (next value rest)) :
    (longer.andThen fun value rest _ => next value rest).Extends more leftNext
      (reading.andThen fun value rest _ => next value rest) := by
  obtain ⟨errors, outcome⟩ := reading
  obtain ⟨_, outcome'⟩ := longer
  rcases hextends with hunclosed | ⟨herrors, houtcome⟩
  · -- The first step keeps its errors, whatever the second one does.
    refine .inl ?_
    cases outcome with
    | done value rest hle => exact List.mem_append_left _ hunclosed
    | stopped refused rest hle => exact hunclosed
  · obtain rfl : _ = errors := herrors
    cases houtcome with
    | stopped hended => exact .inr ⟨rfl, .stopped hended⟩
    | @done value rest hwide hinput hleft =>
        rcases (hnext value rest hinput hleft).widen hwide hinput with hunclosed | ⟨hsecond, houtcome⟩
        · exact .inl (List.mem_append_right _ hunclosed)
        · exact .inr ⟨congrArg _ hsecond, houtcome⟩

/-- Where a step stopped, an attempt at it goes on: behind the semicolon, if that was refused. -/
theorem Extends.attempt {reading : Reading α input} {longer : Reading α wide}
    (hextends : longer.Extends more Spent reading) :
    longer.attempt.Extends more Spent reading.attempt := by
  obtain ⟨errors, outcome⟩ := reading
  obtain ⟨_, outcome'⟩ := longer
  rcases hextends with hunclosed | ⟨herrors, houtcome⟩
  · refine .inl ?_
    cases outcome with
    | done value rest hle => exact hunclosed
    | stopped refused rest hle => exact hunclosed
  · obtain rfl : _ = errors := herrors
    cases houtcome with
    | done hleft => exact .inr ⟨rfl, .done hleft⟩
    | @stopped refused rest hwide hinput hended =>
        refine .inr ⟨rfl, .done ?_⟩
        cases refused with
        | none => exact .inr hended
        | some lexeme => exact Ended.spent_tail hended

end Reading

open Reading

/-! ## The steps of the grammar -/

theorem expect_extends {kind : Kind} (hkind : kind ≠ .semicolon) (hended : Ended input) :
    (expect kind (input ++ more)).Extends more Ended (expect kind input) := by
  obtain ⟨lexeme, rest, rfl⟩ := exists_of_ended hended
  unfold expect
  dsimp only [List.cons_append]
  split
  · next hsame => exact (done_extends (hended.tail (hsame ▸ hkind))).widen _ _
  · exact stop_extends hended

theorem skipSemicolon_extends (hended : Ended input) :
    (skipSemicolon (input ++ more)).Extends more Spent (skipSemicolon input) := by
  unfold skipSemicolon
  rw [nextKind_append hended]
  by_cases hkind : nextKind input = .semicolon
  · obtain ⟨lexeme, rest, rfl⟩ := exists_of_ended hended
    rw [if_pos hkind, if_pos hkind]
    exact (done_extends hended.spent_tail).widen _ _
  · rw [if_neg hkind, if_neg hkind]
    exact done_extends (.inr hended)

theorem moreParameters_extends {input : List Lexeme} (hended : Ended input) :
    (moreParameters (input ++ more)).Extends more Ended (moreParameters input) := by
  obtain ⟨⟨kind, text⟩, rest, rfl⟩ := exists_of_ended hended
  rw [List.cons_append, moreParameters.eq_def, moreParameters.eq_def (_ :: rest)]
  cases kind with
  | comma =>
      -- A comma is not the last lexeme of what ends in a semicolon.
      have hrest := hended.tail nofun
      refine Extends.widen ((expect_extends (by decide) hrest).andThen fun name behind hle hbehind => ?_) _ _
      exact (moreParameters_extends hbehind).map _
  | _ => exact (expect_extends (by decide) hended).map _
termination_by input.length
decreasing_by grind

theorem parameters_extends (hended : Ended input) :
    (parameters (input ++ more)).Extends more Ended (parameters input) := by
  obtain ⟨⟨kind, text⟩, rest, rfl⟩ := exists_of_ended hended
  unfold parameters
  cases kind with
  | rParen => exact (done_extends (hended.tail nofun)).widen _ _
  | _ =>
      refine (expect_extends (by decide) hended).andThen fun name behind _ hbehind => ?_
      exact (moreParameters_extends hbehind).map _

theorem arguments_of_ne_rParen {lexemes : List Lexeme} (hkind : nextKind lexemes ≠ .rParen) :
    arguments lexemes =
      ((expression 0 lexemes).afterOne lexemes).andThen fun first rest _ =>
        (moreArguments rest).map (first :: ·) := by
  rw [arguments.eq_def]
  split
  · exact absurd rfl hkind
  · rfl

mutual

theorem expression_extends (level : Nat) {input : List Lexeme} (hended : Ended input) :
    (expression level (input ++ more)).Extends more Ended (expression level input) := by
  rw [expression, expression]
  exact (operand_extends hended).andThen fun left rest hle hrest => continued_extends level left hrest
termination_by 8 * input.length + 2
decreasing_by all_goals grind

theorem continued_extends (level : Nat) (left : Expr) {input : List Lexeme} (hended : Ended input) :
    (continued level left (input ++ more)).Extends more Ended (continued level left input) := by
  obtain ⟨lexeme, rest, rfl⟩ := exists_of_ended hended
  rw [List.cons_append, continued, continued]
  by_cases hpower : level < lexeme.kind.power
  · have hrest := hended.tail (ne_semicolon_of_lt_power hpower)
    rw [if_pos hpower, if_pos hpower]
    split
    · next op _ =>
        refine Extends.widen (.andThen ((expression_extends op.power hrest).widen _ _) ?_) _ _
        exact fun right behind hle hbehind => continued_extends level _ hbehind
    · refine Extends.widen (.andThen (arguments_extends hrest) ?_) _ _
      exact fun args behind hle hbehind => continued_extends level _ hbehind
  · rw [if_neg hpower, if_neg hpower]
    exact done_extends hended
termination_by 8 * input.length
decreasing_by all_goals grind

theorem operand_extends {input : List Lexeme} (hended : Ended input) :
    (operand (input ++ more)).Extends more Ended (operand input) := by
  obtain ⟨⟨kind, text⟩, rest, rfl⟩ := exists_of_ended hended
  rw [List.cons_append, operand, operand]
  cases kind with
  | ident | string | trueKey | falseKey => exact done_extends (hended.tail nofun)
  | int =>
      have hrest := hended.tail nofun
      cases hvalue : integer? text with
      | some value => exact done_extends hrest
      | none => exact stop_extends hended
  | bang | minus =>
      have hrest := hended.tail nofun
      exact ((expression_extends Kind.prefixPower hrest).widen _ _).map _
  | lParen =>
      have hrest := hended.tail nofun
      refine ((expression_extends 0 hrest).widen _ _).andThen fun inner behind hle hbehind => ?_
      exact (expect_extends (by decide) hbehind).map _
  | ifKey => exact conditional_extends (hended.tail nofun)
  | function => exact function_extends (hended.tail nofun)
  | _ => exact stop_extends hended
termination_by 8 * input.length + 1
decreasing_by all_goals grind

theorem conditional_extends {input : List Lexeme} (hended : Ended input) :
    (conditional (input ++ more)).Extends more Ended (conditional input) := by
  rw [conditional, conditional]
  refine (expect_extends (by decide) hended).andThen fun _ first _ hfirst => ?_
  refine ((expression_extends 0 hfirst).widen _ _).andThen fun condition second _ hsecond => ?_
  refine (expect_extends (by decide) hsecond).andThen fun _ third _ hthird => ?_
  refine (expect_extends (by decide) hthird).andThen fun _ fourth _ hfourth => ?_
  refine (block_extends (.inr hfourth)).andThen fun consequence fifth _ hfifth => ?_
  exact (alternative_extends hfifth).map _
termination_by 8 * input.length + 7
decreasing_by all_goals grind

theorem alternative_extends {input : List Lexeme} (hended : Ended input) :
    (alternative (input ++ more)).Extends more Ended (alternative input) := by
  obtain ⟨⟨kind, text⟩, rest, rfl⟩ := exists_of_ended hended
  rw [List.cons_append, alternative.eq_def, alternative.eq_def (_ :: rest)]
  cases kind with
  | elseKey =>
      have hrest := hended.tail nofun
      refine Extends.widen ((expect_extends (by decide) hrest).andThen fun _ first _ hfirst => ?_) _ _
      exact (block_extends (.inr hfirst)).map _
  | _ => exact done_extends hended
termination_by 8 * input.length + 6
decreasing_by all_goals grind

theorem function_extends {input : List Lexeme} (hended : Ended input) :
    (function (input ++ more)).Extends more Ended (function input) := by
  rw [function, function]
  refine (expect_extends (by decide) hended).andThen fun _ first _ hfirst => ?_
  refine (parameters_extends hfirst).andThen fun names second _ hsecond => ?_
  refine (expect_extends (by decide) hsecond).andThen fun _ third _ hthird => ?_
  exact (block_extends (.inr hthird)).map _
termination_by 8 * input.length + 6
decreasing_by all_goals grind

theorem arguments_extends {input : List Lexeme} (hended : Ended input) :
    (arguments (input ++ more)).Extends more Ended (arguments input) := by
  have hsame := nextKind_append hended more
  by_cases hparen : nextKind input = .rParen
  · obtain ⟨text, rest, rfl⟩ := exists_of_nextKind hparen nofun
    rw [List.cons_append, arguments.eq_def, arguments.eq_def (_ :: rest)]
    exact (done_extends (hended.tail nofun)).widen _ _
  · rw [arguments_of_ne_rParen hparen, arguments_of_ne_rParen (hsame ▸ hparen)]
    refine ((expression_extends 0 hended).widen _ _).andThen fun first behind _ hbehind => ?_
    exact (moreArguments_extends hbehind).map _
termination_by 8 * input.length + 3
decreasing_by all_goals grind

theorem moreArguments_extends {input : List Lexeme} (hended : Ended input) :
    (moreArguments (input ++ more)).Extends more Ended (moreArguments input) := by
  obtain ⟨⟨kind, text⟩, rest, rfl⟩ := exists_of_ended hended
  rw [List.cons_append, moreArguments.eq_def, moreArguments.eq_def (_ :: rest)]
  cases kind with
  | comma =>
      have hrest := hended.tail nofun
      refine Extends.widen (.andThen ((expression_extends 0 hrest).widen _ _) ?_) _ _
      exact fun next behind _ hbehind => (moreArguments_extends hbehind).map _
  | _ => exact (expect_extends (by decide) hended).map _
termination_by 8 * input.length
decreasing_by all_goals grind

/-- A block that comes to the end is not closed, and only then it would go on with what stands behind. -/
theorem block_extends {input : List Lexeme} (hspent : Spent input) :
    (block (input ++ more)).Extends more Ended (block input) := by
  rcases hspent with rfl | hended
  · refine .inl ?_
    rw [block]
    exact List.mem_singleton_self _
  · obtain ⟨lexeme, rest, rfl⟩ := exists_of_ended hended
    by_cases hbrace : lexeme.kind = .rBrace
    · obtain ⟨kind, text⟩ := lexeme
      subst hbrace
      rw [List.cons_append, block_rBrace, block_rBrace]
      exact (done_extends (hended.tail nofun)).widen _ _
    · rw [List.cons_append, block_of_ne_rBrace hbrace, block_of_ne_rBrace hbrace]
      refine Extends.widen ((statement_extends hended).attempt.andThen ?_) _ _
      exact fun statement? behind hle hbehind => (block_extends hbehind).map _
termination_by 8 * input.length + 5
decreasing_by all_goals grind

theorem statement_extends {input : List Lexeme} (hended : Ended input) :
    (statement (input ++ more)).Extends more Spent (statement input) := by
  rcases statement_shape input with ⟨text, rest, rfl⟩ | ⟨text, rest, rfl⟩ | ⟨hlet, hreturn⟩
  · rw [List.cons_append, statement_let, statement_let]
    refine (expect_extends (by decide) (hended.tail nofun)).andThen fun name first _ hfirst => ?_
    refine (expect_extends (by decide) hfirst).andThen fun _ second _ hsecond => ?_
    refine ((expression_extends 0 hsecond).widen _ _).andThen fun value third _ hthird => ?_
    exact (skipSemicolon_extends hthird).map _
  · have hrest := hended.tail nofun
    have hsame := nextKind_append hrest more
    by_cases hnext : nextKind rest ∈ [.semicolon, .rBrace, .eof]
    · rw [List.cons_append, statement_bare hnext, statement_bare (hsame ▸ hnext)]
      exact (skipSemicolon_extends hrest).map _
    · rw [List.cons_append, statement_ret hnext, statement_ret (hsame ▸ hnext)]
      refine ((expression_extends 0 hrest).widen _ _).andThen fun value first _ hfirst => ?_
      exact (skipSemicolon_extends hfirst).map _
  · have hsame := nextKind_append hended more
    rw [statement_expr hlet hreturn, statement_expr (hsame ▸ hlet) (hsame ▸ hreturn)]
    refine (expression_extends 0 hended).andThen fun value first _ hfirst => ?_
    exact (skipSemicolon_extends hfirst).map _
termination_by 8 * input.length + 4
decreasing_by all_goals grind

end

/-! ## Scripts -/

/-- The first semicolon is found where it was, and the last lexeme is still one. -/
theorem behindSemicolon_append {lexemes : List Lexeme} (hended : Ended lexemes) (more : List Lexeme) :
    behindSemicolon (lexemes ++ more) = behindSemicolon lexemes ++ more ∧ Spent (behindSemicolon lexemes) := by
  induction lexemes with
  | nil => exact absurd hended not_ended_nil
  | cons lexeme rest ih =>
      by_cases hkind : lexeme.kind = .semicolon
      · have hsame (others : List Lexeme) : behindSemicolon (lexeme :: others) = others := by
          simp [behindSemicolon, hkind]
        rw [List.cons_append, hsame, hsame]
        exact ⟨rfl, hended.spent_tail⟩
      · have hskip (others : List Lexeme) :
            behindSemicolon (lexeme :: others) = behindSemicolon others := by
          simp [behindSemicolon, hkind]
        rw [List.cons_append, hskip, hskip]
        exact ih (hended.tail hkind)

theorem Outcome.Extends.value?_eq {longer : Outcome α wide} {outcome : Outcome α input}
    (hextends : longer.Extends more left outcome) : longer.value? = outcome.value? := by
  cases hextends with
  | done => rfl
  | stopped => rfl

theorem Outcome.Extends.nextStatement_eq {longer : Outcome α wide} {outcome : Outcome α input}
    (hextends : longer.Extends more Spent outcome) :
    longer.nextStatement.1 = outcome.nextStatement.1 ++ more ∧ Spent outcome.nextStatement.1 := by
  cases hextends with
  | done hleft => exact ⟨rfl, hleft⟩
  | @stopped refused rest hwide hinput hended =>
      cases refused with
      | none => exact behindSemicolon_append hended more
      | some lexeme => exact behindSemicolon_append hended more

end LetScript.Grammar

namespace LetScript

open Grammar

/-- The program and the errors of two scripts in a row. -/
def Parsed.append (first second : Parsed) : Parsed :=
  ⟨⟨first.program.statements ++ second.program.statements⟩, first.errors ++ second.errors⟩

/-- A script is its first statement, as far as that was read, and what is behind it. -/
theorem Parsed.ofLexemes_cons (lexeme : Lexeme) (rest : List Lexeme) :
    ofLexemes (lexeme :: rest) =
      append ⟨⟨(statement (lexeme :: rest)).outcome.value?.toList⟩, (statement (lexeme :: rest)).errors⟩
        (ofLexemes (statement (lexeme :: rest)).outcome.nextStatement.1) := by
  rw [ofLexemes]
  rfl

theorem Parsed.append_assoc (first second third : Parsed) :
    (first.append second).append third = first.append (second.append third) := by
  simp only [append, List.append_assoc]

/-- Reading goes on behind the semicolon as it goes on from the start.  The induction is on the number of
lexemes: a statement leaves fewer. -/
theorem Parsed.ofLexemes_append {lexemes : List Lexeme} (hspent : Spent lexemes)
    (hclosed : unclosed ∉ (ofLexemes lexemes).errors) (more : List Lexeme) :
    ofLexemes (lexemes ++ more) = (ofLexemes lexemes).append (ofLexemes more) := by
  induction hlength : lexemes.length using Nat.strongRecOn generalizing lexemes with
  | _ length ih =>
      subst hlength
      rcases hspent with rfl | hended
      · rw [ofLexemes.eq_def []]
        rfl
      · obtain ⟨lexeme, rest, rfl⟩ := exists_of_ended hended
        rw [ofLexemes_cons] at hclosed
        have hinFirst : unclosed ∉ (statement (lexeme :: rest)).errors :=
          fun hmem => hclosed (List.mem_append_left _ hmem)
        have hinOthers :
            unclosed ∉ (ofLexemes (statement (lexeme :: rest)).outcome.nextStatement.1).errors :=
          fun hmem => hclosed (List.mem_append_right _ hmem)
        have hextends : (statement (lexeme :: rest ++ more)).Extends more Spent _ := statement_extends hended
        obtain ⟨herrors, houtcome⟩ := hextends.resolve_left hinFirst
        obtain ⟨hnext, hspent⟩ := houtcome.nextStatement_eq
        have hshorter := Nat.lt_succ_of_le (statement (lexeme :: rest)).outcome.nextStatement.2
        have hothers := ih _ hshorter hspent hinOthers rfl
        rw [List.cons_append] at herrors houtcome hnext
        rw [List.cons_append, ofLexemes_cons, herrors, houtcome.value?_eq, hnext, hothers,
          ofLexemes_cons, append_assoc]

/-- Behind a semicolon reading starts afresh: the statements and the errors of a script that ends in one, and
leaves no block open, come in front of those of any other script. -/
theorem Parsed.errors_stay_in_their_statement {first second : String}
    (hended : (Cursor.ofText first).lexemes.getLast?.map Lexeme.kind = some .semicolon)
    (hclosed : SyntaxError.expectedToken .rBrace .eof ∉ (ofText first).errors) :
    (ofText (first ++ second)).program.statements =
        (ofText first).program.statements ++ (ofText second).program.statements ∧
      (ofText (first ++ second)).errors = (ofText first).errors ++ (ofText second).errors := by
  have hlexes : Lexes (first ++ second).toList
      ((Cursor.ofText first).lexemes ++ (Cursor.ofText second).lexemes) := by
    rw [String.toList_append]
    refine lexes_append (lexes_ofText first) (fun lexeme hmem => .inl ?_) (lexes_ofText second)
    rw [Option.mem_def.1 hmem] at hended
    exact Option.some.inj hended
  have happend : ofText (first ++ second) = (ofText first).append (ofText second) := by
    rw [ofText, hlexes.lexemes_ofText]
    exact ofLexemes_append (.inr hended) hclosed _
  rw [happend]
  exact ⟨rfl, rfl⟩

/-- Two broken statements with a good one between them, in front of a block that is never closed. -/
theorem Parsed.errors_stay_in_broken_statements :
    (ofText ("let x 5; return; let = 1;" ++ "if (true) \x7b ) ; 2")).program.statements =
        (ofText "let x 5; return; let = 1;").program.statements ++
          (ofText "if (true) \x7b ) ; 2").program.statements ∧
      (ofText ("let x 5; return; let = 1;" ++ "if (true) \x7b ) ; 2")).errors =
        (ofText "let x 5; return; let = 1;").errors ++ (ofText "if (true) \x7b ) ; 2").errors :=
  errors_stay_in_their_statement (by decide +kernel) (by decide +kernel)

end LetScript
