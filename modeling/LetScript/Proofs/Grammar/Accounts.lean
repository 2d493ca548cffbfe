import LetScript.Proofs.Grammar.Attempts
import LetScript.Proofs.Grammar.Recovery
import LetScript.Proofs.Grammar.Yields

/-!
# The errors of a step, accounted for

Every error is the end of one statement, and describes a lexeme that is in front of the parser when it is
recorded.

* `SyntaxError.Blames` — an error describes a lexeme.
* `Along` — items belong to places in the lexemes, one behind the other.
* `PassesReadable` — nothing that is passed over is unreadable.
* `Reading.Accounts` — the account of a step: the lexemes that its errors blame and the places at which it tries
  statements, in their order; an error for each statement that is left out, and one more for the step itself if
  it stops; and without an error nothing unreadable is passed over.  One lemma for each way in which steps are put
  together.
* `expression_accounts`, `block_accounts`, `statement_accounts`, … — every step of the grammar gives such an
  account.
-/

namespace LetScript

/-! ## Lexemes that are blamed -/

/-- The number that digits stand for, however large. -/
def Lexeme.number (digits : String) : Nat :=
  Nat.ofDigitChars 10 digits.toList 0

/-- The lexeme can be part of a program: it is not illegal, and as a number it is in the 64-bit range. -/
def Lexeme.IsReadable (lexeme : Lexeme) : Prop :=
  lexeme.kind ≠ .illegal ∧ (lexeme.kind = .int → Lexeme.number lexeme.text < 0x8000000000000000)

/-- The error describes the lexeme. -/
def SyntaxError.Blames : SyntaxError → Lexeme → Prop
  | expectedToken expected got, lexeme => lexeme.kind = got ∧ got ≠ expected
  | noPrefixRule kind, lexeme =>
      lexeme.kind = kind ∧ kind ≠ .illegal ∧ Grammar.startsExpr kind = false
  | invalidInteger digits, lexeme =>
      lexeme = ⟨.int, digits⟩ ∧ 0x8000000000000000 ≤ Lexeme.number digits
  | illegalToken text, lexeme => lexeme = ⟨.illegal, text⟩ ∧ text.toList.head? ≠ some '"'
  | unterminatedString text, lexeme => lexeme = ⟨.illegal, text⟩ ∧ text.toList.head? = some '"'

namespace Grammar

/-- The lexeme at a place, which at the end is that of the end token. -/
def nextLexeme : List Lexeme → Lexeme
  | [] => ⟨.eof, ""⟩
  | lexeme :: _ => lexeme

/-! ## Items along the lexemes -/

/-- Items belong to places in the lexemes from `start` on, one behind the other and none behind `rest`.  What an
item covers lies between its place and the lexemes from which the next item goes on. -/
inductive Along {α : Type} (covers : α → List Lexeme → List Lexeme → Prop) :
    List Lexeme → List α → List Lexeme → Prop
  | nil {start rest : List Lexeme} (hrest : rest <:+ start) : Along covers start [] rest
  | cons {start place next rest : List Lexeme} {item : α} {items : List α} (hplace : place <:+ start)
      (hitem : covers item place next) (hitems : Along covers next items rest) :
      Along covers start (item :: items) rest

/-- The error blames the lexeme at its place, and another one may do so too. -/
def Blamed (error : SyntaxError) (place next : List Lexeme) : Prop :=
  error.Blames (nextLexeme place) ∧ next = place

/-- A statement starts with the lexeme at its place, and no other statement does. -/
def Tried (start place next : List Lexeme) : Prop :=
  start = place ∧ ∃ lexeme, place = lexeme :: next

namespace Along

variable {α : Type} {covers : α → List Lexeme → List Lexeme → Prop} {start middle rest : List Lexeme}
  {items more : List α}

theorem of_suffix (halong : Along covers middle items rest) (hsuffix : middle <:+ start) :
    Along covers start items rest := by
  cases halong with
  | nil hrest => exact .nil (hrest.trans hsuffix)
  | cons hplace hitem hitems => exact .cons (hplace.trans hsuffix) hitem hitems

theorem append (hfirst : Along covers start items middle) (hsecond : Along covers middle more rest) :
    Along covers start (items ++ more) rest := by
  induction hfirst with
  | nil hrest => exact hsecond.of_suffix hrest
  | cons hplace hitem _ ih => exact .cons hplace hitem (ih hsecond)

/-- What the last item covers may go on. -/
theorem rest_of_suffix {shorter : List Lexeme} (halong : Along covers start items rest)
    (hsuffix : shorter <:+ rest) : Along covers start items shorter := by
  induction halong with
  | nil hrest => exact .nil (hsuffix.trans hrest)
  | cons hplace hitem _ ih => exact .cons hplace hitem (ih hsuffix)

end Along

/-- Statements start at different lexemes, so there are no more of them. -/
theorem Along.length_tried_le {start rest : List Lexeme} {tries : List (List Lexeme)}
    (halong : Along Tried start tries rest) : tries.length + rest.length ≤ start.length := by
  induction halong with
  | nil hrest =>
      have hle := hrest.length_le
      simp only [List.length_nil]
      omega
  | cons hplace hitem _ ih =>
      obtain ⟨-, lexeme, rfl⟩ := hitem
      have hle := hplace.length_le
      simp only [List.length_cons] at hle ⊢
      omega

/-! ## Lexemes that are passed over -/

/-- The lexemes between two places can all be part of a program. -/
def PassesReadable (start rest : List Lexeme) : Prop :=
  ∃ front, start = front ++ rest ∧ ∀ lexeme ∈ front, lexeme.IsReadable

section Passing

variable {start middle rest : List Lexeme}

theorem PassesReadable.refl (rest : List Lexeme) : PassesReadable rest rest :=
  ⟨[], rfl, fun _ hmem => absurd hmem List.not_mem_nil⟩

theorem PassesReadable.cons {lexeme : Lexeme} (hlexeme : lexeme.IsReadable) (hpasses : PassesReadable start rest) :
    PassesReadable (lexeme :: start) rest := by
  obtain ⟨front, rfl, hfront⟩ := hpasses
  exact ⟨lexeme :: front, rfl, List.forall_mem_cons.2 ⟨hlexeme, hfront⟩⟩

theorem PassesReadable.trans (hfirst : PassesReadable start middle) (hsecond : PassesReadable middle rest) :
    PassesReadable start rest := by
  obtain ⟨front, rfl, hfront⟩ := hfirst
  obtain ⟨more, rfl, hmore⟩ := hsecond
  exact ⟨front ++ more, (List.append_assoc ..).symm, List.forall_mem_append.2 ⟨hfront, hmore⟩⟩

end Passing

/-! ## Accounts -/

namespace Reading

variable {α β : Type} {input longer : List Lexeme}

/-- The account of a step that was given the lexemes from `start` on, and tried statements at `tries`, which are
among the lexemes from `after` on. -/
structure Accounts (start after : List Lexeme) (tries : List (List Lexeme)) (reading : Reading α input) :
    Prop where
  blames : Along Blamed start reading.errors reading.outcome.rest
  tried : Along Tried after tries reading.outcome.rest
  /-- A stop ends in an error, and there is no other error. -/
  count : reading.errors.length = tries.countP leavesOut + reading.outcome.value?.isNone.toNat
  recorded : ∀ place ∈ tries, (statement place).errors <:+: reading.errors
  clean : reading.errors = [] → PassesReadable start reading.outcome.rest

variable {start after : List Lexeme} {tries : List (List Lexeme)} {reading : Reading α input}

theorem accounts_done (value : α) (rest : List Lexeme) : (done value rest).Accounts rest rest [] where
  blames := .nil List.suffix_rfl
  tried := .nil List.suffix_rfl
  count := rfl
  recorded _ hmem := nomatch hmem
  clean _ := .refl rest

/-- An error at a stop blames the lexeme that is refused or comes next. -/
theorem accounts_stop {error : SyntaxError} (refused : Option Lexeme) {rest : List Lexeme}
    (hblames : error.Blames (nextLexeme (refused.toList ++ rest))) :
    (stop error refused rest : Reading α rest).Accounts (refused.toList ++ rest) rest [] where
  blames := .cons List.suffix_rfl ⟨hblames, rfl⟩ (.nil (List.suffix_append _ rest))
  tried := .nil List.suffix_rfl
  count := rfl
  recorded _ hmem := nomatch hmem
  clean herrors := nomatch herrors

theorem Accounts.widen (haccounts : reading.Accounts start after tries) (length_le : input.length ≤ longer.length) :
    (reading.widen length_le).Accounts start after tries := by
  obtain ⟨errors, outcome⟩ := reading
  cases outcome with
  | done value rest hle => exact ⟨haccounts.1, haccounts.2, haccounts.3, haccounts.4, haccounts.5⟩
  | stopped refused rest hle => exact ⟨haccounts.1, haccounts.2, haccounts.3, haccounts.4, haccounts.5⟩

theorem Accounts.map (haccounts : reading.Accounts start after tries) (f : α → β) :
    (reading.map f).Accounts start after tries := by
  obtain ⟨errors, outcome⟩ := reading
  cases outcome with
  | done value rest hle => exact ⟨haccounts.1, haccounts.2, haccounts.3, haccounts.4, haccounts.5⟩
  | stopped refused rest hle => exact ⟨haccounts.1, haccounts.2, haccounts.3, haccounts.4, haccounts.5⟩

/-- The account of a step from one lexeme earlier on. -/
theorem Accounts.cons {lexeme : Lexeme} (hlexeme : lexeme.IsReadable)
    (haccounts : reading.Accounts start after tries) : reading.Accounts (lexeme :: start) after tries where
  blames := haccounts.blames.of_suffix (List.suffix_cons lexeme start)
  tried := haccounts.tried
  count := haccounts.count
  recorded := haccounts.recorded
  clean herrors := (haccounts.clean herrors).cons hlexeme

theorem Accounts.relax {earlier : List Lexeme} (haccounts : reading.Accounts start after tries)
    (hsuffix : after <:+ earlier) : reading.Accounts start earlier tries :=
  { haccounts with tried := haccounts.tried.of_suffix hsuffix }

/-- A step that tries statements only behind its first lexeme, among others that may try one at it. -/
theorem Accounts.afterOne {lexemes : List Lexeme} {reading : Reading α lexemes.tail}
    (haccounts : reading.Accounts start lexemes.tail tries) :
    (reading.afterOne lexemes).Accounts start lexemes tries :=
  (haccounts.relax (List.tail_suffix lexemes)).widen _

/-- The account of a step that has passed one lexeme. -/
theorem Accounts.afterLexeme {lexeme : Lexeme} {rest : List Lexeme} {reading : Reading α rest}
    {length_le : rest.length ≤ longer.length} (haccounts : reading.Accounts rest rest tries)
    (hlexeme : lexeme.IsReadable) :
    (reading.widen length_le).Accounts (lexeme :: rest) (lexeme :: rest) tries :=
  ((haccounts.cons hlexeme).relax (List.suffix_cons lexeme rest)).widen length_le

/-- The second step goes on with what the first one has left, and so do its errors and its tries. -/
theorem Accounts.andThen {next : (value : α) → (rest : List Lexeme) → rest.length ≤ input.length → Reading β rest}
    {places : (value : α) → (rest : List Lexeme) → rest.length ≤ input.length → List (List Lexeme)}
    (haccounts : reading.Accounts start after tries)
    (hnext : ∀ value rest hle, (next value rest hle).Accounts rest rest (places value rest hle)) :
    (reading.andThen next).Accounts start after (tries ++ reading.behind places) := by
  obtain ⟨errors, outcome⟩ := reading
  obtain ⟨hblames, htried, hcount, hrecorded, hclean⟩ := haccounts
  cases outcome with
  | stopped refused rest hle =>
      rw [behind, List.append_nil]
      exact ⟨hblames, htried, hcount, hrecorded, hclean⟩
  | done value rest hle =>
      have hsecond := (hnext value rest hle).widen hle
      dsimp only [Outcome.rest] at hblames htried hclean
      refine ⟨hblames.append hsecond.blames, htried.append hsecond.tried, ?count, ?recorded, ?clean⟩
      case count =>
        -- The first step has found its value, so it has counted no stop of its own.
        have hfirst : errors.length = tries.countP leavesOut := hcount
        have hboth := congrArg (errors.length + ·) hsecond.count
        show (errors ++ ((next value rest hle).widen hle).errors).length =
          (tries ++ places value rest hle).countP leavesOut + _
        rw [List.length_append, List.countP_append, Nat.add_assoc, ← hfirst]
        exact hboth
      case recorded =>
        intro place hmem
        rcases List.mem_append.1 hmem with hmem | hmem
        · exact (hrecorded place hmem).trans (List.prefix_append errors _).isInfix
        · exact (hsecond.recorded place hmem).trans (List.suffix_append errors _).isInfix
      case clean =>
        intro herrors
        obtain ⟨hnone, hnoneBehind⟩ := List.append_eq_nil_iff.1 herrors
        exact (hclean hnone).trans (hsecond.clean hnoneBehind)

/-- The case of `Accounts.andThen` for a second step that tries no statement. -/
theorem Accounts.andThen_plain
    {next : (value : α) → (rest : List Lexeme) → rest.length ≤ input.length → Reading β rest}
    (haccounts : reading.Accounts start after tries)
    (hnext : ∀ value rest hle, (next value rest hle).Accounts rest rest []) :
    (reading.andThen next).Accounts start after tries := by
  have hbehind : reading.behind (fun _ _ _ => []) = [] := by
    unfold behind
    split <;> rfl
  have hboth := haccounts.andThen hnext
  rwa [hbehind, List.append_nil] at hboth

/-- A statement that a block or a script has tried: reading goes on at `next` also if it has stopped, and its
stop is the one that leaves it out. -/
theorem Accounts.tried_statement {lexeme : Lexeme} {rest next : List Lexeme} {statement? : Option Stmt}
    (haccounts : (statement (lexeme :: rest)).Accounts (lexeme :: rest) rest tries)
    (hsuffix : next <:+ (statement (lexeme :: rest)).outcome.rest)
    (hclean : (statement (lexeme :: rest)).errors = [] → next = (statement (lexeme :: rest)).outcome.rest)
    (hle : next.length ≤ input.length) :
    (⟨(statement (lexeme :: rest)).errors, .done statement? next hle⟩ : Reading _ input).Accounts
      (lexeme :: rest) (lexeme :: rest) ((lexeme :: rest) :: tries) where
  blames := haccounts.blames.rest_of_suffix hsuffix
  tried := .cons List.suffix_rfl ⟨rfl, lexeme, rfl⟩ (haccounts.tried.rest_of_suffix hsuffix)
  count := by
    -- The stop that the statement counted for itself counts as one more statement that is left out.
    rw [haccounts.count, List.countP_cons]
    unfold leavesOut statementAt
    cases (statement (lexeme :: rest)).outcome.value? <;> rfl
  recorded := by
    intro place hmem
    rcases List.mem_cons.1 hmem with rfl | hmem
    · exact List.infix_rfl
    · exact haccounts.recorded place hmem
  clean := by
    intro herrors
    show PassesReadable (lexeme :: rest) next
    rw [hclean herrors]
    exact haccounts.clean herrors

theorem Accounts.attempt {lexeme : Lexeme} {rest : List Lexeme}
    (haccounts : (statement (lexeme :: rest)).Accounts (lexeme :: rest) rest tries) :
    (statement (lexeme :: rest)).attempt.Accounts (lexeme :: rest) (lexeme :: rest)
      ((lexeme :: rest) :: tries) := by
  unfold Reading.attempt
  split <;> next houtcome =>
    have hrest := (congrArg Outcome.rest houtcome).symm
    exact haccounts.tried_statement ⟨[], hrest⟩ (fun _ => hrest) _

end Reading

open Reading

/-! ## One given lexeme -/

theorem isReadable_of_kind {kind : Kind} {text : String} (hkind : kind ∉ [.illegal, .int]) :
    Lexeme.IsReadable ⟨kind, text⟩ := by
  simp only [List.mem_cons, List.not_mem_nil, or_false, not_or] at hkind
  exact ⟨hkind.1, fun hint => absurd hint hkind.2⟩

/-- The error of a lexeme that starts no expression describes it. -/
theorem ofRefused_blames {lexeme : Lexeme} (hstarts : startsExpr lexeme.kind = false) :
    (SyntaxError.ofRefused lexeme).Blames lexeme := by
  obtain ⟨kind, text⟩ := lexeme
  unfold SyntaxError.ofRefused
  split
  · next hkind =>
      subst hkind
      split
      · next hquote => exact ⟨rfl, hquote⟩
      · next hquote => exact ⟨rfl, hquote⟩
  · next hkind => exact ⟨rfl, hkind, hstarts⟩

theorem integer?_eq_none_iff {digits : String} :
    integer? digits = none ↔ 0x8000000000000000 ≤ Lexeme.number digits := by
  simp [integer?, Lexeme.number]

/-- The lexeme that is expected is readable; the end is never expected. -/
theorem expect_accounts {kind : Kind} (hkind : kind ∉ [.eof, .illegal, .int]) (lexemes : List Lexeme) :
    (expect kind lexemes).Accounts lexemes lexemes [] := by
  have heof := List.ne_of_not_mem_cons hkind
  have hreadable := List.not_mem_of_not_mem_cons hkind
  cases lexemes with
  | nil => exact accounts_stop none ⟨rfl, Ne.symm heof⟩
  | cons lexeme rest =>
      obtain ⟨got, text⟩ := lexeme
      unfold expect
      dsimp only
      split
      · next hgot =>
          subst hgot
          exact (accounts_done _ rest).afterLexeme (isReadable_of_kind hreadable)
      · next hgot => exact accounts_stop none ⟨rfl, hgot⟩

theorem skipSemicolon_accounts (lexemes : List Lexeme) : (skipSemicolon lexemes).Accounts lexemes lexemes [] := by
  cases lexemes with
  | nil => exact accounts_done () []
  | cons lexeme rest =>
      by_cases hkind : lexeme.kind = .semicolon
      · obtain ⟨kind, text⟩ := lexeme
        subst hkind
        exact (accounts_done () rest).afterLexeme (isReadable_of_kind (by decide))
      · have hskip : skipSemicolon (lexeme :: rest) = done () (lexeme :: rest) := if_neg hkind
        rw [hskip]
        exact accounts_done () _

/-! ## Parameters -/

theorem moreParameters_accounts (lexemes : List Lexeme) : (moreParameters lexemes).Accounts lexemes lexemes [] := by
  rw [moreParameters.eq_def]
  split
  · next text rest =>
      refine Accounts.afterLexeme ?_ (isReadable_of_kind (by decide))
      refine (expect_accounts (by decide) rest).andThen_plain fun name behind hle => ?_
      exact (moreParameters_accounts behind).map _
  · exact (expect_accounts (by decide) lexemes).map _
termination_by lexemes.length
decreasing_by grind

theorem parameters_accounts (lexemes : List Lexeme) : (parameters lexemes).Accounts lexemes lexemes [] := by
  unfold parameters
  split
  · next text rest =>
      exact (accounts_done [] rest).afterLexeme (isReadable_of_kind (by decide))
  · refine (expect_accounts (by decide) lexemes).andThen_plain fun name behind hle => ?_
    exact (moreParameters_accounts behind).map _

/-! ## Expressions and statements -/

-- The recursion is that of the grammar, and every account is put together as its step is.
mutual

theorem expression_accounts (level : Nat) (lexemes : List Lexeme) :
    (expression level lexemes).Accounts lexemes lexemes.tail (expressionTries level lexemes) := by
  rw [expression, expressionTries]
  exact (operand_accounts lexemes).andThen fun left rest hle => continued_accounts level left rest
termination_by 8 * lexemes.length + 2
decreasing_by all_goals grind

theorem continued_accounts (level : Nat) (left : Expr) (lexemes : List Lexeme) :
    (continued level left lexemes).Accounts lexemes lexemes (continuedTries level left lexemes) := by
  cases lexemes with
  | nil =>
      rw [continued, continuedTries]
      exact accounts_done left []
  | cons lexeme rest =>
      rw [continued, continuedTries]
      by_cases hpower : level < lexeme.kind.power
      · rw [if_pos hpower, if_pos hpower]
        have hlexeme : lexeme.IsReadable := by
          obtain ⟨kind, text⟩ := lexeme
          rcases Kind.exists_of_lt_power hpower with ⟨op, rfl⟩ | rfl
          · cases op <;> exact isReadable_of_kind (by decide)
          · exact isReadable_of_kind (by decide)
        cases InfixOp.ofKind? lexeme.kind with
        | some op =>
            refine Accounts.afterLexeme (Accounts.andThen (expression_accounts op.power rest).afterOne ?_) hlexeme
            intro right behind hle
            exact continued_accounts level (.binary op left right) behind
        | none =>
            refine Accounts.afterLexeme ((arguments_accounts rest).andThen ?_) hlexeme
            intro args behind hle
            exact continued_accounts level (.call left args) behind
      · rw [if_neg hpower, if_neg hpower]
        exact accounts_done left _
termination_by 8 * lexemes.length
decreasing_by all_goals grind

theorem operand_accounts (lexemes : List Lexeme) :
    (operand lexemes).Accounts lexemes lexemes.tail (operandTries lexemes) := by
  cases lexemes with
  | nil =>
      rw [operand, operandTries]
      exact accounts_stop none ⟨rfl, by decide, rfl⟩
  | cons lexeme rest =>
      obtain ⟨kind, text⟩ := lexeme
      rw [operand, operandTries]
      cases kind with
      | ident | string | trueKey | falseKey => exact (accounts_done _ rest).cons (isReadable_of_kind (by decide))
      | int =>
          cases hvalue : integer? text with
          | some value =>
              have hnumber : ¬ 0x8000000000000000 ≤ Lexeme.number text := fun hle =>
                Option.some_ne_none value (hvalue.symm.trans (integer?_eq_none_iff.2 hle))
              have hint : Kind.int ≠ Kind.illegal := by decide
              exact Accounts.cons ⟨hint, fun _ => Nat.lt_of_not_le hnumber⟩ (accounts_done (Expr.int value) rest)
          | none => exact accounts_stop (some _) ⟨rfl, integer?_eq_none_iff.1 hvalue⟩
      | bang | minus =>
          have hoperand := (expression_accounts Kind.prefixPower rest).afterOne
          exact (hoperand.map _).cons (isReadable_of_kind (by decide))
      | lParen =>
          refine Accounts.cons (isReadable_of_kind (by decide)) ?_
          refine (expression_accounts 0 rest).afterOne.andThen_plain fun inner behind hle => ?_
          exact (expect_accounts (by decide) behind).map _
      | ifKey => exact (conditional_accounts rest).cons (isReadable_of_kind (by decide))
      | function => exact (function_accounts rest).cons (isReadable_of_kind (by decide))
      | _ => exact accounts_stop (some _) (ofRefused_blames rfl)
termination_by 8 * lexemes.length + 1
decreasing_by all_goals grind

theorem conditional_accounts (lexemes : List Lexeme) :
    (conditional lexemes).Accounts lexemes lexemes (conditionalTries lexemes) := by
  rw [conditional, conditionalTries]
  refine (expect_accounts (by decide) lexemes).andThen fun _ first hfirst => ?_
  refine (expression_accounts 0 first).afterOne.andThen fun condition second hsecond => ?_
  refine (expect_accounts (by decide) second).andThen fun _ third hthird => ?_
  refine (expect_accounts (by decide) third).andThen fun _ fourth hfourth => ?_
  refine (block_accounts fourth).andThen fun consequence fifth hfifth => ?_
  exact (alternative_accounts fifth).map _
termination_by 8 * lexemes.length + 7
decreasing_by all_goals grind

theorem alternative_accounts (lexemes : List Lexeme) :
    (alternative lexemes).Accounts lexemes lexemes (alternativeTries lexemes) := by
  rw [alternative.eq_def, alternativeTries.eq_def]
  rcases lexemes with _ | ⟨⟨kind, text⟩, rest⟩
  · exact accounts_done none []
  · cases kind with
    | elseKey =>
        refine Accounts.afterLexeme ?_ (isReadable_of_kind (by decide))
        refine (expect_accounts (by decide) rest).andThen fun _ first hfirst => ?_
        exact (block_accounts first).map _
    | _ => exact accounts_done none _
termination_by 8 * lexemes.length + 6
decreasing_by all_goals grind

theorem function_accounts (lexemes : List Lexeme) :
    (function lexemes).Accounts lexemes lexemes (functionTries lexemes) := by
  rw [function, functionTries]
  refine (expect_accounts (by decide) lexemes).andThen fun _ first hfirst => ?_
  refine (parameters_accounts first).andThen fun names second hsecond => ?_
  refine (expect_accounts (by decide) second).andThen fun _ third hthird => ?_
  exact (block_accounts third).map _
termination_by 8 * lexemes.length + 6
decreasing_by all_goals grind

theorem arguments_accounts (lexemes : List Lexeme) :
    (arguments lexemes).Accounts lexemes lexemes (argumentsTries lexemes) := by
  by_cases hparen : nextKind lexemes = .rParen
  · obtain ⟨text, rest, rfl⟩ := exists_of_nextKind hparen (by decide)
    rw [arguments.eq_def, argumentsTries.eq_def]
    exact (accounts_done [] rest).afterLexeme (isReadable_of_kind (by decide))
  · have htries : argumentsTries lexemes = expressionTries 0 lexemes ++
        ((expression 0 lexemes).afterOne lexemes).behind fun _ rest _ => moreArgumentsTries rest := by
      rw [argumentsTries.eq_def]
      split
      · exact absurd rfl hparen
      · rfl
    rw [arguments_of_ne_rParen hparen, htries]
    refine (expression_accounts 0 lexemes).afterOne.andThen fun first behind hle => ?_
    exact (moreArguments_accounts behind).map _
termination_by 8 * lexemes.length + 3
decreasing_by all_goals grind

theorem moreArguments_accounts (lexemes : List Lexeme) :
    (moreArguments lexemes).Accounts lexemes lexemes (moreArgumentsTries lexemes) := by
  rw [moreArguments.eq_def, moreArgumentsTries.eq_def]
  rcases lexemes with _ | ⟨⟨kind, text⟩, rest⟩
  · exact (expect_accounts (by decide) []).map _
  · cases kind with
    | comma =>
        refine Accounts.afterLexeme ?_ (isReadable_of_kind (by decide))
        refine (expression_accounts 0 rest).afterOne.andThen fun next behind hle => ?_
        exact (moreArguments_accounts behind).map _
    | _ => exact (expect_accounts (by decide) _).map _
termination_by 8 * lexemes.length
decreasing_by all_goals grind

theorem block_accounts (lexemes : List Lexeme) :
    (block lexemes).Accounts lexemes lexemes (blockTries lexemes) := by
  cases lexemes with
  | nil =>
      -- The end is blamed by every block that is open there, which is why places may be blamed twice.
      rw [block, blockTries]
      exact accounts_stop none ⟨rfl, by decide⟩
  | cons lexeme rest =>
      by_cases hbrace : lexeme.kind = .rBrace
      · obtain ⟨kind, text⟩ := lexeme
        subst hbrace
        rw [block_rBrace, blockTries, if_pos rfl]
        exact (accounts_done [] rest).afterLexeme (isReadable_of_kind (by decide))
      · rw [block_of_ne_rBrace hbrace, blockTries, if_neg hbrace]
        refine Accounts.widen ((statement_accounts (lexeme :: rest)).attempt.andThen ?_) _
        exact fun statement? behind hle => (block_accounts behind).map _
termination_by 8 * lexemes.length + 5
decreasing_by all_goals grind

theorem statement_accounts (lexemes : List Lexeme) :
    (statement lexemes).Accounts lexemes lexemes.tail (statementTries lexemes) := by
  rcases statement_shape lexemes with ⟨text, rest, rfl⟩ | ⟨text, rest, rfl⟩ | ⟨hlet, hreturn⟩
  · rw [statement_let, statementTries]
    refine Accounts.cons (isReadable_of_kind (by decide)) ?_
    refine (expect_accounts (by decide) rest).andThen fun name first hfirst => ?_
    refine (expect_accounts (by decide) first).andThen fun _ second hsecond => ?_
    refine (expression_accounts 0 second).afterOne.andThen_plain fun value third hthird => ?_
    exact (skipSemicolon_accounts third).map _
  · refine Accounts.cons (isReadable_of_kind (by decide)) ?_
    by_cases hnext : nextKind rest ∈ [.semicolon, .rBrace, .eof]
    · rw [statement_bare hnext, statementTries, if_pos hnext]
      exact (skipSemicolon_accounts rest).map _
    · rw [statement_ret hnext, statementTries, if_neg hnext]
      refine (expression_accounts 0 rest).afterOne.andThen_plain fun value first hfirst => ?_
      exact (skipSemicolon_accounts first).map _
  · have htries : statementTries lexemes = expressionTries 0 lexemes := by
      rw [statementTries.eq_def]
      split
      · exact absurd rfl hlet
      · exact absurd rfl hreturn
      · rfl
    rw [statement_expr hlet hreturn, htries]
    refine (expression_accounts 0 lexemes).andThen_plain fun value first hfirst => ?_
    exact (skipSemicolon_accounts first).map _
termination_by 8 * lexemes.length + 4
decreasing_by all_goals grind

end

end Grammar

end LetScript
