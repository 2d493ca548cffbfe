import LetScript.Proofs.Grammar.Accounts
import LetScript.Proofs.Token.Covering
import Mathlib.Data.List.Forall2

/-!
# What reading a script reports

Reading a script comes to its end, drops no statement in silence, and blames the tokens in their order.

* `Reader.round`, `Reader.programWithin` — the loop over the statements of a script, and the same loop broken off
  after some rounds.
* `block_statements`, `Parsed.ofLexemes_statements` — a block and a script hold the statements at their places
  that are not left out; `blockTries_eq` — the places in a block are its own and those within its statements.
* `script_accounts`, `isReadable_of_clean` — the account of a whole script, and what a script without errors
  consists of.
* `Reader.program_ends_and_reports` — the loop ends with the tokens, in no more rounds than there are; each
  statement that is left out has its error, and there is no other.
* `Parsed.errors_blame_tokens` — the errors describe tokens of the text, one behind the other.
-/

namespace LetScript

open Grammar

/-! ## The loop over the statements of a script -/

namespace Reader

/-- One round of the loop: the next statement, if it is read, and what is left then. -/
def round (reader : Reader) : Option Stmt × Reader :=
  let reading := statement reader.lexemes
  (reading.outcome.value?, ⟨reading.outcome.nextStatement.1, reader.errors ++ reading.errors⟩)

/-- The loop, broken off if it has not ended within `limit` rounds. -/
def programWithin : Nat → Reader → Program × Reader
  | 0, reader => (⟨[]⟩, reader)
  | limit + 1, reader =>
      if reader.lexemes = [] then (⟨[]⟩, reader)
      else
        let (statement?, next) := reader.round
        let (others, ended) := programWithin limit next
        (⟨statement?.toList ++ others.statements⟩, ended)

/-- A round uses up a lexeme, whether or not it reads a statement. -/
theorem round_length_lt {reader : Reader} (hlexemes : reader.lexemes ≠ []) :
    reader.round.2.lexemes.length < reader.lexemes.length := by
  have hle : reader.round.2.lexemes.length ≤ reader.lexemes.tail.length :=
    (statement reader.lexemes).outcome.nextStatement.2
  have hpos := List.length_pos_iff.2 hlexemes
  rw [List.length_tail] at hle
  omega

theorem program_nil (errors : List SyntaxError) : program ⟨[], errors⟩ = (⟨[]⟩, ⟨[], errors⟩) := by
  rw [program, Parsed.ofLexemes, List.append_nil]

/-- Reading a script is one round, and reading what is left then. -/
theorem program_round {reader : Reader} (hlexemes : reader.lexemes ≠ []) :
    reader.program =
      (⟨reader.round.1.toList ++ reader.round.2.program.1.statements⟩, reader.round.2.program.2) := by
  obtain ⟨lexemes, errors⟩ := reader
  obtain ⟨lexeme, rest, rfl⟩ := List.exists_cons_of_ne_nil hlexemes
  rw [program, Parsed.ofLexemes_cons]
  simp only [Parsed.append, round, program, List.append_assoc]

/-- The loop is not broken off if it may make a round for each lexeme. -/
theorem programWithin_eq {limit : Nat} {reader : Reader} (hlimit : reader.lexemes.length ≤ limit) :
    reader.programWithin limit = reader.program := by
  induction limit generalizing reader with
  | zero =>
      obtain ⟨lexemes, errors⟩ := reader
      obtain rfl := List.eq_nil_of_length_eq_zero (Nat.le_zero.1 hlimit)
      exact (program_nil errors).symm
  | succ limit ih =>
      rw [programWithin]
      by_cases hlexemes : reader.lexemes = []
      · obtain ⟨lexemes, errors⟩ := reader
        subst hlexemes
        exact (program_nil errors).symm
      · -- There is one round less to be made, and there are fewer lexemes.
        have hshorter := round_length_lt hlexemes
        have hothers := ih (Nat.le_of_lt_succ (Nat.lt_of_lt_of_le hshorter hlimit))
        rw [if_neg hlexemes, program_round hlexemes]
        simp only [hothers]

end Reader

/-! ## Statements in their places -/

theorem Grammar.scriptPlaces_cons (lexeme : Lexeme) (rest : List Lexeme) :
    scriptPlaces (lexeme :: rest) =
      (lexeme :: rest) :: scriptPlaces (statement (lexeme :: rest)).outcome.nextStatement.1 := by
  rw [scriptPlaces]

theorem Parsed.ofLexemes_statements (lexemes : List Lexeme) :
    (ofLexemes lexemes).program.statements = (scriptPlaces lexemes).filterMap statementAt := by
  induction lexemes using scriptPlaces.induct with
  | case1 =>
      rw [ofLexemes, scriptPlaces]
      rfl
  | case2 lexeme rest next hle hnext ih =>
      rw [ofLexemes_cons, scriptPlaces_cons, List.filterMap_cons, hnext, ← ih]
      show (statementAt (lexeme :: rest)).toList ++ _ = _
      cases statementAt (lexeme :: rest) <;> rfl

namespace Grammar

/-- An attempt has found the value of the step, or that there is none. -/
theorem Reading.exists_of_attempt {α : Type} {input : List Lexeme} (reading : Reading α input) :
    ∃ behind hle, reading.attempt = ⟨reading.errors, .done reading.outcome.value? behind hle⟩ := by
  obtain ⟨errors, outcome⟩ := reading
  cases outcome with
  | done value rest hle => exact ⟨rest, hle, rfl⟩
  | stopped refused rest hle => exact ⟨rest, hle, rfl⟩

@[simp] theorem Outcome.value?_widen {α : Type} {input longer : List Lexeme} (outcome : Outcome α input)
    (length_le : input.length ≤ longer.length) : (outcome.widen length_le).value? = outcome.value? := by
  cases outcome <;> rfl

@[simp] theorem Outcome.value?_map {α β : Type} {input : List Lexeme} (outcome : Outcome α input) (f : α → β) :
    (outcome.map f).value? = outcome.value?.map f := by
  cases outcome <;> rfl

/-- A block that is closed holds the statements at its places, but for those that are left out. -/
theorem block_statements {lexemes : List Lexeme} {statements : Block}
    (hvalue : (block lexemes).outcome.value? = some statements) :
    statements = (blockPlaces lexemes).filterMap statementAt := by
  induction lexemes using blockPlaces.induct generalizing statements with
  | case1 =>
      rw [block] at hvalue
      cases hvalue
  | case2 lexeme rest hbrace =>
      obtain ⟨kind, text⟩ := lexeme
      subst hbrace
      rw [block_rBrace] at hvalue
      cases hvalue
      rw [blockPlaces, if_pos rfl]
      rfl
  | case3 lexeme rest hbrace ih =>
      -- The attempt puts the statement in its place, or nothing if it is left out.
      obtain ⟨behind, hle, hattempt⟩ := (statement (lexeme :: rest)).exists_of_attempt
      rw [block_of_ne_rBrace hbrace, hattempt] at hvalue
      simp only [Reading.afterOne, Reading.widen, Reading.andThen, Reading.map, Outcome.value?_widen,
        Outcome.value?_map] at hvalue
      obtain ⟨others, hothers, rfl⟩ := Option.map_eq_some_iff.1 hvalue
      rw [blockPlaces, if_neg hbrace, hattempt, List.filterMap_cons, ih behind hle hothers]
      show (statementAt (lexeme :: rest)).toList ++ _ = _
      cases statementAt (lexeme :: rest) <;> rfl

/-- The statements that a block tries are those at its places and those within them. -/
theorem blockTries_eq (lexemes : List Lexeme) :
    blockTries lexemes = (blockPlaces lexemes).flatMap fun place => place :: statementTries place := by
  induction lexemes using blockPlaces.induct with
  | case1 =>
      rw [blockTries, blockPlaces]
      rfl
  | case2 lexeme rest hbrace =>
      rw [blockTries, blockPlaces, if_pos hbrace, if_pos hbrace]
      rfl
  | case3 lexeme rest hbrace ih =>
      obtain ⟨behind, hle, hattempt⟩ := (statement (lexeme :: rest)).exists_of_attempt
      rw [blockTries, blockPlaces, if_neg hbrace, if_neg hbrace, hattempt, List.flatMap_cons]
      exact congrArg _ (ih behind hle)

/-! ## The account of a script -/

/-- A script as a step, which takes all lexemes. -/
def script (lexemes : List Lexeme) : Reading Program lexemes :=
  ⟨(Parsed.ofLexemes lexemes).errors, .done (Parsed.ofLexemes lexemes).program [] (Nat.zero_le _)⟩

/-- A statement that stops is given up to its semicolon.  Nothing is given up without an error. -/
theorem script_accounts (lexemes : List Lexeme) :
    (script lexemes).Accounts lexemes lexemes (scriptTries lexemes) := by
  induction hlength : lexemes.length using Nat.strongRecOn generalizing lexemes with
  | _ length ih =>
      subst hlength
      cases lexemes with
      | nil =>
          rw [script, scriptTries, scriptPlaces, Parsed.ofLexemes]
          exact Reading.accounts_done (Program.mk []) []
      | cons lexeme rest =>
          -- Without an error the statement has not stopped, and then nothing behind it is given up.
          have hclean : (statement (lexeme :: rest)).errors = [] →
              (statement (lexeme :: rest)).outcome.nextStatement.1 = (statement (lexeme :: rest)).outcome.rest := by
            intro herrors
            obtain ⟨value, left, -, hle, houtcome⟩ := reportsStop_statement _ herrors
            rw [houtcome]
            rfl
          have hfirst : (⟨(statement (lexeme :: rest)).errors, .done (statementAt (lexeme :: rest))
              (statement (lexeme :: rest)).outcome.nextStatement.1 _⟩ : Reading _ rest).Accounts _ _ _ :=
            (statement_accounts (lexeme :: rest)).tried_statement
              (statement (lexeme :: rest)).outcome.nextStatement_suffix hclean
              (statement (lexeme :: rest)).outcome.nextStatement.2
          have hboth := hfirst.andThen fun statement? behind hle =>
            (ih _ (Nat.lt_succ_of_le hle) behind rfl).map fun others =>
              Program.mk (statement?.toList ++ others.statements)
          rw [script, Parsed.ofLexemes_cons, scriptTries, scriptPlaces_cons, List.flatMap_cons]
          have hlonger : rest.length ≤ (lexeme :: rest).length := Nat.le_succ rest.length
          exact hboth.widen hlonger

/-- Nothing that no program can hold is passed over in silence. -/
theorem isReadable_of_clean {lexemes : List Lexeme} (herrors : (Parsed.ofLexemes lexemes).errors = []) :
    ∀ lexeme ∈ lexemes, lexeme.IsReadable := by
  obtain ⟨front, hfront, hreadable⟩ := (script_accounts lexemes).clean herrors
  have hall : lexemes = front := hfront.trans (List.append_nil front)
  exact hall ▸ hreadable

/-! ## The indices of the tokens that are blamed -/

/-- Places in the lexemes are told by their indices, which are in order. -/
theorem Along.exists_indices {lexemes start rest : List Lexeme} {errors : List SyntaxError}
    (halong : Along Blamed start errors rest) (hstart : start <:+ lexemes) :
    ∃ indices : List Nat, ((lexemes.length - start.length) :: indices).Pairwise (· ≤ ·) ∧
      List.Forall₂ (fun error index => index ≤ lexemes.length ∧ error.Blames (nextLexeme (lexemes.drop index)))
        errors indices := by
  induction halong with
  | nil hrest => exact ⟨[], List.pairwise_singleton _ _, .nil⟩
  | @cons start place next rest error errors hplace hitem hitems ih =>
      obtain ⟨hblames, rfl⟩ := hitem
      obtain ⟨indices, hordered, hindices⟩ := ih (hplace.trans hstart)
      have hdrop : lexemes.drop (lexemes.length - next.length) = next :=
        (List.suffix_iff_eq_drop.1 (hplace.trans hstart)).symm
      refine ⟨(lexemes.length - next.length) :: indices, ?ordered, .cons ⟨Nat.sub_le _ _, ?blames⟩ hindices⟩
      case ordered =>
        -- The place lies behind `start`, and all later ones lie behind the place.
        have hle := hplace.length_le
        refine List.pairwise_cons.2 ⟨?_, hordered⟩
        intro index hmem
        rcases List.mem_cons.1 hmem with rfl | hmem
        · omega
        · have hbehind := List.rel_of_pairwise_cons hordered hmem
          omega
      case blames =>
        rw [hdrop]
        exact hblames

/-- The lexeme at an index, which behind the last one is that of the end token. -/
theorem getElem?_nextLexeme {lexemes : List Lexeme} {index : Nat} (hle : index ≤ lexemes.length) :
    (lexemes ++ [⟨.eof, ""⟩])[index]? = some (nextLexeme (lexemes.drop index)) := by
  rcases Nat.lt_or_eq_of_le hle with hlt | rfl
  · rw [List.getElem?_append_left hlt, List.drop_eq_getElem_cons hlt, List.getElem?_eq_getElem hlt]
    rfl
  · rw [List.getElem?_concat_length, List.drop_length]
    rfl

end Grammar

/-! ## Scripts -/

/-- Reading what is left of a text behind some tokens ends with its tokens, in no more rounds than there are.
The script, and each block that is read, holds the statements that were tried in it, but for those that are left
out.  What is left out, at the top of the script or within a statement, has recorded an error, there is one error
for each statement left out, and no more than there are tokens.  A second reading finds and records nothing. -/
theorem Reader.program_ends_and_reports (text : String) (dropped : Nat) :
    let given := ofCursor ((Cursor.ofText text).take dropped).2
    (∀ limit, given.lexemes.length ≤ limit → given.programWithin limit = given.program) ∧
      given.program.2.lexemes = [] ∧
      given.program.1.statements = (scriptPlaces given.lexemes).filterMap statementAt ∧
      (∀ inside, blockTries inside = (blockPlaces inside).flatMap (fun place => place :: statementTries place) ∧
        ∀ statements, (block inside).outcome.value? = some statements →
          statements = (blockPlaces inside).filterMap statementAt) ∧
      (∀ place ∈ scriptTries given.lexemes, leavesOut place = true →
        (statement place).errors ≠ [] ∧ (statement place).errors <:+: given.program.2.errors) ∧
      given.program.2.errors.length = (scriptTries given.lexemes).countP leavesOut ∧
      given.program.2.errors.length ≤ ((Cursor.ofText text).tokens.drop dropped).length ∧
      given.program.2.program = (⟨[]⟩, given.program.2) := by
  intro given
  have haccounts := script_accounts given.lexemes
  have hcount : given.program.2.errors.length = (scriptTries given.lexemes).countP leavesOut := haccounts.count
  refine ⟨fun limit hlimit => programWithin_eq hlimit, rfl, Parsed.ofLexemes_statements given.lexemes, ?blocks,
    ?reported, hcount, ?bounded, program_nil _⟩
  case blocks => exact fun inside => ⟨blockTries_eq inside, fun _ hvalue => block_statements hvalue⟩
  case reported =>
    intro place hmem hleft
    refine ⟨?_, haccounts.recorded place hmem⟩
    intro herrors
    obtain ⟨value, rest, -, hle, houtcome⟩ := reportsStop_statement place herrors
    rw [leavesOut, statementAt, houtcome] at hleft
    cases hleft
  case bounded =>
    have htried := haccounts.tried.length_tried_le
    have hgiven : given.lexemes.length = ((Cursor.ofText text).tokens.drop dropped).length := by
      show ((Cursor.ofText text).take dropped).2.lexemes.length = _
      rw [Cursor.lexemes_take, Cursor.lexemes, ← List.map_drop, List.length_map]
    have hsome := List.countP_le_length (p := leavesOut) (l := scriptTries given.lexemes)
    omega

/-- Behind two tokens, a statement without its sign and a block that is never closed.  In a block that is closed, a
statement without its name, and the two behind it. -/
theorem Reader.broken_program_ends_and_reports :
    let given := ofCursor ((Cursor.ofText "1; let x 5; if (true) \x7b ) ; 2").take 2).2
    let inside := (Cursor.ofText "let 1; 2 \x7d 3").lexemes
    given.programWithin 12 = given.program ∧
      leavesOut given.lexemes = true ∧ (statement given.lexemes).errors ≠ [] ∧
      (block inside).outcome.value? = some [.expr (.int 1), .expr (.int 2)] ∧
      [.expr (.int 1), .expr (.int 2)] = (blockPlaces inside).filterMap statementAt ∧
      (blockPlaces inside).length = 3 := by
  intro given inside
  obtain ⟨hrounds, -, -, hblocks, hreported, -⟩ := program_ends_and_reports "1; let x 5; if (true) \x7b ) ; 2" 2
  have hleft : leavesOut given.lexemes = true := by decide +kernel
  have hblock : (block inside).outcome.value? = some [.expr (.int 1), .expr (.int 2)] := by decide +kernel
  obtain ⟨herrors, -⟩ := hreported given.lexemes (by decide +kernel) hleft
  exact ⟨hrounds 12 (by decide +kernel), hleft, herrors, hblock, (hblocks inside).2 _ hblock, by decide +kernel⟩

/-- Every error describes a token of the text, and a later one the same token or one behind it.  A token that
no program can hold is not passed over in silence. -/
theorem Parsed.errors_blame_tokens (text : String) :
    (∃ indices : List Nat, indices.Pairwise (· ≤ ·) ∧
      List.Forall₂ (fun error index => ∃ token, (Cursor.ofText text).allTokens[index]? = some token ∧
        error.Blames token.toLexeme) (ofText text).errors indices) ∧
      ∀ token ∈ (Cursor.ofText text).allTokens,
        (token.kind = .illegal ∨ token.kind = .int ∧ 0x8000000000000000 ≤ Lexeme.number token.text) →
          (ofText text).errors ≠ [] := by
  have haccounts := script_accounts (Cursor.ofText text).lexemes
  have hlexemes := (Cursor.ofText text).map_allTokens
  constructor
  · obtain ⟨indices, hordered, hindices⟩ := haccounts.blames.exists_indices List.suffix_rfl
    refine ⟨indices, (List.pairwise_cons.1 hordered).2, hindices.imp ?_⟩
    rintro error index ⟨hle, hblames⟩
    have hnext : ((Cursor.ofText text).allTokens.map Token.toLexeme)[index]? =
        some (nextLexeme ((Cursor.ofText text).lexemes.drop index)) := by
      rw [hlexemes, getElem?_nextLexeme hle]
    rw [List.getElem?_map] at hnext
    obtain ⟨token, htoken, hlexeme⟩ := Option.map_eq_some_iff.1 hnext
    exact ⟨token, htoken, hlexeme ▸ hblames⟩
  · intro token hmem hunreadable herrors
    have hlexeme : token.toLexeme ∈ (Cursor.ofText text).lexemes ++ [⟨.eof, ""⟩] := by
      rw [← hlexemes]
      exact List.mem_map_of_mem hmem
    rcases List.mem_append.1 hlexeme with hread | hend
    · obtain ⟨hillegal, hrange⟩ := isReadable_of_clean herrors token.toLexeme hread
      rcases hunreadable with hkind | ⟨hkind, hnumber⟩
      · exact hillegal hkind
      · have hlt := hrange hkind
        omega
    · have hkind : token.kind = .eof := congrArg Lexeme.kind (List.mem_singleton.1 hend)
      rw [hkind] at hunreadable
      rcases hunreadable with hillegal | ⟨hint, -⟩
      · cases hillegal
      · cases hint

/-- A name that is missing in front of a token that nothing starts with, and a number beyond the range. -/
theorem Parsed.missing_name_blames_token :
    (ofText "let 1 ? 9223372036854775808").errors ≠ [] :=
  (errors_blame_tokens "let 1 ? 9223372036854775808").2
    ⟨⟨.illegal, "?"⟩, ⟨1, 7⟩⟩ (by decide +kernel) (.inl rfl)

end LetScript
