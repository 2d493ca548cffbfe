import LetScript.Proofs.Evaluation.Depth
import LetScript.Proofs.Grammar.Recognition
import LetScript.Proofs.Grammar.Sequence
import LetScript.Proofs.Token.Lines

/-!
# Scripts line by line

A script can be fed to an evaluator in pieces, as a console does line by line.  If each piece ends at the
end of a statement, nothing shows of it.

* `Parsed.ofText_joined` — the pieces joined by newlines are read as their statements one behind the other.
* `Evaluator.run_append` — statements evaluated in two parts, with one evaluator, and as a whole.
* `Evaluator.feed` — the evaluation of the pieces, one after another.
* `Evaluator.feeding_is_running_whole` — the last piece ends as the whole script does.
-/

namespace LetScript

open Grammar

/-! ## Reading -/

/-- The statements that are read from a text. -/
def statementsOf (text : String) : Block :=
  (Parsed.ofText text).program.statements

/-- The last lexeme of a text, if it has any, is a semicolon. -/
def EndsStatement (text : String) : Prop :=
  ∀ lexeme ∈ (Cursor.ofText text).lexemes.getLast?, lexeme.kind = .semicolon

theorem spellsStmts_of_errors {text : String} (herrors : (Parsed.ofText text).errors = []) :
    SpellsStmts .eof (Cursor.ofText text).lexemes (statementsOf text) := by
  have hread : Parsed.ofLexemes (Cursor.ofText text).lexemes = ⟨⟨statementsOf text⟩, []⟩ := by
    rw [← herrors]
    rfl
  exact ofLexemes_eq_iff.1 hread

/-- Texts joined by newlines fall into the lexemes of each and spell the statements of each. -/
theorem lexes_joined {lines : List String} {last : String}
    (herrors : ∀ text ∈ lines ++ [last], (Parsed.ofText text).errors = [])
    (hends : ∀ text ∈ lines, EndsStatement text) :
    ∃ ws, Lexes ("\n".intercalate (lines ++ [last])).toList ws ∧
      SpellsStmts .eof ws (lines.flatMap statementsOf ++ statementsOf last) := by
  induction lines with
  | nil =>
      refine ⟨_, lexes_ofText last, ?_⟩
      exact spellsStmts_of_errors (herrors last List.mem_cons_self)
  | cons text lines ih =>
      have hread := spellsStmts_of_errors (herrors text List.mem_cons_self)
      have hend : EndsStatement text := hends text List.mem_cons_self
      obtain ⟨vs, hlexes, hspells⟩ := ih (fun other hother => herrors other (List.mem_cons_of_mem _ hother))
        (fun other hother => hends other (List.mem_cons_of_mem _ hother))
      have hjoined : ("\n".intercalate (text :: lines ++ [last])).toList =
          text.toList ++ '\n' :: ("\n".intercalate (lines ++ [last])).toList := by
        rw [List.cons_append, String.intercalate_cons_of_ne_nil (by simp), String.toList_append,
          String.toList_append, List.append_assoc]
        rfl
      have hlegal : ∀ lexeme ∈ (Cursor.ofText text).lexemes.getLast?, lexeme.kind ≠ .illegal := by
        intro lexeme hmem hillegal
        rw [hend lexeme hmem] at hillegal
        cases hillegal
      refine ⟨_, hjoined ▸ lexes_line (lexes_ofText text) hlegal hlexes, ?_⟩
      rw [List.flatMap_cons, List.append_assoc]
      exact hread.append hend hspells

theorem Parsed.ofText_joined {lines : List String} {last : String}
    (herrors : ∀ text ∈ lines ++ [last], (Parsed.ofText text).errors = [])
    (hends : ∀ text ∈ lines, EndsStatement text) :
    Parsed.ofText ("\n".intercalate (lines ++ [last])) =
      ⟨⟨lines.flatMap statementsOf ++ statementsOf last⟩, []⟩ := by
  obtain ⟨ws, hlexes, hspells⟩ := lexes_joined herrors hends
  unfold Parsed.ofText
  rw [hlexes.lexemes_ofText]
  exact ofLexemes_eq_iff.2 hspells

/-! ## Evaluation -/

/-- Statements behind others start from the machine that these leave. -/
theorem Block.eval_append (apply : Value → List Value → Eval Value) (scope : ScopeId)
    {statements others : Block} {last value : Value} {machine after : Machine}
    (hresult : Block.eval apply scope last statements machine = .ok value after) :
    Block.eval apply scope last (statements ++ others) machine =
      Block.eval apply scope value others after := by
  induction statements generalizing last machine with
  | nil =>
      simp only [Block.eval] at hresult
      cases hresult
      rfl
  | cons first rest ih =>
      simp only [Block.eval] at hresult
      simp only [List.cons_append, Block.eval]
      cases hfirst : first.eval apply scope machine with
      | ok middleValue middle =>
          rw [Eval.bind_of_ok hfirst] at hresult ⊢
          exact ih hresult
      | error signal middle =>
          rw [Eval.bind_of_error hfirst] at hresult
          cases hresult

/-- Where there is a statement, it does not matter which value was the last before. -/
theorem Block.eval_last_eq (apply : Value → List Value → Eval Value) (scope : ScopeId)
    {statements : Block} (hstatements : statements ≠ []) (last other : Value) :
    Block.eval apply scope last statements = Block.eval apply scope other statements := by
  cases statements with
  | nil => exact absurd rfl hstatements
  | cons first rest => simp only [Block.eval]

/-- Statements in two parts, the second evaluated with what the first leaves. -/
theorem Evaluator.run_append (evaluator : Evaluator) (store : Store) (scope : ScopeId)
    {statements others : Block} {value : Value}
    (hvalue : (evaluator.run store scope (.block statements)).1 = .value value) (hothers : others ≠ []) :
    evaluator.run store scope (.block (statements ++ others)) =
      (evaluator.run store scope (.block statements)).2.1.run
        (evaluator.run store scope (.block statements)).2.2 scope (.block others) := by
  have hevaluator := evaluator.run_evaluator store scope (.block statements)
  simp only [run, Fragment.eval] at hvalue hevaluator ⊢
  generalize hresult : Block.eval _ scope .null statements _ = result at hvalue hevaluator ⊢
  cases result with
  | ok last after =>
      have hdepth : after.depth = evaluator.depth := congrArg Evaluator.depth hevaluator
      have hafter : (⟨after.store, evaluator.depth⟩ : Machine) = after := by rw [← hdepth]
      rw [Block.eval_append _ scope hresult, Block.eval_last_eq _ scope hothers last .null]
      simp only [Flow.ofResult, hdepth, hafter]
  | error signal after =>
      cases signal with
      | ret last => cases hvalue
      | error error => cases hvalue

/-- Evaluates texts one after another in one scope, each with the evaluator and the store that the one
before leaves. -/
def Evaluator.feed (evaluator : Evaluator) (store : Store) (scope : ScopeId) :
    List String → List Flow × Evaluator × Store
  | [] => ([], evaluator, store)
  | text :: texts =>
      let ran := evaluator.run store scope (.block (statementsOf text))
      let fed := ran.2.1.feed ran.2.2 scope texts
      (ran.1 :: fed.1, fed.2)

/-- Texts that are all evaluated to values, and then other statements. -/
theorem Evaluator.run_flatMap (evaluator : Evaluator) (store : Store) (scope : ScopeId)
    {lines : List String} {others : Block}
    (hvalues : ∀ flow ∈ (evaluator.feed store scope lines).1, ∃ value, flow = .value value)
    (hothers : others ≠ []) :
    evaluator.run store scope (.block (lines.flatMap statementsOf ++ others)) =
      (evaluator.feed store scope lines).2.1.run (evaluator.feed store scope lines).2.2 scope
        (.block others) := by
  induction lines generalizing evaluator store with
  | nil => rfl
  | cons text lines ih =>
      obtain ⟨value, hvalue⟩ := hvalues _ List.mem_cons_self
      have hmore : lines.flatMap statementsOf ++ others ≠ [] := by
        intro hnil
        exact hothers (List.append_eq_nil_iff.1 hnil).2
      rw [List.flatMap_cons, List.append_assoc, evaluator.run_append store scope hvalue hmore]
      exact ih _ _ fun flow hflow => hvalues flow (List.mem_cons_of_mem _ hflow)

/-- A script can be fed line by line.  Its pieces are read without errors, all but the last one end with a
semicolon or have no lexeme at all, and the last one has a statement.  Joined by newlines they are then read
without errors as their statements one behind the other.  And if no piece but the last one fails or returns,
the whole script ends as the last piece does behind the others, and leaves the same. -/
theorem Evaluator.feeding_is_running_whole {lines : List String} {last : String}
    (herrors : ∀ text ∈ lines ++ [last], (Parsed.ofText text).errors = [])
    (hends : ∀ text ∈ lines, EndsStatement text) (hlast : statementsOf last ≠ []) :
    let whole := Parsed.ofText ("\n".intercalate (lines ++ [last]))
    whole.errors = [] ∧
      whole.program.statements = lines.flatMap statementsOf ++ statementsOf last ∧
      ∀ (evaluator : Evaluator) (store : Store) (scope : ScopeId),
        let fed := evaluator.feed store scope lines
        (∀ flow ∈ fed.1, ∃ value, flow = .value value) →
          evaluator.run store scope (.block whole.program.statements) =
            fed.2.1.run fed.2.2 scope (.block (statementsOf last)) := by
  intro whole
  have hwhole : whole = ⟨⟨lines.flatMap statementsOf ++ statementsOf last⟩, []⟩ :=
    Parsed.ofText_joined herrors hends
  rw [hwhole]
  refine ⟨rfl, rfl, ?_⟩
  intro evaluator store scope fed hvalues
  exact evaluator.run_flatMap store scope hvalues hlast

/-- Two lines with bindings, and one between them with nothing but blanks, in front of a call. -/
theorem Evaluator.call_behind_lines :
    let lines := ["let twice = fn(n) \x7b n + n \x7d;", " \t", "let x = 2; let y = twice(x);"]
    let last := "y + twice(x)"
    let store : Store := ⟨#[⟨[], none⟩], 0⟩
    let whole := Parsed.ofText ("\n".intercalate (lines ++ [last]))
    let fed := Evaluator.feed {} store 0 lines
    whole.errors = [] ∧ fed.1 = [.value .null, .value .null, .value .null] ∧
      Evaluator.run {} store 0 (.block whole.program.statements) =
        fed.2.1.run fed.2.2 0 (.block (statementsOf last)) ∧
      (Evaluator.run {} store 0 (.block whole.program.statements)).1 = .value (.int 8) := by
  intro lines last store whole fed
  have herrors : ∀ text ∈ lines ++ [last], (Parsed.ofText text).errors = [] := by decide +kernel
  have hends : ∀ text ∈ lines, EndsStatement text := by
    unfold EndsStatement
    decide +kernel
  have hlast : statementsOf last ≠ [] := by decide +kernel
  have hflows : fed.1 = [.value .null, .value .null, .value .null] := by decide +kernel
  have hvalues : ∀ flow ∈ fed.1, ∃ value, flow = .value value := by
    rw [hflows]
    intro flow hflow
    exact ⟨.null, by simpa using hflow⟩
  obtain ⟨hwhole, -, hruns⟩ := Evaluator.feeding_is_running_whole herrors hends hlast
  have hrun := hruns {} store 0 hvalues
  refine ⟨hwhole, hflows, hrun, ?_⟩
  refine (congrArg Prod.fst hrun).trans ?_
  decide +kernel

end LetScript
