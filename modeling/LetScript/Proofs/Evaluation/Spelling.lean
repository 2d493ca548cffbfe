import LetScript.Proofs.Evaluation.Histories
import LetScript.Proofs.Tree.WellFormed

/-!
# Functions that a script can write

A function takes its parameters and its body from a literal.  So if a script can write the trees that are
evaluated, it can write the literal of every function that comes of it, wherever that is kept.

* `TreeClass.spellable` — the trees that a script can write.
* `Value.IsSpellable`, `Law.spellable` — a function has a literal of that class; scopes hold no others.
* `Law.governs_spellable`, `Eval.call_spellable` — evaluation keeps to the law, calls included.
* `Evaluator.run_spellable` — what a run leaves and gives.
* `Moment.IsSpellable`, `Moment.Begins.isSpellable`, `Moment.During.isSpellable` — what one step from a task to
  a part of it preserves, and the whole course of an evaluation.
-/

namespace LetScript

/-- The trees that a script can write. -/
def TreeClass.spellable : TreeClass where
  expr e := e.isSpellable (0 ≤ ·) = true
  exprs exprs := Expr.areSpellable (0 ≤ ·) exprs = true
  stmt s := s.isSpellable (0 ≤ ·) = true
  block statements := Block.isSpellable (0 ≤ ·) statements = true
  operand htree := htree
  left htree := (Bool.and_eq_true_iff.1 htree).1
  right htree := (Bool.and_eq_true_iff.1 htree).2
  condition := by
    rintro condition consequence (_ | alternative) htree
    · exact (Bool.and_eq_true_iff.1 htree).1
    · exact (Bool.and_eq_true_iff.1 (Bool.and_eq_true_iff.1 htree).1).1
  consequence := by
    rintro condition consequence (_ | alternative) htree
    · exact (Bool.and_eq_true_iff.1 htree).2
    · exact (Bool.and_eq_true_iff.1 (Bool.and_eq_true_iff.1 htree).1).2
  alternative htree := (Bool.and_eq_true_iff.1 htree).2
  callee htree := (Bool.and_eq_true_iff.1 htree).1
  arguments htree := (Bool.and_eq_true_iff.1 htree).2
  firstExpr htree := (Bool.and_eq_true_iff.1 htree).1
  otherExprs htree := (Bool.and_eq_true_iff.1 htree).2
  bound htree := (Bool.and_eq_true_iff.1 htree).2
  returned htree := htree
  expression htree := htree
  firstStmt htree := (Bool.and_eq_true_iff.1 htree).1
  otherStmts htree := (Bool.and_eq_true_iff.1 htree).2

open TreeClass (spellable)

/-- A function has a literal that a script can write.  Nothing is asked of other values. -/
def Value.IsSpellable : Value → Prop
  | .function f => spellable.expr f.literal
  | _ => True

theorem Value.isSpellable_of_isPlain {value : Value} (hplain : value.isPlain = true) : value.IsSpellable := by
  cases value with
  | function f => cases hplain
  | _ => trivial

/-- Scopes hold only values that a script can write. -/
def Law.spellable : Law where
  holds machine := ∀ value, machine.store.Holds value → value.IsSpellable
  admits _ value := value.IsSpellable
  allows _ _ := True
  allows_refl _ := trivial
  allows_trans _ _ := trivial
  admits_of_allows _ hvalue := hvalue
  admits_of_isPlain _ _ := Value.isSpellable_of_isPlain

/-! ## Evaluation -/

theorem Law.governs_spellable {apply : Value → List Value → Eval Value}
    (happly : ∀ {callee arguments machine}, Law.spellable.holds machine → callee.IsSpellable →
      (∀ argument ∈ arguments, argument.IsSpellable) →
        Law.spellable.Meets Law.spellable.admits machine (apply callee arguments machine))
    (scope : ScopeId) : Law.spellable.Governs apply scope .spellable where
  lookUp hholds hget := hholds _ (Store.holds_of_get? hget)
  bindName := by
    intro machine ident bound value _ hholds hvalue
    refine ⟨?_, trivial, trivial⟩
    intro other hother
    rcases hother.of_bind with rfl | hold
    · exact hvalue
    · exact hholds other hold
  newFunction hliteral hholds := ⟨hholds, trivial, hliteral⟩
  apply := happly

/-- A body is entered with the values of the machine and with the arguments. -/
theorem Law.spellable_enter {machine : Machine} (function : Function) {arguments : List Value}
    (hholds : Law.spellable.holds machine) (harguments : ∀ argument ∈ arguments, argument.IsSpellable) :
    Law.spellable.holds (machine.enter function arguments) := by
  intro value hvalue
  rcases Store.Holds.of_bindAll hvalue with hargument | hbefore
  · exact harguments value hargument
  · exact hholds value hbefore.of_enclose

theorem Eval.call_spellable (limit budget : Nat) {callee : Value} {arguments : List Value}
    {machine : Machine} (hholds : Law.spellable.holds machine) (hcallee : callee.IsSpellable)
    (harguments : ∀ argument ∈ arguments, argument.IsSpellable) :
    Law.spellable.Meets Law.spellable.admits machine
      (Eval.call limit budget callee arguments machine) := by
  refine Eval.call_induction (motive := fun callee arguments before result =>
    Law.spellable.holds before → callee.IsSpellable → (∀ argument ∈ arguments, argument.IsSpellable) →
      Law.spellable.Meets Law.spellable.admits before result)
    ?_ ?_ budget callee arguments machine hholds hcallee harguments
  · intro callee arguments machine error hholds _ _
    exact ⟨hholds, trivial⟩
  · intro apply function arguments machine hcount hdepth happly hholds hfunction harguments
    have hgoverns := Law.governs_spellable (happly _ _ _) machine.store.scopes.size
    have hentered := Law.spellable_enter function hholds harguments
    have hbody : spellable.block function.body := (Bool.and_eq_true_iff.1 hfunction).2
    refine (hgoverns.meets_body _ function.body hbody hentered).leave ?_
    intro after hafter _
    exact ⟨hafter, trivial, fun value hvalue => hvalue⟩

theorem Law.governs_spellable_call (limit budget : Nat) (scope : ScopeId) :
    Law.spellable.Governs (Eval.call limit budget) scope .spellable :=
  Law.governs_spellable (Eval.call_spellable limit budget) scope

/-- What an evaluation gives its host is admitted. -/
theorem Law.Meets.admits_carried {law : Law} {before : Machine}
    {result : EStateM.Result Signal Machine Value} (hmeets : law.Meets law.admits before result)
    {value : Value} (hcarried : (Flow.ofResult result).1.carried? = some value) :
    law.admits (Eval.machineOf result) value := by
  cases result with
  | ok found after =>
      cases hcarried
      exact hmeets.2.2
  | error signal after =>
      cases signal with
      | ret found =>
          cases hcarried
          exact hmeets.2.2
      | error error => cases hcarried

/-- A run of trees that a script can write leaves and gives only such functions. -/
theorem Evaluator.run_spellable (evaluator : Evaluator) {store : Store} (scope : ScopeId)
    {fragment : Fragment} (hstore : ∀ value, store.Holds value → value.IsSpellable)
    (hfragment : spellable.fragment fragment) :
    (∀ value, (evaluator.run store scope fragment).2.2.Holds value → value.IsSpellable) ∧
      ∀ value, (evaluator.run store scope fragment).1.carried? = some value → value.IsSpellable := by
  have hgoverns := Law.governs_spellable_call evaluator.limit (evaluator.limit - evaluator.depth) scope
  have hmeets := Fragment.eval_meets hgoverns ⟨store, evaluator.depth⟩ hfragment hstore
  refine ⟨?_, fun value => hmeets.admits_carried⟩
  show ∀ value, (Flow.ofResult _).2.store.Holds value → value.IsSpellable
  rw [Flow.ofResult_snd]
  exact hmeets.holds_machineOf

/-! ## Moments -/

/-- A script can write the trees of a task and the functions that it was given. -/
def Task.IsSpellable : Task → Prop
  | .expr _ e => spellable.expr e
  | .exprs _ trees => spellable.exprs trees
  | .stmt _ s => spellable.stmt s
  | .stmts _ last statements => spellable.block statements ∧ last.IsSpellable
  | .call callee arguments => callee.IsSpellable ∧ ∀ argument ∈ arguments, argument.IsSpellable

theorem Fragment.isSpellable_task {fragment : Fragment} (hfragment : spellable.fragment fragment)
    (scope : ScopeId) : (fragment.task scope).IsSpellable := by
  cases fragment with
  | block statements => exact ⟨hfragment, trivial⟩
  | statement stmt => exact hfragment
  | expression expr => exact hfragment

namespace Moment

/-- A script can write the task and all functions that scopes hold. -/
def IsSpellable (moment : Moment) : Prop :=
  Law.spellable.holds moment.machine ∧ moment.task.IsSpellable

/-- How a task ends.  Several expressions end one by one. -/
def flow? (limit : Nat) (moment : Moment) : Option Flow :=
  let apply := Eval.call limit moment.budget
  match moment.task with
  | .expr scope e => some (Flow.ofResult (e.eval apply scope moment.machine)).1
  | .exprs _ _ => none
  | .stmt scope s => some (Flow.ofResult (s.eval apply scope moment.machine)).1
  | .stmts scope last statements =>
      some (Flow.ofResult (Block.eval apply scope last statements moment.machine)).1
  | .call callee arguments => some (Flow.ofResult (apply callee arguments moment.machine)).1

variable {limit opened : Nat} {moment part : Moment}

theorem Begins.isSpellable (hbegins : Begins limit moment opened part) (hmoment : moment.IsSpellable) :
    part.IsSpellable := by
  have hgoverns := Law.governs_spellable_call limit
  obtain ⟨hstore, htask⟩ := hmoment
  cases hbegins with
  | operand => exact ⟨hstore, spellable.operand htask⟩
  | left => exact ⟨hstore, spellable.left htask⟩
  | condition => exact ⟨hstore, spellable.condition htask⟩
  | callee => exact ⟨hstore, spellable.callee htask⟩
  | firstExpr => exact ⟨hstore, spellable.firstExpr htask⟩
  | bound => exact ⟨hstore, spellable.bound htask⟩
  | returned => exact ⟨hstore, spellable.returned htask⟩
  | expression => exact ⟨hstore, spellable.expression htask⟩
  | firstStmt => exact ⟨hstore, spellable.firstStmt htask.1⟩
  -- A part behind another one starts from the machine that the other one has left.
  | right hfirst =>
      obtain ⟨hmiddle, -⟩ := (Expr.eval_meets (hgoverns _ _) (spellable.left htask) hstore).of_ok hfirst
      exact ⟨hmiddle, spellable.right htask⟩
  | consequence hfirst =>
      obtain ⟨hmiddle, -⟩ := (Expr.eval_meets (hgoverns _ _) (spellable.condition htask) hstore).of_ok hfirst
      exact ⟨hmiddle, spellable.consequence htask, trivial⟩
  | alternative hfirst =>
      obtain ⟨hmiddle, -⟩ := (Expr.eval_meets (hgoverns _ _) (spellable.condition htask) hstore).of_ok hfirst
      exact ⟨hmiddle, spellable.alternative htask, trivial⟩
  | arguments hfirst =>
      obtain ⟨hmiddle, -⟩ := (Expr.eval_meets (hgoverns _ _) (spellable.callee htask) hstore).of_ok hfirst
      exact ⟨hmiddle, spellable.arguments htask⟩
  | otherExprs hfirst =>
      obtain ⟨hmiddle, -⟩ := (Expr.eval_meets (hgoverns _ _) (spellable.firstExpr htask) hstore).of_ok hfirst
      exact ⟨hmiddle, spellable.otherExprs htask⟩
  | otherStmts hfirst =>
      obtain ⟨hmiddle, -, hvalue⟩ :=
        (Stmt.eval_meets (hgoverns _ _) (spellable.firstStmt htask.1) hstore).of_ok hfirst
      exact ⟨hmiddle, spellable.otherStmts htask.1, hvalue⟩
  | call hcallee harguments =>
      obtain ⟨hmiddle, -, hfunction⟩ :=
        (Expr.eval_meets (hgoverns _ _) (spellable.callee htask) hstore).of_ok hcallee
      obtain ⟨hlast, -, hvalues⟩ :=
        (Expr.evalAll_meets (hgoverns _ _) (spellable.arguments htask) hmiddle).of_ok harguments
      exact ⟨hlast, hfunction, hvalues⟩
  | body hcount hdepth =>
      obtain ⟨hfunction, harguments⟩ := htask
      exact ⟨Law.spellable_enter _ hstore harguments, (Bool.and_eq_true_iff.1 hfunction).2, trivial⟩

theorem During.isSpellable (hduring : During limit moment opened part) (hmoment : moment.IsSpellable) :
    part.IsSpellable := by
  induction hduring with
  | now => exact hmoment
  | later hbegins _ ih => exact ih (hbegins.isSpellable hmoment)

/-- What a task ends with can be written if the task can. -/
theorem IsSpellable.carried (hmoment : moment.IsSpellable) {flow : Flow} (hflow : moment.flow? limit = some flow)
    {value : Value} (hcarried : flow.carried? = some value) : value.IsSpellable := by
  obtain ⟨task, budget, machine⟩ := moment
  obtain ⟨hstore, htask⟩ := hmoment
  have hgoverns := Law.governs_spellable_call limit budget
  cases task with
  | exprs scope exprs => cases hflow
  | expr scope e =>
      cases hflow
      exact (Expr.eval_meets (hgoverns scope) htask hstore).admits_carried hcarried
  | stmt scope s =>
      cases hflow
      exact (Stmt.eval_meets (hgoverns scope) htask hstore).admits_carried hcarried
  | stmts scope last statements =>
      cases hflow
      exact (Block.eval_meets (hgoverns scope) htask.1 hstore htask.2).admits_carried hcarried
  | call callee arguments =>
      cases hflow
      exact (Eval.call_spellable limit budget hstore htask.1 htask.2).admits_carried hcarried

end Moment

end LetScript
