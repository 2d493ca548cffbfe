import LetScript.Proofs.Evaluation.Calls

/-!
# The course of an evaluation

Evaluation is followed from each task to the tasks that come up in it.

* `Task`, `Moment` — what can be evaluated, and the machine in which that begins.
* `Moment.Begins`, `Moment.During` — the tasks that come up directly in a task, and all those in the
  course of it, with the number of function bodies that are being evaluated meanwhile.
* `Moment.EndsWith`, `Moment.Begins.endsWith` — the body that comes up in a call is the one with which it ends.
* `Moment.Refuses` — a call is refused for the depth of calls.
* `Expr.comesToRefusal`, `Eval.call_comesToRefusal`, `Evaluator.comesToRefusal` — an evaluation that fails
  for the depth of calls comes to a call that is refused.  The failure has no other cause.
-/

namespace LetScript

/-! ## Tasks -/

/-- What can be evaluated: trees in a scope, or the call of a value. -/
inductive Task where
  | expr (scope : ScopeId) (e : Expr)
  | exprs (scope : ScopeId) (exprs : List Expr)
  | stmt (scope : ScopeId) (s : Stmt)
  /-- Statements behind one with the value `last`. -/
  | stmts (scope : ScopeId) (last : Value) (statements : List Stmt)
  | call (callee : Value) (arguments : List Value)

/-- The evaluation of a fragment as a task. -/
def Fragment.task (scope : ScopeId) : Fragment → Task
  | block statements => .stmts scope .null statements
  | statement stmt => .stmt scope stmt
  | expression expr => .expr scope expr

/-- A task that is about to begin. -/
structure Moment where
  task : Task
  budget : Nat
  machine : Machine

/-- The start of a run. -/
def Evaluator.start (evaluator : Evaluator) (store : Store) (scope : ScopeId) (fragment : Fragment) :
    Moment :=
  ⟨fragment.task scope, evaluator.limit - evaluator.depth, ⟨store, evaluator.depth⟩⟩

namespace Moment

/-- The machine in which a task ends, however it does. -/
def after (limit : Nat) (moment : Moment) : Machine :=
  let apply := Eval.call limit moment.budget
  match moment.task with
  | .expr scope e => Eval.machineOf (e.eval apply scope moment.machine)
  | .exprs scope exprs => Eval.machineOf (Expr.evalAll apply scope exprs moment.machine)
  | .stmt scope s => Eval.machineOf (s.eval apply scope moment.machine)
  | .stmts scope last statements =>
      Eval.machineOf (Block.eval apply scope last statements moment.machine)
  | .call callee arguments => Eval.machineOf (apply callee arguments moment.machine)

/-- A task comes up directly in another one.  The number is one if the task is the body of a function,
and zero if it is not. -/
inductive Begins (limit : Nat) : Moment → Nat → Moment → Prop
  | operand {scope op operand budget machine} :
      Begins limit ⟨.expr scope (.unary op operand), budget, machine⟩ 0
        ⟨.expr scope operand, budget, machine⟩
  | left {scope op left right budget machine} :
      Begins limit ⟨.expr scope (.binary op left right), budget, machine⟩ 0
        ⟨.expr scope left, budget, machine⟩
  | right {scope op left right budget machine value middle}
      (hleft : left.eval (Eval.call limit budget) scope machine = .ok value middle) :
      Begins limit ⟨.expr scope (.binary op left right), budget, machine⟩ 0
        ⟨.expr scope right, budget, middle⟩
  | condition {scope condition consequence alternative budget machine} :
      Begins limit ⟨.expr scope (.cond condition consequence alternative), budget, machine⟩ 0
        ⟨.expr scope condition, budget, machine⟩
  | consequence {scope condition consequence alternative budget machine value middle}
      (hcondition : condition.eval (Eval.call limit budget) scope machine = .ok value middle)
      (htruthy : value.isTruthy = true) :
      Begins limit ⟨.expr scope (.cond condition consequence alternative), budget, machine⟩ 0
        ⟨.stmts scope .null consequence, budget, middle⟩
  | alternative {scope condition consequence alternative budget machine value middle}
      (hcondition : condition.eval (Eval.call limit budget) scope machine = .ok value middle)
      (htruthy : value.isTruthy = false) :
      Begins limit ⟨.expr scope (.cond condition consequence (some alternative)), budget, machine⟩ 0
        ⟨.stmts scope .null alternative, budget, middle⟩
  | callee {scope callee arguments budget machine} :
      Begins limit ⟨.expr scope (.call callee arguments), budget, machine⟩ 0
        ⟨.expr scope callee, budget, machine⟩
  | arguments {scope callee arguments budget machine function middle}
      (hcallee : callee.eval (Eval.call limit budget) scope machine = .ok function middle) :
      Begins limit ⟨.expr scope (.call callee arguments), budget, machine⟩ 0
        ⟨.exprs scope arguments, budget, middle⟩
  | call {scope callee arguments budget machine function middle values last}
      (hcallee : callee.eval (Eval.call limit budget) scope machine = .ok function middle)
      (harguments : Expr.evalAll (Eval.call limit budget) scope arguments middle = .ok values last) :
      Begins limit ⟨.expr scope (.call callee arguments), budget, machine⟩ 0
        ⟨.call function values, budget, last⟩
  | firstExpr {scope first others budget machine} :
      Begins limit ⟨.exprs scope (first :: others), budget, machine⟩ 0
        ⟨.expr scope first, budget, machine⟩
  | otherExprs {scope first others budget machine value middle}
      (hfirst : first.eval (Eval.call limit budget) scope machine = .ok value middle) :
      Begins limit ⟨.exprs scope (first :: others), budget, machine⟩ 0
        ⟨.exprs scope others, budget, middle⟩
  | bound {scope name value budget machine} :
      Begins limit ⟨.stmt scope (.bind name value), budget, machine⟩ 0
        ⟨.expr scope value, budget, machine⟩
  | returned {scope value budget machine} :
      Begins limit ⟨.stmt scope (.ret (some value)), budget, machine⟩ 0
        ⟨.expr scope value, budget, machine⟩
  | expression {scope value budget machine} :
      Begins limit ⟨.stmt scope (.expr value), budget, machine⟩ 0 ⟨.expr scope value, budget, machine⟩
  | firstStmt {scope last first others budget machine} :
      Begins limit ⟨.stmts scope last (first :: others), budget, machine⟩ 0
        ⟨.stmt scope first, budget, machine⟩
  | otherStmts {scope last first others budget machine value middle}
      (hfirst : first.eval (Eval.call limit budget) scope machine = .ok value middle) :
      Begins limit ⟨.stmts scope last (first :: others), budget, machine⟩ 0
        ⟨.stmts scope value others, budget, middle⟩
  | body {function arguments budget machine}
      (hcount : function.parameters.length = arguments.length) (hdepth : machine.depth < limit) :
      Begins limit ⟨.call (.function function) arguments, budget + 1, machine⟩ 1
        ⟨.stmts machine.store.scopes.size .null function.body, budget,
          machine.enter function arguments⟩

/-- A call ends with the statements of its body, in the machine in which these end, but for one open call: what
they give or return is the value of the call, and an error in them is its error. -/
def EndsWith (limit : Nat) (moment body : Moment) : Prop :=
  ∃ (function : Function) (arguments : List Value) (scope : ScopeId),
    moment.task = .call (.function function) arguments ∧ body.task = .stmts scope .null function.body ∧
    Eval.call limit moment.budget (.function function) arguments moment.machine =
      Eval.leave (Block.eval (Eval.call limit body.budget) scope .null function.body body.machine)

theorem Begins.endsWith {limit : Nat} {moment body : Moment} (hbegins : Begins limit moment 1 body) :
    moment.EndsWith limit body := by
  cases hbegins with
  | @body function arguments budget machine hcount hdepth =>
      exact ⟨function, arguments, _, rfl, rfl, Eval.call_of_entered hcount hdepth⟩

/-- A task comes up in the course of another one, in as many function bodies as the number says. -/
inductive During (limit : Nat) : Moment → Nat → Moment → Prop
  | now {moment} : During limit moment 0 moment
  | later {moment opened part more last} (hbegins : Begins limit moment opened part)
      (hduring : During limit part more last) : During limit moment (opened + more) last

/-- A call with the right number of arguments fails at once for the depth of calls, and leaves the
machine as it is. -/
def Refuses (limit : Nat) (moment : Moment) : Prop :=
  ∃ (function : Function) (arguments : List Value), moment.task = .call (.function function) arguments ∧
    function.parameters.length = arguments.length ∧
    Eval.call limit moment.budget (.function function) arguments moment.machine =
      .error (.error (.callDepthExceeded limit)) moment.machine

/-- In the course of a task a call is refused, and the limit named is the one in force. -/
def ComesToRefusal (limit named : Nat) (moment : Moment) : Prop :=
  named = limit ∧ ∃ opened last, During limit moment opened last ∧ last.Refuses limit

theorem ComesToRefusal.of_begins {limit named opened : Nat} {moment part : Moment}
    (hrefusal : part.ComesToRefusal limit named) (hbegins : Begins limit moment opened part) :
    moment.ComesToRefusal limit named := by
  obtain ⟨hnamed, more, last, hduring, hrefuses⟩ := hrefusal
  exact ⟨hnamed, opened + more, last, .later hbegins hduring, hrefuses⟩

end Moment

/-! ## Where the depth of calls is the error -/

/-- The operators do not fail for the depth of calls. -/
theorem Value.applyPrefix_ne_refusal {op : PrefixOp} {operand : Value} {named : Nat} :
    operand.applyPrefix op ≠ .error (.callDepthExceeded named) := by
  unfold applyPrefix
  split <;> simp

theorem Value.applyInt_ne_refusal {op : InfixOp} {left right : Int64} {named : Nat} :
    applyInt op left right ≠ .error (.callDepthExceeded named) := by
  unfold applyInt
  split
  case h_4 => split <;> simp
  all_goals simp

theorem Value.applyInfix_ne_refusal {op : InfixOp} {left right : Value} {named : Nat} :
    left.applyInfix op right ≠ .error (.callDepthExceeded named) := by
  unfold applyInfix
  split
  case h_1 => exact applyInt_ne_refusal
  case h_7 => split <;> simp
  all_goals simp

/-- What fails in a sequence fails in its first step or behind it. -/
theorem Eval.bind_eq_error {α β : Type} {x : Eval α} {f : α → Eval β} {machine after : Machine}
    {signal : Signal} (hresult : (x >>= f) machine = .error signal after) :
    x machine = .error signal after ∨
      ∃ value middle, x machine = .ok value middle ∧ f value middle = .error signal after := by
  cases hx : x machine with
  | ok value middle =>
      rw [Eval.bind_of_ok hx] at hresult
      exact .inr ⟨value, middle, rfl, hresult⟩
  | error first middle =>
      rw [Eval.bind_of_error hx] at hresult
      cases hresult
      exact .inl rfl

theorem Eval.ofExcept_eq_error {answer : Except RuntimeError Value} {machine after : Machine}
    {error : RuntimeError} (hresult : Eval.ofExcept answer machine = .error (.error error) after) :
    answer = .error error := by
  cases answer with
  | ok value => cases hresult
  | error other =>
      cases hresult
      rfl

section Refusals

variable {limit named budget : Nat} {scope : ScopeId}

/-- Calls that fail for the depth of calls come to a refusal. -/
def Eval.CallsComeToRefusal (limit named budget : Nat) : Prop :=
  ∀ ⦃callee : Value⦄ ⦃arguments : List Value⦄ ⦃machine after : Machine⦄,
    Eval.call limit budget callee arguments machine =
      .error (.error (.callDepthExceeded named)) after →
    Moment.ComesToRefusal limit named ⟨.call callee arguments, budget, machine⟩

theorem Eval.lookUp_ne_refusal {ident : String} {machine after : Machine} :
    Eval.lookUp scope ident machine ≠ .error (.error (.callDepthExceeded named)) after := by
  cases hget : machine.store.get? scope ident with
  | some value => simp [Eval.lookUp_of_some hget]
  | none => simp [Eval.lookUp_of_none hget]

mutual

theorem Expr.comesToRefusal (hcalls : Eval.CallsComeToRefusal limit named budget) :
    ∀ (e : Expr) {machine after : Machine}, e.eval (Eval.call limit budget) scope machine =
        .error (.error (.callDepthExceeded named)) after →
      Moment.ComesToRefusal limit named ⟨.expr scope e, budget, machine⟩
  | .name ident, machine, after, hresult => by
      simp only [Expr.eval] at hresult
      exact absurd hresult Eval.lookUp_ne_refusal
  | .int value, machine, after, hresult => by
      simp only [Expr.eval] at hresult
      cases hresult
  | .str value, machine, after, hresult => by
      simp only [Expr.eval] at hresult
      cases hresult
  | .bool value, machine, after, hresult => by
      simp only [Expr.eval] at hresult
      cases hresult
  | .unary op operand, machine, after, hresult => by
      simp only [Expr.eval] at hresult
      -- An operator may fail, but it refuses no call: the failure is that of the operand.
      rcases Eval.bind_eq_error hresult with hoperand | ⟨value, middle, -, hlast⟩
      · exact (Expr.comesToRefusal hcalls operand hoperand).of_begins .operand
      · exact absurd (Eval.ofExcept_eq_error hlast) Value.applyPrefix_ne_refusal
  | .binary op left right, machine, after, hresult => by
      simp only [Expr.eval] at hresult
      rcases Eval.bind_eq_error hresult with hleft | ⟨value, middle, hleft, hmore⟩
      · exact (Expr.comesToRefusal hcalls left hleft).of_begins .left
      rcases Eval.bind_eq_error hmore with hright | ⟨other, last, -, hlast⟩
      · exact (Expr.comesToRefusal hcalls right hright).of_begins (.right hleft)
      · exact absurd (Eval.ofExcept_eq_error hlast) Value.applyInfix_ne_refusal
  | .cond condition consequence none, machine, after, hresult => by
      simp only [Expr.eval] at hresult
      rcases Eval.bind_eq_error hresult with hcondition | ⟨value, middle, hcondition, hmore⟩
      · exact (Expr.comesToRefusal hcalls condition hcondition).of_begins .condition
      split at hmore
      · next htruthy =>
          exact (Block.comesToRefusal hcalls consequence hmore).of_begins
            (.consequence hcondition htruthy)
      · cases hmore
  | .cond condition consequence (some alternative), machine, after, hresult => by
      simp only [Expr.eval] at hresult
      rcases Eval.bind_eq_error hresult with hcondition | ⟨value, middle, hcondition, hmore⟩
      · exact (Expr.comesToRefusal hcalls condition hcondition).of_begins .condition
      split at hmore
      · next htruthy =>
          exact (Block.comesToRefusal hcalls consequence hmore).of_begins
            (.consequence hcondition htruthy)
      · next htruthy =>
          exact (Block.comesToRefusal hcalls alternative hmore).of_begins
            (.alternative hcondition (Bool.eq_false_iff.2 htruthy))
  | .fn parameters body, machine, after, hresult => by
      simp only [Expr.eval] at hresult
      cases hresult
  | .call callee arguments, machine, after, hresult => by
      simp only [Expr.eval] at hresult
      rcases Eval.bind_eq_error hresult with hcallee | ⟨function, middle, hcallee, hmore⟩
      · exact (Expr.comesToRefusal hcalls callee hcallee).of_begins .callee
      rcases Eval.bind_eq_error hmore with harguments | ⟨values, last, harguments, hcall⟩
      · exact (Expr.comesToRefusal_evalAll hcalls arguments harguments).of_begins (.arguments hcallee)
      · exact (hcalls hcall).of_begins (.call hcallee harguments)

theorem Expr.comesToRefusal_evalAll (hcalls : Eval.CallsComeToRefusal limit named budget) :
    ∀ (exprs : List Expr) {machine after : Machine},
      Expr.evalAll (Eval.call limit budget) scope exprs machine =
        .error (.error (.callDepthExceeded named)) after →
      Moment.ComesToRefusal limit named ⟨.exprs scope exprs, budget, machine⟩
  | [], machine, after, hresult => by
      simp only [Expr.evalAll] at hresult
      cases hresult
  | expr :: exprs, machine, after, hresult => by
      simp only [Expr.evalAll] at hresult
      rcases Eval.bind_eq_error hresult with hfirst | ⟨value, middle, hfirst, hmore⟩
      · exact (Expr.comesToRefusal hcalls expr hfirst).of_begins .firstExpr
      rcases Eval.bind_eq_error hmore with hothers | ⟨values, last, -, hlast⟩
      · exact (Expr.comesToRefusal_evalAll hcalls exprs hothers).of_begins (.otherExprs hfirst)
      · cases hlast

theorem Stmt.comesToRefusal (hcalls : Eval.CallsComeToRefusal limit named budget) :
    ∀ (s : Stmt) {machine after : Machine}, s.eval (Eval.call limit budget) scope machine =
        .error (.error (.callDepthExceeded named)) after →
      Moment.ComesToRefusal limit named ⟨.stmt scope s, budget, machine⟩
  | .bind name value, machine, after, hresult => by
      simp only [Stmt.eval] at hresult
      rcases Eval.bind_eq_error hresult with hvalue | ⟨bound, middle, -, hlast⟩
      · exact (Expr.comesToRefusal hcalls value hvalue).of_begins .bound
      · cases hlast
  | .ret none, machine, after, hresult => by
      simp only [Stmt.eval] at hresult
      cases hresult
  | .ret (some value), machine, after, hresult => by
      simp only [Stmt.eval] at hresult
      rcases Eval.bind_eq_error hresult with hvalue | ⟨returned, middle, -, hlast⟩
      · exact (Expr.comesToRefusal hcalls value hvalue).of_begins .returned
      · cases hlast
  | .expr value, machine, after, hresult => by
      simp only [Stmt.eval] at hresult
      exact (Expr.comesToRefusal hcalls value hresult).of_begins .expression

theorem Block.comesToRefusal (hcalls : Eval.CallsComeToRefusal limit named budget) :
    ∀ (statements : List Stmt) {last : Value} {machine after : Machine},
      Block.eval (Eval.call limit budget) scope last statements machine =
        .error (.error (.callDepthExceeded named)) after →
      Moment.ComesToRefusal limit named ⟨.stmts scope last statements, budget, machine⟩
  | [], last, machine, after, hresult => by
      simp only [Block.eval] at hresult
      cases hresult
  | statement :: statements, last, machine, after, hresult => by
      simp only [Block.eval] at hresult
      rcases Eval.bind_eq_error hresult with hfirst | ⟨value, middle, hfirst, hmore⟩
      · exact (Stmt.comesToRefusal hcalls statement hfirst).of_begins .firstStmt
      · exact (Block.comesToRefusal hcalls statements hmore).of_begins (.otherStmts hfirst)

end

/-- What a call fails with, its body has failed with. -/
theorem Eval.leave_eq_error {result : EStateM.Result Signal Machine Value} {error : RuntimeError}
    {after : Machine} (hleave : Eval.leave result = .error (.error error) after) :
    ∃ inside, result = .error (.error error) inside := by
  cases result with
  | ok value inside => cases hleave
  | error signal inside =>
      cases signal with
      | ret value => cases hleave
      | error other =>
          cases hleave
          exact ⟨inside, rfl⟩

/-- The induction is on the budget: the body of a function has a smaller one. -/
theorem Eval.call_comesToRefusal (limit named budget : Nat) :
    Eval.CallsComeToRefusal limit named budget := by
  induction budget using Nat.strongRecOn with
  | _ budget ih =>
      intro callee arguments machine after hresult
      cases Eval.call_cases limit budget callee arguments machine with
      | notAFunction hcallee hcall | wrongCount hcallee hcount hcall =>
          rw [hcall] at hresult
          cases hresult
      | @refused function hcallee hcount hspent hcall =>
          subst hcallee
          have hsame := hcall
          rw [hresult] at hsame
          cases hsame
          exact ⟨rfl, 0, _, .now, function, arguments, rfl, hcount, hcall⟩
      | @entered function rest hcallee hcount hbudget hdepth hcall =>
          subst hcallee
          subst hbudget
          rw [hcall] at hresult
          obtain ⟨inside, hbody⟩ := Eval.leave_eq_error hresult
          exact (Block.comesToRefusal (ih rest (Nat.lt_succ_self _)) function.body hbody).of_begins
            (.body hcount hdepth)

end Refusals

/-- A run that fails for the depth of calls comes to a call that is refused, and it names its own
limit. -/
theorem Evaluator.comesToRefusal {evaluator : Evaluator} {store : Store} {scope : ScopeId}
    {fragment : Fragment} {named : Nat}
    (hflow : (evaluator.run store scope fragment).1 = .error (.callDepthExceeded named)) :
    (evaluator.start store scope fragment).ComesToRefusal evaluator.limit named := by
  have hcalls := Eval.call_comesToRefusal evaluator.limit named (evaluator.limit - evaluator.depth)
  obtain ⟨after, hresult⟩ : ∃ after,
      fragment.eval (Eval.call evaluator.limit (evaluator.limit - evaluator.depth)) scope
        ⟨store, evaluator.depth⟩ = .error (.error (.callDepthExceeded named)) after := by
    simp only [Evaluator.run] at hflow
    generalize fragment.eval _ scope _ = result at hflow ⊢
    cases result with
    | ok value after => cases hflow
    | error signal after =>
        cases signal with
        | ret value => cases hflow
        | error error =>
            cases hflow
            exact ⟨after, rfl⟩
  cases fragment with
  | block statements => exact Block.comesToRefusal hcalls statements hresult
  | statement stmt => exact Stmt.comesToRefusal hcalls stmt hresult
  | expression expr => exact Expr.comesToRefusal hcalls expr hresult

end LetScript
