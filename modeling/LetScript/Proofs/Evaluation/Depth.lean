import LetScript.Proofs.Evaluation.Frame
import LetScript.Proofs.Evaluation.Moments
import LetScript.Proofs.Evaluation.Sessions

/-!
# The count of open calls

In the course of an evaluation the count of open calls is what it was at the start, and one more for each
function body that is being evaluated.

* `Moment.depth_after` — however a task ends, the calls that it opened are closed.
* `Eval.call_eq_refused_iff` — a call is refused exactly at the limit.
* `Moment.Steady`, `Moment.Begins.steady`, `Moment.During.steady` — what one step from a task to a part of
  it preserves, and what an evaluation does as a whole.
* `Moment.Counts`, `Evaluator.counts_open_calls` — so the count is right throughout, a call below the limit is the
  evaluation of its body, no call is left open, and the evaluator of a session is as good as a new one.
-/

namespace LetScript

/-! ## The end of a task -/

section Closed

variable {limit budget : Nat} {scope : ScopeId} {machine middle : Machine}

theorem Expr.eval_depth {e : Expr} {value : Value}
    (hresult : e.eval (Eval.call limit budget) scope machine = .ok value middle) :
    middle.depth = machine.depth :=
  ((Expr.eval_meets (Law.governs_depth (Eval.call_depth limit budget) scope) trivial trivial).of_ok hresult).2.1

theorem Expr.evalAll_depth {exprs : List Expr} {values : List Value}
    (hresult : Expr.evalAll (Eval.call limit budget) scope exprs machine = .ok values middle) :
    middle.depth = machine.depth :=
  ((Expr.evalAll_meets (Law.governs_depth (Eval.call_depth limit budget) scope) trivial
    trivial).of_ok hresult).2.1

theorem Stmt.eval_depth {s : Stmt} {value : Value}
    (hresult : s.eval (Eval.call limit budget) scope machine = .ok value middle) :
    middle.depth = machine.depth :=
  ((Stmt.eval_meets (Law.governs_depth (Eval.call_depth limit budget) scope) trivial trivial).of_ok hresult).2.1

end Closed

/-- However a task ends, all the calls that it opened are closed. -/
theorem Moment.depth_after (limit : Nat) (moment : Moment) :
    (moment.after limit).depth = moment.machine.depth := by
  obtain ⟨task, budget, machine⟩ := moment
  have hgoverns := Law.governs_depth (Eval.call_depth limit budget)
  cases task with
  | expr scope e =>
      exact (Expr.eval_meets (hgoverns scope) trivial trivial).allows_machineOf
  | exprs scope exprs =>
      exact (Expr.evalAll_meets (hgoverns scope) trivial trivial).allows_machineOf
  | stmt scope s =>
      exact (Stmt.eval_meets (hgoverns scope) trivial trivial).allows_machineOf
  | stmts scope last statements =>
      have hmeets : Law.depth.Meets Law.depth.admits machine
          (Block.eval (Eval.call limit budget) scope last statements machine) :=
        Block.eval_meets (hgoverns scope) trivial trivial trivial
      exact hmeets.allows_machineOf
  | call callee arguments => exact (Eval.call_depth limit budget callee arguments machine).allows_machineOf

/-- A run leaves the machine in which its task ends. -/
theorem Evaluator.run_snd (evaluator : Evaluator) (store : Store) (scope : ScopeId)
    (fragment : Fragment) :
    (evaluator.run store scope fragment).2 =
      ({ evaluator with depth := ((evaluator.start store scope fragment).after evaluator.limit).depth },
        ((evaluator.start store scope fragment).after evaluator.limit).store) := by
  have hmachine := Flow.ofResult_snd (fragment.eval
    (Eval.call evaluator.limit (evaluator.limit - evaluator.depth)) scope ⟨store, evaluator.depth⟩)
  simp only [Evaluator.run, hmachine]
  cases fragment <;> rfl

/-- A run leaves the evaluator as it was. -/
theorem Evaluator.run_evaluator (evaluator : Evaluator) (store : Store) (scope : ScopeId)
    (fragment : Fragment) : (evaluator.run store scope fragment).2.1 = evaluator := by
  rw [Evaluator.run_snd, Moment.depth_after]
  rfl

/-! ## Refused calls -/

/-- A body that has been entered leaves at least the scope of its parameters behind. -/
theorem Eval.size_lt_of_entered {limit : Nat} {function : Function} {arguments : List Value}
    {machine : Machine} (hcount : function.parameters.length = arguments.length)
    (hdepth : machine.depth < limit) (budget : Nat) :
    machine.store.scopes.size < (Eval.machineOf
      (Eval.call limit (budget + 1) (.function function) arguments machine)).store.scopes.size := by
  rw [Eval.call_of_entered hcount hdepth, Eval.machineOf_leave]
  have hgoverns := Law.governs_frame (Eval.call_keeps limit budget) machine.store.scopes.size
    (Block.lets function.body)
  have hbody := hgoverns.meets_body (machine.enter function arguments) function.body (List.Subset.refl _) trivial
  have hnew : machine.store.scopes.size < (machine.enter function arguments).store.scopes.size := by
    rw [machine.size_enter]
    exact Nat.lt_succ_self _
  obtain ⟨t, ht, -⟩ := hbody.allows_machineOf.own _ (Array.getElem?_eq_getElem hnew)
  exact Store.lt_size_of_getElem? ht

/-- With a budget that lasts until the limit, a call is refused exactly at the limit. -/
theorem Eval.call_eq_refused_iff {limit budget : Nat} {function : Function} {arguments : List Value}
    {machine : Machine} (hcount : function.parameters.length = arguments.length)
    (hdepth : machine.depth ≤ limit) (hbudget : limit - machine.depth ≤ budget) :
    Eval.call limit budget (.function function) arguments machine =
        .error (.error (.callDepthExceeded limit)) machine ↔
      machine.depth = limit := by
  constructor
  · intro hrefused
    rcases Nat.lt_or_eq_of_le hdepth with hbelow | hmet
    · obtain ⟨rest, rfl⟩ : ∃ rest, budget = rest + 1 := ⟨budget - 1, by omega⟩
      have hgrown := Eval.size_lt_of_entered hcount hbelow rest
      -- A refused call leaves no scope behind.
      rw [hrefused] at hgrown
      exact absurd hgrown (Nat.lt_irrefl _)
    · exact hmet
  · intro hmet
    exact Eval.call_of_refused hcount (.inl (Nat.le_of_eq hmet.symm))

/-! ## From one moment to the next -/

namespace Moment

/-- The depth is what is counted and within the limit, and the budget lasts until the limit. -/
structure Steady (limit depth opened : Nat) (moment : Moment) : Prop where
  depth_eq : moment.machine.depth = depth + opened
  depth_le : moment.machine.depth ≤ limit
  budget_le : limit - moment.machine.depth ≤ moment.budget

/-- Nothing but the entry into a body changes the depth; that adds one to it, below the limit, and takes
one from the budget. -/
theorem Begins.steady {limit depth opened more : Nat} {moment part : Moment}
    (hbegins : Begins limit moment more part) (hsteady : Steady limit depth opened moment) :
    Steady limit depth (opened + more) part := by
  obtain ⟨heq, hle, hbudget⟩ := hsteady
  cases hbegins with
  | operand | left | condition | callee | firstExpr | bound | returned | expression | firstStmt =>
      exact ⟨heq, hle, hbudget⟩
  | right hfirst | consequence hfirst | alternative hfirst | arguments hfirst | otherExprs hfirst =>
      have hsame := Expr.eval_depth hfirst
      exact ⟨hsame.trans heq, hsame ▸ hle, hsame ▸ hbudget⟩
  | otherStmts hfirst =>
      have hsame := Stmt.eval_depth hfirst
      exact ⟨hsame.trans heq, hsame ▸ hle, hsame ▸ hbudget⟩
  | call hcallee harguments =>
      have hsame := (Expr.evalAll_depth harguments).trans (Expr.eval_depth hcallee)
      exact ⟨hsame.trans heq, hsame ▸ hle, hsame ▸ hbudget⟩
  | @body function arguments budget machine hcount hdepth =>
      have hentered : (machine.enter function arguments).depth = machine.depth + 1 := rfl
      simp only at heq hbudget
      refine ⟨?_, ?_, ?_⟩
      all_goals
        simp only [hentered]
        omega

/-- So it is in the course of a whole evaluation. -/
theorem During.steady {limit opened : Nat} {start moment : Moment}
    (hduring : During limit start opened moment) :
    ∀ {depth before : Nat}, Steady limit depth before start →
      Steady limit depth (before + opened) moment := by
  induction hduring with
  | now =>
      intro depth before hstart
      exact hstart
  | later hbegins _ ih =>
      intro depth before hstart
      have hlast := ih (hbegins.steady hstart)
      rwa [Nat.add_assoc] at hlast

section Calls

variable {limit depth opened : Nat} {moment : Moment} {function : Function} {arguments : List Value}

theorem Steady.refuses_iff (hsteady : Steady limit depth opened moment)
    (htask : moment.task = .call (.function function) arguments)
    (hcount : function.parameters.length = arguments.length) :
    moment.Refuses limit ↔ moment.machine.depth = limit := by
  have hiff := Eval.call_eq_refused_iff hcount hsteady.depth_le hsteady.budget_le
  constructor
  · rintro ⟨other, values, hother, hsame, hrefused⟩
    rw [htask] at hother
    cases hother
    exact hiff.1 hrefused
  · intro hmet
    exact ⟨function, arguments, htask, hcount, hiff.2 hmet⟩

theorem Steady.enters_iff (hsteady : Steady limit depth opened moment)
    (htask : moment.task = .call (.function function) arguments)
    (hcount : function.parameters.length = arguments.length) :
    (∃ body, Begins limit moment 1 body) ↔ moment.machine.depth < limit := by
  obtain ⟨task, budget, machine⟩ := moment
  subst htask
  constructor
  · rintro ⟨body, hbegins⟩
    cases hbegins with
    | body _ hdepth => exact hdepth
  · intro hbelow
    -- The budget lasts until the limit, so there is some left for the body.
    have hbudget : limit - machine.depth ≤ budget := hsteady.budget_le
    have hsome : 0 < limit - machine.depth := Nat.sub_pos_of_lt hbelow
    cases budget with
    | zero => exact absurd hbudget (Nat.not_le.2 hsome)
    | succ rest => exact ⟨_, .body hcount hbelow⟩

end Calls

/-- The count of open calls at a moment in `opened` function bodies, in an evaluation that started with
`depth` open calls.  It is right and within the limit, and the same again when the task ends.  A call
with the right number of arguments is refused exactly at the limit; below the limit its body is evaluated,
and the call ends with that. -/
structure Counts (limit depth opened : Nat) (moment : Moment) : Prop where
  depth_eq : moment.machine.depth = depth + opened
  depth_le : moment.machine.depth ≤ limit
  depth_after : (moment.after limit).depth = depth + opened
  refuses_iff : ∀ (function : Function) (arguments : List Value),
    moment.task = .call (.function function) arguments →
    function.parameters.length = arguments.length →
      (moment.Refuses limit ↔ moment.machine.depth = limit)
  enters_iff : ∀ (function : Function) (arguments : List Value),
    moment.task = .call (.function function) arguments →
    function.parameters.length = arguments.length →
      ((∃ body, Begins limit moment 1 body) ↔ moment.machine.depth < limit)
  endsWith : ∀ body, Begins limit moment 1 body → moment.EndsWith limit body

theorem Steady.counts {limit depth opened : Nat} {moment : Moment}
    (hsteady : Steady limit depth opened moment) : Counts limit depth opened moment where
  depth_eq := hsteady.depth_eq
  depth_le := hsteady.depth_le
  depth_after := (moment.depth_after limit).trans hsteady.depth_eq
  refuses_iff _ _ := hsteady.refuses_iff
  enters_iff _ _ := hsteady.enters_iff
  endsWith _ := Begins.endsWith

end Moment

/-! ## Evaluators and sessions -/

/-- An evaluation leaves the evaluator of a session as it was. -/
theorem Session.evaluate_evaluator (session : Session) (scope : ScopeId) (fragment : Fragment) :
    (session.evaluate scope fragment).2.evaluator = session.evaluator :=
  session.evaluator.run_evaluator session.store scope fragment

/-- Between its steps a session has no call open. -/
theorem Session.Reachable.depth_eq_zero {session : Session} (hreachable : session.Reachable) :
    session.evaluator.depth = 0 := by
  induction hreachable with
  | start => rfl
  | @step session next _ hstep ih =>
      cases hstep with
      | addScope | set | clear | evaluateFresh => exact ih
      | copy hcopy =>
          obtain ⟨value, -, rfl⟩ := Session.exists_of_copy hcopy
          exact ih
      | limitDepth => rfl
      | evaluate =>
          rw [Session.evaluate_evaluator]
          exact ih

/-- In the course of every evaluation the count of open calls is right and within the limit, a call is
refused exactly at the limit and below it ends with its body, no other failure names the depth of calls, and at
the end the evaluator is as it was.  So in every state of a session its evaluator, under the default limit, does what a new one
does. -/
theorem Evaluator.counts_open_calls :
    (∀ (evaluator : Evaluator) (store : Store) (scope : ScopeId) (fragment : Fragment),
      evaluator.depth ≤ evaluator.limit →
        (∀ (opened : Nat) (moment : Moment),
          Moment.During evaluator.limit (evaluator.start store scope fragment) opened moment →
            moment.Counts evaluator.limit evaluator.depth opened) ∧
        (∀ named : Nat, (evaluator.run store scope fragment).1 = .error (.callDepthExceeded named) →
          (evaluator.start store scope fragment).ComesToRefusal evaluator.limit named) ∧
        (evaluator.run store scope fragment).2.1 = evaluator) ∧
    ∀ session : Session, session.Reachable →
      session.evaluator.limit = ({} : Evaluator).limit →
        ∀ (scope : ScopeId) (fragment : Fragment),
          session.evaluate scope fragment = session.evaluateFresh scope fragment := by
  refine ⟨?_, ?_⟩
  · intro evaluator store scope fragment hdepth
    refine ⟨?_, ?_, evaluator.run_evaluator store scope fragment⟩
    · intro opened moment hduring
      have hstart : Moment.Steady evaluator.limit evaluator.depth 0
          (evaluator.start store scope fragment) := ⟨rfl, hdepth, Nat.le_refl _⟩
      have hsteady := hduring.steady hstart
      rw [Nat.zero_add] at hsteady
      exact hsteady.counts
    · intro named hflow
      exact Evaluator.comesToRefusal hflow
  · intro session hreachable hlimit scope fragment
    have hevaluator : session.evaluator = {} := by
      have hdepth := hreachable.depth_eq_zero
      cases hsession : session.evaluator with
      | mk limit depth =>
          rw [hsession] at hlimit hdepth
          cases hlimit
          cases hdepth
          rfl
    have hsame := session.evaluator.run_evaluator session.store scope fragment
    unfold Session.evaluate Session.evaluateFresh
    rw [← hevaluator]
    simp only [hsame]

/-- Under a limit of one, a function that calls another one: the inner call is refused while the outer one
is open.  And a session goes on as if new behind a function that called itself up to the limit. -/
theorem Evaluator.nested_call_is_refused :
    let inner : Expr := .call (.fn [] []) []
    let outer : Fragment := .expression (.call (.fn [] [.expr inner]) [])
    let loop : Fragment := .block [.bind "f" (.fn [] [.expr (.call (.name "f") [])]),
      .expr (.call (.name "f") [])]
    ∃ (moment : Moment) (session : Session),
      Moment.During 1 (Evaluator.start ⟨1, 0⟩ Session.start.store 0 outer) 1 moment ∧
      moment.Refuses 1 ∧ moment.Counts 1 0 1 ∧ session.Reachable ∧
      session = (Session.start.evaluate 0 loop).2 ∧
      (Session.start.evaluate 0 loop).1 = .error (.callDepthExceeded 128) ∧
      session.evaluate 0 outer = session.evaluateFresh 0 outer := by
  intro inner outer loop
  let session := (Session.start.evaluate 0 loop).2
  let first : Function := ⟨0, [], [.expr inner], 0⟩
  let machine : Machine := ⟨{ Session.start.store with functions := 1 }, 0⟩
  let entered : Machine := machine.enter first []
  let moment : Moment :=
    ⟨.call (.function ⟨1, [], [], 1⟩) [], 0, ⟨{ entered.store with functions := 2 }, 1⟩⟩
  have hcall : Moment.Begins 1 (Evaluator.start ⟨1, 0⟩ Session.start.store 0 outer) 0
      ⟨.call (.function first) [], 1, machine⟩ := .call rfl rfl
  have hbody : Moment.Begins 1 ⟨.call (.function first) [], 1, machine⟩ 1
      ⟨.stmts 1 .null [.expr inner], 0, entered⟩ := .body rfl (by decide)
  have hinner : Moment.Begins 1 ⟨.expr 1 inner, 0, entered⟩ 0 moment := .call rfl rfl
  have hduring : Moment.During 1 (Evaluator.start ⟨1, 0⟩ Session.start.store 0 outer) 1 moment :=
    .later hcall <| .later hbody <| .later .firstStmt <| .later .expression <| .later hinner .now
  have hreachable : session.Reachable := .step .start (.evaluate (by decide))
  have hlimit : session.evaluator.limit = ({} : Evaluator).limit :=
    congrArg Evaluator.limit (Session.start.evaluate_evaluator 0 loop)
  obtain ⟨hruns, hsessions⟩ := Evaluator.counts_open_calls
  have hcounts := (hruns ⟨1, 0⟩ Session.start.store 0 outer (by decide)).1 1 moment hduring
  refine ⟨moment, session, hduring, (hcounts.refuses_iff _ [] rfl rfl).2 rfl, hcounts, hreachable, rfl,
    by decide +kernel, hsessions session hreachable hlimit 0 outer⟩

end LetScript
