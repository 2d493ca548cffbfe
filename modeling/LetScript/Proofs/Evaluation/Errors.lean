import LetScript.Proofs.Evaluation.Histories

/-!
# Errors are no values of the language

A host can bind an error to a name, a script cannot.

* `Chronicle.errorless` — no value is an error; there is nothing to record.
* `Chronicle.keeps_errorless` — no operation on a store makes an error a value.
* `Flow.TellsErrors` — a flow that is taken for an error is one.
* `Session.errors_are_no_values` — so no scope ever holds an error, and a host is told of one exactly when an
  evaluation has failed.
-/

namespace LetScript

/-- No value is an error. -/
def Chronicle.errorless : Chronicle where
  Record := Unit
  Extends _ _ := True
  store _ store := ∀ value, store.Holds value → value.isError = false
  scope _ _ := True
  value _ value := value.isError = false
  extends_refl _ := trivial
  extends_trans _ _ := trivial
  scope_of_extends _ hscope := hscope
  value_of_extends _ hvalue := hvalue
  value_of_isPlain := by
    intro _ value hplain
    cases value with
    | error error => cases hplain
    | _ => rfl

theorem Chronicle.keeps_errorless : Chronicle.errorless.Keeps where
  empty := ⟨(), fun _ hholds => absurd hholds Store.not_holds_empty⟩
  scope_of_lt _ _ := trivial
  scope_of_function _ := trivial
  value_of_holds hstore hholds := hstore _ hholds
  bind := by
    intro _ store id name value hstore hvalue other hholds
    rcases hholds.of_bind with rfl | hold
    · exact hvalue
    · exact hstore other hold
  clear hstore value hholds := hstore value hholds.of_clear
  enclose hstore _ := ⟨(), trivial, fun value hholds => hstore value hholds.of_enclose, trivial⟩
  makeFunction hstore _ := ⟨(), trivial, hstore, rfl⟩

/-! ## What a host is told -/

/-- A flow carries no error for a value, so what is taken for an error is one. -/
structure Flow.TellsErrors (flow : Flow) : Prop where
  carried : ∀ value, flow.carried? = some value → value.isError = false
  result_iff : ∀ error, flow.result = .error error ↔ flow = .error error
  succeeded_iff : ∀ error, flow.succeeded = .error error ↔ flow = .error error

theorem Flow.succeeded_eq_error_iff {flow : Flow} {error : RuntimeError} :
    flow.succeeded = .error error ↔ flow.result = .error error := by
  unfold succeeded
  split
  · next other heq => simp [heq]
  · next hother =>
      constructor
      · intro hok
        cases hok
      · intro heq
        exact absurd heq (hother error)

theorem Flow.result_eq_error_iff {flow : Flow}
    (hcarried : ∀ value, flow.carried? = some value → value.isError = false) {error : RuntimeError} :
    flow.result = .error error ↔ flow = .error error := by
  cases flow with
  | value v | ret v =>
      have hno : v.isError = false := hcarried v rfl
      constructor
      · intro hresult
        have hv : v = .error error := hresult
        rw [hv] at hno
        cases hno
      · intro heq
        cases heq
  | error other =>
      constructor
      · intro hresult
        cases hresult
        rfl
      · rintro ⟨⟩
        rfl

theorem Flow.tellsErrors {flow : Flow}
    (hcarried : ∀ value, flow.carried? = some value → value.isError = false) : flow.TellsErrors where
  carried := hcarried
  result_iff _ := Flow.result_eq_error_iff hcarried
  succeeded_iff _ := Flow.succeeded_eq_error_iff.trans (Flow.result_eq_error_iff hcarried)

/-- No error is a value at a moment at which others wait: no scope holds one, none waits, and none comes of what
is evaluated next. -/
structure Moment.Errorless (limit : Nat) (waiting : List Value) (moment : Moment) : Prop where
  holds : ∀ value, moment.machine.store.Holds value → value.isError = false
  waits : ∀ value ∈ waiting, value.isError = false
  tells : ∀ (scope : ScopeId) (fragment : Fragment), moment.task = fragment.task scope →
    (Flow.ofResult (fragment.eval (Eval.call limit moment.budget) scope moment.machine)).1.TellsErrors

theorem Moment.Course.errorless {limit : Nat} {start moment : Moment} {waiting : List Value}
    (hcourse : Course limit start waiting moment) (hstart : Chronicle.errorless.moment () start) :
    moment.Errorless limit waiting := by
  obtain ⟨record, -, ⟨hstore, -⟩, hwaiting⟩ := hcourse.recorded Chronicle.keeps_errorless hstart
  refine ⟨hstore, hwaiting, ?_⟩
  intro scope fragment _
  obtain ⟨more, -, -, hcarried⟩ :=
    (Chronicle.keeps_errorless.continues_fragment fragment hstore trivial).flow
  exact Flow.tellsErrors hcarried

theorem Evaluator.tellsErrors_run (evaluator : Evaluator) {store : Store} {scope : ScopeId}
    (fragment : Fragment) (hstore : ∀ value, store.Holds value → value.isError = false)
    (hscope : scope < store.scopes.size) : (evaluator.run store scope fragment).1.TellsErrors := by
  have hrecord : Chronicle.errorless.store () store := hstore
  obtain ⟨record, -, -, hcarried⟩ := Chronicle.keeps_errorless.run evaluator fragment hrecord hscope
  exact Flow.tellsErrors hcarried

theorem Program.tellsErrors_flow (program : Program) : program.flow.TellsErrors := by
  refine Evaluator.tellsErrors_run {} (.block program.statements) ?_ (Nat.zero_lt_one)
  intro value hholds
  exact absurd hholds.of_enclose Store.not_holds_empty

/-- A script fails at run time exactly when it is read without errors and its evaluation ends in an error. -/
theorem runText_eq_runtime_iff {text : String} {error : RuntimeError} :
    runText text = .error (.runtime error) ↔
      (Parsed.ofText text).errors = [] ∧ (Parsed.ofText text).program.flow = .error error := by
  have htells := (Parsed.ofText text).program.tellsErrors_flow
  rw [← htells.succeeded_iff, runText, ← List.isEmpty_iff]
  split
  · next hempty =>
      cases (Parsed.ofText text).program.flow.succeeded with
      | ok value => simp
      | error other => simp [hempty]
  · next hsome => simp [hsome]

/-- Whatever a host does that binds no error itself: at no time does a scope hold an error, no evaluation gives
one as a value or a return, and so an error is told exactly when the evaluation has failed with it.  The same
holds of a script that is run by itself. -/
theorem Session.errors_are_no_values :
    (∀ (session : Session) (flows : List Flow),
      session.History (fun value => value.isError = false) flows →
        (∀ value, session.store.Holds value → value.isError = false) ∧
        (∀ flow ∈ flows, flow.TellsErrors) ∧
        ∀ (evaluator : Evaluator) (scope : ScopeId) (fragment : Fragment),
          scope < session.store.scopes.size →
            (evaluator.run session.store scope fragment).1.TellsErrors ∧
            ∀ (waiting : List Value) (moment : Moment),
              Moment.Course evaluator.limit (evaluator.start session.store scope fragment) waiting moment →
                moment.Errorless evaluator.limit waiting) ∧
    ∀ (text : String) (error : RuntimeError),
      runText text = .error (.runtime error) ↔
        (Parsed.ofText text).errors = [] ∧ (Parsed.ofText text).program.flow = .error error := by
  refine ⟨?_, fun text error => runText_eq_runtime_iff⟩
  intro session flows hhistory
  obtain ⟨record, hstore, hgiven⟩ :=
    Chronicle.keeps_errorless.history (fun _ value hvalue => hvalue) hhistory
  refine ⟨hstore, ?_, ?_⟩
  · intro flow hflow
    exact Flow.tellsErrors fun value hcarried => hgiven value ⟨flow, hflow, hcarried⟩
  · intro evaluator scope fragment hscope
    refine ⟨evaluator.tellsErrors_run fragment hstore hscope, ?_⟩
    intro waiting moment hcourse
    exact hcourse.errorless (Chronicle.moment_start hstore trivial)

/-- A script calls a function that divides its argument by a name that a host has bound to zero: the call fails,
the argument that it was given is no error, and no scope holds an error behind it. -/
theorem Session.failed_call_stores_no_error :
    let quotient : Function := ⟨0, ["a"], [.expr (.binary .slash (.name "a") (.name "x"))], 0⟩
    let script : Fragment := .expression (.call quotient.literal [.int 5])
    let before := Session.start.set 0 "x" (.int 0)
    let after := (before.evaluate 0 script).2
    let moment : Moment :=
      ⟨.call (.function quotient) [.int 5], 128, ⟨{ before.store with functions := 1 }, 0⟩⟩
    (before.evaluate 0 script).1 = .error .divisionByZero ∧
      (before.evaluate 0 script).1.TellsErrors ∧
      moment.Errorless 128 [.function quotient, .int 5] ∧
      after.History (fun value => value.isError = false) [.error .divisionByZero] ∧
      (∀ value, after.store.Holds value → value.isError = false) ∧
      runText "1 / 0" = .error (.runtime .divisionByZero) := by
  intro quotient script before after moment
  have hflow : (before.evaluate 0 script).1 = .error .divisionByZero := by decide +kernel
  have hbefore : before.History (fun value => value.isError = false) [] := .act .start (.set (.inl rfl))
  have hafter : after.History (fun value => value.isError = false) [.error .divisionByZero] := by
    have hact : before.Act (fun value => value.isError = false) [] after [(before.evaluate 0 script).1] :=
      .evaluate (by decide)
    rw [hflow] at hact
    exact hbefore.act hact
  have hcourse : Moment.Course 128 (before.evaluator.start before.store 0 script)
      [.function quotient, .int 5] moment := by
    have hcall : Moment.Begins 128 (before.evaluator.start before.store 0 script) 0 moment := .call rfl rfl
    exact .later (.given hcall) .now
  obtain ⟨hsessions, hscripts⟩ := Session.errors_are_no_values
  obtain ⟨-, -, hruns⟩ := hsessions before [] hbefore
  obtain ⟨htells, hmoments⟩ := hruns before.evaluator 0 script (by decide)
  obtain ⟨hholds, -, -⟩ := hsessions after _ hafter
  exact ⟨hflow, htells, hmoments _ _ hcourse, hafter, hholds,
    (hscripts "1 / 0" .divisionByZero).2 (by decide +kernel)⟩

end LetScript
