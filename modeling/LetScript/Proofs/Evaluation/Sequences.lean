import LetScript.Proofs.Evaluation.Depth

/-!
# Runs in a row

A run starts from a store and leaves one, and it leaves the evaluator as it was.  So the statements of a block and
the arguments of a call are runs one behind the other.

* `Signal.flow` — how a run ends that is cut short.
* `Evaluator.run_eq_iff`, `Evaluator.run_eq_value_iff`, `Evaluator.run_eq_signal_iff` — a run, and the evaluation that
  it stands for.
* `Evaluator.Completes` — fragments in a row all end in values; `Evaluator.StopsAt` — one of them is the first that
  does not.
* `Evaluator.completes_or_stopsAt` — one of the two is the case.
* `Evaluator.Completes.evalAll_eq`, `Evaluator.StopsAt.evalAll_eq` — arguments end as the runs in a row do.
* `Evaluator.StopsAt.block_eq` — statements end as the one that is cut short.
-/

namespace LetScript

/-- How a run ends that is cut short. -/
def Signal.flow : Signal → Flow
  | ret v => .ret v
  | error e => .error e

namespace Flow

variable {result : EStateM.Result Signal Machine Value} {machine : Machine} {value : Value} {signal : Signal}

theorem ofResult_eq_value_iff : ofResult result = (.value value, machine) ↔ result = .ok value machine := by
  cases result with
  | ok other left => simp [ofResult]
  | error other left => cases other <;> simp [ofResult]

theorem ofResult_eq_signal_iff : ofResult result = (signal.flow, machine) ↔ result = .error signal machine := by
  cases result with
  | ok other left => cases signal <;> simp [ofResult, Signal.flow]
  | error other left => cases signal <;> cases other <;> simp [ofResult, Signal.flow]

end Flow

namespace Evaluator

variable {evaluator : Evaluator} {scope : ScopeId} {store after : Store} {fragment : Fragment} {flow : Flow}
  {value : Value} {signal : Signal}

/-! ## One run -/

/-- The way in which an evaluator calls a function. -/
def apply (evaluator : Evaluator) : Value → List Value → Eval Value :=
  Eval.call evaluator.limit (evaluator.limit - evaluator.depth)

theorem run_eq_iff :
    evaluator.run store scope fragment = (flow, evaluator, after) ↔
      Flow.ofResult (fragment.eval evaluator.apply scope ⟨store, evaluator.depth⟩) =
        (flow, ⟨after, evaluator.depth⟩) := by
  obtain ⟨limit, depth⟩ := evaluator
  simp only [run, apply]
  generalize Flow.ofResult _ = result
  obtain ⟨other, left, count⟩ := result
  simp only [Prod.mk.injEq, Evaluator.mk.injEq, Machine.mk.injEq, true_and, and_comm]

theorem run_eq_value_iff :
    evaluator.run store scope fragment = (.value value, evaluator, after) ↔
      fragment.eval evaluator.apply scope ⟨store, evaluator.depth⟩ = .ok value ⟨after, evaluator.depth⟩ :=
  run_eq_iff.trans Flow.ofResult_eq_value_iff

theorem run_eq_signal_iff :
    evaluator.run store scope fragment = (signal.flow, evaluator, after) ↔
      fragment.eval evaluator.apply scope ⟨store, evaluator.depth⟩ = .error signal ⟨after, evaluator.depth⟩ :=
  run_eq_iff.trans Flow.ofResult_eq_signal_iff

theorem exists_run_eq (evaluator : Evaluator) (store : Store) (scope : ScopeId) (fragment : Fragment) :
    ∃ flow after, evaluator.run store scope fragment = (flow, evaluator, after) :=
  ⟨_, _, Prod.ext rfl (Prod.ext (evaluator.run_evaluator store scope fragment) rfl)⟩

/-- A run ends in a value, or it is cut short. -/
theorem run_cases (evaluator : Evaluator) (store : Store) (scope : ScopeId) (fragment : Fragment) :
    (∃ value after, evaluator.run store scope fragment = (.value value, evaluator, after)) ∨
      ∃ (signal : Signal) (after : Store),
        evaluator.run store scope fragment = (signal.flow, evaluator, after) := by
  obtain ⟨flow, after, hrun⟩ := evaluator.exists_run_eq store scope fragment
  cases flow with
  | value value => exact .inl ⟨value, after, hrun⟩
  | ret value => exact .inr ⟨.ret value, after, hrun⟩
  | error error => exact .inr ⟨.error error, after, hrun⟩

/-! ## Runs in a row -/

/-- The fragments end in the values, each of them run in the store that the one before has left. -/
inductive Completes (evaluator : Evaluator) (scope : ScopeId) : Store → List Fragment → List Value → Store → Prop
  | nil {store : Store} : Completes evaluator scope store [] [] store
  | cons {store middle after : Store} {fragment : Fragment} {fragments : List Fragment} {value : Value}
      {values : List Value}
      (hfirst : evaluator.run store scope fragment = (.value value, evaluator, middle))
      (hothers : Completes evaluator scope middle fragments values after) :
      Completes evaluator scope store (fragment :: fragments) (value :: values) after

/-- The fragments before number `count` end in values, and leave the store `reached`.  The run of that one is cut
short. -/
inductive StopsAt (evaluator : Evaluator) (scope : ScopeId) :
    Store → List Fragment → Nat → Store → Signal → Store → Prop
  | here {store after : Store} {fragment : Fragment} {fragments : List Fragment} {signal : Signal}
      (hstops : evaluator.run store scope fragment = (signal.flow, evaluator, after)) :
      StopsAt evaluator scope store (fragment :: fragments) 0 store signal after
  | later {store middle reached after : Store} {fragment : Fragment} {fragments : List Fragment} {value : Value}
      {count : Nat} {signal : Signal}
      (hfirst : evaluator.run store scope fragment = (.value value, evaluator, middle))
      (hlater : StopsAt evaluator scope middle fragments count reached signal after) :
      StopsAt evaluator scope store (fragment :: fragments) (count + 1) reached signal after

theorem completes_or_stopsAt (evaluator : Evaluator) (scope : ScopeId) (store : Store) (fragments : List Fragment) :
    (∃ values after, evaluator.Completes scope store fragments values after) ∨
      ∃ count reached signal after, evaluator.StopsAt scope store fragments count reached signal after := by
  induction fragments generalizing store with
  | nil => exact .inl ⟨[], store, .nil⟩
  | cons fragment fragments ih =>
      rcases evaluator.run_cases store scope fragment with ⟨value, middle, hfirst⟩ | ⟨signal, after, hstops⟩
      · rcases ih middle with ⟨values, after, hothers⟩ | ⟨count, reached, signal, after, hlater⟩
        · exact .inl ⟨value :: values, after, .cons hfirst hothers⟩
        · exact .inr ⟨count + 1, reached, signal, after, .later hfirst hlater⟩
      · exact .inr ⟨0, store, signal, after, .here hstops⟩

/-- The fragment that is cut short. -/
theorem StopsAt.run_getElem? {fragments : List Fragment} {count : Nat} {reached : Store}
    (hstops : evaluator.StopsAt scope store fragments count reached signal after)
    (hfragment : fragments[count]? = some fragment) :
    evaluator.run reached scope fragment = (signal.flow, evaluator, after) := by
  induction hstops with
  | here hrun =>
      cases hfragment
      exact hrun
  | later _ _ ih => exact ih hfragment

/-- What comes behind the fragment that is cut short does not matter. -/
theorem StopsAt.take_append {fragments : List Fragment} {count : Nat} {reached : Store}
    (hstops : evaluator.StopsAt scope store fragments count reached signal after) (others : List Fragment) :
    evaluator.StopsAt scope store (fragments.take (count + 1) ++ others) count reached signal after := by
  induction hstops with
  | here hrun => exact .here hrun
  | later hfirst _ ih => exact .later hfirst ih

/-! ## Arguments -/

theorem Completes.evalAll_eq {exprs : List Expr} {values : List Value}
    (hcompletes : evaluator.Completes scope store (exprs.map .expression) values after) :
    Expr.evalAll evaluator.apply scope exprs ⟨store, evaluator.depth⟩ = .ok values ⟨after, evaluator.depth⟩ := by
  induction exprs generalizing store values with
  | nil =>
      cases hcompletes
      rfl
  | cons expr exprs ih =>
      cases hcompletes with
      | cons hfirst hothers =>
          have hexpr : expr.eval evaluator.apply scope _ = .ok _ _ := run_eq_value_iff.1 hfirst
          rw [Expr.evalAll, Eval.bind_of_ok hexpr, Eval.bind_of_ok (ih hothers)]
          rfl

theorem StopsAt.evalAll_eq {exprs : List Expr} {count : Nat} {reached : Store}
    (hstops : evaluator.StopsAt scope store (exprs.map .expression) count reached signal after) :
    Expr.evalAll evaluator.apply scope exprs ⟨store, evaluator.depth⟩ = .error signal ⟨after, evaluator.depth⟩ := by
  induction exprs generalizing store count with
  | nil => cases hstops
  | cons expr exprs ih =>
      cases hstops with
      | here hrun =>
          have hexpr : expr.eval evaluator.apply scope _ = .error _ _ := run_eq_signal_iff.1 hrun
          rw [Expr.evalAll, Eval.bind_of_error hexpr]
      | later hfirst hlater =>
          have hexpr : expr.eval evaluator.apply scope _ = .ok _ _ := run_eq_value_iff.1 hfirst
          rw [Expr.evalAll, Eval.bind_of_ok hexpr, Eval.bind_of_error (ih hlater)]

/-! ## Statements -/

theorem StopsAt.block_eq {statements : Block} {count : Nat} {reached : Store}
    (hstops : evaluator.StopsAt scope store (statements.map .statement) count reached signal after) (last : Value) :
    Block.eval evaluator.apply scope last statements ⟨store, evaluator.depth⟩ =
      .error signal ⟨after, evaluator.depth⟩ := by
  induction statements generalizing store count last with
  | nil => cases hstops
  | cons statement statements ih =>
      cases hstops with
      | here hrun =>
          have hstatement : statement.eval evaluator.apply scope _ = .error _ _ := run_eq_signal_iff.1 hrun
          rw [Block.eval, Eval.bind_of_error hstatement]
      | later hfirst hlater =>
          have hstatement : statement.eval evaluator.apply scope _ = .ok _ _ := run_eq_value_iff.1 hfirst
          rw [Block.eval, Eval.bind_of_ok hstatement, ih hlater]

end Evaluator

end LetScript
