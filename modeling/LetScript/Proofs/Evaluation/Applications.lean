import LetScript.Proofs.Evaluation.Frame
import LetScript.Proofs.Evaluation.Sequences

/-!
# How a call ends

A call runs its callee, then its arguments in a row, and then the body of the function.

* `Bindings.insertAll` — bindings after names have been bound one after the other; the last value for a name counts.
* `Store.Opens` — the scope that a call makes: what is found in it, and that no other scope has changed.
* `Evaluator.Applies`, `Evaluator.CallEnds` — how the call of a value and a call expression end, one rule for each way.
* `Evaluator.exists_callEnds` — a rule applies; `Evaluator.CallEnds.run_eq` — the run is as it says.
* `Evaluator.run_call_iff` — so a call expression ends as the rules say, and in no other way.
-/

namespace LetScript

/-! ## The scope of a call -/

/-- The bindings with names bound anew, one after the other. -/
def Bindings.insertAll : List String → List Value → Bindings → Bindings
  | name :: names, value :: values, bindings =>
      Bindings.insertAll names values (Bindings.insert name value bindings)
  | _, _, bindings => bindings

namespace Bindings

variable {names : List String} {values : List Value} {bindings : Bindings} {name : String}

theorem lookup_insertAll_of_notMem (hname : name ∉ names) :
    (insertAll names values bindings).lookup name = bindings.lookup name := by
  induction names generalizing values bindings with
  | nil => rfl
  | cons first names ih =>
      cases values with
      | nil => rfl
      | cons value values =>
          obtain ⟨hfirst, hothers⟩ := not_or.1 (mt List.mem_cons.2 hname)
          rw [insertAll, ih hothers, lookup_insert, if_neg hfirst]

/-- A name is bound to the value at the last place at which it stands. -/
theorem lookup_insertAll_of_last {place : Nat} (hcount : names.length = values.length)
    (hplace : names[place]? = some name) (hlast : ∀ later, place < later → names[later]? ≠ some name) :
    (insertAll names values bindings).lookup name = values[place]? := by
  induction names generalizing values bindings place with
  | nil => cases hplace
  | cons first names ih =>
      cases values with
      | nil => cases hcount
      | cons value values =>
          rw [insertAll]
          cases place with
          | zero =>
              have hothers : name ∉ names := by
                intro hmem
                obtain ⟨later, hlater⟩ := List.mem_iff_getElem?.1 hmem
                exact hlast (later + 1) (Nat.succ_pos later) hlater
              obtain rfl : first = name := Option.some.inj hplace
              rw [lookup_insertAll_of_notMem hothers, lookup_insert, if_pos rfl]
              rfl
          | succ place =>
              refine ih (Nat.succ.inj hcount) hplace ?_
              intro later hlater
              exact hlast (later + 1) (Nat.succ_lt_succ hlater)

end Bindings

namespace Store

variable {f : Function} {arguments : List Value}

theorem getElem?_bindAll_self (store : Store) (scope : ScopeId) (names : List String) (values : List Value) :
    (store.bindAll scope names values).scopes[scope]? =
      store.scopes[scope]?.map fun s => { s with bindings := Bindings.insertAll names values s.bindings } := by
  induction names generalizing store values with
  | nil => simp [bindAll, Bindings.insertAll]
  | cons name names ih =>
      cases values with
      | nil => simp [bindAll, Bindings.insertAll]
      | cons value values =>
          rw [bindAll, ih, getElem?_bind_self, Option.map_map]
          rfl

/-- The second store is the first with one more scope, in which the parameters are bound to the arguments.  A
parameter is found there as the argument at the last place that has its name, and every other name is found as from
the scope in which the function was made. -/
structure Opens (store : Store) (f : Function) (arguments : List Value) (entered : Store) : Prop where
  entered_eq : entered =
    (store.enclose (some f.scope)).2.bindAll store.scopes.size f.parameters arguments
  size_eq : entered.scopes.size = store.scopes.size + 1
  keeps : store.Keeps entered
  get?_parameter : ∀ (place : Nat) (name : String), f.parameters[place]? = some name →
    (∀ later, place < later → f.parameters[later]? ≠ some name) →
      entered.get? store.scopes.size name = arguments[place]?
  get?_other : ∀ name, name ∉ f.parameters → entered.get? store.scopes.size name = store.get? f.scope name

theorem getElem?_enter (store : Store) (depth : Nat) (f : Function) (arguments : List Value) :
    (Machine.enter ⟨store, depth⟩ f arguments).store.scopes[store.scopes.size]? =
      some ⟨Bindings.insertAll f.parameters arguments [], some f.scope⟩ := by
  rw [Machine.enter, getElem?_bindAll_self, getElem?_enclose, if_pos rfl]
  rfl

theorem opens_enter (store : Store) (depth : Nat) (hcount : f.parameters.length = arguments.length) :
    store.Opens f arguments (Machine.enter ⟨store, depth⟩ f arguments).store := by
  have hnew := store.getElem?_enter depth f arguments
  have hkeeps := Machine.keeps_enter ⟨store, depth⟩ f arguments
  refine ⟨rfl, Machine.size_enter ⟨store, depth⟩ f arguments, hkeeps, ?parameter, ?other⟩
  case parameter =>
    intro place name hplace hlast
    have hlt : place < arguments.length := hcount ▸ (List.getElem?_eq_some_iff.1 hplace).1
    rw [get?_of_getElem? hnew, Bindings.lookup_insertAll_of_last hcount hplace hlast,
      List.getElem?_eq_getElem hlt, Option.some_or]
  case other =>
    intro name hname
    rw [get?_of_getElem? hnew, Bindings.lookup_insertAll_of_notMem hname]
    show (if f.scope < store.scopes.size then _ else none) = store.get? f.scope name
    split
    · next hscope => exact hkeeps.get?_eq hscope name
    · next hscope =>
        exact (get?_of_getElem?_none (Array.getElem?_eq_none (Nat.le_of_not_lt hscope)) name).symm

end Store

/-! ## The rules of a call -/

/-- What a call makes of the end of its body: a return ends there. -/
def Flow.received : Flow → Flow
  | value v => .value v
  | ret v => .value v
  | error e => .error e

namespace Evaluator

/-- The evaluator within one more call. -/
def deeper (evaluator : Evaluator) : Evaluator :=
  { evaluator with depth := evaluator.depth + 1 }

/-- How a value ends that is applied to others in a store, and what it leaves.  A value that is no function is
refused first, a wrong number of arguments next, and then a call at the limit; each leaves the store as it is.
Otherwise the body is run in a new scope, one call deeper. -/
inductive Applies (evaluator : Evaluator) : Value → List Value → Store → Flow → Store → Prop
  | notAFunction {callee : Value} {arguments : List Value} {store : Store} (hcallee : ∀ f, callee ≠ .function f) :
      Applies evaluator callee arguments store (.error (.notAFunction callee.type)) store
  | wrongCount {f : Function} {arguments : List Value} {store : Store}
      (hcount : f.parameters.length ≠ arguments.length) :
      Applies evaluator (.function f) arguments store
        (.error (.wrongArgumentCount f.parameters.length arguments.length)) store
  | refused {f : Function} {arguments : List Value} {store : Store}
      (hcount : f.parameters.length = arguments.length) (hlimit : evaluator.limit ≤ evaluator.depth) :
      Applies evaluator (.function f) arguments store (.error (.callDepthExceeded evaluator.limit)) store
  | entered {f : Function} {arguments : List Value} {store entered after : Store} {flow : Flow}
      (hcount : f.parameters.length = arguments.length) (hlimit : evaluator.depth < evaluator.limit)
      (hopens : store.Opens f arguments entered)
      (hbody : evaluator.deeper.run entered store.scopes.size (.block f.body) = (flow, evaluator.deeper, after)) :
      Applies evaluator (.function f) arguments store flow.received after

/-- How a call expression ends in a scope, and what it leaves.  The callee is run, then the arguments from left to
right in the same scope.  The first of these that does not end in a value ends the call; if there is none, the value
of the callee is applied to theirs. -/
inductive CallEnds (evaluator : Evaluator) (scope : ScopeId) (callee : Expr) (arguments : List Expr) :
    Store → Flow → Store → Prop
  | calleeStops {signal : Signal} {store after : Store}
      (hcallee : evaluator.run store scope (.expression callee) = (signal.flow, evaluator, after)) :
      CallEnds evaluator scope callee arguments store signal.flow after
  | argumentStops {value : Value} {signal : Signal} {store middle reached after : Store} {count : Nat}
      (hcallee : evaluator.run store scope (.expression callee) = (.value value, evaluator, middle))
      (hstops : evaluator.StopsAt scope middle (arguments.map .expression) count reached signal after) :
      CallEnds evaluator scope callee arguments store signal.flow after
  | applied {value : Value} {values : List Value} {flow : Flow} {store middle last after : Store}
      (hcallee : evaluator.run store scope (.expression callee) = (.value value, evaluator, middle))
      (harguments : evaluator.Completes scope middle (arguments.map .expression) values last)
      (happlies : evaluator.Applies value values last flow after) :
      CallEnds evaluator scope callee arguments store flow after

/-! ## Every call ends by a rule -/

theorem exists_applies (evaluator : Evaluator) (callee : Value) (arguments : List Value) (store : Store) :
    ∃ flow after, evaluator.Applies callee arguments store flow after := by
  by_cases hcallee : ∃ f, callee = .function f
  · obtain ⟨f, rfl⟩ := hcallee
    by_cases hcount : f.parameters.length = arguments.length
    · by_cases hlimit : evaluator.limit ≤ evaluator.depth
      · exact ⟨_, store, .refused hcount hlimit⟩
      · have hopens := store.opens_enter evaluator.depth hcount
        obtain ⟨flow, after, hbody⟩ := evaluator.deeper.exists_run_eq
          (Machine.enter ⟨store, evaluator.depth⟩ f arguments).store store.scopes.size (.block f.body)
        exact ⟨flow.received, after, .entered hcount (Nat.lt_of_not_le hlimit) hopens hbody⟩
    · exact ⟨_, store, .wrongCount hcount⟩
  · exact ⟨_, store, .notAFunction fun f heq => hcallee ⟨f, heq⟩⟩

theorem exists_callEnds (evaluator : Evaluator) (scope : ScopeId) (callee : Expr) (arguments : List Expr)
    (store : Store) : ∃ flow after, evaluator.CallEnds scope callee arguments store flow after := by
  rcases evaluator.run_cases store scope (.expression callee) with
    ⟨value, middle, hcallee⟩ | ⟨signal, after, hcallee⟩
  · rcases evaluator.completes_or_stopsAt scope middle (arguments.map .expression) with
      ⟨values, last, harguments⟩ | ⟨count, reached, signal, after, hstops⟩
    · obtain ⟨flow, after, happlies⟩ := evaluator.exists_applies value values last
      exact ⟨flow, after, .applied hcallee harguments happlies⟩
    · exact ⟨signal.flow, after, .argumentStops hcallee hstops⟩
  · exact ⟨signal.flow, after, .calleeStops hcallee⟩

/-! ## The run of a call -/

section Run

variable {evaluator : Evaluator} {scope : ScopeId} {store after : Store} {flow : Flow}

theorem ofResult_leave {result : EStateM.Result Signal Machine Value} {machine : Machine}
    (hresult : Flow.ofResult result = (flow, machine)) :
    Flow.ofResult (Eval.leave result) = (flow.received, machine.leave) := by
  cases result with
  | ok value left =>
      cases hresult
      rfl
  | error signal left =>
      cases signal <;> cases hresult <;> rfl

theorem Applies.call_eq {callee : Value} {arguments : List Value}
    (happlies : evaluator.Applies callee arguments store flow after) :
    Flow.ofResult (evaluator.apply callee arguments ⟨store, evaluator.depth⟩) = (flow, ⟨after, evaluator.depth⟩) := by
  cases happlies with
  | notAFunction hcallee =>
      rw [apply, Eval.call_of_notAFunction hcallee]
      rfl
  | wrongCount hcount =>
      rw [apply, Eval.call_of_wrongCount hcount]
      rfl
  | refused hcount hlimit =>
      rw [apply, Eval.call_of_refused hcount (.inl hlimit)]
      rfl
  | @entered f _ _ entered _ _ hcount hlimit hopens hbody =>
      obtain ⟨rest, hrest⟩ : ∃ rest, evaluator.limit - evaluator.depth = rest + 1 :=
        Nat.exists_eq_succ_of_ne_zero (Nat.sub_ne_zero_of_lt hlimit)
      have hdeeper : evaluator.limit - (evaluator.depth + 1) = rest := by omega
      have hresult := run_eq_iff.1 hbody
      rw [apply, deeper, hdeeper, hopens.entered_eq] at hresult
      rw [apply, hrest, Eval.call_of_entered hcount hlimit]
      exact ofResult_leave hresult

theorem CallEnds.run_eq {callee : Expr} {arguments : List Expr}
    (hends : evaluator.CallEnds scope callee arguments store flow after) :
    evaluator.run store scope (.expression (.call callee arguments)) = (flow, evaluator, after) := by
  cases hends with
  | calleeStops hcallee =>
      have hfirst : callee.eval evaluator.apply scope _ = .error _ _ := run_eq_signal_iff.1 hcallee
      refine run_eq_signal_iff.2 ?_
      rw [Fragment.eval, Expr.eval, Eval.bind_of_error hfirst]
  | argumentStops hcallee hstops =>
      have hfirst : callee.eval evaluator.apply scope _ = .ok _ _ := run_eq_value_iff.1 hcallee
      refine run_eq_signal_iff.2 ?_
      rw [Fragment.eval, Expr.eval, Eval.bind_of_ok hfirst, Eval.bind_of_error hstops.evalAll_eq]
  | applied hcallee harguments happlies =>
      have hfirst : callee.eval evaluator.apply scope _ = .ok _ _ := run_eq_value_iff.1 hcallee
      refine run_eq_iff.2 ?_
      rw [Fragment.eval, Expr.eval, Eval.bind_of_ok hfirst, Eval.bind_of_ok harguments.evalAll_eq]
      exact happlies.call_eq

/-- A call expression ends as the rules say, and in no other way. -/
theorem run_call_iff (evaluator : Evaluator) (scope : ScopeId) (callee : Expr) (arguments : List Expr)
    (store : Store) (flow : Flow) (after : Store) :
    evaluator.run store scope (.expression (.call callee arguments)) = (flow, evaluator, after) ↔
      evaluator.CallEnds scope callee arguments store flow after := by
  refine ⟨?_, CallEnds.run_eq⟩
  intro hrun
  obtain ⟨other, left, hends⟩ := evaluator.exists_callEnds scope callee arguments store
  rw [hends.run_eq] at hrun
  cases hrun
  exact hends

/-- Of two parameters with one name the last is found, and `k` is found as the argument has bound it. -/
example :
    let f : Function := ⟨0, ["x", "x"], [.expr (.binary .plus (.name "x") (.name "k"))], 0⟩
    let store : Store := ⟨#[⟨[("f", .function f), ("k", .int 1)], none⟩], 1⟩
    let argument : Expr := .cond (.bool true) [.bind "k" (.int 10), .expr (.int 2)] none
    (Evaluator.run {} store 0 (.expression (.call (.name "f") [.int 3, argument]))).1 = .value (.int 12) := by
  decide +kernel

end Run

end Evaluator

end LetScript
