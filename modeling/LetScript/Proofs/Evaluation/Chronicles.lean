import LetScript.Proofs.Evaluation.Contents
import LetScript.Proofs.Evaluation.Coupling
import LetScript.Proofs.Evaluation.Moments

/-!
# What is recorded of a run

Some invariants of stores and values refer to what was made before.  They are stated about a record, which is
extended as a run goes on.

* `Chronicle` — what a record says of a store, a scope and a value.
* `Chronicle.Keeps` — every operation on a store keeps to the record, or to an extension of it.
* `Chronicle.coupling` — a chronicle couples each run with itself, so the induction over pairs of runs serves
  here too.
* `Chronicle.Continues`, `Chronicle.Keeps.continues_fragment` — what is asked of the result of an evaluation,
  and that evaluation does it.
* `Moment.Course` — the tasks in the course of another one, with the values that wait outside of the store until
  they end.
* `Moment.Keeping.recorded`, `Moment.Course.recorded` — one step from a task to a part of it keeps to the record,
  waiting values included, and so does the course of an evaluation.
-/

namespace LetScript

/-- What a record says of stores, scopes and values. -/
structure Chronicle where
  Record : Type
  Extends : Record → Record → Prop
  store : Record → Store → Prop
  scope : Record → ScopeId → Prop
  value : Record → Value → Prop
  extends_refl : ∀ record, Extends record record
  extends_trans : ∀ {first second third}, Extends first second → Extends second third → Extends first third
  scope_of_extends : ∀ {record more id}, Extends record more → scope record id → scope more id
  value_of_extends : ∀ {record more v}, Extends record more → value record v → value more v
  value_of_isPlain : ∀ record {v : Value}, v.isPlain = true → value record v

namespace Chronicle

/-- The operations on stores keep to the record, and extend it by what they make. -/
structure Keeps (c : Chronicle) : Prop where
  empty : ∃ record, c.store record {}
  scope_of_lt : ∀ {record store id}, c.store record store → id < store.scopes.size → c.scope record id
  scope_of_function : ∀ {record function}, c.value record (.function function) →
    c.scope record function.scope
  value_of_holds : ∀ {record store value}, c.store record store → store.Holds value → c.value record value
  bind : ∀ {record store id name value}, c.store record store → c.value record value →
    c.store record (store.bind id name value)
  clear : ∀ {record store id}, c.store record store → c.store record (store.clear id)
  enclose : ∀ {record store outer}, c.store record store → (∀ id ∈ outer, c.scope record id) →
    ∃ more, c.Extends record more ∧ c.store more (store.enclose outer).2 ∧ c.scope more store.scopes.size
  makeFunction : ∀ {record store parameters body id}, c.store record store → c.scope record id →
    ∃ more, c.Extends record more ∧ c.store more (store.makeFunction parameters body id).2 ∧
      c.value more (.function (store.makeFunction parameters body id).1)

/-- A run beside itself: both machines, scopes and values are the same and keep to the record. -/
def coupling (c : Chronicle) : Coupling where
  World := c.Record
  Grows := c.Extends
  machines record first second := first = second ∧ c.store record first.store
  scopes record here there := here = there ∧ c.scope record here
  values record a b := a = b ∧ c.value record a
  -- There is only one run, so nothing has to be excused.
  excuses _ := False
  grows_refl := c.extends_refl
  grows_trans := c.extends_trans
  scopes_of_grows hextends := And.imp_right (c.scope_of_extends hextends)
  values_of_grows hextends := And.imp_right (c.value_of_extends hextends)
  alike_of_values hvalues := .inl hvalues.1
  values_of_isPlain record _ hplain := ⟨rfl, c.value_of_isPlain record hplain⟩

variable {c : Chronicle} {record : c.Record} {α : Type}

theorem Keeps.bindAll (hkeeps : c.Keeps) {store : Store} {scope : ScopeId} {names : List String}
    {values : List Value} (hstore : c.store record store) (hvalues : ∀ value ∈ values, c.value record value) :
    c.store record (store.bindAll scope names values) := by
  induction names generalizing store values with
  | nil => exact hstore
  | cons name names ih =>
      cases values with
      | nil => exact hstore
      | cons value values =>
          rw [Store.bindAll]
          refine ih (hkeeps.bind hstore (hvalues value List.mem_cons_self)) ?_
          intro other hother
          exact hvalues other (List.mem_cons_of_mem _ hother)

/-- A body is entered with a scope more, in which the parameters are bound. -/
theorem Keeps.enter (hkeeps : c.Keeps) {machine : Machine} {function : Function} {arguments : List Value}
    (hstore : c.store record machine.store) (hfunction : c.value record (.function function))
    (harguments : ∀ argument ∈ arguments, c.value record argument) :
    ∃ more, c.Extends record more ∧ c.store more (machine.enter function arguments).store ∧
      c.scope more machine.store.scopes.size := by
  have houter : ∀ id ∈ some function.scope, c.scope record id := by
    intro id hid
    cases hid
    exact hkeeps.scope_of_function hfunction
  obtain ⟨more, hextends, hmade, hscope⟩ := hkeeps.enclose hstore houter
  refine ⟨more, hextends, hkeeps.bindAll hmade ?_, hscope⟩
  intro argument hargument
  exact c.value_of_extends hextends (harguments argument hargument)

/-- Lists that are the same and kept to, item by item. -/
theorem forall₂_values_iff {values others : List Value} :
    List.Forall₂ (c.coupling.values record) values others ↔
      values = others ∧ ∀ value ∈ values, c.value record value := by
  constructor
  · intro hvalues
    induction hvalues with
    | nil => exact ⟨rfl, nofun⟩
    | cons hfirst _ ih =>
        obtain ⟨rfl, hvalue⟩ := hfirst
        obtain ⟨rfl, hothers⟩ := ih
        exact ⟨rfl, List.forall_mem_cons.2 ⟨hvalue, hothers⟩⟩
  · rintro ⟨rfl, hvalues⟩
    rw [List.forall₂_same]
    intro value hvalue
    exact ⟨rfl, hvalues value hvalue⟩

theorem Keeps.coupling (hkeeps : c.Keeps) : c.coupling.Keeps where
  lookUp := by
    rintro record machine _ here _ ident ⟨rfl, hstore⟩ ⟨rfl, -⟩
    cases hget : machine.store.get? here ident with
    | some value =>
        rw [Eval.lookUp_of_some hget]
        have hvalue := hkeeps.value_of_holds hstore (Store.holds_of_get? hget)
        exact .ok (c.extends_refl record) ⟨rfl, hstore⟩ ⟨rfl, hvalue⟩
    | none =>
        rw [Eval.lookUp_of_none hget]
        exact .error (c.extends_refl record) ⟨rfl, hstore⟩
  bindName := by
    rintro record machine _ here _ ident a _ ⟨rfl, hstore⟩ ⟨rfl, -⟩ ⟨rfl, hvalue⟩
    exact .ok (c.extends_refl record) ⟨rfl, hkeeps.bind hstore hvalue⟩ trivial
  newFunction := by
    rintro record machine _ here _ parameters body ⟨rfl, hstore⟩ ⟨rfl, hscope⟩
    obtain ⟨more, hextends, hmade, hvalue⟩ := hkeeps.makeFunction hstore hscope
    exact .ok hextends ⟨rfl, hmade⟩ ⟨rfl, hvalue⟩
  depth_eq := by
    rintro record machine _ ⟨rfl, -⟩
    rfl
  literal_eq := by
    rintro record f g ⟨hsame, -⟩
    cases hsame
    exact ⟨rfl, rfl⟩
  enter := by
    rintro record machine _ f g arguments others ⟨rfl, hstore⟩ ⟨hsame, hfunction⟩ harguments
    cases hsame
    obtain ⟨rfl, hvalues⟩ := forall₂_values_iff.1 harguments
    obtain ⟨more, hextends, hentered, hscope⟩ := hkeeps.enter hstore hfunction hvalues
    exact ⟨more, hextends, ⟨rfl, hentered⟩, rfl, hscope⟩
  leave := by
    rintro record machine _ ⟨rfl, hstore⟩
    exact ⟨rfl, hstore⟩

/-! ## Results -/

/-- The result of an evaluation keeps to an extension of the record; `good` is what is asked of its value. -/
def Continues (c : Chronicle) (good : c.Record → α → Prop) (record : c.Record) :
    EStateM.Result Signal Machine α → Prop
  | .ok value after => ∃ more, c.Extends record more ∧ c.store more after.store ∧ good more value
  | .error (.ret value) after =>
      ∃ more, c.Extends record more ∧ c.store more after.store ∧ c.value more value
  | .error (.error _) after => ∃ more, c.Extends record more ∧ c.store more after.store

theorem continues_of_joins {better : c.Record → α → α → Prop} {good : c.Record → α → Prop}
    {result other : EStateM.Result Signal Machine α} (hjoins : c.coupling.Joins better record result other)
    (hgood : ∀ {more a b}, better more a b → good more a) : c.Continues good record result := by
  cases hjoins with
  | ok hextends hmachines hvalues => exact ⟨_, hextends, hmachines.2, hgood hvalues⟩
  | ret hextends hmachines hvalues => exact ⟨_, hextends, hmachines.2, hvalues.2⟩
  | error hextends hmachines => exact ⟨_, hextends, hmachines.2⟩
  | excused hexcuses => cases hexcuses

theorem Continues.of_ok {good : c.Record → α → Prop} {result : EStateM.Result Signal Machine α} {value : α}
    {after : Machine} (hcontinues : c.Continues good record result) (hresult : result = .ok value after) :
    ∃ more, c.Extends record more ∧ c.store more after.store ∧ good more value := by
  rw [hresult] at hcontinues
  exact hcontinues

section Results

variable {limit budget : Nat} {scope : ScopeId} {machine : Machine}

theorem Keeps.callsJoin (hkeeps : c.Keeps) (limit budget : Nat) :
    c.coupling.CallsJoin (Eval.call limit budget) (Eval.call limit budget) :=
  Coupling.call_joins hkeeps.coupling budget ⟨Nat.le_refl _, Nat.le_refl _, .inl ⟨rfl, rfl⟩⟩

theorem Keeps.continues_expr (hkeeps : c.Keeps) (e : Expr) (hstore : c.store record machine.store)
    (hscope : c.scope record scope) :
    c.Continues c.value record (e.eval (Eval.call limit budget) scope machine) :=
  continues_of_joins (Expr.eval_joins hkeeps.coupling (hkeeps.callsJoin limit budget) e ⟨rfl, hstore⟩
    ⟨rfl, hscope⟩) And.right

theorem Keeps.continues_exprs (hkeeps : c.Keeps) (exprs : List Expr) (hstore : c.store record machine.store)
    (hscope : c.scope record scope) :
    c.Continues (fun more values => ∀ value ∈ values, c.value more value) record
      (Expr.evalAll (Eval.call limit budget) scope exprs machine) :=
  continues_of_joins (Expr.evalAll_joins hkeeps.coupling (hkeeps.callsJoin limit budget) exprs
    ⟨rfl, hstore⟩ ⟨rfl, hscope⟩) fun hvalues => (forall₂_values_iff.1 hvalues).2

theorem Keeps.continues_stmt (hkeeps : c.Keeps) (s : Stmt) (hstore : c.store record machine.store)
    (hscope : c.scope record scope) :
    c.Continues c.value record (s.eval (Eval.call limit budget) scope machine) :=
  continues_of_joins (Stmt.eval_joins hkeeps.coupling (hkeeps.callsJoin limit budget) s ⟨rfl, hstore⟩
    ⟨rfl, hscope⟩) And.right

theorem Keeps.continues_fragment (hkeeps : c.Keeps) (fragment : Fragment)
    (hstore : c.store record machine.store) (hscope : c.scope record scope) :
    c.Continues c.value record (fragment.eval (Eval.call limit budget) scope machine) :=
  continues_of_joins (Fragment.eval_joins hkeeps.coupling
    ⟨Nat.le_refl _, Nat.le_refl _, .inl ⟨rfl, rfl⟩⟩ fragment ⟨rfl, hstore⟩ ⟨rfl, hscope⟩) And.right

end Results

/-! ## Moments -/

/-- The scope and the values of a task keep to the record. -/
def task (c : Chronicle) (record : c.Record) : Task → Prop
  | .expr scope _ | .exprs scope _ | .stmt scope _ => c.scope record scope
  | .stmts scope last _ => c.scope record scope ∧ c.value record last
  | .call callee arguments =>
      c.value record callee ∧ ∀ argument ∈ arguments, c.value record argument

/-- A moment keeps to the record. -/
def moment (c : Chronicle) (record : c.Record) (moment : Moment) : Prop :=
  c.store record moment.machine.store ∧ c.task record moment.task

/-- A fragment starts where its scope is. -/
theorem moment_start {evaluator : Evaluator} {store : Store} {scope : ScopeId} {fragment : Fragment}
    (hstore : c.store record store) (hscope : c.scope record scope) :
    c.moment record (evaluator.start store scope fragment) := by
  refine ⟨hstore, ?_⟩
  cases fragment with
  | block statements => exact ⟨hscope, c.value_of_isPlain record rfl⟩
  | statement stmt => exact hscope
  | expression expr => exact hscope

end Chronicle

namespace Moment

variable {c : Chronicle} {limit opened : Nat}

/-- The parts of a task keep to extensions of its record. -/
theorem Begins.recorded (hkeeps : c.Keeps) {moment part : Moment} (hbegins : Begins limit moment opened part)
    {record : c.Record} (hmoment : c.moment record moment) :
    ∃ more, c.Extends record more ∧ c.moment more part := by
  obtain ⟨hstore, htask⟩ := hmoment
  have hsame := c.extends_refl record
  cases hbegins with
  | operand | left | condition | callee | firstExpr | bound | returned | expression =>
      exact ⟨record, hsame, hstore, htask⟩
  | firstStmt => exact ⟨record, hsame, hstore, htask.1⟩
  -- A part behind another one starts with the store and the record that the other one has left.
  | right hfirst | arguments hfirst | otherExprs hfirst =>
      obtain ⟨more, hextends, hmiddle, -⟩ := (hkeeps.continues_expr _ hstore htask).of_ok hfirst
      exact ⟨more, hextends, hmiddle, c.scope_of_extends hextends htask⟩
  | consequence hfirst | alternative hfirst =>
      obtain ⟨more, hextends, hmiddle, -⟩ := (hkeeps.continues_expr _ hstore htask).of_ok hfirst
      exact ⟨more, hextends, hmiddle, c.scope_of_extends hextends htask, c.value_of_isPlain more rfl⟩
  | call hcallee harguments =>
      obtain ⟨more, hextends, hmiddle, hfunction⟩ := (hkeeps.continues_expr _ hstore htask).of_ok hcallee
      obtain ⟨last, hfurther, hlast, hvalues⟩ :=
        (hkeeps.continues_exprs _ hmiddle (c.scope_of_extends hextends htask)).of_ok harguments
      exact ⟨last, c.extends_trans hextends hfurther, hlast, c.value_of_extends hfurther hfunction, hvalues⟩
  | otherStmts hfirst =>
      obtain ⟨more, hextends, hmiddle, hvalue⟩ := (hkeeps.continues_stmt _ hstore htask.1).of_ok hfirst
      exact ⟨more, hextends, hmiddle, c.scope_of_extends hextends htask.1, hvalue⟩
  | body hcount hdepth =>
      obtain ⟨more, hextends, hentered, hscope⟩ := hkeeps.enter hstore htask.1 htask.2
      exact ⟨more, hextends, hentered, hscope, c.value_of_isPlain more rfl⟩

/-! ## Values that wait -/

/-- The values that a task was given. -/
def given (moment : Moment) : List Value :=
  match moment.task with
  | .expr _ _ | .exprs _ _ | .stmt _ _ => []
  | .stmts _ last _ => [last]
  | .call callee arguments => callee :: arguments

/-- A task goes on with a part of it while values wait: those that it was given, or the value of the part before.
-/
inductive Keeping (limit : Nat) : Moment → List Value → Moment → Prop
  | given {moment opened part} (hbegins : Begins limit moment opened part) :
      Keeping limit moment moment.given part
  | left {scope op left right budget machine value middle}
      (hleft : left.eval (Eval.call limit budget) scope machine = .ok value middle) :
      Keeping limit ⟨.expr scope (.binary op left right), budget, machine⟩ [value]
        ⟨.expr scope right, budget, middle⟩
  | condition {scope condition consequence alternative statements budget machine value middle}
      (hcondition : condition.eval (Eval.call limit budget) scope machine = .ok value middle)
      (hbegins : Begins limit ⟨.expr scope (.cond condition consequence alternative), budget, machine⟩ 0
        ⟨.stmts scope .null statements, budget, middle⟩) :
      Keeping limit ⟨.expr scope (.cond condition consequence alternative), budget, machine⟩ [value]
        ⟨.stmts scope .null statements, budget, middle⟩
  | callee {scope callee arguments budget machine function middle}
      (hcallee : callee.eval (Eval.call limit budget) scope machine = .ok function middle) :
      Keeping limit ⟨.expr scope (.call callee arguments), budget, machine⟩ [function]
        ⟨.exprs scope arguments, budget, middle⟩
  | argument {scope first others budget machine value middle}
      (hfirst : first.eval (Eval.call limit budget) scope machine = .ok value middle) :
      Keeping limit ⟨.exprs scope (first :: others), budget, machine⟩ [value]
        ⟨.exprs scope others, budget, middle⟩

/-- A task comes up in the course of another one while values wait for it to end. -/
inductive Course (limit : Nat) : Moment → List Value → Moment → Prop
  | now {moment} : Course limit moment moment.given moment
  | later {moment waiting part more last} (hkeeping : Keeping limit moment waiting part)
      (hcourse : Course limit part more last) : Course limit moment (waiting ++ more) last

theorem value_of_given {moment : Moment} {record : c.Record} (hmoment : c.moment record moment) :
    ∀ value ∈ moment.given, c.value record value := by
  obtain ⟨task, budget, machine⟩ := moment
  intro value hvalue
  cases task with
  | expr | exprs | stmt => cases hvalue
  | stmts scope last statements =>
      rw [List.mem_singleton.1 hvalue]
      exact hmoment.2.2
  | call callee arguments =>
      rcases List.mem_cons.1 hvalue with rfl | hargument
      · exact hmoment.2.1
      · exact hmoment.2.2 value hargument

/-- The part and the values that wait for it keep to one extension of the record. -/
theorem Keeping.recorded (hkeeps : c.Keeps) {moment part : Moment} {waiting : List Value}
    (hkeeping : Keeping limit moment waiting part) {record : c.Record} (hmoment : c.moment record moment) :
    ∃ more, c.Extends record more ∧ c.moment more part ∧ ∀ value ∈ waiting, c.value more value := by
  cases hkeeping with
  | given hbegins =>
      obtain ⟨more, hextends, hpart⟩ := hbegins.recorded hkeeps hmoment
      refine ⟨more, hextends, hpart, ?_⟩
      intro value hvalue
      exact c.value_of_extends hextends (value_of_given hmoment value hvalue)
  | left hfirst | callee hfirst | argument hfirst =>
      obtain ⟨hstore, hscope⟩ := hmoment
      obtain ⟨more, hextends, hmiddle, hvalue⟩ := (hkeeps.continues_expr _ hstore hscope).of_ok hfirst
      exact ⟨more, hextends, ⟨hmiddle, c.scope_of_extends hextends hscope⟩, List.forall_mem_singleton.2 hvalue⟩
  | condition hfirst =>
      obtain ⟨hstore, hscope⟩ := hmoment
      obtain ⟨more, hextends, hmiddle, hvalue⟩ := (hkeeps.continues_expr _ hstore hscope).of_ok hfirst
      have hnull : c.value more .null := c.value_of_isPlain more rfl
      exact ⟨more, hextends, ⟨hmiddle, c.scope_of_extends hextends hscope, hnull⟩,
        List.forall_mem_singleton.2 hvalue⟩

/-- In the course of an evaluation, every task and the values that wait for it keep to one extension of the
record. -/
theorem Course.recorded (hkeeps : c.Keeps) {start moment : Moment} {waiting : List Value}
    (hcourse : Course limit start waiting moment) : ∀ {record : c.Record}, c.moment record start →
      ∃ more, c.Extends record more ∧ c.moment more moment ∧ ∀ value ∈ waiting, c.value more value := by
  induction hcourse with
  | now =>
      intro record hstart
      exact ⟨record, c.extends_refl record, hstart, value_of_given hstart⟩
  | later hkeeping _ ih =>
      intro record hstart
      obtain ⟨middle, hextends, hpart, hwaiting⟩ := hkeeping.recorded hkeeps hstart
      obtain ⟨last, hfurther, hmoment, hmore⟩ := ih hpart
      -- One record has to cover all waiting values, so the earlier ones are taken along to the last.
      refine ⟨last, c.extends_trans hextends hfurther, hmoment, List.forall_mem_append.2 ⟨?_, hmore⟩⟩
      intro value hvalue
      exact c.value_of_extends hfurther (hwaiting value hvalue)

end Moment

end LetScript
