import LetScript.Proofs.Evaluation.Histories
import LetScript.Proofs.Evaluation.Termination

/-!
# The graph of scopes and functions

A function is bound in the very scope that it refers to, so scopes and functions form cycles.  Outer links alone
do not: they lead to older scopes.

* `Store.Encloses`, `Store.Occurs` — the links of the graph, and the functions in it and around it.
* `Ledger`, `Chronicle.ledger` — the functions made so far, each under its identity, and the number of scopes;
  a value is known if it is in the ledger.
* `Chronicle.keeps_ledger` — every operation on a store keeps its values known.
* `Store.IsGraph`, `Ledger.Covers.isGraph` — what a store owes to its ledger.
* `Session.graph_is_kept` — so it is in every state of a session and throughout every evaluation, and a function
  literal makes a function that no other is the same as.
-/

namespace LetScript

/-- A scope stands directly around another one. -/
def Store.Encloses (store : Store) (outer id : ScopeId) : Prop :=
  ∃ s, store.scopes[id]? = some s ∧ s.outer = some outer

/-- A function is bound in a scope, or held outside of the store. -/
def Store.Occurs (store : Store) (held : Value → Prop) (f : Function) : Prop :=
  store.Holds (.function f) ∨ held (.function f)

/-- Scopes and functions form a graph in which searches end and an identity stands for one function. -/
structure Store.IsGraph (store : Store) (held : Value → Prop) : Prop where
  outer_older : ∀ {outer id : ScopeId}, store.Encloses outer id → outer < id ∧ outer < store.scopes.size
  chains_end : WellFounded store.Encloses
  searches_end : ∀ {scope : ScopeId} (name : String), scope < store.scopes.size →
    Resolves store name scope (store.get? scope name)
  captured_exists : ∀ {f : Function}, store.Occurs held f → f.scope < store.scopes.size
  id_lt : ∀ {f : Function}, store.Occurs held f → f.id < store.functions
  eq_of_id_eq : ∀ {f g : Function}, store.Occurs held f → store.Occurs held g → f.id = g.id → f = g

/-! ## Ledgers -/

/-- The functions made so far, each at the place of its identity, and the number of scopes. -/
structure Ledger where
  functions : List Function
  scopes : Nat

namespace Ledger

/-- A function is in the ledger, and the scope of its literal exists. -/
def Knows (ledger : Ledger) : Value → Prop
  | .function f => ledger.functions[f.id]? = some f ∧ f.scope < ledger.scopes
  | _ => True

/-- A later ledger. -/
def Extends (ledger more : Ledger) : Prop :=
  ledger.functions <+: more.functions ∧ ledger.scopes ≤ more.scopes

/-- A store in which only known values are bound, and which has made what the ledger says. -/
structure Covers (ledger : Ledger) (store : Store) : Prop where
  wellFormed : store.WellFormed
  functions_eq : ledger.functions.length = store.functions
  scopes_eq : ledger.scopes = store.scopes.size
  knows : ∀ value, store.Holds value → ledger.Knows value

variable {ledger more : Ledger} {store : Store} {value : Value}

theorem Knows.of_isPlain (hplain : value.isPlain = true) : ledger.Knows value := by
  cases value with
  | function f => cases hplain
  | _ => trivial

theorem Knows.of_type_ne (htype : value.type ≠ .function) : ledger.Knows value := by
  cases value with
  | function f => exact absurd rfl htype
  | _ => trivial

theorem Knows.of_extends (hextends : ledger.Extends more) (hknows : ledger.Knows value) :
    more.Knows value := by
  cases value with
  | function f =>
      obtain ⟨hplace, hscope⟩ := hknows
      obtain ⟨⟨later, hfunctions⟩, hscopes⟩ := hextends
      obtain ⟨hlt, -⟩ := List.getElem?_eq_some_iff.1 hplace
      refine ⟨?_, Nat.lt_of_lt_of_le hscope hscopes⟩
      rw [← hfunctions, List.getElem?_append_left hlt]
      exact hplace
  | _ => trivial

theorem Covers.store_knows (hcovers : ledger.Covers store) (hknows : ledger.Knows value) :
    store.Knows value := by
  cases value with
  | function f => exact Nat.lt_of_lt_of_eq hknows.2 hcovers.scopes_eq
  | _ => trivial

end Ledger

/-- Values are in a ledger. -/
def Chronicle.ledger : Chronicle where
  Record := Ledger
  Extends := Ledger.Extends
  store := Ledger.Covers
  scope ledger id := id < ledger.scopes
  value := Ledger.Knows
  extends_refl _ := ⟨List.prefix_refl _, Nat.le_refl _⟩
  extends_trans hfirst hsecond := ⟨hfirst.1.trans hsecond.1, Nat.le_trans hfirst.2 hsecond.2⟩
  scope_of_extends hextends hscope := Nat.lt_of_lt_of_le hscope hextends.2
  value_of_extends := Ledger.Knows.of_extends
  value_of_isPlain _ _ := Ledger.Knows.of_isPlain

theorem Chronicle.keeps_ledger : Chronicle.ledger.Keeps where
  empty := ⟨⟨[], 0⟩, Store.wellFormed_empty, rfl, rfl, fun _ hholds => absurd hholds Store.not_holds_empty⟩
  scope_of_lt hcovers hid := Nat.lt_of_lt_of_eq hid hcovers.scopes_eq.symm
  scope_of_function hknows := hknows.2
  value_of_holds hcovers hholds := hcovers.knows _ hholds
  bind := by
    intro ledger store id name value hcovers hknows
    refine ⟨hcovers.wellFormed.bind (hcovers.store_knows hknows), hcovers.functions_eq, ?_, ?_⟩
    · rw [Store.size_bind]
      exact hcovers.scopes_eq
    · intro other hholds
      rcases hholds.of_bind with rfl | hold
      · exact hknows
      · exact hcovers.knows other hold
  clear := by
    intro ledger store id hcovers
    refine ⟨hcovers.wellFormed.clear id, hcovers.functions_eq, ?_, ?_⟩
    · rw [Store.size_clear]
      exact hcovers.scopes_eq
    · intro value hholds
      exact hcovers.knows value hholds.of_clear
  enclose := by
    intro ledger store outer hcovers houter
    have hextends : ledger.Extends ⟨ledger.functions, ledger.scopes + 1⟩ :=
      ⟨List.prefix_refl _, Nat.le_succ _⟩
    refine ⟨⟨ledger.functions, ledger.scopes + 1⟩, hextends, ⟨?_, hcovers.functions_eq, ?_, ?_⟩, ?_⟩
    · refine hcovers.wellFormed.enclose ?_
      intro id hid
      exact Nat.lt_of_lt_of_eq (houter id hid) hcovers.scopes_eq
    · rw [Store.size_enclose]
      exact congrArg (· + 1) hcovers.scopes_eq
    · intro value hholds
      exact (hcovers.knows value hholds.of_enclose).of_extends hextends
    · exact Nat.lt_succ_of_le (Nat.le_of_eq hcovers.scopes_eq.symm)
  makeFunction := by
    intro ledger store parameters body id hcovers hscope
    let f := (store.makeFunction parameters body id).1
    have hextends : ledger.Extends ⟨ledger.functions ++ [f], ledger.scopes⟩ :=
      ⟨List.prefix_append _ _, Nat.le_refl _⟩
    refine ⟨⟨ledger.functions ++ [f], ledger.scopes⟩, hextends, ⟨?_, ?_, hcovers.scopes_eq, ?_⟩, ?_, hscope⟩
    · exact hcovers.wellFormed.newFunction
    · show (ledger.functions ++ [f]).length = store.functions + 1
      rw [List.length_append, hcovers.functions_eq]
      rfl
    · intro value hholds
      exact (hcovers.knows value hholds).of_extends hextends
    · -- The new function stands behind all others, at the place that is its identity.
      show (ledger.functions ++ [f])[store.functions]? = some f
      rw [← hcovers.functions_eq, List.getElem?_concat_length]

/-! ## From the ledger to the graph -/

theorem Store.WellFormed.encloses_lt {store : Store} (hstore : store.WellFormed) {outer id : ScopeId}
    (hencloses : store.Encloses outer id) : outer < id ∧ outer < store.scopes.size := by
  obtain ⟨s, hs, houter⟩ := hencloses
  have hlt : outer < id := hstore.outer_lt hs houter
  exact ⟨hlt, Nat.lt_trans hlt (Store.lt_size_of_getElem? hs)⟩

theorem Ledger.Covers.isGraph {ledger : Ledger} {store : Store} (hcovers : ledger.Covers store)
    {held : Value → Prop} (hheld : ∀ value, held value → ledger.Knows value) : store.IsGraph held := by
  have hknows : ∀ {f : Function}, store.Occurs held f → ledger.Knows (.function f) := by
    intro f hoccurs
    rcases hoccurs with hholds | hheld'
    · exact hcovers.knows _ hholds
    · exact hheld _ hheld'
  -- All functions that occur are in the same ledger, where an identity has one place.
  refine ⟨hcovers.wellFormed.encloses_lt, ?_, fun name hscope => hcovers.wellFormed.resolves name hscope,
    ?_, ?_, ?_⟩
  · exact Subrelation.wf (fun hencloses => (hcovers.wellFormed.encloses_lt hencloses).1) Nat.lt_wfRel.wf
  · intro f hoccurs
    exact Nat.lt_of_lt_of_eq (hknows hoccurs).2 hcovers.scopes_eq
  · intro f hoccurs
    obtain ⟨hlt, -⟩ := List.getElem?_eq_some_iff.1 (hknows hoccurs).1
    exact Nat.lt_of_lt_of_eq hlt hcovers.functions_eq
  · intro f g hf hg hid
    have hplace : ledger.functions[f.id]? = some g := hid ▸ (hknows hg).1
    exact Option.some.inj ((hknows hf).1.symm.trans hplace)

/-- The function that a literal makes is none of those that occur. -/
theorem Store.IsGraph.not_same {store : Store} {held : Value → Prop} (hgraph : store.IsGraph held)
    (parameters : List String) (body : Block) (scope : ScopeId) {g : Function}
    (hoccurs : store.Occurs held g) :
    (Value.function (store.makeFunction parameters body scope).1).same (.function g) = false := by
  have hlt : g.id < store.functions := hgraph.id_lt hoccurs
  show (store.functions == g.id) = false
  rw [beq_eq_false_iff_ne]
  omega

/-- Whatever a host does that binds no function of its own, scopes and functions form a graph, also in the course
of every evaluation and with the values that wait in it.  At every moment a function literal gives a new
function, which is the same as none that is bound, waits, or was given to the host. -/
theorem Session.graph_is_kept {session : Session} {flows : List Flow}
    (hhistory : session.History (fun value => value.type ≠ .function) flows) :
    session.store.IsGraph (Flow.Give flows) ∧
    ∀ (evaluator : Evaluator) (scope : ScopeId) (fragment : Fragment), scope < session.store.scopes.size →
      ∀ (waiting : List Value) (moment : Moment),
        Moment.Course evaluator.limit (evaluator.start session.store scope fragment) waiting moment →
          let store := moment.machine.store
          let held := fun value => Flow.Give flows value ∨ value ∈ waiting
          store.IsGraph held ∧
          ∀ (here : ScopeId) (parameters : List String) (body : Block), ∃ (f : Function) (after : Machine),
            (Expr.fn parameters body).eval (Eval.call evaluator.limit moment.budget) here moment.machine =
              .ok (.function f) after ∧
            f.parameters = parameters ∧ f.body = body ∧ f.scope = here ∧
            ∀ g : Function, store.Occurs held g → (Value.function f).same (.function g) = false := by
  obtain ⟨ledger, hcovers, hgiven⟩ :=
    Chronicle.keeps_ledger.history (fun _ _ htype => Ledger.Knows.of_type_ne htype) hhistory
  refine ⟨Ledger.Covers.isGraph hcovers hgiven, ?_⟩
  intro evaluator scope fragment hscope waiting moment hcourse store held
  have hstart : Chronicle.ledger.moment ledger (evaluator.start session.store scope fragment) :=
    Chronicle.moment_start hcovers (Nat.lt_of_lt_of_eq hscope hcovers.scopes_eq.symm)
  obtain ⟨more, hextends, ⟨hmoment, -⟩, hwaiting⟩ := hcourse.recorded Chronicle.keeps_ledger hstart
  have hheld : ∀ value, held value → more.Knows value := by
    rintro value (hgave | hwaits)
    · exact (hgiven value hgave).of_extends hextends
    · exact hwaiting value hwaits
  have hgraph : store.IsGraph held := Ledger.Covers.isGraph hmoment hheld
  refine ⟨hgraph, ?_⟩
  intro here parameters body
  have heval : (Expr.fn parameters body).eval (Eval.call evaluator.limit moment.budget) here moment.machine =
      .ok (.function (store.makeFunction parameters body here).1)
        { moment.machine with store := (store.makeFunction parameters body here).2 } := by
    rw [Expr.eval]
    rfl
  exact ⟨_, _, heval, rfl, rfl, rfl, fun g hoccurs => hgraph.not_same parameters body here hoccurs⟩

/-- A script binds a function, another one gives a function to the host, and a comparison waits with a function
on its left: the literal on its right makes a function that is the same as none of the three. -/
theorem Session.literal_makes_new_function :
    let literal : Expr := .fn [] []
    let made (id : Nat) : Function := ⟨id, [], [], 0⟩
    let bound := (Session.start.evaluate 0 (.statement (.bind "f" literal))).2
    let session := (bound.evaluateFresh 0 (.expression literal)).2
    let flows : List Flow := [.value (.function (made 1)), .value .null]
    let machine : Machine := ⟨{ session.store with functions := 3 }, 0⟩
    session.History (fun value => value.type ≠ .function) flows ∧
      session.store.IsGraph (Flow.Give flows) ∧
      ∃ (f : Function) (after : Machine),
        literal.eval (Eval.call 128 128) 0 machine = .ok (.function f) after ∧
        ∀ id < 3, (Value.function f).same (.function (made id)) = false := by
  intro literal made bound session flows machine
  have hbound : bound.History (fun value => value.type ≠ .function) [.value .null] :=
    .act .start (.evaluate (by decide))
  have hhistory : session.History (fun value => value.type ≠ .function) flows :=
    hbound.act (.evaluateFresh (by decide +kernel))
  obtain ⟨hgraph, hruns⟩ := Session.graph_is_kept hhistory
  let comparison : Fragment := .expression (.binary .eq literal literal)
  have hcourse : Moment.Course 128 (Evaluator.start {} session.store 0 comparison) [.function (made 2)]
      ⟨.expr 0 literal, 128, machine⟩ := .later (.left rfl) .now
  obtain ⟨-, hliterals⟩ := hruns {} 0 comparison (by decide +kernel) _ _ hcourse
  obtain ⟨f, after, heval, -, -, -, hnew⟩ := hliterals 0 [] []
  refine ⟨hhistory, hgraph, f, after, heval, ?_⟩
  intro id hid
  refine hnew (made id) ?_
  match id, hid with
  | 0, _ =>
      have hscope : session.store.scopes[0]? = some ⟨[("f", .function (made 0))], none⟩ := by decide +kernel
      exact .inl ⟨0, _, "f", hscope, List.mem_singleton.2 rfl⟩
  | 1, _ => exact .inr (.inl ⟨_, List.mem_cons_self, rfl⟩)
  | 2, _ => exact .inr (.inr (List.mem_singleton.2 rfl))

end LetScript
