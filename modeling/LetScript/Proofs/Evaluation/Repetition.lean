import LetScript.Proofs.Evaluation.Depth
import LetScript.Proofs.Evaluation.Matching
import LetScript.Proofs.Evaluation.WellFormed

/-!
# Expressions that are evaluated twice

An expression without a `let` of its own leaves every scope as it was, so a second evaluation finds what the
first one found, and more: the scopes and functions that the first one made.  These it does not reach.  It goes
through the same steps, and ends in the same way, up to the numbers of what the two have made.

* `Law.keeping`, `Evaluator.run_keeps` — evaluation without a `let` keeps every scope.
* `InStep` — the numbers of two things that are made at the same point of two runs.
* `Value.Repeats` — the same value, or a function with the same literal that both runs have made.
* `Comparison.repeating` — this as a way to compare two runs, which keeps track of the functions that are made.
* `Store.WellFormed.fits_kept` — a store fits every store that keeps its scopes.
* `Evaluator.expression_repeats` — the second evaluation repeats the first one.
-/

namespace LetScript

/-! ## Scopes are kept -/

theorem Store.Keeps.trans {first second third : Store} (hfirst : first.Keeps second) (hsecond : second.Keeps third) :
    first.Keeps third :=
  fun id s hs => hsecond id s (hfirst id s hs)

/-- Evaluation changes no scope that was there before. -/
def Law.keeping : Law where
  holds _ := True
  admits _ _ := True
  allows before after := before.store.Keeps after.store
  allows_refl machine := Store.Keeps.refl machine.store
  allows_trans := Store.Keeps.trans
  admits_of_allows _ hvalue := hvalue
  admits_of_isPlain _ _ _ := trivial

theorem Law.governs_keeping (limit budget : Nat) (scope : ScopeId) :
    Law.keeping.Governs (Eval.call limit budget) scope (.binding []) where
  lookUp _ _ := trivial
  bindName hbind _ _ := absurd (TreeClass.mem_of_binding hbind) List.not_mem_nil
  newFunction := by
    intro machine parameters body _ _
    exact ⟨trivial, Store.Keeps.refl machine.store, trivial⟩
  apply := by
    intro machine callee arguments _ _ _
    exact .of_machineOf trivial (Eval.call_keeps limit budget callee arguments machine) fun _ => trivial

/-- Without a `let` of its own, evaluation changes no scope. -/
theorem Evaluator.run_keeps (evaluator : Evaluator) (store : Store) (scope : ScopeId) {fragment : Fragment}
    (hlets : fragment.lets = []) : store.Keeps (evaluator.run store scope fragment).2.2 := by
  have hbinding : (TreeClass.binding []).fragment fragment := hlets ▸ TreeClass.fragment_binding fragment
  have hgoverns := Law.governs_keeping evaluator.limit (evaluator.limit - evaluator.depth) scope
  have hmeets := Fragment.eval_meets hgoverns ⟨store, evaluator.depth⟩ hbinding trivial
  show store.Keeps (Flow.ofResult _).2.store
  rw [Flow.ofResult_snd]
  exact hmeets.allows_machineOf

/-! ## Values that are made again -/

/-- The numbers of what two runs make at the same point, each of which counts from its own start. -/
def InStep (start start' number number' : Nat) : Prop :=
  ∃ made, number = start + made ∧ number' = start' + made

/-- The same value again; or a function again, with the same literal, made anew in a scope that corresponds. -/
inductive Value.Repeats (ids : Nat → Nat → Prop) (same : ScopeId → ScopeId → Prop) : Value → Value → Prop
  | same {value : Value} (hscope : ∀ f : Function, value = .function f → same f.scope f.scope) :
      Repeats ids same value value
  | again {f g : Function} (hid : ids f.id g.id) (hparameters : f.parameters = g.parameters)
      (hbody : f.body = g.body) (hscope : same f.scope g.scope) : Repeats ids same (.function f) (.function g)

theorem Value.Repeats.mono {ids : Nat → Nat → Prop} {same more : ScopeId → ScopeId → Prop} {a b : Value}
    (hrepeats : a.Repeats ids same b) (hmore : ∀ {here there}, same here there → more here there) :
    a.Repeats ids more b := by
  cases hrepeats with
  | same hscope => exact .same fun f hf => hmore (hscope f hf)
  | again hid hparameters hbody hscope => exact .again hid hparameters hbody (hmore hscope)

/-- The comparison of a run with a later one, from stores that have made so many functions. -/
def Comparison.repeating (made made' : Nat) : Comparison where
  values := Value.Repeats (InStep made made')
  counts := InStep made made'
  mono hmore hrepeats := hrepeats.mono hmore
  alike := by
    intro same a b hrepeats
    cases hrepeats with
    | same => exact .inl rfl
    | @again f g => exact .inr ⟨f, g, rfl, rfl⟩
  of_isPlain := by
    intro same value hplain
    refine .same ?_
    rintro f rfl
    cases hplain
  function := by
    intro same f g hrepeats
    cases hrepeats with
    | same hscope => exact ⟨rfl, rfl, hscope f rfl⟩
    | again hid hparameters hbody hscope => exact ⟨hparameters, hbody, hscope⟩
  newFunction := by
    -- Both runs have made as many functions since their starts, so the next ones are in step too.
    rintro same count count' parameters body here there ⟨number, rfl, rfl⟩ hsame
    exact ⟨.again ⟨number, rfl, rfl⟩ rfl rfl hsame, ⟨number + 1, Nat.add_assoc .., Nat.add_assoc ..⟩⟩

/-! ## The second run -/

/-- The scopes of a store, in a later one that has more. -/
def Matching.kept (store later : Store) : Matching where
  same here there := here = there ∧ here < store.scopes.size
  left := store.scopes.size
  right := later.scopes.size

theorem Store.WellFormed.fits_kept {store later : Store} (hstore : store.WellFormed) (hkeeps : store.Keeps later) :
    (Matching.kept store later).Fits (.repeating store.functions later.functions) store later where
  size_eq := rfl
  size_eq' := rfl
  one_to_one := by
    rintro a _ a' _ ⟨rfl, -⟩ ⟨rfl, -⟩
    exact Iff.rfl
  counts := ⟨0, rfl, rfl⟩
  fits := by
    rintro a _ ⟨rfl, hlt⟩
    have hs : store.scopes[a]? = some store.scopes[a] := Array.getElem?_eq_getElem hlt
    have houter : ∀ outer ∈ store.scopes[a].outer, outer < a := fun outer houter => hstore.outer_lt hs houter
    refine ⟨_, _, hs, hkeeps a _ hs, Scope.fits_self ?values ?outer houter⟩
    case values =>
      intro name value hvalue
      refine .same ?_
      rintro f rfl
      exact ⟨rfl, hstore.knows hs (Store.mem_of_lookup hvalue)⟩
    case outer => exact fun outer hmem => ⟨rfl, Nat.lt_trans (houter outer hmem) hlt⟩

/-- An expression without a `let` outside function literals leaves every scope as it was, and a second evaluation
right behind the first one ends in the same way: in the same error, in the same value, or in a function that is
new both times and has the same literal. -/
theorem Evaluator.expression_repeats (evaluator : Evaluator) {expr : Expr} {store : Store} {scope : ScopeId}
    (hlets : expr.lets = []) (hstore : store.WellFormed) (hscope : scope < store.scopes.size) :
    let first := evaluator.run store scope (.expression expr)
    let second := first.2.1.run first.2.2 scope (.expression expr)
    store.Keeps first.2.2 ∧ first.2.2.Keeps second.2.2 ∧
      first.1.Fits (Value.Repeats (InStep store.functions first.2.2.functions)
        fun here there => here = there ∨ InStep store.scopes.size first.2.2.scopes.size here there) second.1 := by
  intro first second
  have hkeeps : store.Keeps first.2.2 := evaluator.run_keeps store scope hlets
  refine ⟨hkeeps, first.2.1.run_keeps first.2.2 scope hlets, ?_⟩
  have hevaluator : first.2.1 = evaluator := evaluator.run_evaluator store scope _
  have hsame : (Matching.kept store first.2.2).same scope scope := ⟨rfl, hscope⟩
  obtain ⟨count, -, hflow⟩ := evaluator.run_fits (.expression expr) (hstore.fits_kept hkeeps) hsame
  have hsecond : second.1 = (evaluator.run first.2.2 scope (.expression expr)).1 := by
    show (first.2.1.run _ _ _).1 = _
    rw [hevaluator]
  rw [hsecond]
  -- Scopes that correspond at the end are the same old one, or were made in step.
  refine hflow.mono ?_
  intro a b hrepeats
  refine hrepeats.mono ?_
  rintro here there (⟨rfl, -⟩ | ⟨number, -, rfl, rfl⟩)
  · exact .inl rfl
  · exact .inr ⟨number, rfl, rfl⟩

/-- A call whose body has a `let` gives a function that is new, and made in a new scope, each time. -/
theorem Evaluator.call_makes_function_again :
    let inner : Block := [.expr (.name "y")]
    let body : Block := [.bind "y" (.binary .plus (.name "x") (.int 1)), .expr (.fn [] inner)]
    let make : Fragment := .statement (.bind "make" (.fn ["x"] body))
    let store := (Evaluator.run {} (({} : Store).enclose none).2 0 make).2.2
    let expr : Expr := .call (.name "make") [.int 1]
    let first := Evaluator.run {} store 0 (.expression expr)
    let second := first.2.1.run first.2.2 0 (.expression expr)
    first.1 = .value (.function ⟨1, [], inner, 1⟩) ∧ second.1 = .value (.function ⟨2, [], inner, 2⟩) ∧
      store.Keeps first.2.2 ∧ first.2.2.Keeps second.2.2 ∧
      first.1.Fits (Value.Repeats (InStep store.functions first.2.2.functions)
        fun here there => here = there ∨ InStep store.scopes.size first.2.2.scopes.size here there) second.1 := by
  intro inner body make store expr first second
  have hstart : (({} : Store).enclose none).2.WellFormed := Store.wellFormed_empty.enclose nofun
  have hstore : store.WellFormed := Evaluator.run_wellFormed {} make hstart (by decide)
  have hlets : expr.lets = [] := rfl
  have hrepeats := Evaluator.expression_repeats {} hlets hstore (by decide +kernel : 0 < store.scopes.size)
  exact ⟨by decide +kernel, by decide +kernel, hrepeats⟩

end LetScript
