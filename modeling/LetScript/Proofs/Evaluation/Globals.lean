import LetScript.Proofs.Evaluation.Coupling
import LetScript.Proofs.Evaluation.Scopes

/-!
# Extra globals

A search goes outward and ends in a scope without an outer one.  So a name that is bound there in addition is
found only where the search for it found nothing before, and a run that never missed the name goes the same way
with it.

* `Store.Gains` — a second store has one name more in a global scope, unless that scope binds the name itself.
* `Store.Gains.get?` — only a search for that name can end in another way, and only if it found nothing.
* `Store.Gains.bind`, `Store.Gains.enclose`, … — the operations of a store keep this; a `let` of the name in the
  global scope brings the two stores together.
* `Coupling.gaining` — two runs in such stores, of which the first may miss the name.
* `Evaluator.extra_global_is_unseen` — a run that does not fail for want of the name ends in the same way with it.
-/

namespace LetScript

/-! ## Stores -/

/-- Two scopes that nothing surrounds.  The second one binds what the first one binds, and the name besides. -/
structure Scope.Gains (name : String) (value : Value) (s t : Scope) : Prop where
  outer_eq : s.outer = none
  outer_eq' : t.outer = none
  lookup_self : t.bindings.lookup name = some ((s.bindings.lookup name).getD value)
  lookup_of_ne : ∀ key, key ≠ name → t.bindings.lookup key = s.bindings.lookup key

/-- Two stores that differ only in the name that a global scope has gained. -/
structure Store.Gains (global : ScopeId) (name : String) (value : Value) (store more : Store) : Prop where
  functions_eq : more.functions = store.functions
  size_eq : more.scopes.size = store.scopes.size
  others : ∀ id, id ≠ global → more.scopes[id]? = store.scopes[id]?
  own : ∃ s t, store.scopes[global]? = some s ∧ more.scopes[global]? = some t ∧ s.Gains name value t

/-- What is bound in both scopes is the same in both. -/
theorem Scope.Gains.insert {name : String} {value : Value} {s t : Scope} (hgains : s.Gains name value t)
    (key : String) (bound : Value) :
    Scope.Gains name value { s with bindings := Bindings.insert key bound s.bindings }
      { t with bindings := Bindings.insert key bound t.bindings } where
  outer_eq := hgains.outer_eq
  outer_eq' := hgains.outer_eq'
  lookup_self := by
    rw [Bindings.lookup_insert, Bindings.lookup_insert, hgains.lookup_self]
    split
    · rfl
    · rfl
  lookup_of_ne := by
    intro other hother
    rw [Bindings.lookup_insert, Bindings.lookup_insert, hgains.lookup_of_ne other hother]

namespace Store

variable {global : ScopeId} {name : String} {value : Value} {store more : Store}

/-- A name that a global scope does not bind yet. -/
theorem gains_bind {s : Scope} (hglobal : store.scopes[global]? = some s) (houter : s.outer = none)
    (hfree : s.bindings.lookup name = none) (value : Value) :
    store.Gains global name value (store.bind global name value) where
  functions_eq := rfl
  size_eq := size_bind store global name value
  others _ hid := getElem?_bind_of_ne hid
  own := by
    refine ⟨s, { s with bindings := Bindings.insert name value s.bindings }, hglobal, ?_, houter, houter, ?_, ?_⟩
    · rw [getElem?_bind_self, hglobal]
      rfl
    · rw [Bindings.lookup_insert, if_pos rfl, hfree]
      rfl
    · intro key hkey
      rw [Bindings.lookup_insert, if_neg hkey]

/-- A search ends in both stores alike, unless it is for the name and finds nothing in the first one. -/
theorem Gains.get? (hgains : store.Gains global name value more) (here : ScopeId) (key : String) :
    more.get? here key = store.get? here key ∨ key = name ∧ store.get? here key = none := by
  induction here using Nat.strongRecOn with
  | _ here ih =>
      by_cases hglobal : here = global
      · subst hglobal
        obtain ⟨s, t, hs, ht, hscope⟩ := hgains.own
        have hget : store.get? here key = s.bindings.lookup key := by
          rw [get?_of_getElem? hs, hscope.outer_eq, Option.bind_none, Option.or_none]
        have hget' : more.get? here key = t.bindings.lookup key := by
          rw [get?_of_getElem? ht, hscope.outer_eq', Option.bind_none, Option.or_none]
        rw [hget, hget']
        by_cases hkey : key = name
        · subst hkey
          cases hfound : s.bindings.lookup key with
          | none => exact .inr ⟨rfl, rfl⟩
          | some found =>
              rw [hscope.lookup_self, hfound]
              exact .inl rfl
        · exact .inl (hscope.lookup_of_ne key hkey)
      · have hsame := hgains.others here hglobal
        cases hs : store.scopes[here]? with
        | none => exact .inl (by rw [get?_of_getElem?_none hs, get?_of_getElem?_none (hsame.trans hs)])
        | some s =>
            rw [get?_of_getElem? hs, get?_of_getElem? (hsame.trans hs)]
            -- The scope is the same in both stores, so only the search in an outer one can differ.
            cases s.bindings.lookup key with
            | some found => exact .inl rfl
            | none =>
                cases s.outer with
                | none => exact .inl rfl
                | some outer =>
                    by_cases hlt : outer < here
                    · simpa [hlt] using ih outer hlt
                    · exact .inl (by simp [hlt])

theorem Gains.bind (hgains : store.Gains global name value more) (scope : ScopeId) (key : String) (bound : Value) :
    (store.bind scope key bound).Gains global name value (more.bind scope key bound) where
  functions_eq := hgains.functions_eq
  size_eq := by rw [size_bind, size_bind, hgains.size_eq]
  others := by
    intro id hid
    by_cases hscope : id = scope
    · subst hscope
      rw [getElem?_bind_self, getElem?_bind_self, hgains.others id hid]
    · rw [getElem?_bind_of_ne hscope, getElem?_bind_of_ne hscope, hgains.others id hid]
  own := by
    obtain ⟨s, t, hs, ht, hst⟩ := hgains.own
    by_cases hscope : global = scope
    · subst hscope
      refine ⟨_, _, ?_, ?_, hst.insert key bound⟩
      · rw [getElem?_bind_self, hs]
        rfl
      · rw [getElem?_bind_self, ht]
        rfl
    · refine ⟨s, t, ?_, ?_, hst⟩
      · rw [getElem?_bind_of_ne hscope, hs]
      · rw [getElem?_bind_of_ne hscope, ht]

theorem Gains.bindAll (hgains : store.Gains global name value more) (scope : ScopeId) (names : List String)
    (values : List Value) :
    (store.bindAll scope names values).Gains global name value (more.bindAll scope names values) := by
  induction names generalizing store more values with
  | nil => exact hgains
  | cons key names ih =>
      cases values with
      | nil => exact hgains
      | cons bound values => exact ih (hgains.bind scope key bound) values

theorem Gains.enclose (hgains : store.Gains global name value more) (outer : Option ScopeId) :
    (store.enclose outer).2.Gains global name value (more.enclose outer).2 where
  functions_eq := hgains.functions_eq
  size_eq := by rw [size_enclose, size_enclose, hgains.size_eq]
  others := by
    intro id hid
    rw [getElem?_enclose, getElem?_enclose, hgains.size_eq, hgains.others id hid]
  own := by
    obtain ⟨s, t, hs, ht, hst⟩ := hgains.own
    refine ⟨s, t, ?_, ?_, hst⟩
    · rw [getElem?_enclose_of_lt outer (lt_size_of_getElem? hs), hs]
    · rw [getElem?_enclose_of_lt outer (lt_size_of_getElem? ht), ht]

theorem Gains.newFunction (hgains : store.Gains global name value more) :
    Store.Gains global name value { store with functions := store.functions + 1 }
      { more with functions := more.functions + 1 } where
  functions_eq := congrArg (· + 1) hgains.functions_eq
  size_eq := hgains.size_eq
  others := hgains.others
  own := hgains.own

end Store

/-! ## Evaluation -/

/-- The second run has one name more in a global scope.  It is excused where the first run misses that name. -/
def Coupling.gaining (global : ScopeId) (name : String) (value : Value) : Coupling where
  World := Unit
  Grows _ _ := True
  machines _ first second := first.store.Gains global name value second.store ∧ first.depth = second.depth
  scopes _ here there := here = there
  values _ a b := a = b
  excuses error := error = .unboundName name
  grows_refl _ := trivial
  grows_trans _ _ := trivial
  scopes_of_grows _ hscopes := hscopes
  values_of_grows _ hvalues := hvalues
  alike_of_values hvalues := .of_eq hvalues
  values_of_isPlain _ _ _ := rfl

section Gaining

variable {global : ScopeId} {name : String} {value : Value}

theorem Coupling.keeps_gaining (global : ScopeId) (name : String) (value : Value) :
    (Coupling.gaining global name value).Keeps where
  lookUp := by
    rintro _ first second here _ ident hmachines rfl
    have hgrows := (Coupling.gaining global name value).grows_refl ()
    rcases hmachines.1.get? here ident with hsame | ⟨rfl, hmissed⟩
    · cases hget : first.store.get? here ident with
      | some found =>
          rw [Eval.lookUp_of_some hget, Eval.lookUp_of_some (hsame.trans hget)]
          exact .ok hgrows hmachines rfl
      | none =>
          rw [Eval.lookUp_of_none hget, Eval.lookUp_of_none (hsame.trans hget)]
          exact .error hgrows hmachines
    · rw [Eval.lookUp_of_none hmissed]
      exact .excused rfl
  bindName := by
    rintro _ first second here _ ident a _ hmachines rfl rfl
    have hgrows := (Coupling.gaining global name value).grows_refl ()
    exact .ok hgrows ⟨hmachines.1.bind here ident a, hmachines.2⟩ trivial
  newFunction := by
    rintro _ first second here _ parameters body hmachines rfl
    have hgrows := (Coupling.gaining global name value).grows_refl ()
    have hid : first.store.functions = second.store.functions := hmachines.1.functions_eq.symm
    refine .ok hgrows ⟨hmachines.1.newFunction, hmachines.2⟩ ?_
    show Value.function ⟨first.store.functions, _, _, _⟩ = .function ⟨second.store.functions, _, _, _⟩
    rw [hid]
  depth_eq hmachines := hmachines.2
  literal_eq := by
    rintro _ f g hfunctions
    cases hfunctions
    exact ⟨rfl, rfl⟩
  enter := by
    rintro _ first second f g arguments others hmachines hfunctions harguments
    cases hfunctions
    have hsame : arguments = others := List.forall₂_eq_eq_eq ▸ harguments
    subst hsame
    have hnew : first.store.scopes.size = second.store.scopes.size := hmachines.1.size_eq.symm
    refine ⟨(), trivial, ⟨?_, congrArg (· + 1) hmachines.2⟩, hnew⟩
    unfold Machine.enter
    rw [← hnew]
    exact (hmachines.1.enclose _).bindAll _ _ _
  leave hmachines := ⟨hmachines.1, congrArg (· - 1) hmachines.2⟩

/-- Two coupled runs end in the same way, or the first one misses the name. -/
theorem Coupling.Joins.flow_eq {left right : EStateM.Result Signal Machine Value}
    (hjoins : (Coupling.gaining global name value).Joins (fun _ a b => a = b) () left right)
    (hmissed : (Flow.ofResult left).1 ≠ .error (.unboundName name)) :
    (Flow.ofResult right).1 = (Flow.ofResult left).1 ∧
      (Flow.ofResult left).2.store.Gains global name value (Flow.ofResult right).2.store := by
  cases hjoins with
  | ok _ hmachines hvalues =>
      cases hvalues
      exact ⟨rfl, hmachines.1⟩
  | ret _ hmachines hvalues =>
      cases hvalues
      exact ⟨rfl, hmachines.1⟩
  | error _ hmachines => exact ⟨rfl, hmachines.1⟩
  | excused hexcuses =>
      cases hexcuses
      exact absurd rfl hmissed

end Gaining

/-- A name that is bound in addition in a scope without an outer one, where it was not bound, does not change a run
that does not fail for want of it.  Scopes and functions are the same at the end, and so are all bindings, but that
the scope binds the name to the value, unless the run has bound it there itself. -/
theorem Evaluator.extra_global_is_unseen (evaluator : Evaluator) (fragment : Fragment) (scope : ScopeId)
    {store : Store} {global : ScopeId} {s : Scope} {name : String} (value : Value)
    (hglobal : store.scopes[global]? = some s) (houter : s.outer = none) (hfree : s.bindings.lookup name = none)
    (hmissed : (evaluator.run store scope fragment).1 ≠ .error (.unboundName name)) :
    let plain := evaluator.run store scope fragment
    let extra := evaluator.run (store.bind global name value) scope fragment
    extra.1 = plain.1 ∧ plain.2.2.Gains global name value extra.2.2 := by
  have houtlasts : (Coupling.gaining global name value).Outlasts evaluator.limit (evaluator.limit - evaluator.depth)
      evaluator.limit (evaluator.limit - evaluator.depth) :=
    ⟨Nat.le_refl _, Nat.le_refl _, .inl ⟨rfl, rfl⟩⟩
  have hmachines : (Coupling.gaining global name value).machines () ⟨store, evaluator.depth⟩
      ⟨store.bind global name value, evaluator.depth⟩ :=
    ⟨Store.gains_bind hglobal houter hfree value, rfl⟩
  have hscopes : (Coupling.gaining global name value).scopes () scope scope := rfl
  have hjoins := Fragment.eval_joins (Coupling.keeps_gaining global name value) houtlasts fragment hmachines hscopes
  exact Coupling.Joins.flow_eq hjoins hmissed

/-- A parameter hides the global of its name.  The global is there at the end, unless a `let` has bound the name
anew in its scope. -/
theorem Evaluator.shadowed_global_is_unseen :
    let f : Function := ⟨0, ["n"], [.expr (.binary .plus (.name "n") (.int 1))], 0⟩
    let store : Store := ⟨#[⟨[("f", .function f)], none⟩, ⟨[], some 0⟩], 1⟩
    let more := store.bind 0 "n" (.str "extra")
    let call : Expr := .call (.name "f") [.int 2]
    let rebinding : Fragment := .block [.bind "n" call, .expr (.call (.name "f") [.name "n"])]
    let run (store : Store) (scope : ScopeId) := Evaluator.run {} store scope
    (run store 1 (.expression call)).1 = .value (.int 3) ∧
      (run more 1 (.expression call)).1 = .value (.int 3) ∧
      (run store 1 (.expression call)).2.2.Gains 0 "n" (.str "extra") (run more 1 (.expression call)).2.2 ∧
      (run more 1 (.expression call)).2.2.get? 1 "n" = some (.str "extra") ∧
      (run more 0 rebinding).1 = .value (.int 4) ∧
      (run store 0 rebinding).2.2.Gains 0 "n" (.str "extra") (run more 0 rebinding).2.2 ∧
      (run more 0 rebinding).2.2.get? 1 "n" = some (.int 3) := by
  intro f store more call rebinding run
  have hplain : (run store 1 (.expression call)).1 = .value (.int 3) := by decide +kernel
  have hrebound : (run store 0 rebinding).1 = .value (.int 4) := by decide +kernel
  have hscope : store.scopes[0]? = some ⟨[("f", .function f)], none⟩ := rfl
  have hunseen := Evaluator.extra_global_is_unseen {} (.expression call) 1 (.str "extra") hscope rfl rfl
    (hplain ▸ nofun : (run store 1 (.expression call)).1 ≠ .error (.unboundName "n"))
  have hagain := Evaluator.extra_global_is_unseen {} rebinding 0 (.str "extra") hscope rfl rfl
    (hrebound ▸ nofun : (run store 0 rebinding).1 ≠ .error (.unboundName "n"))
  exact ⟨hplain, hunseen.1.trans hplain, hunseen.2, by decide +kernel, hagain.1.trans hrebound, hagain.2,
    by decide +kernel⟩

end LetScript
