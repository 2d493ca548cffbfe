import LetScript.Proofs.Evaluation.Calls
import LetScript.Proofs.Evaluation.Scopes

/-!
# Well-formed stores

* `Store.Knows`, `Store.WellFormed` — an outer scope is older than what it surrounds, and the scope in
  which a bound function was made exists.
* `Store.WellFormed.enclose`, `Store.WellFormed.bind`, … — every operation of a store keeps this.
* `Law.wellFormed`, `Law.depth` — evaluation keeps it too, and closes the calls that it opens.
* `Eval.call_wellFormed`, `Eval.call_depth` — the same for calls, under any limit and budget.
* `Evaluator.run_wellFormed` — so the store is well-formed again at the end.
-/

namespace LetScript

/-! ## Stores -/

/-- A function value is known to a store that has the scope in which it was made; any other value is. -/
def Store.Knows (store : Store) : Value → Prop
  | .function function => function.scope < store.scopes.size
  | _ => True

/-- Outer scopes are older, and bound functions were made in scopes that exist. -/
structure Store.WellFormed (store : Store) : Prop where
  outer_lt : ∀ {id : ScopeId} {s : Scope} {outer : ScopeId}, store.scopes[id]? = some s →
    s.outer = some outer → outer < id
  knows : ∀ {id : ScopeId} {s : Scope} {name : String} {value : Value}, store.scopes[id]? = some s →
    (name, value) ∈ s.bindings → store.Knows value

namespace Store

variable {store after : Store} {scope : ScopeId}

theorem Knows.of_isPlain {value : Value} (hplain : value.isPlain = true) : store.Knows value := by
  cases value with
  | function function => cases hplain
  | _ => trivial

theorem Knows.mono {value : Value} (hknows : store.Knows value)
    (hsize : store.scopes.size ≤ after.scopes.size) : after.Knows value := by
  cases value with
  | function function => exact Nat.lt_of_lt_of_le hknows hsize
  | _ => trivial

theorem wellFormed_empty : ({} : Store).WellFormed := by
  refine ⟨?_, ?_⟩
  · intro id s outer hs
    cases hs
  · intro id s name value hs
    cases hs

theorem WellFormed.enclose (hstore : store.WellFormed) {outer : Option ScopeId}
    (houter : ∀ id ∈ outer, id < store.scopes.size) : (store.enclose outer).2.WellFormed := by
  refine ⟨?_, ?_⟩
  · intro id s inner hs hinner
    rw [getElem?_enclose] at hs
    split at hs
    · next hid =>
        cases hs
        rw [hid]
        exact houter inner hinner
    · exact hstore.outer_lt hs hinner
  · intro id s name value hs hmem
    rw [getElem?_enclose] at hs
    split at hs
    · cases hs
      cases hmem
    · refine (hstore.knows hs hmem).mono ?_
      rw [size_enclose]
      exact Nat.le_succ _

theorem mem_insert {name key : String} {value bound : Value} {bindings : Bindings}
    (hmem : (key, bound) ∈ Bindings.insert name value bindings) :
    bound = value ∨ (key, bound) ∈ bindings := by
  induction bindings with
  | nil =>
      simp only [Bindings.insert, List.mem_singleton, Prod.mk.injEq] at hmem
      exact .inl hmem.2
  | cons binding bindings ih =>
      obtain ⟨other, old⟩ := binding
      simp only [Bindings.insert] at hmem
      split at hmem
      · rcases List.mem_cons.1 hmem with heq | hrest
        · exact .inl (Prod.mk.inj heq).2
        · exact .inr (List.mem_cons_of_mem _ hrest)
      · rcases List.mem_cons.1 hmem with heq | hrest
        · exact .inr (heq ▸ List.mem_cons_self)
        · rcases ih hrest with hvalue | hold
          · exact .inl hvalue
          · exact .inr (List.mem_cons_of_mem _ hold)

theorem WellFormed.bind (hstore : store.WellFormed) {name : String} {value : Value}
    (hvalue : store.Knows value) : (store.bind scope name value).WellFormed := by
  have hsize : store.scopes.size ≤ (store.bind scope name value).scopes.size :=
    Nat.le_of_eq (size_bind store scope name value).symm
  refine ⟨?_, ?_⟩
  · intro id s outer hs houter
    by_cases hid : id = scope
    · subst hid
      rw [getElem?_bind_self] at hs
      obtain ⟨t, ht, rfl⟩ := Option.map_eq_some_iff.1 hs
      exact hstore.outer_lt ht houter
    · rw [getElem?_bind_of_ne hid] at hs
      exact hstore.outer_lt hs houter
  · intro id s key bound hs hmem
    by_cases hid : id = scope
    · subst hid
      rw [getElem?_bind_self] at hs
      obtain ⟨t, ht, rfl⟩ := Option.map_eq_some_iff.1 hs
      rcases mem_insert hmem with rfl | hold
      · exact hvalue.mono hsize
      · exact (hstore.knows ht hold).mono hsize
    · rw [getElem?_bind_of_ne hid] at hs
      exact (hstore.knows hs hmem).mono hsize

theorem WellFormed.bindAll (hstore : store.WellFormed) {names : List String} {values : List Value}
    (hvalues : ∀ value ∈ values, store.Knows value) :
    (store.bindAll scope names values).WellFormed := by
  induction names generalizing store values with
  | nil => exact hstore
  | cons name names ih =>
      cases values with
      | nil => exact hstore
      | cons value values =>
          rw [Store.bindAll]
          refine ih (hstore.bind (hvalues value List.mem_cons_self)) ?_
          intro other hother
          exact (hvalues other (List.mem_cons_of_mem _ hother)).mono
            (Nat.le_of_eq (size_bind store scope name value).symm)

theorem WellFormed.clear (hstore : store.WellFormed) (scope : ScopeId) :
    (store.clear scope).WellFormed := by
  refine ⟨?_, ?_⟩
  · intro id s outer hs houter
    by_cases hid : id = scope
    · subst hid
      rw [getElem?_clear_self] at hs
      obtain ⟨t, ht, rfl⟩ := Option.map_eq_some_iff.1 hs
      exact hstore.outer_lt ht houter
    · rw [getElem?_clear_of_ne hid] at hs
      exact hstore.outer_lt hs houter
  · intro id s name value hs hmem
    by_cases hid : id = scope
    · subst hid
      rw [getElem?_clear_self] at hs
      obtain ⟨t, ht, rfl⟩ := Option.map_eq_some_iff.1 hs
      cases hmem
    · rw [getElem?_clear_of_ne hid] at hs
      exact (hstore.knows hs hmem).mono (Nat.le_of_eq (size_clear store scope).symm)

theorem mem_of_lookup {name : String} {value : Value} {bindings : Bindings}
    (hlookup : bindings.lookup name = some value) : (name, value) ∈ bindings := by
  induction bindings with
  | nil => cases hlookup
  | cons binding bindings ih =>
      obtain ⟨key, bound⟩ := binding
      rw [Bindings.lookup_cons] at hlookup
      split at hlookup
      · next hkey =>
          cases hlookup
          rw [hkey]
          exact List.mem_cons_self
      · exact List.mem_cons_of_mem _ (ih hlookup)

/-- Only known values are found. -/
theorem WellFormed.knows_of_get? (hstore : store.WellFormed) {scope : ScopeId} {name : String}
    {value : Value} (hget : store.get? scope name = some value) : store.Knows value := by
  rw [get?] at hget
  split at hget
  · cases hget
  · next s hs =>
      split at hget
      · next bound hlookup =>
          cases hget
          exact hstore.knows hs (mem_of_lookup hlookup)
      · split at hget
        · cases hget
        · next outer houter =>
            split at hget
            · exact hstore.knows_of_get? hget
            · cases hget
termination_by scope

end Store

/-! ## Evaluation -/

/-- The store stays well-formed, values stay known to it, and it only grows. -/
def Law.wellFormed (scope : ScopeId) : Law where
  holds machine := machine.store.WellFormed ∧ scope < machine.store.scopes.size
  admits machine value := machine.store.Knows value
  allows before after := before.store.scopes.size ≤ after.store.scopes.size
  allows_refl _ := Nat.le_refl _
  allows_trans := Nat.le_trans
  admits_of_allows hsize hknows := hknows.mono hsize
  admits_of_isPlain _ _ hplain := Store.Knows.of_isPlain hplain

/-- As many calls are open at the end as at the start. -/
def Law.depth : Law where
  holds _ := True
  admits _ _ := True
  allows before after := after.depth = before.depth
  allows_refl _ := rfl
  allows_trans hfirst hsecond := hsecond.trans hfirst
  admits_of_allows _ hvalue := hvalue
  admits_of_isPlain _ _ _ := trivial

theorem Store.WellFormed.newFunction {store : Store} (hstore : store.WellFormed) :
    ({ store with functions := store.functions + 1 } : Store).WellFormed :=
  ⟨hstore.outer_lt, fun hs hmem => (hstore.knows hs hmem).mono (Nat.le_refl _)⟩

theorem Machine.wellFormed_enter {machine : Machine} {function : Function} {arguments : List Value}
    (hstore : machine.store.WellFormed) (hfunction : machine.store.Knows (.function function))
    (harguments : ∀ argument ∈ arguments, machine.store.Knows argument) :
    (machine.enter function arguments).store.WellFormed := by
  have hsize : machine.store.scopes.size ≤
      (machine.store.enclose (some function.scope)).2.scopes.size := by
    rw [Store.size_enclose]
    exact Nat.le_succ _
  have houter : ∀ id ∈ some function.scope, id < machine.store.scopes.size := by
    intro id hid
    cases hid
    exact hfunction
  exact (hstore.enclose houter).bindAll fun argument hargument =>
    (harguments argument hargument).mono hsize

theorem Machine.size_enter (machine : Machine) (function : Function) (arguments : List Value) :
    (machine.enter function arguments).store.scopes.size = machine.store.scopes.size + 1 := by
  rw [enter, Store.size_bindAll, Store.size_enclose]

theorem Law.governs_wellFormed {apply : Value → List Value → Eval Value} {scope : ScopeId}
    (happly : ∀ {callee arguments} {machine : Machine}, (Law.wellFormed scope).holds machine →
      machine.store.Knows callee → (∀ argument ∈ arguments, machine.store.Knows argument) →
      (Law.wellFormed scope).Meets (Law.wellFormed scope).admits machine
        (apply callee arguments machine)) :
    (Law.wellFormed scope).Governs apply scope .all where
  lookUp hholds hget := hholds.1.knows_of_get? hget
  bindName := by
    intro machine ident bound value _ hholds hvalue
    have hsize := Store.size_bind machine.store scope ident value
    refine ⟨⟨hholds.1.bind hvalue, ?_⟩, Nat.le_of_eq hsize.symm, trivial⟩
    exact Nat.lt_of_lt_of_eq hholds.2 hsize.symm
  newFunction _ hholds := ⟨⟨hholds.1.newFunction, hholds.2⟩, Nat.le_refl _, hholds.2⟩
  apply := happly

theorem Eval.call_wellFormed (limit budget : Nat) {scope : ScopeId} {callee : Value}
    {arguments : List Value} {machine : Machine} (hholds : (Law.wellFormed scope).holds machine)
    (hcallee : machine.store.Knows callee)
    (harguments : ∀ argument ∈ arguments, machine.store.Knows argument) :
    (Law.wellFormed scope).Meets (Law.wellFormed scope).admits machine
      (Eval.call limit budget callee arguments machine) := by
  -- Calls in a body are made from another scope, so the induction is over all scopes.
  refine Eval.call_induction (motive := fun callee arguments before result =>
    ∀ {scope : ScopeId}, (Law.wellFormed scope).holds before → before.store.Knows callee →
      (∀ argument ∈ arguments, before.store.Knows argument) →
        (Law.wellFormed scope).Meets (Law.wellFormed scope).admits before result)
    ?_ ?_ budget callee arguments machine hholds hcallee harguments
  · intro callee arguments machine error scope hholds _ _
    exact ⟨hholds, Nat.le_refl _⟩
  · intro apply function arguments machine hcount hdepth happly scope hholds hfunction harguments
    have hentered := Machine.wellFormed_enter hholds.1 hfunction harguments
    have hnew : machine.store.scopes.size <
        (machine.enter function arguments).store.scopes.size := by
      rw [machine.size_enter]
      exact Nat.lt_succ_self _
    have hgoverns : (Law.wellFormed machine.store.scopes.size).Governs apply
        machine.store.scopes.size .all :=
      Law.governs_wellFormed (happly _ _ _)
    have hbody := hgoverns.meets_body (machine.enter function arguments) function.body trivial ⟨hentered, hnew⟩
    refine hbody.leave ?_
    intro after hafter hgrown
    have hle : machine.store.scopes.size ≤ after.store.scopes.size :=
      Nat.le_trans (Nat.le_of_lt hnew) hgrown
    exact ⟨⟨hafter.1, Nat.lt_of_lt_of_le hholds.2 hle⟩, hle, fun value hvalue => hvalue⟩

/-- However it ends, the evaluation of a fragment leaves a well-formed store. -/
theorem Evaluator.run_wellFormed (evaluator : Evaluator) (fragment : Fragment) {store : Store}
    {scope : ScopeId} (hstore : store.WellFormed) (hscope : scope < store.scopes.size) :
    (evaluator.run store scope fragment).2.2.WellFormed := by
  have hgoverns : (Law.wellFormed scope).Governs _ scope .all :=
    Law.governs_wellFormed (Eval.call_wellFormed evaluator.limit (evaluator.limit - evaluator.depth))
  have hmeets := Fragment.eval_meets hgoverns ⟨store, evaluator.depth⟩ (TreeClass.fragment_all fragment)
    ⟨hstore, hscope⟩
  show (Flow.ofResult _).2.store.WellFormed
  rw [Flow.ofResult_snd]
  exact hmeets.holds_machineOf.1

theorem Law.governs_depth {apply : Value → List Value → Eval Value}
    (happly : ∀ callee arguments machine,
      Law.depth.Meets Law.depth.admits machine (apply callee arguments machine))
    (scope : ScopeId) : Law.depth.Governs apply scope .all where
  lookUp _ _ := trivial
  bindName _ _ _ := ⟨trivial, rfl, trivial⟩
  newFunction _ _ := ⟨trivial, rfl, trivial⟩
  apply _ _ _ := happly _ _ _

theorem Eval.call_depth (limit budget : Nat) (callee : Value) (arguments : List Value)
    (machine : Machine) :
    Law.depth.Meets Law.depth.admits machine (Eval.call limit budget callee arguments machine) := by
  refine Eval.call_induction (motive := fun _ _ before result =>
    Law.depth.Meets Law.depth.admits before result) ?_ ?_ budget callee arguments machine
  · intro callee arguments machine error
    exact ⟨trivial, rfl⟩
  · intro apply function arguments machine hcount hdepth happly
    have hgoverns := Law.governs_depth happly machine.store.scopes.size
    have hbody := hgoverns.meets_body (machine.enter function arguments) function.body trivial trivial
    refine hbody.leave ?_
    intro after _ hafter
    have hclosed : after.depth = machine.depth + 1 := hafter
    refine ⟨trivial, ?_, fun value _ => trivial⟩
    show after.depth - 1 = machine.depth
    omega

end LetScript
