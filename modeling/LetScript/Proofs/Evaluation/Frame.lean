import LetScript.Proofs.Evaluation.Calls
import LetScript.Proofs.Evaluation.Scopes

/-!
# What evaluation can change

Evaluation writes to the scope in which it takes place and to scopes that it makes itself.

* `Store.Keeps` — every scope is as it was.
* `Store.ChangesOnly` — every scope but one is as it was, and in that one only given names have new
  values.
* `Eval.call_keeps` — a call keeps every scope: the parameters and the `let`s of a body go into a new
  scope.
* `Evaluator.run_changes_only` — evaluation changes only the names in a `let` of the tree.
-/

namespace LetScript

/-! ## Frames -/

/-- A scope of which only the given names may have been bound anew. -/
structure Scope.Rebinds (names : List String) (before after : Scope) : Prop where
  outer_eq : after.outer = before.outer
  isSome_lookup : ∀ name, (before.bindings.lookup name).isSome = true →
    (after.bindings.lookup name).isSome = true
  lookup_eq : ∀ name, name ∉ names → after.bindings.lookup name = before.bindings.lookup name

/-- Every scope of the first store is as it was in the second. -/
def Store.Keeps (before after : Store) : Prop :=
  ∀ (id : ScopeId) (s : Scope), before.scopes[id]? = some s → after.scopes[id]? = some s

/-- Between the two stores nothing has changed but the values of the given names in one scope, and
there may be new scopes. -/
structure Store.ChangesOnly (scope : ScopeId) (names : List String) (before after : Store) : Prop where
  others : ∀ (id : ScopeId) (s : Scope), id ≠ scope → before.scopes[id]? = some s →
    after.scopes[id]? = some s
  own : ∀ s : Scope, before.scopes[scope]? = some s →
    ∃ t, after.scopes[scope]? = some t ∧ s.Rebinds names t

theorem Scope.Rebinds.refl (names : List String) (s : Scope) : s.Rebinds names s :=
  ⟨rfl, fun _ hbound => hbound, fun _ _ => rfl⟩

theorem Scope.Rebinds.trans {names : List String} {first second third : Scope}
    (hfirst : first.Rebinds names second) (hsecond : second.Rebinds names third) :
    first.Rebinds names third := by
  refine ⟨hsecond.outer_eq.trans hfirst.outer_eq, ?_, ?_⟩
  · intro name hbound
    exact hsecond.isSome_lookup name (hfirst.isSome_lookup name hbound)
  · intro name hname
    rw [hsecond.lookup_eq name hname, hfirst.lookup_eq name hname]

theorem Scope.rebinds_insert {names : List String} {name : String} (hname : name ∈ names)
    (value : Value) (s : Scope) : s.Rebinds names { s with bindings := Bindings.insert name value s.bindings } := by
  refine ⟨rfl, ?_, ?_⟩
  · intro other hbound
    rw [Bindings.lookup_insert]
    split
    · rfl
    · exact hbound
  · intro other hother
    have hne : other ≠ name := by
      rintro rfl
      exact hother hname
    rw [Bindings.lookup_insert, if_neg hne]

theorem Store.Keeps.refl (store : Store) : store.Keeps store :=
  fun _ _ hs => hs

/-- Scopes that are as they were have the names that they had. -/
theorem Store.Keeps.get?_eq {before after : Store} (hkeeps : before.Keeps after) {scope : ScopeId}
    (hscope : scope < before.scopes.size) (name : String) : after.get? scope name = before.get? scope name := by
  induction scope using Nat.strongRecOn with
  | _ scope ih =>
      have hs : before.scopes[scope]? = some before.scopes[scope] := Array.getElem?_eq_getElem hscope
      rw [Store.get?_of_getElem? hs, Store.get?_of_getElem? (hkeeps scope _ hs)]
      congr 2
      funext outer
      split
      · next houter => exact ih outer houter (Nat.lt_trans houter hscope)
      · rfl

theorem Store.Keeps.changesOnly {before after : Store} (hkeeps : before.Keeps after) (scope : ScopeId)
    (names : List String) : Store.ChangesOnly scope names before after :=
  ⟨fun id s _ hs => hkeeps id s hs, fun s hs => ⟨s, hkeeps scope s hs, .refl names s⟩⟩

theorem Store.ChangesOnly.trans {scope : ScopeId} {names : List String} {first second third : Store}
    (hfirst : Store.ChangesOnly scope names first second)
    (hsecond : Store.ChangesOnly scope names second third) :
    Store.ChangesOnly scope names first third := by
  refine ⟨?_, ?_⟩
  · intro id s hid hs
    exact hsecond.others id s hid (hfirst.others id s hid hs)
  · intro s hs
    obtain ⟨t, ht, hrebinds⟩ := hfirst.own s hs
    obtain ⟨u, hu, hmore⟩ := hsecond.own t ht
    exact ⟨u, hu, hrebinds.trans hmore⟩

theorem Store.changesOnly_bind {names : List String} {name : String} (hname : name ∈ names)
    (store : Store) (scope : ScopeId) (value : Value) :
    Store.ChangesOnly scope names store (store.bind scope name value) := by
  refine ⟨?_, ?_⟩
  · intro id s hid hs
    rw [Store.getElem?_bind_of_ne hid]
    exact hs
  · intro s hs
    refine ⟨_, ?_, s.rebinds_insert hname value⟩
    rw [Store.getElem?_bind_self, hs]
    rfl

/-- Entering a function makes a scope and keeps the others. -/
theorem Machine.keeps_enter (machine : Machine) (function : Function) (arguments : List Value) :
    machine.store.Keeps (machine.enter function arguments).store := by
  intro id s hs
  have hid : id < machine.store.scopes.size := Store.lt_size_of_getElem? hs
  show (((machine.store.enclose (some function.scope)).2.bindAll machine.store.scopes.size
    function.parameters arguments).scopes[id]?) = some s
  rw [Store.getElem?_bindAll_of_ne (Nat.ne_of_lt hid), Store.getElem?_enclose_of_lt _ hid]
  exact hs

/-! ## Evaluation -/

/-- Evaluation in a scope changes only the given names there. -/
def Law.frame (scope : ScopeId) (names : List String) : Law where
  holds _ := True
  admits _ _ := True
  allows before after := Store.ChangesOnly scope names before.store after.store
  allows_refl machine := (Store.Keeps.refl machine.store).changesOnly scope names
  allows_trans := Store.ChangesOnly.trans
  admits_of_allows _ hvalue := hvalue
  admits_of_isPlain _ _ _ := trivial

theorem Law.governs_frame {apply : Value → List Value → Eval Value}
    (happly : ∀ callee arguments (machine : Machine),
      machine.store.Keeps (Eval.machineOf (apply callee arguments machine)).store)
    (scope : ScopeId) (names : List String) :
    (Law.frame scope names).Governs apply scope (.binding names) where
  lookUp _ _ := trivial
  bindName hbind _ _ := ⟨trivial, Store.changesOnly_bind (TreeClass.mem_of_binding hbind) _ _ _, trivial⟩
  newFunction := by
    intro machine parameters body _ _
    have hkeeps := (Store.Keeps.refl machine.store).changesOnly scope names
    exact ⟨trivial, ⟨hkeeps.others, hkeeps.own⟩, trivial⟩
  apply := by
    intro machine callee arguments _ _ _
    have hchanges := (happly callee arguments machine).changesOnly scope names
    exact .of_machineOf trivial hchanges fun _ => trivial

theorem Eval.machineOf_leave (result : EStateM.Result Signal Machine Value) :
    Eval.machineOf (Eval.leave result) = (Eval.machineOf result).leave := by
  cases result with
  | ok value after => rfl
  | error signal after => cases signal <;> rfl

/-- A call leaves every scope that was there before as it was. -/
theorem Eval.call_keeps (limit budget : Nat) (callee : Value) (arguments : List Value)
    (machine : Machine) :
    machine.store.Keeps (Eval.machineOf (Eval.call limit budget callee arguments machine)).store := by
  refine Eval.call_induction (motive := fun _ _ before result =>
    before.store.Keeps (Eval.machineOf result).store) ?_ ?_ budget callee arguments machine
  · intro callee arguments machine error
    exact Store.Keeps.refl machine.store
  · intro apply function arguments machine hcount hdepth happly
    have hgoverns := Law.governs_frame happly machine.store.scopes.size (Block.lets function.body)
    have hbody := hgoverns.meets_body (machine.enter function arguments) function.body (List.Subset.refl _) trivial
    rw [Eval.machineOf_leave]
    -- The body may bind names in its own scope, which is none of those before the call.
    intro id s hs
    have hid : id ≠ machine.store.scopes.size := Nat.ne_of_lt (Store.lt_size_of_getElem? hs)
    exact hbody.allows_machineOf.others id s hid (machine.keeps_enter function arguments id s hs)

theorem Fragment.eval_changesOnly (limit budget : Nat) (scope : ScopeId) (fragment : Fragment)
    (machine : Machine) :
    Store.ChangesOnly scope fragment.lets machine.store
      (Eval.machineOf (fragment.eval (Eval.call limit budget) scope machine)).store := by
  have hgoverns := Law.governs_frame (Eval.call_keeps limit budget) scope fragment.lets
  have hmeets := Fragment.eval_meets hgoverns machine (TreeClass.fragment_binding fragment) trivial
  exact hmeets.allows_machineOf

/-- However it ends, the evaluation of a fragment changes no scope but its own, and there only the
values of names in a `let` of the fragment.  A call changes no scope that was there before. -/
theorem Evaluator.run_changes_only (evaluator : Evaluator) (store : Store) (scope : ScopeId)
    (fragment : Fragment) :
    Store.ChangesOnly scope fragment.lets store (evaluator.run store scope fragment).2.2 ∧
      ∀ (limit budget depth : Nat) (callee : Value) (arguments : List Value), store.Keeps
        (Eval.machineOf (Eval.call limit budget callee arguments ⟨store, depth⟩)).store := by
  refine ⟨?_, ?_⟩
  · show Store.ChangesOnly scope fragment.lets store (Flow.ofResult _).2.store
    rw [Flow.ofResult_snd]
    exact Fragment.eval_changesOnly _ _ scope fragment ⟨store, evaluator.depth⟩
  · intro limit budget depth callee arguments
    exact Eval.call_keeps limit budget callee arguments ⟨store, depth⟩

end LetScript
