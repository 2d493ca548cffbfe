import LetScript.Evaluation.Store

/-!
# Scopes after a change

One equation for each operation of a store: which scopes it leaves, in terms of those that were there.

* `Store.size_enclose`, `Store.size_bind`, `Store.size_bindAll` — how many scopes there are.
* `Store.getElem?_enclose`, `Store.getElem?_bind_self`, `Store.getElem?_bind_of_ne`, … — the scope with a
  given number.
* `Store.get?_of_getElem?` — a search in a scope that is there, one step of it.
-/

namespace LetScript.Store

variable {store : Store} {scope id : ScopeId} {name : String} {value : Value}

@[simp] theorem size_enclose (store : Store) (outer : Option ScopeId) :
    (store.enclose outer).2.scopes.size = store.scopes.size + 1 := by
  simp [enclose]

@[simp] theorem size_bind (store : Store) (scope : ScopeId) (name : String) (value : Value) :
    (store.bind scope name value).scopes.size = store.scopes.size := by
  simp [bind]

@[simp] theorem size_clear (store : Store) (scope : ScopeId) :
    (store.clear scope).scopes.size = store.scopes.size := by
  simp [clear]

@[simp] theorem size_bindAll (store : Store) (scope : ScopeId) (names : List String)
    (values : List Value) :
    (store.bindAll scope names values).scopes.size = store.scopes.size := by
  induction names generalizing store values with
  | nil => rfl
  | cons name names ih =>
      cases values with
      | nil => rfl
      | cons value values =>
          rw [bindAll, ih, size_bind]

theorem getElem?_enclose (store : Store) (outer : Option ScopeId) (id : ScopeId) :
    (store.enclose outer).2.scopes[id]? =
      if id = store.scopes.size then some ⟨[], outer⟩ else store.scopes[id]? := by
  simp only [enclose, Array.getElem?_push]

/-- The scopes that were there before a new one. -/
theorem getElem?_enclose_of_lt (outer : Option ScopeId) (hid : id < store.scopes.size) :
    (store.enclose outer).2.scopes[id]? = store.scopes[id]? := by
  rw [getElem?_enclose, if_neg (Nat.ne_of_lt hid)]

theorem getElem?_bind_self (store : Store) (scope : ScopeId) (name : String) (value : Value) :
    (store.bind scope name value).scopes[scope]? =
      store.scopes[scope]?.map fun s =>
        { s with bindings := Bindings.insert name value s.bindings } := by
  simp [bind, Array.getElem?_modify]

theorem getElem?_bind_of_ne (hid : id ≠ scope) :
    (store.bind scope name value).scopes[id]? = store.scopes[id]? := by
  simp [bind, Array.getElem?_modify, Ne.symm hid]

theorem getElem?_bindAll_of_ne {names : List String} {values : List Value} (hid : id ≠ scope) :
    (store.bindAll scope names values).scopes[id]? = store.scopes[id]? := by
  induction names generalizing store values with
  | nil => rfl
  | cons name names ih =>
      cases values with
      | nil => rfl
      | cons value values => rw [bindAll, ih, getElem?_bind_of_ne hid]

theorem getElem?_clear_self (store : Store) (scope : ScopeId) :
    (store.clear scope).scopes[scope]? =
      store.scopes[scope]?.map fun s => { s with bindings := [] } := by
  simp [clear, Array.getElem?_modify]

theorem getElem?_clear_of_ne (hid : id ≠ scope) :
    (store.clear scope).scopes[id]? = store.scopes[id]? := by
  simp [clear, Array.getElem?_modify, Ne.symm hid]

theorem lt_size_of_getElem? {s : Scope} (hs : store.scopes[id]? = some s) : id < store.scopes.size :=
  (Array.getElem?_eq_some_iff.1 hs).1

/-- A search ends in the first scope that binds the name, or goes on in the outer one. -/
theorem get?_of_getElem? {s : Scope} (hs : store.scopes[scope]? = some s) (name : String) :
    store.get? scope name =
      (s.bindings.lookup name).or
        (s.outer.bind fun outer => if outer < scope then store.get? outer name else none) := by
  rw [get?, hs]
  cases hlookup : s.bindings.lookup name with
  | some value => simp [hlookup]
  | none =>
      cases houter : s.outer with
      | none => simp [hlookup, houter]
      | some outer => simp [hlookup, houter]

theorem get?_of_getElem?_none (hscope : store.scopes[scope]? = none) (name : String) :
    store.get? scope name = none := by
  rw [get?, hscope]

end LetScript.Store
