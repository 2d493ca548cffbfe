import LetScript.Evaluation.Value

/-!
# Scopes

* `Scope` — bindings of names, and the scope around them;
* `Store` — every scope made so far, and the number of functions made so far;
* `Store.enclose`, `Store.bind`, `Store.clear` — a new scope, a new binding, the removal of a scope's
  own bindings;
* `Store.get?` — the value of a name, searched from a scope outward.

An outer scope is always older than what it surrounds: `Store.get?` follows only links to older scopes,
so every search ends.
-/

namespace LetScript

/-- Bindings of names; a name is bound at most once. -/
abbrev Bindings := List (String × Value)

/-- The bindings with a name bound anew. -/
def Bindings.insert (name : String) (value : Value) : Bindings → Bindings
  | [] => [(name, value)]
  | (other, old) :: bindings =>
      if other = name then (name, value) :: bindings
      else (other, old) :: Bindings.insert name value bindings

theorem Bindings.lookup_cons (name other : String) (value : Value) (bindings : Bindings) :
    ((name, value) :: bindings).lookup other =
      if other = name then some value else bindings.lookup other := by
  by_cases hother : other = name
  · simp [hother]
  · have hbeq : (other == name) = false := by simpa using hother
    simp [List.lookup_cons, hbeq, hother]

/-- A new binding is found under its name, and no other name is affected. -/
theorem Bindings.lookup_insert (name other : String) (value : Value) (bindings : Bindings) :
    (Bindings.insert name value bindings).lookup other =
      if other = name then some value else bindings.lookup other := by
  induction bindings with
  | nil => exact lookup_cons name other value []
  | cons binding bindings ih =>
      obtain ⟨key, old⟩ := binding
      by_cases hkey : key = name
      · subst hkey
        by_cases hother : other = key <;> simp [Bindings.insert, lookup_cons, hother]
      · by_cases hother : other = key
        · subst hother
          simp [Bindings.insert, hkey]
        · simp [Bindings.insert, hkey, lookup_cons, hother, ih]

/-- Names and their values, within an outer scope or in none. -/
structure Scope where
  bindings : Bindings := []
  outer : Option ScopeId := none
  deriving DecidableEq

/-- All scopes, numbered as they were made, and the count of functions made so far. -/
structure Store where
  scopes : Array Scope := #[]
  functions : Nat := 0
  deriving DecidableEq

namespace Store

/-- A new empty scope within `outer`. -/
def enclose (store : Store) (outer : Option ScopeId) : ScopeId × Store :=
  (store.scopes.size, { store with scopes := store.scopes.push ⟨[], outer⟩ })

/-- The store with a name bound in a scope. -/
def bind (store : Store) (scope : ScopeId) (name : String) (value : Value) : Store :=
  { store with
    scopes := store.scopes.modify scope fun s =>
      { s with bindings := Bindings.insert name value s.bindings } }

/-- The store with names bound in a scope, the last value for a name that occurs twice. -/
def bindAll (store : Store) (scope : ScopeId) : List String → List Value → Store
  | name :: names, value :: values => (store.bind scope name value).bindAll scope names values
  | _, _ => store

/-- The store with nothing bound in a scope itself. -/
def clear (store : Store) (scope : ScopeId) : Store :=
  { store with scopes := store.scopes.modify scope fun s => { s with bindings := [] } }

/-- The value of a name in the first scope, from the given one outward, that binds it. -/
def get? (store : Store) (scope : ScopeId) (name : String) : Option Value :=
  match store.scopes[scope]? with
  | none => none
  | some s =>
      match s.bindings.lookup name with
      | some value => some value
      | none =>
          match s.outer with
          | none => none
          | some outer => if outer < scope then store.get? outer name else none
termination_by scope

/-- Whether a name is bound, from the given scope outward. -/
def binds (store : Store) (scope : ScopeId) (name : String) : Bool :=
  (store.get? scope name).isSome

/-- A new function, with an identity that no function had before. -/
def makeFunction (store : Store) (parameters : List String) (body : Block) (scope : ScopeId) :
    Function × Store :=
  (⟨store.functions, parameters, body, scope⟩, { store with functions := store.functions + 1 })

end Store

end LetScript
