import LetScript.Proofs.Evaluation.WellFormed

/-!
# What a store holds

* `Store.Holds` — a value is bound in some scope of a store.
* `Store.Holds.of_enclose`, `Store.Holds.of_bind`, `Store.Holds.of_bindAll`, `Store.Holds.of_clear` — no
  operation of a store makes it hold more than the values that are bound.
* `Store.holds_of_get?` — only values that are held are found.
-/

namespace LetScript.Store

/-- A value is bound in some scope. -/
def Holds (store : Store) (value : Value) : Prop :=
  ∃ (id : ScopeId) (s : Scope) (name : String), store.scopes[id]? = some s ∧ (name, value) ∈ s.bindings

variable {store : Store} {scope : ScopeId} {value : Value}

theorem not_holds_empty : ¬ ({} : Store).Holds value := by
  rintro ⟨id, s, name, hs, -⟩
  cases hs

theorem Holds.of_enclose {outer : Option ScopeId} (hholds : (store.enclose outer).2.Holds value) :
    store.Holds value := by
  obtain ⟨id, s, name, hs, hmem⟩ := hholds
  rw [getElem?_enclose] at hs
  split at hs
  · cases hs
    cases hmem
  · exact ⟨id, s, name, hs, hmem⟩

theorem Holds.of_bind {name : String} {bound : Value} (hholds : (store.bind scope name bound).Holds value) :
    value = bound ∨ store.Holds value := by
  obtain ⟨id, s, key, hs, hmem⟩ := hholds
  by_cases hid : id = scope
  · subst hid
    rw [getElem?_bind_self] at hs
    obtain ⟨t, ht, rfl⟩ := Option.map_eq_some_iff.1 hs
    exact (mem_insert hmem).imp_right fun hold => ⟨id, t, key, ht, hold⟩
  · rw [getElem?_bind_of_ne hid] at hs
    exact .inr ⟨id, s, key, hs, hmem⟩

theorem Holds.of_bindAll {names : List String} {values : List Value}
    (hholds : (store.bindAll scope names values).Holds value) : value ∈ values ∨ store.Holds value := by
  induction names generalizing store values with
  | nil => exact .inr hholds
  | cons name names ih =>
      cases values with
      | nil => exact .inr hholds
      | cons bound values =>
          rcases ih hholds with hmem | hbefore
          · exact .inl (List.mem_cons_of_mem bound hmem)
          · rcases hbefore.of_bind with rfl | hold
            · exact .inl List.mem_cons_self
            · exact .inr hold

theorem Holds.of_clear (hholds : (store.clear scope).Holds value) : store.Holds value := by
  obtain ⟨id, s, name, hs, hmem⟩ := hholds
  by_cases hid : id = scope
  · subst hid
    rw [getElem?_clear_self] at hs
    obtain ⟨t, ht, rfl⟩ := Option.map_eq_some_iff.1 hs
    cases hmem
  · rw [getElem?_clear_of_ne hid] at hs
    exact ⟨id, s, name, hs, hmem⟩

/-- A search finds what some scope binds. -/
theorem holds_of_get? {scope : ScopeId} {name : String} {value : Value}
    (hget : store.get? scope name = some value) : store.Holds value := by
  rw [get?] at hget
  split at hget
  · cases hget
  · next s hs =>
      split at hget
      · next bound hlookup =>
          cases hget
          exact ⟨scope, s, name, hs, mem_of_lookup hlookup⟩
      · split at hget
        · cases hget
        · next outer houter =>
            split at hget
            · exact holds_of_get? hget
            · cases hget
termination_by scope

end LetScript.Store
