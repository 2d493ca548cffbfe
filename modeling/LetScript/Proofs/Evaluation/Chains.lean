import LetScript.Proofs.Evaluation.Sessions

/-!
# Chains of scopes

A search for a name goes along a chain, from a scope outward.  Chains share their outer parts, so the change of one
scope is seen from many scopes, and it is hidden from those whose chain binds the name before.

* `Store.own?`, `Store.outer?` — what one scope says by itself.
* `Store.OuterOlder` — links lead to older scopes.  Of a well-formed store the searches need no more, and no change of
  bindings touches it.
* `Store.Chain` — the scopes from a given one outward; `Store.Chain.unique` and `Store.OuterOlder.exists_chain` say
  that there is one such row of scopes.
* `Store.Sees` — a scope is on a chain, and none before it binds the name; `Store.sees_cons` is one step of it.
* `Store.Chain.get?_eq_findSome?`, `Store.Chain.get?_bind`, `Store.Chain.get?_clear` — a search, and the same search
  behind a change.
* `Session.searches_follow_chains` — the laws of a session that follow.
-/

namespace LetScript

namespace Store

/-- The value that a scope itself binds a name to. -/
def own? (store : Store) (id : ScopeId) (name : String) : Option Value :=
  store.scopes[id]?.bind fun s => s.bindings.lookup name

/-- The scope directly around another one. -/
def outer? (store : Store) (id : ScopeId) : Option ScopeId :=
  store.scopes[id]?.bind Scope.outer

/-- The scopes from a given one outward, up to one that is within no other. -/
inductive Chain (store : Store) : ScopeId → List ScopeId → Prop
  | outermost {id : ScopeId} (hid : id < store.scopes.size) (houter : store.outer? id = none) :
      Chain store id [id]
  | within {id outer : ScopeId} {ids : List ScopeId} (houter : store.outer? id = some outer)
      (hmore : Chain store outer ids) : Chain store id (id :: ids)

/-- A scope is on the chain, and no scope of the chain before it binds the name. -/
def Sees (store : Store) (chain : List ScopeId) (name : String) (id : ScopeId) : Prop :=
  id ∈ chain ∧ ∀ closer ∈ chain.takeWhile (· ≠ id), store.own? closer name = none

instance (store : Store) (chain : List ScopeId) (name : String) (id : ScopeId) :
    Decidable (store.Sees chain name id) :=
  inferInstanceAs (Decidable (_ ∧ _))

/-- Links lead to older scopes. -/
structure OuterOlder (store : Store) : Prop where
  outer_lt : ∀ {id outer : ScopeId}, store.outer? id = some outer → outer < id

variable {store : Store} {x e : ScopeId} {chain : List ScopeId} {n m : String} {value : Value}

theorem WellFormed.outerOlder (hstore : store.WellFormed) : store.OuterOlder := by
  refine ⟨?_⟩
  intro id outer houter
  obtain ⟨s, hs, hlink⟩ := Option.bind_eq_some_iff.1 houter
  exact hstore.outer_lt hs hlink

/-! ## One scope -/

/-- A search ends in the scope itself if that binds the name, and goes on in the outer one if not. -/
theorem OuterOlder.get?_eq (holder : store.OuterOlder) (x : ScopeId) (name : String) :
    store.get? x name = (store.own? x name).or ((store.outer? x).bind (store.get? · name)) := by
  cases hs : store.scopes[x]? with
  | none => simp [get?_of_getElem?_none hs, own?, outer?, hs]
  | some s =>
      have hlink : store.outer? x = s.outer := by simp [outer?, hs]
      have hown : store.own? x name = s.bindings.lookup name := by simp [own?, hs]
      rw [get?_of_getElem? hs, hown, hlink]
      congr 1
      refine Option.bind_congr ?_
      intro outer houter
      exact if_pos (holder.outer_lt (hlink.trans houter))

theorem own?_bind (he : e < store.scopes.size) (n m : String) (value : Value) (id : ScopeId) :
    (store.bind e n value).own? id m = if id = e ∧ m = n then some value else store.own? id m := by
  by_cases hid : id = e
  · subst hid
    have hs : store.scopes[id]? = some store.scopes[id] := Array.getElem?_eq_getElem he
    simp [own?, getElem?_bind_self, hs, Bindings.lookup_insert]
  · simp [own?, getElem?_bind_of_ne hid, hid]

theorem own?_clear (store : Store) (e id : ScopeId) (m : String) :
    (store.clear e).own? id m = if id = e then none else store.own? id m := by
  by_cases hid : id = e
  · subst hid
    cases hs : store.scopes[id]? <;> simp [own?, getElem?_clear_self, hs]
  · simp [own?, getElem?_clear_of_ne hid, hid]

@[simp] theorem outer?_bind (store : Store) (e : ScopeId) (n : String) (value : Value) (id : ScopeId) :
    (store.bind e n value).outer? id = store.outer? id := by
  by_cases hid : id = e
  · subst hid
    cases hs : store.scopes[id]? <;> simp [outer?, getElem?_bind_self, hs]
  · simp [outer?, getElem?_bind_of_ne hid]

@[simp] theorem outer?_clear (store : Store) (e id : ScopeId) :
    (store.clear e).outer? id = store.outer? id := by
  by_cases hid : id = e
  · subst hid
    cases hs : store.scopes[id]? <;> simp [outer?, getElem?_clear_self, hs]
  · simp [outer?, getElem?_clear_of_ne hid]

theorem OuterOlder.bind (holder : store.OuterOlder) (e : ScopeId) (n : String) (value : Value) :
    (store.bind e n value).OuterOlder := by
  refine ⟨?_⟩
  intro id outer houter
  rw [outer?_bind] at houter
  exact holder.outer_lt houter

theorem OuterOlder.clear (holder : store.OuterOlder) (e : ScopeId) : (store.clear e).OuterOlder := by
  refine ⟨?_⟩
  intro id outer houter
  rw [outer?_clear] at houter
  exact holder.outer_lt houter

/-! ## Chains -/

theorem Chain.unique (hchain : store.Chain x chain) {other : List ScopeId} (hother : store.Chain x other) :
    other = chain := by
  induction hchain generalizing other with
  | outermost _ houter =>
      cases hother with
      | outermost => rfl
      | within hlink _ => simp [houter] at hlink
  | within houter _ ih =>
      cases hother with
      | outermost _ hnone => simp [houter] at hnone
      | within hlink hmore =>
          obtain rfl := Option.some.inj (houter.symm.trans hlink)
          rw [ih hmore]

theorem OuterOlder.exists_chain (holder : store.OuterOlder) (hx : x < store.scopes.size) :
    ∃ chain, store.Chain x chain := by
  induction x using Nat.strongRecOn with
  | _ x ih =>
      cases houter : store.outer? x with
      | none => exact ⟨[x], .outermost hx houter⟩
      | some outer =>
          have hlt : outer < x := holder.outer_lt houter
          obtain ⟨chain, hchain⟩ := ih outer hlt (Nat.lt_trans hlt hx)
          exact ⟨x :: chain, .within houter hchain⟩

theorem not_sees_nil : ¬ store.Sees [] n e :=
  fun hsees => List.not_mem_nil hsees.1

/-- Along a chain, a scope is seen from where it stands, and from a scope before it that leaves the name free. -/
theorem sees_cons {id : ScopeId} :
    store.Sees (id :: chain) n e ↔ id = e ∨ id ≠ e ∧ store.own? id n = none ∧ store.Sees chain n e := by
  by_cases hid : id = e
  · simp [Sees, hid]
  · simp [Sees, hid, Ne.symm hid, and_left_comm]

/-! ## Searches -/

theorem Chain.get?_eq_findSome? (holder : store.OuterOlder) (hchain : store.Chain x chain) (name : String) :
    store.get? x name = chain.findSome? (store.own? · name) := by
  induction hchain with
  | @outermost id _ houter =>
      rw [holder.get?_eq, houter, List.findSome?_cons]
      cases store.own? id name <;> rfl
  | @within id outer ids houter _ ih =>
      rw [holder.get?_eq, houter, Option.bind_some, ih, List.findSome?_cons]
      cases store.own? id name <;> rfl

/-- What is found is what the first scope binds that binds the name at all. -/
theorem findSome?_own?_eq_some_iff {found : Value} :
    chain.findSome? (store.own? · n) = some found ↔ ∃ id, store.Sees chain n id ∧ store.own? id n = some found := by
  induction chain with
  | nil => simp [not_sees_nil]
  | cons id chain ih =>
      rw [List.findSome?_cons]
      cases hown : store.own? id n with
      | some bound =>
          constructor
          · rintro ⟨⟩
            exact ⟨id, sees_cons.2 (.inl rfl), hown⟩
          · rintro ⟨other, hsees, hfound⟩
            rcases sees_cons.1 hsees with rfl | ⟨-, hfree, -⟩
            · exact hown.symm.trans hfound
            · simp [hown] at hfree
      | none =>
          refine ih.trans (exists_congr fun other => ?_)
          by_cases hid : id = other
          · subst hid
            simp [hown]
          · simp [sees_cons, hid, hown]

/-- A search behind a new binding: it finds that one, if it comes to it. -/
theorem Chain.get?_bind (holder : store.OuterOlder) (he : e < store.scopes.size) (hchain : store.Chain x chain)
    (n m : String) (value : Value) :
    (store.bind e n value).get? x m = if m = n ∧ store.Sees chain n e then some value else store.get? x m := by
  induction hchain with
  | @outermost id _ houter =>
      rw [(holder.bind e n value).get?_eq, holder.get?_eq, own?_bind he, outer?_bind, houter]
      by_cases hid : id = e
      · by_cases hm : m = n <;> simp [hid, hm, sees_cons]
      · simp [hid, sees_cons, not_sees_nil]
  | @within id outer ids houter _ ih =>
      rw [(holder.bind e n value).get?_eq, holder.get?_eq, own?_bind he, outer?_bind, houter, Option.bind_some,
        Option.bind_some, ih]
      by_cases hm : m = n
      · subst hm
        by_cases hid : id = e
        · simp [hid, sees_cons]
        · -- The scope is another one: it hides the new binding if it binds the name itself.
          cases hown : store.own? id m <;> simp [hid, sees_cons, hown]
      · simp [hm]

/-- The scopes around one that is older than the change are as they were. -/
theorem OuterOlder.get?_clear_of_lt (holder : store.OuterOlder) (hx : x < e) (m : String) :
    (store.clear e).get? x m = store.get? x m := by
  induction x using Nat.strongRecOn with
  | _ x ih =>
      rw [(holder.clear e).get?_eq, holder.get?_eq, own?_clear, outer?_clear, if_neg (Nat.ne_of_lt hx)]
      congr 1
      refine Option.bind_congr ?_
      intro outer houter
      have hlt : outer < x := holder.outer_lt houter
      exact ih outer hlt (Nat.lt_trans hlt hx)

/-- A search behind the loss of all bindings of a scope: if it had ended there, it goes on in the outer one. -/
theorem Chain.get?_clear (holder : store.OuterOlder) (hchain : store.Chain x chain) (e : ScopeId) (m : String) :
    (store.clear e).get? x m =
      if store.Sees chain m e ∧ store.own? e m ≠ none then (store.outer? e).bind (store.get? · m)
      else store.get? x m := by
  induction hchain with
  | @outermost id _ houter =>
      rw [(holder.clear e).get?_eq, holder.get?_eq, own?_clear, outer?_clear, houter]
      by_cases hid : id = e
      · subst hid
        cases hown : store.own? id m <;> simp [sees_cons, houter]
      · simp [hid, sees_cons, not_sees_nil]
  | @within id outer ids houter _ ih =>
      rw [(holder.clear e).get?_eq, holder.get?_eq, own?_clear, outer?_clear, houter, Option.bind_some,
        Option.bind_some]
      by_cases hid : id = e
      · -- The outer scopes are older, so the rest of the search meets no change.
        subst hid
        rw [holder.get?_clear_of_lt (holder.outer_lt houter)]
        cases hown : store.own? id m <;> simp [sees_cons, houter]
      · rw [ih]
        cases hown : store.own? id m <;> simp [hid, sees_cons, hown]

end Store

/-! ## Sessions -/

namespace Session

variable {session : Session} {x : ScopeId} {chain : List ScopeId}

theorem get_eq_ok_iff {name : String} {value : Value} :
    session.get x name = .ok value ↔ session.store.get? x name = some value := by
  unfold get
  cases session.store.get? x name <;> simp

theorem get_eq_error_iff {name : String} :
    session.get x name = .error (.unboundName name) ↔ session.store.get? x name = none := by
  unfold get
  cases session.store.get? x name <;> simp

/-- If links lead to older scopes, as they do in a well-formed store, then every scope has one chain, and all that a
session tells of names follows it.  A name has the value that the first scope of the chain binds it to, and if none
does, the search fails with that name.  A new binding is found from the scopes whose chain comes to it before any
other of its name.  A scope that loses its bindings is passed over by the searches that ended there, and by no
other. -/
theorem searches_follow_chains (holder : session.store.OuterOlder) {x e : ScopeId}
    (hx : x < session.store.scopes.size) (he : e < session.store.scopes.size) (n m : String) (value : Value) :
    ∃ chain, (∀ ids, session.store.Chain x ids ↔ ids = chain) ∧
      (∀ found, session.get x n = .ok found ↔
        ∃ id, session.store.Sees chain n id ∧ session.store.own? id n = some found) ∧
      (session.get x n = .error (.unboundName n) ↔ ∀ id ∈ chain, session.store.own? id n = none) ∧
      (session.binds x n = true ↔ ∃ found, session.get x n = .ok found) ∧
      (session.set e n value).get x m =
        (if m = n ∧ session.store.Sees chain n e then .ok value else session.get x m) ∧
      (session.clear e).get x m =
        (if session.store.Sees chain m e ∧ session.store.own? e m ≠ none then
          match session.store.outer? e with
          | some outer => session.get outer m
          | none => .error (.unboundName m)
        else session.get x m) := by
  obtain ⟨chain, hchain⟩ := holder.exists_chain hx
  have hsearch : session.store.get? x n = chain.findSome? (session.store.own? · n) :=
    hchain.get?_eq_findSome? holder n
  refine ⟨chain, ?chains, ?found, ?missing, ?binds, ?set, ?clear⟩
  case chains =>
    intro ids
    refine ⟨hchain.unique, ?_⟩
    rintro rfl
    exact hchain
  case found =>
    intro found
    rw [get_eq_ok_iff, hsearch]
    exact Store.findSome?_own?_eq_some_iff
  case missing =>
    rw [get_eq_error_iff, hsearch, List.findSome?_eq_none_iff]
  case binds =>
    simp only [get_eq_ok_iff]
    exact Option.isSome_iff_exists
  case set =>
    have hget := hchain.get?_bind holder he n m value
    by_cases hseen : m = n ∧ session.store.Sees chain n e
    · rw [if_pos hseen] at hget ⊢
      exact get_eq_ok_iff.2 hget
    · rw [if_neg hseen] at hget ⊢
      rw [get, get, set, hget]
  case clear =>
    have hget := hchain.get?_clear holder e m
    by_cases hended : session.store.Sees chain m e ∧ session.store.own? e m ≠ none
    · rw [if_pos hended] at hget ⊢
      rw [get, clear, hget]
      cases session.store.outer? e <;> rfl
    · rw [if_neg hended] at hget ⊢
      rw [get, get, clear, hget]

/-- Three scopes within each other, of which the inner one binds nothing.  From there the middle one is seen, and
the outermost one as soon as the middle one has lost its bindings. -/
theorem middle_scope_hides_outermost :
    let outermost := start.set 0 "a" (.int 1)
    let middle := (outermost.addScope (some 0)).set 1 "a" (.int 2)
    let session := middle.addScope (some 1)
    session.store.WellFormed ∧ session.store.Chain 2 [2, 1, 0] ∧
      (session.set 1 "a" (.int 5)).get 2 "a" = .ok (.int 5) ∧
      (session.set 0 "a" (.int 5)).get 2 "a" = session.get 2 "a" ∧
      (session.clear 1).get 2 "a" = session.get 0 "a" := by
  intro outermost middle session
  have hbound : outermost.store.WellFormed := Reachable.start.wellFormed.bind (.of_isPlain rfl)
  have hwithin : middle.store.WellFormed := (hbound.enclose (by decide +kernel)).bind (.of_isPlain rfl)
  have hstore : session.store.WellFormed := hwithin.enclose (by decide +kernel)
  have hchain : session.store.Chain 2 [2, 1, 0] :=
    .within (by decide +kernel) (.within (by decide +kernel) (.outermost (by decide +kernel) (by decide +kernel)))
  have holder : session.store.OuterOlder := hstore.outerOlder
  have hinner : 2 < session.store.scopes.size := by decide +kernel
  have hmiddle : 1 < session.store.scopes.size := by decide +kernel
  have houtermost : 0 < session.store.scopes.size := by decide +kernel
  obtain ⟨chain, hchains, -, -, -, hset, hclear⟩ := searches_follow_chains holder hinner hmiddle "a" "a" (.int 5)
  obtain ⟨other, hothers, -, -, -, hhidden, -⟩ :=
    searches_follow_chains holder hinner houtermost "a" "a" (.int 5)
  obtain rfl := (hchains _).1 hchain
  obtain rfl := (hothers _).1 hchain
  refine ⟨hstore, hchain, ?_, ?_, ?_⟩
  · rw [hset, if_pos (by decide +kernel)]
  · rw [hhidden, if_neg (by decide +kernel)]
  · have houter : session.store.outer? 1 = some 0 := by decide +kernel
    rw [hclear, if_pos (by decide +kernel), houter]

end Session

end LetScript
