import LetScript.Proofs.Evaluation.Depth
import LetScript.Proofs.Evaluation.Matching

/-!
# Clients

What one host of several can do with a store that they share.  It uses the scopes and the values that it
has been given, each by its number, and never sees how the store itself numbers them.

* `Request`, `Answer` — what a host asks for, and what it is told.
* `Client` — a session, and the values that its host has been given.
* `Client.perform`, `Client.serve` — one request, and one after another.
* `Client.Mirrors`, `Client.Mirrors.perform` — clients whose stores match are told the same.
* `Client.LeavesAlone`, `Client.perform_leavesAlone` — a client changes none of the scopes that it has not
  been given.
-/

namespace LetScript

/-- What a host can tell of a value: its type, its text and whether it counts as true. -/
structure Appearance where
  type : ValueType
  text : String
  truthy : Bool
  deriving DecidableEq

def Value.appearance (value : Value) : Appearance :=
  ⟨value.type, value.text, value.isTruthy⟩

/-- A value that a host can bind: one that is no function, or one that it has been given. -/
inductive Offer where
  | plain (value : Value) (hplain : value.type ≠ .function)
  | given (number : Nat)

/-- What a host asks for.  Numbers count the scopes and the values that it has been given. -/
inductive Request where
  | addScope (outer : Option Nat)
  /-- Takes the scope in which a function was made. -/
  | adopt (value : Nat)
  | set (scope : Nat) (name : String) (offer : Offer)
  | clear (scope : Nat)
  | copy (source target : Nat × String)
  | get (scope : Nat) (name : String)
  | binds (scope : Nat) (name : String)
  | evaluate (scope : Nat) (fragment : Fragment)

/-- What a host is told. -/
inductive Answer where
  /-- There is no scope, or no value, of the given number. -/
  | missing
  | done
  /-- The number of a scope that the host has now. -/
  | scope (number : Nat)
  | bound (isBound : Bool)
  | value (seen : Appearance)
  | returned (seen : Appearance)
  | failed (error : RuntimeError)
  deriving DecidableEq

def Answer.ofFlow : Flow → Answer
  | .value v => .value v.appearance
  | .ret v => .returned v.appearance
  | .error e => .failed e

/-- A session, and the values that its host has been given. -/
structure Client where
  session : Session
  values : Array Value := #[]

namespace Client

/-- Acts on the scope of the given number. -/
def withScope (client : Client) (number : Nat) (act : ScopeId → Answer × Client) : Answer × Client :=
  match client.session.scopes[number]? with
  | some scope => act scope
  | none => (.missing, client)

/-- Acts on the value of the given number. -/
def withValue (client : Client) (number : Nat) (act : Value → Answer × Client) : Answer × Client :=
  match client.values[number]? with
  | some value => act value
  | none => (.missing, client)

/-- Binds a name to a value. -/
def set (client : Client) (scope : ScopeId) (name : String) (value : Value) : Answer × Client :=
  (.done, { client with session := client.session.set scope name value })

/-- Takes a scope that is there already. -/
def take (client : Client) (scope : ScopeId) : Answer × Client :=
  (.scope client.session.scopes.size,
    { client with session := { client.session with scopes := client.session.scopes.push scope } })

/-- Makes a scope. -/
def addScope (client : Client) (outer : Option ScopeId) : Answer × Client :=
  (.scope client.session.scopes.size, { client with session := client.session.addScope outer })

/-- Evaluates a fragment.  The host is given the value, an error taken for one. -/
def evaluate (client : Client) (scope : ScopeId) (fragment : Fragment) : Answer × Client :=
  let (flow, session) := client.session.evaluate scope fragment
  (.ofFlow flow, { session, values := client.values.push flow.result })

/-- Performs a request. -/
def perform (client : Client) : Request → Answer × Client
  | .addScope none => client.addScope none
  | .addScope (some outer) => client.withScope outer fun outer => client.addScope (some outer)
  | .adopt number =>
      client.withValue number fun value =>
        match value with
        | .function f => client.take f.scope
        | other => (.failed (.notAFunction other.type), client)
  | .set scope name (.plain value _) => client.withScope scope fun scope => client.set scope name value
  | .set scope name (.given number) =>
      client.withScope scope fun scope =>
        client.withValue number fun value => client.set scope name value
  | .clear scope =>
      client.withScope scope fun scope =>
        (.done, { client with session := client.session.clear scope })
  | .copy (source, name) (target, key) =>
      client.withScope source fun source =>
        client.withScope target fun target =>
          match client.session.copy (source, name) (target, key) with
          | .ok session => (.done, { client with session })
          | .error error => (.failed error, client)
  | .get scope name =>
      client.withScope scope fun scope =>
        match client.session.get scope name with
        | .ok value => (.value value.appearance, { client with values := client.values.push value })
        | .error error => (.failed error, client)
  | .binds scope name =>
      client.withScope scope fun scope => (.bound (client.session.binds scope name), client)
  | .evaluate scope fragment =>
      client.withScope scope fun scope => client.evaluate scope fragment

/-- Performs requests one after another. -/
def serve (client : Client) : List Request → List Answer × Client
  | [] => ([], client)
  | request :: requests =>
      let (answer, next) := client.perform request
      let (answers, last) := next.serve requests
      (answer :: answers, last)

end Client

/-! ## Clients that are told the same -/

/-- The stores of two clients match, and what the two have been given corresponds. -/
structure Client.Mirrors (w : Matching) (client other : Client) : Prop where
  store : w.Holds client.session.store other.session.store
  evaluator_eq : client.session.evaluator = other.session.evaluator
  scopes : List.Forall₂ w.same client.session.scopes.toList other.session.scopes.toList
  values : List.Forall₂ (Value.Like w.same) client.values.toList other.values.toList

/-- Two clients are told the same and correspond again. -/
def Client.Agree (w : Matching) (left right : Answer × Client) : Prop :=
  left.1 = right.1 ∧ ∃ count, Client.Mirrors (w.grow count) left.2 right.2

theorem Value.Like.appearance_eq {same : ScopeId → ScopeId → Prop} {a b : Value}
    (hlike : a.Like same b) : a.appearance = b.appearance := by
  simp only [appearance, hlike.alike.type_eq, hlike.text_eq, hlike.alike.isTruthy_eq]

theorem Flow.Like.answer_eq {same : ScopeId → ScopeId → Prop} {a b : Flow} (hlike : a.Like same b) :
    Answer.ofFlow a = Answer.ofFlow b := by
  cases hlike with
  | value hvalue => simp only [Answer.ofFlow, hvalue.appearance_eq]
  | ret hvalue => simp only [Answer.ofFlow, hvalue.appearance_eq]
  | error error => rfl

theorem Flow.Like.result {same : ScopeId → ScopeId → Prop} {a b : Flow} (hlike : a.Like same b) :
    a.result.Like same b.result := by
  cases hlike with
  | value hvalue => exact hvalue
  | ret hvalue => exact hvalue
  | error error => exact .plain fun htype => nomatch htype

section Lists

variable {α β : Type} {r : α → β → Prop}

theorem forall₂_getElem? {xs : List α} {ys : List β} (hall : List.Forall₂ r xs ys) (i : Nat) :
    Option.Rel r xs[i]? ys[i]? := by
  induction hall generalizing i with
  | nil => exact .none
  | cons hfirst _ ih =>
      cases i with
      | zero => exact .some hfirst
      | succ i => exact ih i

theorem exists_of_forall₂ {xs : List α} {ys : List β} (hall : List.Forall₂ r xs ys) {x : α}
    (hx : x ∈ xs) : ∃ y, r x y := by
  induction hall with
  | nil => cases hx
  | @cons _ y _ _ hfirst _ ih =>
      rcases List.mem_cons.1 hx with rfl | hmem
      · exact ⟨y, hfirst⟩
      · exact ih hmem

theorem forall₂_push {xs : Array α} {ys : Array β} (hall : List.Forall₂ r xs.toList ys.toList) {x : α}
    {y : β} (hr : r x y) : List.Forall₂ r (xs.push x).toList (ys.push y).toList := by
  rw [Array.toList_push, Array.toList_push]
  exact List.rel_append hall (.cons hr .nil)

end Lists

namespace Client

variable {w : Matching} {client other : Client} {here there : ScopeId}

theorem Agree.of_mirrors (hmirrors : client.Mirrors w other) (answer : Answer) :
    Agree w (answer, client) (answer, other) :=
  ⟨rfl, 0, w.grow_zero.symm ▸ hmirrors⟩

theorem Mirrors.withScope (hmirrors : client.Mirrors w other) (number : Nat)
    {act act' : ScopeId → Answer × Client}
    (hact : ∀ {here there}, w.same here there → Agree w (act here) (act' there)) :
    Agree w (client.withScope number act) (other.withScope number act') := by
  have hscope := forall₂_getElem? hmirrors.scopes number
  rw [Array.getElem?_toList, Array.getElem?_toList] at hscope
  unfold Client.withScope
  generalize client.session.scopes[number]? = found, other.session.scopes[number]? = found' at hscope
  cases hscope with
  | some hsame => exact hact hsame
  | none => exact .of_mirrors hmirrors .missing

theorem Mirrors.withValue (hmirrors : client.Mirrors w other) (number : Nat)
    {act act' : Value → Answer × Client}
    (hact : ∀ {a b}, a.Like w.same b → Agree w (act a) (act' b)) :
    Agree w (client.withValue number act) (other.withValue number act') := by
  have hvalue := forall₂_getElem? hmirrors.values number
  rw [Array.getElem?_toList, Array.getElem?_toList] at hvalue
  unfold Client.withValue
  generalize client.values[number]? = found, other.values[number]? = found' at hvalue
  cases hvalue with
  | some hlike => exact hact hlike
  | none => exact .of_mirrors hmirrors .missing

theorem Mirrors.scopes_size_eq (hmirrors : client.Mirrors w other) :
    client.session.scopes.size = other.session.scopes.size :=
  hmirrors.scopes.length_eq

theorem Mirrors.addScope (hmirrors : client.Mirrors w other) {outer outer' : Option ScopeId}
    (houter : Option.Rel w.same outer outer') : Agree w (client.addScope outer) (other.addScope outer') := by
  have hnew : (w.grow 1).same client.session.store.scopes.size other.session.store.scopes.size := by
    rw [hmirrors.store.size_eq, hmirrors.store.size_eq']
    exact w.same_last
  refine ⟨congrArg Answer.scope hmirrors.scopes_size_eq, 1, ?_⟩
  exact {
    store := hmirrors.store.enclose houter
    evaluator_eq := hmirrors.evaluator_eq
    scopes := forall₂_push (hmirrors.scopes.imp fun _ _ => Matching.same_grow) hnew
    values := hmirrors.values.imp fun _ _ hvalue => hvalue.mono Matching.same_grow }

theorem Mirrors.take (hmirrors : client.Mirrors w other) (hsame : w.same here there) :
    Agree w (client.take here) (other.take there) := by
  refine ⟨congrArg Answer.scope hmirrors.scopes_size_eq, 0, ?_⟩
  rw [w.grow_zero]
  exact { hmirrors with scopes := forall₂_push hmirrors.scopes hsame }

theorem Mirrors.receive (hmirrors : client.Mirrors w other) {a b : Value} (hlike : a.Like w.same b) :
    ({ client with values := client.values.push a } : Client).Mirrors w
      { other with values := other.values.push b } :=
  { hmirrors with values := forall₂_push hmirrors.values hlike }

/-- A change of the store alone. -/
theorem Mirrors.change (hmirrors : client.Mirrors w other) {store store' : Store}
    (hstore : w.Holds store store') :
    Agree w (.done, { client with session := { client.session with store } })
      (.done, { other with session := { other.session with store := store' } }) := by
  refine .of_mirrors ?_ .done
  exact ⟨hstore, hmirrors.evaluator_eq, hmirrors.scopes, hmirrors.values⟩

theorem Mirrors.set (hmirrors : client.Mirrors w other) (hsame : w.same here there) (name : String)
    {a b : Value} (hlike : a.Like w.same b) : Agree w (client.set here name a) (other.set there name b) :=
  hmirrors.change (hmirrors.store.bind hsame name hlike)

theorem Mirrors.evaluate (hmirrors : client.Mirrors w other) (hsame : w.same here there)
    (fragment : Fragment) : Agree w (client.evaluate here fragment) (other.evaluate there fragment) := by
  obtain ⟨count, hstore, hflow⟩ :=
    client.session.evaluator.run_matches fragment hmirrors.store hsame
  have hevaluator := hmirrors.evaluator_eq
  rw [hevaluator] at hstore hflow
  unfold Client.evaluate Session.evaluate
  rw [hevaluator]
  refine ⟨hflow.answer_eq, count, ?_⟩
  exact {
    store := hstore
    evaluator_eq := (Evaluator.run_evaluator ..).trans (Evaluator.run_evaluator ..).symm
    scopes := hmirrors.scopes.imp fun _ _ => Matching.same_grow
    values := forall₂_push (hmirrors.values.imp fun _ _ hvalue => hvalue.mono Matching.same_grow)
      hflow.result }

/-- Two clients that correspond are told the same, and correspond behind it. -/
theorem Mirrors.perform (hmirrors : client.Mirrors w other) (request : Request) :
    Agree w (client.perform request) (other.perform request) := by
  cases request with
  | addScope outer =>
      cases outer with
      | none => exact hmirrors.addScope .none
      | some outer =>
          refine hmirrors.withScope outer ?_
          intro here there hsame
          exact hmirrors.addScope (.some hsame)
  | adopt number =>
      refine hmirrors.withValue number ?_
      intro a b hlike
      cases hlike with
      | plain hplain =>
          cases a with
          | function f => exact absurd rfl hplain
          | _ => exact .of_mirrors hmirrors _
      | function _ _ hscope => exact hmirrors.take hscope
  | set scope name offer =>
      cases offer with
      | plain value hplain =>
          refine hmirrors.withScope scope ?_
          intro here there hsame
          exact hmirrors.set hsame name (.plain hplain)
      | given number =>
          refine hmirrors.withScope scope ?_
          intro here there hsame
          refine hmirrors.withValue number ?_
          intro a b hlike
          exact hmirrors.set hsame name hlike
  | clear scope =>
      refine hmirrors.withScope scope ?_
      intro here there hsame
      exact hmirrors.change (hmirrors.store.clear hsame)
  | copy source target =>
      refine hmirrors.withScope source.1 ?_
      intro here there hsource
      refine hmirrors.withScope target.1 ?_
      intro here' there' htarget
      -- The name is bound in both sources, to values that are alike, or in neither of them.
      have hget := hmirrors.store.get? hsource source.2
      unfold Session.copy Session.get
      dsimp only
      generalize client.session.store.get? here source.2 = found,
        other.session.store.get? there source.2 = found' at hget
      cases hget with
      | some hlike => exact hmirrors.change (hmirrors.store.bind htarget target.2 hlike)
      | none => exact .of_mirrors hmirrors _
  | get scope name =>
      refine hmirrors.withScope scope ?_
      intro here there hsame
      have hget := hmirrors.store.get? hsame name
      unfold Session.get
      generalize client.session.store.get? here name = found,
        other.session.store.get? there name = found' at hget
      cases hget with
      | some hlike =>
          dsimp only
          rw [hlike.appearance_eq]
          exact .of_mirrors (hmirrors.receive hlike) _
      | none => exact .of_mirrors hmirrors _
  | binds scope name =>
      refine hmirrors.withScope scope ?_
      intro here there hsame
      have hget := hmirrors.store.get? hsame name
      unfold Session.binds Store.binds
      generalize client.session.store.get? here name = found,
        other.session.store.get? there name = found' at hget
      cases hget with
      | some hlike => exact .of_mirrors hmirrors _
      | none => exact .of_mirrors hmirrors _
  | evaluate scope fragment =>
      refine hmirrors.withScope scope ?_
      intro here there hsame
      exact hmirrors.evaluate hsame fragment

/-! ## What a client leaves alone -/

/-- The evaluator is as it was, and so is every scope that the client has not been given. -/
structure LeavesAlone (before after : Client) : Prop where
  evaluator_eq : after.session.evaluator = before.session.evaluator
  keeps : ∀ (id : ScopeId) (s : Scope), id ∉ before.session.scopes →
    before.session.store.scopes[id]? = some s → after.session.store.scopes[id]? = some s

theorem LeavesAlone.of_store_eq {client after : Client} (hstore : after.session.store = client.session.store)
    (hevaluator : after.session.evaluator = client.session.evaluator) : client.LeavesAlone after :=
  ⟨hevaluator, fun _ _ _ hs => hstore ▸ hs⟩

/-- A change of one scope. -/
theorem LeavesAlone.of_others {client after : Client} {scope : ScopeId}
    (hscope : scope ∈ client.session.scopes)
    (hevaluator : after.session.evaluator = client.session.evaluator)
    (hothers : ∀ (id : ScopeId) (s : Scope), id ≠ scope → client.session.store.scopes[id]? = some s →
      after.session.store.scopes[id]? = some s) : client.LeavesAlone after := by
  refine ⟨hevaluator, ?_⟩
  intro id s hid hs
  refine hothers id s ?_ hs
  rintro rfl
  exact hid hscope

theorem withScope_leavesAlone (client : Client) (number : Nat) {act : ScopeId → Answer × Client}
    (hact : ∀ scope, scope ∈ client.session.scopes → client.LeavesAlone (act scope).2) :
    client.LeavesAlone (client.withScope number act).2 := by
  unfold withScope
  cases hscope : client.session.scopes[number]? with
  | some scope => exact hact scope (Array.mem_of_getElem? hscope)
  | none => exact .of_store_eq rfl rfl

theorem withValue_leavesAlone (client : Client) (number : Nat) {act : Value → Answer × Client}
    (hact : ∀ value, client.LeavesAlone (act value).2) :
    client.LeavesAlone (client.withValue number act).2 := by
  unfold withValue
  cases client.values[number]? with
  | some value => exact hact value
  | none => exact .of_store_eq rfl rfl

theorem addScope_leavesAlone (client : Client) (outer : Option ScopeId) :
    client.LeavesAlone (client.addScope outer).2 := by
  refine ⟨rfl, ?_⟩
  intro id s _ hs
  show (client.session.store.enclose outer).2.scopes[id]? = some s
  rw [Store.getElem?_enclose_of_lt _ (Store.lt_size_of_getElem? hs), hs]

theorem set_leavesAlone (client : Client) {scope : ScopeId} (hscope : scope ∈ client.session.scopes)
    (name : String) (value : Value) : client.LeavesAlone (client.set scope name value).2 := by
  refine .of_others hscope rfl ?_
  intro id s hid hs
  exact (Store.getElem?_bind_of_ne hid).trans hs

theorem evaluate_leavesAlone (client : Client) {scope : ScopeId}
    (hscope : scope ∈ client.session.scopes) (fragment : Fragment) :
    client.LeavesAlone (client.evaluate scope fragment).2 := by
  refine .of_others hscope (Evaluator.run_evaluator ..) ?_
  intro id s hid hs
  have hchanges := Fragment.eval_changesOnly client.session.evaluator.limit
    (client.session.evaluator.limit - client.session.evaluator.depth) scope fragment
    ⟨client.session.store, client.session.evaluator.depth⟩
  rw [← Flow.ofResult_snd] at hchanges
  exact hchanges.others id s hid hs

theorem perform_leavesAlone (client : Client) (request : Request) :
    client.LeavesAlone (client.perform request).2 := by
  cases request with
  | addScope outer =>
      cases outer with
      | none => exact client.addScope_leavesAlone none
      | some outer => exact client.withScope_leavesAlone outer fun _ _ => client.addScope_leavesAlone _
  | adopt number =>
      refine client.withValue_leavesAlone number ?_
      intro value
      cases value with
      | _ => exact .of_store_eq rfl rfl
  | set scope name offer =>
      cases offer with
      | plain value hplain =>
          refine client.withScope_leavesAlone scope ?_
          intro scope hscope
          exact client.set_leavesAlone hscope name value
      | given number =>
          refine client.withScope_leavesAlone scope ?_
          intro scope hscope
          refine client.withValue_leavesAlone number ?_
          intro value
          exact client.set_leavesAlone hscope name value
  | clear scope =>
      refine client.withScope_leavesAlone scope ?_
      intro scope hscope
      refine .of_others hscope rfl ?_
      intro id s hid hs
      exact (Store.getElem?_clear_of_ne hid).trans hs
  | copy source target =>
      refine client.withScope_leavesAlone source.1 ?_
      intro here _
      refine client.withScope_leavesAlone target.1 ?_
      intro there hthere
      unfold Session.copy
      cases client.session.get (here, source.2).1 (here, source.2).2 with
      | ok value => exact client.set_leavesAlone hthere target.2 value
      | error error => exact .of_store_eq rfl rfl
  | get scope name =>
      refine client.withScope_leavesAlone scope ?_
      intro scope _
      cases client.session.get scope name with
      | ok value => exact .of_store_eq rfl rfl
      | error error => exact .of_store_eq rfl rfl
  | binds scope name =>
      refine client.withScope_leavesAlone scope ?_
      intro scope _
      exact .of_store_eq rfl rfl
  | evaluate scope fragment =>
      refine client.withScope_leavesAlone scope ?_
      intro scope hscope
      exact client.evaluate_leavesAlone hscope fragment

end Client

end LetScript
