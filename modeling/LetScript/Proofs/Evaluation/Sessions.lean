import LetScript.Proofs.Evaluation.WellFormed
import LetScript.Session

/-!
# The states of a session

* `Session.Step` — one thing that a host does with a session: it makes a scope, changes bindings, or
  evaluates a fragment.
* `Session.Reachable` — the states that a host can bring a session to.
* `Session.Step.wellFormed`, `Session.Reachable.wellFormed` — in all of them the store is well-formed.
-/

namespace LetScript

/-- One step of a host.  It names scopes that exist, and binds values that it made itself or has seen in
the session. -/
inductive Session.Step (session : Session) : Session → Prop
  | addScope {outer : Option ScopeId} (houter : ∀ id ∈ outer, id < session.store.scopes.size) :
      Step session (session.addScope outer)
  | set {scope : ScopeId} {name : String} {value : Value} (hvalue : session.store.Knows value) :
      Step session (session.set scope name value)
  | clear {scope : ScopeId} : Step session (session.clear scope)
  | copy {source target : ScopeId × String} {next : Session}
      (hcopy : session.copy source target = .ok next) : Step session next
  | limitDepth {limit : Nat} : Step session (session.limitDepth limit)
  | evaluate {scope : ScopeId} {fragment : Fragment} (hscope : scope < session.store.scopes.size) :
      Step session (session.evaluate scope fragment).2
  | evaluateFresh {scope : ScopeId} {fragment : Fragment} (hscope : scope < session.store.scopes.size) :
      Step session (session.evaluateFresh scope fragment).2

/-- The states of a session, from its start on. -/
inductive Session.Reachable : Session → Prop
  | start : Reachable .start
  | step {session next : Session} (hreachable : Reachable session) (hstep : session.Step next) :
      Reachable next

/-- What is copied is the value that was found. -/
theorem Session.exists_of_copy {session next : Session} {source target : ScopeId × String}
    (hcopy : session.copy source target = .ok next) :
    ∃ value, session.store.get? source.1 source.2 = some value ∧
      next = session.set target.1 target.2 value := by
  unfold copy get at hcopy
  split at hcopy
  · next value hget =>
      cases hcopy
      exact ⟨value, hget, rfl⟩
  · cases hcopy

theorem Session.Step.wellFormed {session next : Session} (hstep : session.Step next)
    (hstore : session.store.WellFormed) : next.store.WellFormed := by
  cases hstep with
  | addScope houter => exact hstore.enclose houter
  | set hvalue => exact hstore.bind hvalue
  | clear => exact hstore.clear _
  | copy hcopy =>
      obtain ⟨value, hget, rfl⟩ := Session.exists_of_copy hcopy
      exact hstore.bind (hstore.knows_of_get? hget)
  | limitDepth => exact hstore
  | evaluate hscope => exact Evaluator.run_wellFormed session.evaluator _ hstore hscope
  | evaluateFresh hscope => exact Evaluator.run_wellFormed {} _ hstore hscope

theorem Session.Reachable.wellFormed {session : Session} (hreachable : session.Reachable) :
    session.store.WellFormed := by
  induction hreachable with
  | start => exact Store.wellFormed_empty.enclose nofun
  | step _ hstep ih => exact hstep.wellFormed ih

end LetScript
