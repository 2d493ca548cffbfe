import LetScript.Proofs.Evaluation.Chronicles
import LetScript.Proofs.Evaluation.Sessions

/-!
# Histories of sessions

* `Flow.carried?` — the value that an evaluation gives its host.
* `Session.Act`, `Session.History` — what a host does step by step, and what it is given, if only values of
  some sort are its own.
* `Chronicle.Keeps.act`, `Chronicle.Keeps.history` — one act keeps to the record of a session, and so does a
  whole history.
-/

namespace LetScript

/-- The value that an evaluation ends with, returned or not. -/
def Flow.carried? : Flow → Option Value
  | value v | ret v => some v
  | error _ => none

/-- A value was given to the host by one of the evaluations. -/
def Flow.Give (flows : List Flow) (value : Value) : Prop :=
  ∃ flow ∈ flows, flow.carried? = some value

/-- One step of a host, which names scopes that exist.  It binds values of its own, values that evaluations
have given to it, and values that it copies. -/
inductive Session.Act (own : Value → Prop) (session : Session) (flows : List Flow) :
    Session → List Flow → Prop
  | addScope {outer : Option ScopeId} (houter : ∀ id ∈ outer, id < session.store.scopes.size) :
      Act own session flows (session.addScope outer) flows
  | set {scope : ScopeId} {name : String} {value : Value} (hvalue : own value ∨ Flow.Give flows value) :
      Act own session flows (session.set scope name value) flows
  | clear {scope : ScopeId} : Act own session flows (session.clear scope) flows
  | copy {source target : ScopeId × String} {next : Session}
      (hcopy : session.copy source target = .ok next) : Act own session flows next flows
  | limitDepth {limit : Nat} : Act own session flows (session.limitDepth limit) flows
  | evaluate {scope : ScopeId} {fragment : Fragment} (hscope : scope < session.store.scopes.size) :
      Act own session flows (session.evaluate scope fragment).2 ((session.evaluate scope fragment).1 :: flows)
  | evaluateFresh {scope : ScopeId} {fragment : Fragment} (hscope : scope < session.store.scopes.size) :
      Act own session flows (session.evaluateFresh scope fragment).2
        ((session.evaluateFresh scope fragment).1 :: flows)

/-- A session and the flows of its evaluations, the last one first. -/
inductive Session.History (own : Value → Prop) : Session → List Flow → Prop
  | start : History own .start []
  | act {session next : Session} {flows more : List Flow} (hhistory : History own session flows)
      (hact : session.Act own flows next more) : History own next more

namespace Chronicle

variable {c : Chronicle} {record : c.Record}

/-- What is asked of an evaluation is what its flow and its store are asked for. -/
theorem Continues.flow {result : EStateM.Result Signal Machine Value}
    (hcontinues : c.Continues c.value record result) :
    ∃ more, c.Extends record more ∧ c.store more (Flow.ofResult result).2.store ∧
      ∀ value, (Flow.ofResult result).1.carried? = some value → c.value more value := by
  cases result with
  | ok value after =>
      obtain ⟨more, hextends, hstore, hvalue⟩ := hcontinues
      refine ⟨more, hextends, hstore, ?_⟩
      rintro _ ⟨⟩
      exact hvalue
  | error signal after =>
      cases signal with
      | ret value =>
          obtain ⟨more, hextends, hstore, hvalue⟩ := hcontinues
          refine ⟨more, hextends, hstore, ?_⟩
          rintro _ ⟨⟩
          exact hvalue
      | error error =>
          obtain ⟨more, hextends, hstore⟩ := hcontinues
          exact ⟨more, hextends, hstore, nofun⟩

theorem Keeps.run (hkeeps : c.Keeps) (evaluator : Evaluator) {store : Store} {scope : ScopeId}
    (fragment : Fragment) (hstore : c.store record store) (hscope : scope < store.scopes.size) :
    ∃ more, c.Extends record more ∧ c.store more (evaluator.run store scope fragment).2.2 ∧
      ∀ value, (evaluator.run store scope fragment).1.carried? = some value → c.value more value := by
  have hstart : c.store record (Machine.mk store evaluator.depth).store := hstore
  exact (hkeeps.continues_fragment fragment hstart (hkeeps.scope_of_lt hstore hscope)).flow

/-- A session and what it has given to its host keep to the record. -/
structure Covers (c : Chronicle) (record : c.Record) (session : Session) (flows : List Flow) : Prop where
  store : c.store record session.store
  given : ∀ value, Flow.Give flows value → c.value record value

theorem Covers.evaluated {session next : Session} {flows : List Flow} {flow : Flow}
    (hcovers : c.Covers record session flows)
    (hrun : ∃ more, c.Extends record more ∧ c.store more next.store ∧
      ∀ value, flow.carried? = some value → c.value more value) :
    ∃ more, c.Covers more next (flow :: flows) := by
  obtain ⟨more, hextends, hstore, hvalue⟩ := hrun
  refine ⟨more, hstore, ?_⟩
  rintro value ⟨other, hother, hcarried⟩
  rcases List.mem_cons.1 hother with rfl | hmem
  · exact hvalue value hcarried
  · exact c.value_of_extends hextends (hcovers.given value ⟨other, hmem, hcarried⟩)

/-- An act of a host keeps to an extension of the record, if the values of its own do. -/
theorem Keeps.act (hkeeps : c.Keeps) {own : Value → Prop} (hown : ∀ record value, own value → c.value record value)
    {session next : Session} {flows more : List Flow} (hact : session.Act own flows next more)
    (hcovers : c.Covers record session flows) : ∃ record, c.Covers record next more := by
  obtain ⟨hstore, hgiven⟩ := hcovers
  cases hact with
  | addScope houter =>
      obtain ⟨more, hextends, hmade, -⟩ :=
        hkeeps.enclose hstore fun id hid => hkeeps.scope_of_lt hstore (houter id hid)
      exact ⟨more, hmade, fun value hvalue => c.value_of_extends hextends (hgiven value hvalue)⟩
  | set hvalue =>
      refine ⟨record, hkeeps.bind hstore ?_, hgiven⟩
      rcases hvalue with hvalue | hvalue
      · exact hown record _ hvalue
      · exact hgiven _ hvalue
  | clear => exact ⟨record, hkeeps.clear hstore, hgiven⟩
  | copy hcopy =>
      obtain ⟨value, hget, rfl⟩ := Session.exists_of_copy hcopy
      have hvalue := hkeeps.value_of_holds hstore (Store.holds_of_get? hget)
      exact ⟨record, hkeeps.bind hstore hvalue, hgiven⟩
  | limitDepth => exact ⟨record, hstore, hgiven⟩
  | @evaluate scope fragment hscope =>
      exact Covers.evaluated ⟨hstore, hgiven⟩ (hkeeps.run session.evaluator fragment hstore hscope)
  | @evaluateFresh scope fragment hscope =>
      exact Covers.evaluated ⟨hstore, hgiven⟩ (hkeeps.run {} fragment hstore hscope)

/-- So there is a record of every history. -/
theorem Keeps.history (hkeeps : c.Keeps) {own : Value → Prop}
    (hown : ∀ record value, own value → c.value record value) {session : Session} {flows : List Flow}
    (hhistory : session.History own flows) : ∃ record, c.Covers record session flows := by
  induction hhistory with
  | start =>
      obtain ⟨record, hempty⟩ := hkeeps.empty
      have houter : ∀ id ∈ (none : Option ScopeId), c.scope record id := nofun
      obtain ⟨more, -, hstore, -⟩ := hkeeps.enclose hempty houter
      refine ⟨more, hstore, ?_⟩
      rintro value ⟨flow, hflow, -⟩
      cases hflow
  | act _ hact ih =>
      obtain ⟨record, hcovers⟩ := ih
      exact hkeeps.act hown hact hcovers

end Chronicle

end LetScript
