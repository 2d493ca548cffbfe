import LetScript.Evaluation.Run

/-!
# Sessions

A session keeps scopes and an evaluator, which a host uses in turn.

* `Session` — the store, the evaluator and the scopes that the host has a number for;
* `Session.addScope`, `Session.set`, `Session.clear`, `Session.copy`, `Session.limitDepth` — what a
  host changes;
* `Session.get`, `Session.binds`, `Session.equal` — what a host asks;
* `Session.evaluate`, `Session.evaluateFresh` — evaluation with the evaluator of the session, and with
  a new one;
* `Part`, `Program.part?` — the part of a program that is to be evaluated.
-/

namespace LetScript

/-- A part of a program. -/
inductive Part where
  | program
  /-- The top-level statement. -/
  | statement
  /-- The expression of the statement. -/
  | expression
  /-- The body of the function, or the first block of the conditional, that the expression is. -/
  | block
  /-- The second block of the conditional that the expression is. -/
  | alternative
  deriving DecidableEq

/-- The expression that a statement holds. -/
def Stmt.expr? : Stmt → Option Expr
  | bind _ value => some value
  | ret value => value
  | expr value => some value

/-- A part of a program, found through its top-level statement `index`. -/
def Program.part? (program : Program) (part : Part) (index : Nat) : Option Fragment :=
  let expr? := program.statements[index]?.bind Stmt.expr?
  match part with
  | .program => some (.block program.statements)
  | .statement => program.statements[index]?.map .statement
  | .expression => expr?.map .expression
  | .block =>
      match expr? with
      | some (.fn _ body) => some (.block body)
      | some (.cond _ consequence _) => some (.block consequence)
      | _ => none
  | .alternative =>
      match expr? with
      | some (.cond _ _ (some alternative)) => some (.block alternative)
      | _ => none

/-- The scopes and the evaluator of a host. -/
structure Session where
  store : Store
  evaluator : Evaluator
  /-- The scopes that the host made, in the order in which it made them. -/
  scopes : Array ScopeId
  deriving DecidableEq

namespace Session

/-- A session with one scope. -/
def start : Session :=
  let (scope, store) := ({} : Store).enclose none
  ⟨store, {}, #[scope]⟩

/-- A new scope for the host, within one of its scopes or within none. -/
def addScope (session : Session) (outer : Option ScopeId) : Session :=
  let (scope, store) := session.store.enclose outer
  { session with store, scopes := session.scopes.push scope }

/-- Binds a name to a value. -/
def set (session : Session) (scope : ScopeId) (name : String) (value : Value) : Session :=
  { session with store := session.store.bind scope name value }

/-- Drops a scope's own bindings. -/
def clear (session : Session) (scope : ScopeId) : Session :=
  { session with store := session.store.clear scope }

/-- The value of a name. -/
def get (session : Session) (scope : ScopeId) (name : String) : Except RuntimeError Value :=
  match session.store.get? scope name with
  | some value => .ok value
  | none => .error (.unboundName name)

/-- Whether a name is bound. -/
def binds (session : Session) (scope : ScopeId) (name : String) : Bool :=
  session.store.binds scope name

/-- Binds a name to the value that another one has. -/
def copy (session : Session) (source : ScopeId × String) (target : ScopeId × String) :
    Except RuntimeError Session :=
  (session.get source.1 source.2).map fun value => session.set target.1 target.2 value

/-- Whether two names have the same value. -/
def equal (session : Session) (a b : ScopeId × String) : Except RuntimeError Bool :=
  match session.get a.1 a.2 with
  | .error error => .error error
  | .ok left => (session.get b.1 b.2).map fun right => left.same right

/-- Takes a new evaluator with the given limit. -/
def limitDepth (session : Session) (limit : Nat) : Session :=
  { session with evaluator := { limit } }

/-- Evaluates a fragment with the evaluator of the session. -/
def evaluate (session : Session) (scope : ScopeId) (fragment : Fragment) : Flow × Session :=
  let (flow, evaluator, store) := session.evaluator.run session.store scope fragment
  (flow, { session with store, evaluator })

/-- Evaluates a fragment with a new evaluator. -/
def evaluateFresh (session : Session) (scope : ScopeId) (fragment : Fragment) : Flow × Session :=
  let (flow, _, store) := ({} : Evaluator).run session.store scope fragment
  (flow, { session with store })

end Session

end LetScript
