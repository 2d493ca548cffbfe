import LetScript.Evaluation.Basic
import LetScript.Grammar.Script

/-!
# Running trees and scripts

* `Fragment` — a part of a program that can be evaluated by itself;
* `Evaluator` — a limit on nested calls, and the number of calls that are open;
* `Flow` — how an evaluation ends; `Flow.result` takes an error for a value;
* `Evaluator.run` — the evaluation of a fragment in a scope;
* `runText` — the evaluation of a script by itself.
-/

namespace LetScript

/-- A part of a program that can be evaluated by itself. -/
inductive Fragment where
  | block (block : Block)
  | statement (statement : Stmt)
  | expression (expr : Expr)
  deriving DecidableEq

/-- The evaluation of a fragment. -/
def Fragment.eval (apply : Value → List Value → Eval Value) (scope : ScopeId) :
    Fragment → Eval Value
  | block statements => Block.eval apply scope .null statements
  | statement stmt => stmt.eval apply scope
  | expression expr => expr.eval apply scope

/-- How an evaluation ends. -/
inductive Flow where
  | value (value : Value)
  /-- A return that no call received. -/
  | ret (value : Value)
  | error (error : RuntimeError)
  deriving DecidableEq

namespace Flow

/-- The value of a flow: a return gives its value, an error is taken for one. -/
def result : Flow → Value
  | value v => v
  | ret v => v
  | error e => .error e

/-- The value of a flow, unless it is an error.  A value that is an error counts as one. -/
def succeeded (flow : Flow) : Except RuntimeError Value :=
  match flow.result with
  | .error e => .error e
  | v => .ok v

end Flow

/-- The flow and the machine of an evaluation that has ended. -/
def Flow.ofResult : EStateM.Result Signal Machine Value → Flow × Machine
  | .ok v machine => (.value v, machine)
  | .error (.ret v) machine => (.ret v, machine)
  | .error (.error e) machine => (.error e, machine)

/-- A limit on nested calls, and the number of calls that are open. -/
structure Evaluator where
  limit : Nat := 128
  depth : Nat := 0
  deriving DecidableEq

/-- How the evaluation of a fragment ends, and what it leaves of the evaluator and the store. -/
def Evaluator.run (evaluator : Evaluator) (store : Store) (scope : ScopeId) (fragment : Fragment) :
    Flow × Evaluator × Store :=
  let apply := Eval.call evaluator.limit (evaluator.limit - evaluator.depth)
  let (flow, machine) := Flow.ofResult (fragment.eval apply scope ⟨store, evaluator.depth⟩)
  (flow, { evaluator with depth := machine.depth }, machine.store)

/-- How the evaluation of a program ends in a scope of its own, under the default limit. -/
def Program.flow (program : Program) : Flow :=
  let (scope, store) := ({} : Store).enclose none
  (Evaluator.run {} store scope (.block program.statements)).1

/-- The ways in which a script fails as a whole. -/
inductive ScriptError where
  | parse (parsed : Parsed)
  | runtime (error : RuntimeError)
  deriving DecidableEq

/-- The text of a script's failure. -/
def ScriptError.message : ScriptError → String
  | parse parsed => parsed.report
  | runtime error => "runtime error: " ++ error.message

/-- The value of a script in a scope of its own. -/
def runText (text : String) : Except ScriptError Value :=
  let parsed := Parsed.ofText text
  if parsed.errors.isEmpty then
    match parsed.program.flow.succeeded with
    | .ok value => .ok value
    | .error error => .error (.runtime error)
  else .error (.parse parsed)

end LetScript
