import LetScript.Evaluation.Operation
import LetScript.Evaluation.Store

/-!
# Evaluation

* `Signal` — what cuts an evaluation short: the return from a function, or an error;
* `Machine` — the store, and the number of function bodies that are being evaluated;
* `Expr.eval`, `Stmt.eval`, `Block.eval` — evaluation of a tree in a scope, given the way to call a
  function;
* `Eval.call` — the call of a function under a limit on nested calls.

Evaluation recurs along the tree; a call goes on with a body that is no part of the tree.  Each nested
call therefore spends one unit of a budget, and with none left it is refused just as a call at the
limit is.  A budget of the limit less the calls that are open is never spent before the limit is met.
-/

namespace LetScript

/-- What cuts an evaluation short. -/
inductive Signal where
  /-- A return statement, on its way to the call that it ends. -/
  | ret (value : Value)
  | error (error : RuntimeError)
  deriving DecidableEq

/-- What evaluation changes: the store, and the number of calls that are open. -/
structure Machine where
  store : Store
  depth : Nat := 0
  deriving DecidableEq

/-- An evaluation: it ends in a result or a signal, and in either case leaves a machine. -/
abbrev Eval := EStateM Signal Machine

namespace Eval

/-- The evaluation that fails. -/
def raise {α : Type} (error : RuntimeError) : Eval α := throw (.error error)

/-- The evaluation of a pure operation. -/
def ofExcept {α : Type} : Except RuntimeError α → Eval α
  | .ok value => pure value
  | .error error => raise error

/-- The value of a name, searched from a scope outward. -/
def lookUp (scope : ScopeId) (name : String) : Eval Value := do
  match (← get).store.get? scope name with
  | some value => return value
  | none => raise (.unboundName name)

/-- Binds a name in a scope. -/
def bindName (scope : ScopeId) (name : String) (value : Value) : Eval Unit :=
  modify fun machine => { machine with store := machine.store.bind scope name value }

/-- A new function value. -/
def newFunction (parameters : List String) (body : Block) (scope : ScopeId) : Eval Value :=
  modifyGet fun machine =>
    let (function, store) := machine.store.makeFunction parameters body scope
    (.function function, { machine with store })

end Eval

mutual

/-- The value of an expression. -/
def Expr.eval (apply : Value → List Value → Eval Value) (scope : ScopeId) : Expr → Eval Value
  | .name ident => Eval.lookUp scope ident
  | .int value => pure (.int value)
  | .str value => pure (.str value)
  | .bool value => pure (.bool value)
  | .unary op operand => do
      let operand ← operand.eval apply scope
      Eval.ofExcept (operand.applyPrefix op)
  | .binary op left right => do
      let left ← left.eval apply scope
      let right ← right.eval apply scope
      Eval.ofExcept (left.applyInfix op right)
  | .cond condition consequence none => do
      let condition ← condition.eval apply scope
      if condition.isTruthy then Block.eval apply scope .null consequence else pure .null
  | .cond condition consequence (some alternative) => do
      let condition ← condition.eval apply scope
      if condition.isTruthy then Block.eval apply scope .null consequence
      else Block.eval apply scope .null alternative
  | .fn parameters body => Eval.newFunction parameters body scope
  | .call callee arguments => do
      let callee ← callee.eval apply scope
      let arguments ← Expr.evalAll apply scope arguments
      apply callee arguments

/-- The values of expressions, from left to right. -/
def Expr.evalAll (apply : Value → List Value → Eval Value) (scope : ScopeId) :
    List Expr → Eval (List Value)
  | [] => pure []
  | expr :: exprs => do
      let value ← expr.eval apply scope
      let values ← Expr.evalAll apply scope exprs
      return value :: values

/-- The value of a statement. -/
def Stmt.eval (apply : Value → List Value → Eval Value) (scope : ScopeId) : Stmt → Eval Value
  | .bind name value => do
      let value ← value.eval apply scope
      Eval.bindName scope name value
      return .null
  | .ret none => throw (.ret .null)
  | .ret (some value) => do
      let value ← value.eval apply scope
      throw (.ret value)
  | .expr value => value.eval apply scope

/-- The value of the last of some statements, `last` if there is none. -/
def Block.eval (apply : Value → List Value → Eval Value) (scope : ScopeId) (last : Value) :
    List Stmt → Eval Value
  | [] => pure last
  | statement :: statements => do
      let value ← statement.eval apply scope
      Block.eval apply scope value statements

end

namespace Eval

/-- The evaluation of a function body, with the depth raised by one while it lasts.  A return ends
here. -/
def inBody (body : Eval Value) : Eval Value := fun machine =>
  match body { machine with depth := machine.depth + 1 } with
  | .ok value after => .ok value { after with depth := after.depth - 1 }
  | .error (.ret value) after => .ok value { after with depth := after.depth - 1 }
  | .error (.error error) after => .error (.error error) { after with depth := after.depth - 1 }

/-- A new scope within the one in which a function was made, with its parameters bound. -/
def enterScope (function : Function) (arguments : List Value) : Eval ScopeId :=
  modifyGet fun machine =>
    let (scope, store) := machine.store.enclose (some function.scope)
    (scope, { machine with store := store.bindAll scope function.parameters arguments })

/-- The call of a value.  It must be a function, the arguments must be as many as its parameters, and
fewer than `limit` calls may be open. -/
def call (limit : Nat) (budget : Nat) (callee : Value) (arguments : List Value) : Eval Value :=
  match callee with
  | .function function =>
      if function.parameters.length ≠ arguments.length then
        raise (.wrongArgumentCount function.parameters.length arguments.length)
      else
        match budget with
        -- The limit is met no later than the budget is spent.
        | 0 => raise (.callDepthExceeded limit)
        | budget + 1 => do
            if limit ≤ (← get).depth then raise (.callDepthExceeded limit)
            else
              let scope ← enterScope function arguments
              inBody (Block.eval (call limit budget) scope .null function.body)
  | other => raise (.notAFunction other.type)
termination_by structural budget

end Eval

end LetScript
