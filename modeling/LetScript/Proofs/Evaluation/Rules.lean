import LetScript.Proofs.Evaluation.Calls

/-!
# The rules of evaluation

Evaluation as rules, with no budget.  A derivation is finite, so what has one ends.

* `Resolves` — the search for a name, along the links to outer scopes whatever they are.
* `ExprRuns`, `ArgumentsRun`, `StmtRuns`, `BlockRuns`, `CallRuns` — the result in which the evaluation
  of a tree, or a call, ends.  Nothing bounds the rules but the limit on open calls.
* `Fragment.Runs` — the same for fragments.
-/

namespace LetScript

/-- The search for a name from a scope outward ends in an answer. -/
inductive Resolves (store : Store) (name : String) : ScopeId → Option Value → Prop
  | here {scope s value} (hscope : store.scopes[scope]? = some s)
      (hbound : s.bindings.lookup name = some value) : Resolves store name scope (some value)
  | outward {scope s outer answer} (hscope : store.scopes[scope]? = some s)
      (hfree : s.bindings.lookup name = none) (houter : s.outer = some outer)
      (hanswer : Resolves store name outer answer) : Resolves store name scope answer
  | missing {scope s} (hscope : store.scopes[scope]? = some s)
      (hfree : s.bindings.lookup name = none) (houter : s.outer = none) :
      Resolves store name scope none

variable (limit : Nat)

mutual

/-- The evaluation of an expression in a scope and a machine ends in a result. -/
inductive ExprRuns : ScopeId → Expr → Machine → EStateM.Result Signal Machine Value → Prop
  | name {scope ident value machine} (hresolves : Resolves machine.store ident scope (some value)) :
      ExprRuns scope (.name ident) machine (.ok value machine)
  | unbound {scope ident machine} (hresolves : Resolves machine.store ident scope none) :
      ExprRuns scope (.name ident) machine (.error (.error (.unboundName ident)) machine)
  | int {scope value machine} : ExprRuns scope (.int value) machine (.ok (.int value) machine)
  | str {scope value machine} : ExprRuns scope (.str value) machine (.ok (.str value) machine)
  | bool {scope value machine} : ExprRuns scope (.bool value) machine (.ok (.bool value) machine)
  | unary {scope op operand machine value after}
      (hoperand : ExprRuns scope operand machine (.ok value after)) :
      ExprRuns scope (.unary op operand) machine (Eval.ofExcept (value.applyPrefix op) after)
  | unaryStops {scope op operand machine signal after}
      (hoperand : ExprRuns scope operand machine (.error signal after)) :
      ExprRuns scope (.unary op operand) machine (.error signal after)
  | binary {scope op left right machine leftValue middle rightValue after}
      (hleft : ExprRuns scope left machine (.ok leftValue middle))
      (hright : ExprRuns scope right middle (.ok rightValue after)) :
      ExprRuns scope (.binary op left right) machine
        (Eval.ofExcept (leftValue.applyInfix op rightValue) after)
  | leftStops {scope op left right machine signal after}
      (hleft : ExprRuns scope left machine (.error signal after)) :
      ExprRuns scope (.binary op left right) machine (.error signal after)
  | rightStops {scope op left right machine leftValue middle signal after}
      (hleft : ExprRuns scope left machine (.ok leftValue middle))
      (hright : ExprRuns scope right middle (.error signal after)) :
      ExprRuns scope (.binary op left right) machine (.error signal after)
  | condTrue {scope condition consequence alternative machine value middle result}
      (hcondition : ExprRuns scope condition machine (.ok value middle))
      (htruthy : value.isTruthy = true) (hblock : BlockRuns scope .null consequence middle result) :
      ExprRuns scope (.cond condition consequence alternative) machine result
  | condFalse {scope condition consequence alternative machine value middle result}
      (hcondition : ExprRuns scope condition machine (.ok value middle))
      (htruthy : value.isTruthy = false) (hblock : BlockRuns scope .null alternative middle result) :
      ExprRuns scope (.cond condition consequence (some alternative)) machine result
  | condMissing {scope condition consequence machine value after}
      (hcondition : ExprRuns scope condition machine (.ok value after))
      (htruthy : value.isTruthy = false) :
      ExprRuns scope (.cond condition consequence none) machine (.ok .null after)
  | condStops {scope condition consequence alternative machine signal after}
      (hcondition : ExprRuns scope condition machine (.error signal after)) :
      ExprRuns scope (.cond condition consequence alternative) machine (.error signal after)
  | fn {scope parameters body machine} :
      ExprRuns scope (.fn parameters body) machine (Eval.newFunction parameters body scope machine)
  | call {scope callee arguments machine function middle values last result}
      (hcallee : ExprRuns scope callee machine (.ok function middle))
      (harguments : ArgumentsRun scope arguments middle (.ok values last))
      (hcall : CallRuns function values last result) :
      ExprRuns scope (.call callee arguments) machine result
  | calleeStops {scope callee arguments machine signal after}
      (hcallee : ExprRuns scope callee machine (.error signal after)) :
      ExprRuns scope (.call callee arguments) machine (.error signal after)
  | argumentsStop {scope callee arguments machine function middle signal after}
      (hcallee : ExprRuns scope callee machine (.ok function middle))
      (harguments : ArgumentsRun scope arguments middle (.error signal after)) :
      ExprRuns scope (.call callee arguments) machine (.error signal after)

/-- The evaluation of expressions from left to right. -/
inductive ArgumentsRun :
    ScopeId → List Expr → Machine → EStateM.Result Signal Machine (List Value) → Prop
  | nil {scope machine} : ArgumentsRun scope [] machine (.ok [] machine)
  | cons {scope first others machine value middle values after}
      (hfirst : ExprRuns scope first machine (.ok value middle))
      (hothers : ArgumentsRun scope others middle (.ok values after)) :
      ArgumentsRun scope (first :: others) machine (.ok (value :: values) after)
  | firstStops {scope first others machine signal after}
      (hfirst : ExprRuns scope first machine (.error signal after)) :
      ArgumentsRun scope (first :: others) machine (.error signal after)
  | othersStop {scope first others machine value middle signal after}
      (hfirst : ExprRuns scope first machine (.ok value middle))
      (hothers : ArgumentsRun scope others middle (.error signal after)) :
      ArgumentsRun scope (first :: others) machine (.error signal after)

/-- The evaluation of a statement. -/
inductive StmtRuns : ScopeId → Stmt → Machine → EStateM.Result Signal Machine Value → Prop
  | bind {scope name expr machine value after} (hvalue : ExprRuns scope expr machine (.ok value after)) :
      StmtRuns scope (.bind name expr) machine
        (.ok .null { after with store := after.store.bind scope name value })
  | bindStops {scope name expr machine signal after}
      (hvalue : ExprRuns scope expr machine (.error signal after)) :
      StmtRuns scope (.bind name expr) machine (.error signal after)
  | bare {scope machine} : StmtRuns scope (.ret none) machine (.error (.ret .null) machine)
  | ret {scope expr machine value after} (hvalue : ExprRuns scope expr machine (.ok value after)) :
      StmtRuns scope (.ret (some expr)) machine (.error (.ret value) after)
  | retStops {scope expr machine signal after}
      (hvalue : ExprRuns scope expr machine (.error signal after)) :
      StmtRuns scope (.ret (some expr)) machine (.error signal after)
  | expr {scope expr machine result} (hvalue : ExprRuns scope expr machine result) :
      StmtRuns scope (.expr expr) machine result

/-- The evaluation of statements in a row, behind one with the given value. -/
inductive BlockRuns : ScopeId → Value → Block → Machine → EStateM.Result Signal Machine Value → Prop
  | nil {scope last machine} : BlockRuns scope last [] machine (.ok last machine)
  | cons {scope last first others machine value middle result}
      (hfirst : StmtRuns scope first machine (.ok value middle))
      (hothers : BlockRuns scope value others middle result) :
      BlockRuns scope last (first :: others) machine result
  | stops {scope last first others machine signal after}
      (hfirst : StmtRuns scope first machine (.error signal after)) :
      BlockRuns scope last (first :: others) machine (.error signal after)

/-- The call of a value.  The body need not be a part of any tree that is being evaluated. -/
inductive CallRuns : Value → List Value → Machine → EStateM.Result Signal Machine Value → Prop
  | notAFunction {callee arguments machine} (hcallee : ∀ function, callee ≠ .function function) :
      CallRuns callee arguments machine (.error (.error (.notAFunction callee.type)) machine)
  | wrongCount {function arguments machine}
      (hcount : function.parameters.length ≠ arguments.length) :
      CallRuns (.function function) arguments machine
        (.error (.error (.wrongArgumentCount function.parameters.length arguments.length)) machine)
  | refused {function arguments machine} (hcount : function.parameters.length = arguments.length)
      (hdepth : limit ≤ machine.depth) :
      CallRuns (.function function) arguments machine
        (.error (.error (.callDepthExceeded limit)) machine)
  | entered {function arguments machine result}
      (hcount : function.parameters.length = arguments.length) (hdepth : machine.depth < limit)
      (hbody : BlockRuns machine.store.scopes.size .null function.body
        (machine.enter function arguments) result) :
      CallRuns (.function function) arguments machine (Eval.leave result)

end

/-- The evaluation of a fragment in a scope and a machine ends in a result. -/
def Fragment.Runs (scope : ScopeId) : Fragment → Machine → EStateM.Result Signal Machine Value → Prop
  | .block statements => BlockRuns limit scope .null statements
  | .statement stmt => StmtRuns limit scope stmt
  | .expression expr => ExprRuns limit scope expr

end LetScript
