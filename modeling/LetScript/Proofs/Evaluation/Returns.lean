import LetScript.Proofs.Evaluation.Sequences

/-!
# Where returns end

* `Expr.returns`, `Stmt.returns`, `Block.returns`, `Fragment.returns` — whether a tree has a return statement,
  function literals left out.
* `Eval.NeverReturns` — an evaluation that ends in a value or in an error, from whatever machine it starts.
* `Eval.call_neverReturns` — every call is such, whatever its body does.
* `Expr.eval_neverReturns`, `Fragment.eval_neverReturns` — so is every tree without a return.
* `Evaluator.run_bind_eq_signal_iff` — a `let` is cut short where its value is.
* `Evaluator.returns_stay_inside` — returns end at the call that they belong to, and they and errors end the
  statements that they come up in.
-/

namespace LetScript

/-! ## Trees without a return -/

mutual

/-- Whether an expression has a return statement, function literals left out: these return elsewhere. -/
def Expr.returns : Expr → Bool
  | .name _ | .int _ | .str _ | .bool _ | .fn _ _ => false
  | .unary _ operand => operand.returns
  | .binary _ left right => left.returns || right.returns
  | .cond condition consequence none => condition.returns || Block.returns consequence
  | .cond condition consequence (some alternative) =>
      condition.returns || (Block.returns consequence || Block.returns alternative)
  | .call callee arguments => callee.returns || Expr.anyReturns arguments

def Stmt.returns : Stmt → Bool
  | .ret _ => true
  | .bind _ value | .expr value => value.returns

def Block.returns : List Stmt → Bool
  | [] => false
  | statement :: statements => statement.returns || Block.returns statements

def Expr.anyReturns : List Expr → Bool
  | [] => false
  | expr :: exprs => expr.returns || Expr.anyReturns exprs

end

/-- Whether a fragment has a return statement, function literals left out. -/
def Fragment.returns : Fragment → Bool
  | block statements => Block.returns statements
  | statement stmt => stmt.returns
  | expression expr => expr.returns

namespace Eval

variable {α β : Type} {apply : Value → List Value → Eval Value} {scope : ScopeId}

/-- The evaluation ends in no return. -/
def NeverReturns (x : Eval α) : Prop :=
  ∀ machine value after, x machine ≠ .error (.ret value) after

theorem neverReturns_pure (a : α) : (pure a : Eval α).NeverReturns := by
  intro machine value after hresult
  cases hresult

theorem neverReturns_ofExcept (answer : Except RuntimeError α) : (ofExcept answer).NeverReturns := by
  intro machine value after hresult
  cases answer with
  | ok a => cases hresult
  | error error => cases hresult

theorem neverReturns_lookUp (scope : ScopeId) (ident : String) : (lookUp scope ident).NeverReturns := by
  intro machine value after hresult
  cases hget : machine.store.get? scope ident with
  | some found =>
      rw [lookUp_of_some hget] at hresult
      cases hresult
  | none =>
      rw [lookUp_of_none hget] at hresult
      cases hresult

theorem neverReturns_bindName (scope : ScopeId) (ident : String) (value : Value) :
    (bindName scope ident value).NeverReturns := by
  intro machine other after hresult
  cases hresult

theorem neverReturns_newFunction (parameters : List String) (body : Block) (scope : ScopeId) :
    (newFunction parameters body scope).NeverReturns := by
  intro machine value after hresult
  cases hresult

theorem NeverReturns.bind {x : Eval α} {f : α → Eval β} (hx : x.NeverReturns) (hf : ∀ a, (f a).NeverReturns) :
    (x >>= f).NeverReturns := by
  intro machine value after hresult
  rcases bind_eq_error hresult with hfirst | ⟨a, middle, -, hlast⟩
  · exact hx machine value after hfirst
  · exact hf a middle value after hlast

/-- The return of a body ends at its call. -/
theorem leave_ne_ret (result : EStateM.Result Signal Machine Value) (value : Value) (after : Machine) :
    leave result ≠ .error (.ret value) after := by
  cases result with
  | ok last machine => nofun
  | error signal machine => cases signal <;> nofun

/-- No call ends in a return. -/
theorem call_neverReturns (limit budget : Nat) (callee : Value) (arguments : List Value) :
    (call limit budget callee arguments).NeverReturns := by
  intro machine value after hresult
  cases call_cases limit budget callee arguments machine with
  | notAFunction _ hcall | wrongCount _ _ hcall | refused _ _ _ hcall =>
      rw [hcall] at hresult
      cases hresult
  | entered _ _ _ _ hcall =>
      rw [hcall] at hresult
      exact leave_ne_ret _ value after hresult

end Eval

section Induction

variable {apply : Value → List Value → Eval Value} {scope : ScopeId}

mutual

theorem Expr.eval_neverReturns (happly : ∀ callee arguments, (apply callee arguments).NeverReturns) :
    ∀ e : Expr, e.returns = false → (e.eval apply scope).NeverReturns
  | .name ident, _ => by
      rw [Expr.eval]
      exact Eval.neverReturns_lookUp scope ident
  | .int _, _ | .str _, _ | .bool _, _ => by
      rw [Expr.eval]
      exact Eval.neverReturns_pure _
  | .unary op operand, hfree => by
      rw [Expr.eval]
      refine (Expr.eval_neverReturns happly operand hfree).bind ?_
      intro value
      exact Eval.neverReturns_ofExcept _
  | .binary op left right, hfree => by
      obtain ⟨hleft, hright⟩ := Bool.or_eq_false_iff.1 hfree
      rw [Expr.eval]
      refine (Expr.eval_neverReturns happly left hleft).bind ?_
      intro leftValue
      refine (Expr.eval_neverReturns happly right hright).bind ?_
      intro rightValue
      exact Eval.neverReturns_ofExcept _
  | .cond condition consequence none, hfree => by
      obtain ⟨hcondition, hconsequence⟩ := Bool.or_eq_false_iff.1 hfree
      rw [Expr.eval]
      refine (Expr.eval_neverReturns happly condition hcondition).bind ?_
      intro value
      split
      · exact Block.eval_neverReturns happly consequence hconsequence .null
      · exact Eval.neverReturns_pure _
  | .cond condition consequence (some alternative), hfree => by
      obtain ⟨hcondition, hblocks⟩ := Bool.or_eq_false_iff.1 hfree
      obtain ⟨hconsequence, halternative⟩ := Bool.or_eq_false_iff.1 hblocks
      rw [Expr.eval]
      refine (Expr.eval_neverReturns happly condition hcondition).bind ?_
      intro value
      split
      · exact Block.eval_neverReturns happly consequence hconsequence .null
      · exact Block.eval_neverReturns happly alternative halternative .null
  | .fn parameters body, _ => by
      rw [Expr.eval]
      exact Eval.neverReturns_newFunction parameters body scope
  | .call callee arguments, hfree => by
      obtain ⟨hcallee, harguments⟩ := Bool.or_eq_false_iff.1 hfree
      rw [Expr.eval]
      refine (Expr.eval_neverReturns happly callee hcallee).bind ?_
      intro function
      refine (Expr.evalAll_neverReturns happly arguments harguments).bind ?_
      intro values
      exact happly function values

theorem Expr.evalAll_neverReturns (happly : ∀ callee arguments, (apply callee arguments).NeverReturns) :
    ∀ exprs : List Expr, Expr.anyReturns exprs = false → (Expr.evalAll apply scope exprs).NeverReturns
  | [], _ => by
      rw [Expr.evalAll]
      exact Eval.neverReturns_pure _
  | expr :: exprs, hfree => by
      obtain ⟨hfirst, hothers⟩ := Bool.or_eq_false_iff.1 hfree
      rw [Expr.evalAll]
      refine (Expr.eval_neverReturns happly expr hfirst).bind ?_
      intro value
      refine (Expr.evalAll_neverReturns happly exprs hothers).bind ?_
      intro values
      exact Eval.neverReturns_pure _

theorem Stmt.eval_neverReturns (happly : ∀ callee arguments, (apply callee arguments).NeverReturns) :
    ∀ s : Stmt, s.returns = false → (s.eval apply scope).NeverReturns
  | .bind ident value, hfree => by
      rw [Stmt.eval]
      refine (Expr.eval_neverReturns happly value hfree).bind ?_
      intro bound
      refine (Eval.neverReturns_bindName scope ident bound).bind ?_
      intro _
      exact Eval.neverReturns_pure _
  | .expr value, hfree => by
      rw [Stmt.eval]
      exact Expr.eval_neverReturns happly value hfree

theorem Block.eval_neverReturns (happly : ∀ callee arguments, (apply callee arguments).NeverReturns) :
    ∀ statements : List Stmt, Block.returns statements = false →
      ∀ last, (Block.eval apply scope last statements).NeverReturns
  | [], _, last => by
      rw [Block.eval]
      exact Eval.neverReturns_pure _
  | statement :: statements, hfree, last => by
      obtain ⟨hfirst, hothers⟩ := Bool.or_eq_false_iff.1 hfree
      rw [Block.eval]
      refine (Stmt.eval_neverReturns happly statement hfirst).bind ?_
      intro value
      exact Block.eval_neverReturns happly statements hothers value

end

theorem Fragment.eval_neverReturns (happly : ∀ callee arguments, (apply callee arguments).NeverReturns)
    {fragment : Fragment} (hfree : fragment.returns = false) : (fragment.eval apply scope).NeverReturns := by
  cases fragment with
  | block statements => exact Block.eval_neverReturns happly statements hfree .null
  | statement stmt => exact Stmt.eval_neverReturns happly stmt hfree
  | expression expr => exact Expr.eval_neverReturns happly expr hfree

end Induction

/-! ## Statements that are cut short -/

namespace Evaluator

variable {evaluator : Evaluator} {scope : ScopeId} {store after : Store}

/-- A run of a fragment without a return ends in a value or in an error. -/
theorem run_ne_ret (evaluator : Evaluator) (store : Store) (scope : ScopeId) {fragment : Fragment}
    (hfree : fragment.returns = false) (value : Value) : (evaluator.run store scope fragment).1 ≠ .ret value := by
  intro hflow
  obtain ⟨flow, after, hrun⟩ := evaluator.exists_run_eq store scope fragment
  obtain rfl : flow = .ret value := by rw [← hflow, hrun]
  have heval : fragment.eval evaluator.apply scope _ = .error (.ret value) _ := run_eq_signal_iff.1 hrun
  exact Fragment.eval_neverReturns (Eval.call_neverReturns _ _) hfree _ value _ heval

/-- A `let` is cut short where its value is, and leaves what that leaves. -/
theorem run_bind_eq_signal_iff {ident : String} {value : Expr} {signal : Signal} :
    evaluator.run store scope (.statement (.bind ident value)) = (signal.flow, evaluator, after) ↔
      evaluator.run store scope (.expression value) = (signal.flow, evaluator, after) := by
  rw [run_eq_signal_iff, run_eq_signal_iff]
  simp only [Fragment.eval, Stmt.eval]
  constructor
  · intro hresult
    rcases Eval.bind_eq_error hresult with hvalue | ⟨bound, middle, -, hlast⟩
    · exact hvalue
    · cases hlast
  · intro hvalue
    exact Eval.bind_of_error hvalue

/-- A run of a fragment with no return outside function literals ends in a value or in an error, and so does every
call.  Where statement number `count` of a block is the first to be cut short, the block ends as that statement
does and leaves what it leaves, whatever statements come behind it; if it is a `let`, that is what its value
leaves. -/
theorem returns_stay_inside :
    (∀ (evaluator : Evaluator) (store : Store) (scope : ScopeId) (fragment : Fragment),
      fragment.returns = false → ∀ value, (evaluator.run store scope fragment).1 ≠ .ret value) ∧
    (∀ (limit budget : Nat) (callee : Value) (arguments : List Value) (machine : Machine) (value : Value)
      (after : Machine), Eval.call limit budget callee arguments machine ≠ .error (.ret value) after) ∧
    ∀ (evaluator : Evaluator) (store : Store) (scope : ScopeId) (statements : Block) (count : Nat)
      (reached : Store) (signal : Signal) (after : Store),
      evaluator.StopsAt scope store (statements.map .statement) count reached signal after →
        evaluator.run store scope (.block statements) = (signal.flow, evaluator, after) ∧
        (∀ others, evaluator.run store scope (.block (statements.take (count + 1) ++ others)) =
          (signal.flow, evaluator, after)) ∧
        ∀ ident value, statements[count]? = some (.bind ident value) →
          evaluator.run reached scope (.expression value) = (signal.flow, evaluator, after) := by
  refine ⟨?returnless, ?calls, ?cut⟩
  case returnless =>
    intro evaluator store scope fragment hfree value
    exact evaluator.run_ne_ret store scope hfree value
  case calls =>
    intro limit budget callee arguments
    exact Eval.call_neverReturns limit budget callee arguments
  case cut =>
    intro evaluator store scope statements count reached signal after hstops
    refine ⟨run_eq_signal_iff.2 (hstops.block_eq .null), ?_, ?_⟩
    · intro others
      have hmore := hstops.take_append (others.map .statement)
      rw [← List.map_take, ← List.map_append] at hmore
      exact run_eq_signal_iff.2 (hmore.block_eq .null)
    · intro ident value hlet
      have hrun := hstops.run_getElem? (List.getElem?_map ▸ congrArg (Option.map Fragment.statement) hlet)
      exact run_bind_eq_signal_iff.1 hrun

/-- A call of `f` that returns is a value in the operand on the left.  The return in the operand on the right ends
the block: its `let` binds nothing, and the last statement is not reached. -/
theorem return_in_operand_ends_block :
    let f : Expr := .fn ["x"] [.expr (.cond (.name "x") [.ret (some (.int 1))] none), .expr (.int 2)]
    let call (truth : Bool) : Expr := .call (.name "f") [.bool truth]
    let sum : Expr := .binary .plus (call true) (.cond (.bool true) [.ret (some (call false))] none)
    let statements : Block := [.bind "f" f, .bind "y" sum, .bind "z" (.int 5)]
    let store : Store := (({} : Store).enclose none).2
    let start := (Evaluator.run {} store 0 (.statement (.bind "f" f))).2.2
    let left := (Evaluator.run {} start 0 (.expression sum)).2.2
    (Fragment.expression (call true)).returns = false ∧
      (∀ value, (Evaluator.run {} start 0 (.expression (call true))).1 ≠ .ret value) ∧
      (Evaluator.run {} start 0 (.expression (call true))).1 = .value (.int 1) ∧
      Evaluator.StopsAt {} 0 store (statements.map .statement) 1 start (.ret (.int 2)) left ∧
      Evaluator.run {} store 0 (.block statements) = (.ret (.int 2), {}, left) ∧
      Evaluator.run {} store 0 (.block (statements.take 2)) = (.ret (.int 2), {}, left) ∧
      Evaluator.run {} start 0 (.expression sum) = (.ret (.int 2), {}, left) ∧
      left.get? 0 "y" = none ∧ left.get? 0 "z" = none := by
  intro f call sum statements store start left
  obtain ⟨hreturnless, -, hcut⟩ := returns_stay_inside
  have hfree : (Fragment.expression (call true)).returns = false := rfl
  have hfirst : Evaluator.run {} store 0 (.statement (.bind "f" f)) = (.value .null, {}, start) := by
    decide +kernel
  have hsecond : Evaluator.run {} start 0 (.statement (.bind "y" sum)) = (.ret (.int 2), {}, left) := by
    decide +kernel
  have hstops : Evaluator.StopsAt {} 0 store (statements.map .statement) 1 start (.ret (.int 2)) left :=
    .later hfirst (.here hsecond)
  obtain ⟨hblock, hothers, hlet⟩ := hcut {} store 0 statements 1 start (.ret (.int 2)) left hstops
  exact ⟨hfree, hreturnless {} start 0 _ hfree, by decide +kernel, hstops, hblock, hothers [], hlet "y" sum rfl,
    by decide +kernel, by decide +kernel⟩

end Evaluator

end LetScript
