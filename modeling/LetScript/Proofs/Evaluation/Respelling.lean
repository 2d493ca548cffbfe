import LetScript.Proofs.Evaluation.Coupling
import LetScript.Proofs.Evaluation.Scopes
import LetScript.Proofs.Tree.Signs

/-!
# Evaluation with signs as operations

A program and what is read of its text are the same but for the signs of literals.  Their evaluations go in step:
each machine of one is that of the other with the bodies of its functions respelled.

* `Value.respelled`, `Store.respelled`, `Machine.respelled` — what a machine holds, with each sign as an operation.
* `Store.get?_respelled`, `Store.bind_respelled`, `Machine.enter_respelled` — respelling commutes with the
  operations of a store.
* `Eval.Respells`, `Eval.Respells.bind` — two evaluations that go in step, and two in a row.
* `Value.behindSign`, `Expr.eval_of_signed` — the value of the expression behind a sign, and what can have one.
* `Expr.respells_unsigned`, `Stmt.respells`, `Block.respells` — trees go in step with respelled trees, if calls do.
* `Eval.callsRespelled` — calls do.
* `Evaluator.run_respelled`, `Program.flow_respelled` — so the run of a respelled tree is that of the tree, respelled.
-/

namespace LetScript

/-! ## Respelled machines -/

/-- The function with each sign in its body as an operation. -/
def Function.respelled (f : Function) : Function :=
  { f with body := Block.respelled f.body }

/-- The value with each sign in the body of a function as an operation. -/
def Value.respelled : Value → Value
  | function f => function f.respelled
  | int value => int value
  | bool value => bool value
  | str value => str value
  | null => null
  | error e => error e

/-- The bindings with respelled values. -/
def Bindings.respelled (bindings : Bindings) : Bindings :=
  bindings.map fun binding => (binding.1, binding.2.respelled)

/-- The scope with respelled values. -/
def Scope.respelled (s : Scope) : Scope :=
  { s with bindings := s.bindings.respelled }

/-- The store with respelled values. -/
def Store.respelled (store : Store) : Store :=
  { store with scopes := store.scopes.map Scope.respelled }

/-- The machine with respelled values. -/
def Machine.respelled (machine : Machine) : Machine :=
  { machine with store := machine.store.respelled }

/-- The signal with a respelled value. -/
def Signal.respelled : Signal → Signal
  | ret value => ret value.respelled
  | error e => error e

theorem Value.alike_respelled (value : Value) : value.Alike value.respelled := by
  cases value with
  | function f => exact .inr ⟨f, f.respelled, rfl, rfl⟩
  | _ => exact .of_eq rfl

theorem Value.respelled_of_isPlain {value : Value} (hplain : value.isPlain = true) : value.respelled = value := by
  cases value with
  | function f => cases hplain
  | _ => rfl

theorem Bindings.lookup_respelled (bindings : Bindings) (name : String) :
    bindings.respelled.lookup name = (bindings.lookup name).map Value.respelled := by
  induction bindings with
  | nil => rfl
  | cons binding bindings ih =>
      obtain ⟨key, value⟩ := binding
      show ((key, value.respelled) :: Bindings.respelled bindings).lookup name = _
      rw [lookup_cons, lookup_cons, ih]
      split
      · rfl
      · rfl

theorem Bindings.insert_respelled (name : String) (value : Value) (bindings : Bindings) :
    (insert name value bindings).respelled = insert name value.respelled bindings.respelled := by
  induction bindings with
  | nil => rfl
  | cons binding bindings ih =>
      obtain ⟨key, old⟩ := binding
      show respelled (if key = name then _ else _) =
        if key = name then (name, value.respelled) :: respelled bindings
        else (key, old.respelled) :: insert name value.respelled (respelled bindings)
      rw [← ih]
      split
      · rfl
      · rfl

namespace Store

variable (store : Store) (scope : ScopeId)

@[simp] theorem size_respelled : store.respelled.scopes.size = store.scopes.size :=
  Array.size_map

theorem get?_respelled (name : String) :
    store.respelled.get? scope name = (store.get? scope name).map Value.respelled := by
  induction scope using Nat.strongRecOn with
  | _ scope ih =>
      have hscopes : store.respelled.scopes[scope]? = store.scopes[scope]?.map Scope.respelled :=
        Array.getElem?_map
      cases hs : store.scopes[scope]? with
      | none =>
          rw [hs] at hscopes
          rw [get?_of_getElem?_none hs, get?_of_getElem?_none hscopes]
          rfl
      | some s =>
          rw [hs] at hscopes
          have hlookup : s.respelled.bindings.lookup name = (s.bindings.lookup name).map Value.respelled :=
            Bindings.lookup_respelled s.bindings name
          have houter : s.respelled.outer = s.outer := rfl
          rw [get?_of_getElem? hs, get?_of_getElem? hscopes, hlookup, houter]
          cases s.bindings.lookup name with
          | some value => rfl
          | none =>
              cases s.outer with
              | none => rfl
              | some outer =>
                  -- The search goes on in an older scope.
                  show (if outer < scope then _ else _) = Option.map _ (if outer < scope then _ else _)
                  split
                  · next hlt => exact ih outer hlt
                  · rfl

theorem enclose_respelled (outer : Option ScopeId) :
    (store.enclose outer).2.respelled = (store.respelled.enclose outer).2 := by
  simp only [enclose, respelled, Array.map_push]
  rfl

theorem bind_respelled (name : String) (value : Value) :
    (store.bind scope name value).respelled = store.respelled.bind scope name value.respelled := by
  simp only [bind, respelled, Store.mk.injEq, and_true]
  apply Array.ext_getElem?
  intro id
  simp only [Array.getElem?_map, Array.getElem?_modify]
  split
  · cases store.scopes[id]? with
    | none => rfl
    | some s =>
        simp only [Option.map_some, Scope.respelled, Bindings.insert_respelled]
  · rfl

theorem bindAll_respelled (names : List String) (values : List Value) :
    (store.bindAll scope names values).respelled =
      store.respelled.bindAll scope names (values.map Value.respelled) := by
  induction names generalizing store values with
  | nil => rfl
  | cons name names ih =>
      cases values with
      | nil => rfl
      | cons value values => rw [bindAll, ih, bind_respelled, List.map_cons, bindAll]

end Store

theorem Machine.enter_respelled (machine : Machine) (f : Function) (arguments : List Value) :
    (machine.enter f arguments).respelled =
      machine.respelled.enter f.respelled (arguments.map Value.respelled) := by
  simp only [enter, respelled, Store.bindAll_respelled, Store.enclose_respelled, Store.size_respelled]
  rfl

/-! ## Evaluations in step -/

namespace Eval

variable {α β γ δ : Type}

/-- The result with respelled values, and another value of its own. -/
def respelledResult (f : α → β) : EStateM.Result Signal Machine α → EStateM.Result Signal Machine β
  | .ok value after => .ok (f value) after.respelled
  | .error signal after => .error signal.respelled after.respelled

/-- From a respelled machine the second evaluation goes as the first one does from the machine itself. -/
def Respells (f : α → β) (x : Eval α) (y : Eval β) : Prop :=
  ∀ machine, y machine.respelled = respelledResult f (x machine)

theorem respells_pure (f : α → β) (value : α) : Respells f (pure value) (pure (f value)) :=
  fun _ => rfl

/-- What follows has to go in step only behind values that the first part can give. -/
theorem Respells.bind {f : α → β} {g : γ → δ} {x : Eval α} {y : Eval β} {next : α → Eval γ} {next' : β → Eval δ}
    (hx : Respells f x y)
    (hnext : ∀ value, (∃ before after, x before = .ok value after) →
      Respells g (next value) (next' (f value))) :
    Respells g (x >>= next) (y >>= next') := by
  intro machine
  have hstep := hx machine
  cases hresult : x machine with
  | ok value after =>
      rw [hresult] at hstep
      rw [bind_of_ok hresult, bind_of_ok hstep]
      exact hnext value ⟨machine, after, hresult⟩ after
  | error signal after =>
      rw [hresult] at hstep
      rw [bind_of_error hresult, bind_of_error hstep]
      rfl

/-- An operation does not tell respelled operands apart, and gives no function. -/
theorem respells_ofExcept {answer : Except RuntimeError Value}
    (hplain : ∀ {value}, answer = .ok value → value.isPlain = true) :
    Respells Value.respelled (ofExcept answer) (ofExcept answer) := by
  intro machine
  cases answer with
  | ok value =>
      show EStateM.Result.ok value machine.respelled = EStateM.Result.ok value.respelled machine.respelled
      rw [Value.respelled_of_isPlain (hplain rfl)]
  | error error => rfl

theorem respells_lookUp (scope : ScopeId) (name : String) :
    Respells Value.respelled (lookUp scope name) (lookUp scope name) := by
  intro machine
  have hget := machine.store.get?_respelled scope name
  cases hfound : machine.store.get? scope name with
  | some value =>
      rw [hfound] at hget
      rw [lookUp_of_some hfound, lookUp_of_some hget]
      rfl
  | none =>
      rw [hfound] at hget
      rw [lookUp_of_none hfound, lookUp_of_none hget]
      rfl

theorem respells_bindName (scope : ScopeId) (name : String) (value : Value) :
    Respells id (bindName scope name value) (bindName scope name value.respelled) := by
  intro machine
  show EStateM.Result.ok () (Machine.mk (machine.store.respelled.bind scope name value.respelled) machine.depth) =
    EStateM.Result.ok () (Machine.mk (machine.store.bind scope name value).respelled machine.depth)
  rw [Store.bind_respelled]

theorem respells_newFunction (parameters : List String) (body : Block) (scope : ScopeId) :
    Respells Value.respelled (newFunction parameters body scope)
      (newFunction parameters (Block.respelled body) scope) :=
  fun _ => rfl

/-- Calls go in step.  The number that is called makes no difference, for no number can be. -/
structure CallsRespelled (apply other : Value → List Value → Eval Value) : Prop where
  respells : ∀ callee arguments,
    Respells Value.respelled (apply callee arguments) (other callee.respelled (arguments.map Value.respelled))
  notAFunction : ∀ number arguments machine,
    apply (.int number) arguments machine = .error (.error (.notAFunction .integer)) machine

end Eval

/-- The value of what stands behind a sign, if there is one. -/
def Value.behindSign (signed : Bool) : Value → Value
  | int value => int (if signed then -value else value)
  | value => value.respelled

theorem Value.behindSign_false : behindSign false = respelled := by
  funext value
  cases value <;> rfl

section Trees

open Eval

variable {apply other : Value → List Value → Eval Value}

/-- What starts with the sign of a literal is the literal, or else it is called and fails. -/
theorem Expr.eval_of_signed (hcalls : CallsRespelled apply other) (scope : ScopeId) :
    ∀ {e : Expr}, e.isSigned = true → ∀ {machine after : Machine} {value : Value},
      e.eval apply scope machine = .ok value after → ∃ number, value = .int number
  | .int number, _, machine, after, value, hresult => by
      rw [Expr.eval] at hresult
      cases hresult
      exact ⟨number, rfl⟩
  | .call callee arguments, hsigned, machine, after, value, hresult => by
      rw [Expr.eval] at hresult
      cases hcallee : callee.eval apply scope machine with
      | error signal middle =>
          rw [bind_of_error hcallee] at hresult
          cases hresult
      | ok called middle =>
          obtain ⟨number, rfl⟩ := Expr.eval_of_signed hcalls scope (e := callee) hsigned hcallee
          rw [bind_of_ok hcallee] at hresult
          cases harguments : Expr.evalAll apply scope arguments middle with
          | error signal last =>
              rw [bind_of_error harguments] at hresult
              cases hresult
          | ok values last =>
              rw [bind_of_ok harguments, hcalls.notAFunction] at hresult
              cases hresult
  | .name _, hsigned, _, _, _, _ | .str _, hsigned, _, _, _, _ | .bool _, hsigned, _, _, _, _
  | .unary _ _, hsigned, _, _, _, _ | .binary _ _ _, hsigned, _, _, _, _ | .cond _ _ _, hsigned, _, _, _, _
  | .fn _ _, hsigned, _, _, _, _ => by cases hsigned

/-- A sign in front of the value of an expression makes it that of the whole. -/
theorem Expr.respells_of_unsigned (hcalls : CallsRespelled apply other) {scope : ScopeId} {e : Expr}
    (hunsigned : Respells (Value.behindSign e.isSigned) (e.eval apply scope) (e.unsigned.eval other scope)) :
    Respells Value.respelled (e.eval apply scope) (e.respelled.eval other scope) := by
  cases hsigned : e.isSigned with
  | false =>
      rw [hsigned, Value.behindSign_false] at hunsigned
      rw [Expr.respelled_of_plain hsigned]
      exact hunsigned
  | true =>
      rw [hsigned] at hunsigned
      rw [Expr.respelled_of_signed hsigned, Expr.eval]
      intro machine
      have hstep := hunsigned machine
      cases hresult : e.eval apply scope machine with
      | ok value after =>
          obtain ⟨number, rfl⟩ := Expr.eval_of_signed hcalls scope hsigned hresult
          rw [hresult] at hstep
          rw [bind_of_ok hstep]
          -- The sign undoes what the literal has lost.
          show EStateM.Result.ok (Value.int (- -number)) after.respelled = _
          rw [Int64.neg_neg]
          rfl
      | error signal after =>
          rw [hresult] at hstep
          rw [bind_of_error hstep]
          rfl

mutual

theorem Expr.respells_unsigned (hcalls : CallsRespelled apply other) (scope : ScopeId) : ∀ e : Expr,
    Respells (Value.behindSign e.isSigned) (e.eval apply scope) (e.unsigned.eval other scope)
  | .name ident => by
      simp only [Expr.isSigned, Expr.unsigned, Expr.eval, Value.behindSign_false]
      exact respells_lookUp scope ident
  | .int value => by
      simp only [Expr.isSigned, Expr.unsigned, Expr.eval]
      have hpure := respells_pure (Value.behindSign (decide (value < 0))) (.int value)
      rw [Value.behindSign] at hpure
      simpa only [decide_eq_true_eq] using hpure
  | .str value => by
      simp only [Expr.isSigned, Expr.unsigned, Expr.eval, Value.behindSign_false]
      exact respells_pure Value.respelled (.str value)
  | .bool value => by
      simp only [Expr.isSigned, Expr.unsigned, Expr.eval, Value.behindSign_false]
      exact respells_pure Value.respelled (.bool value)
  | .unary op operand => by
      simp only [Expr.isSigned, Expr.unsigned, Expr.eval, Value.behindSign_false]
      refine (Expr.respells_of_unsigned hcalls (Expr.respells_unsigned hcalls scope operand)).bind ?_
      intro value _
      rw [← value.alike_respelled.applyPrefix_eq]
      exact respells_ofExcept Value.isPlain_of_applyPrefix
  | .binary op left right => by
      simp only [Expr.isSigned, Expr.unsigned, Expr.eval, Value.behindSign_false]
      refine (Expr.respells_of_unsigned hcalls (Expr.respells_unsigned hcalls scope left)).bind ?_
      intro first _
      refine (Expr.respells_of_unsigned hcalls (Expr.respells_unsigned hcalls scope right)).bind ?_
      intro second _
      rw [← first.alike_respelled.applyInfix_eq second.alike_respelled]
      exact respells_ofExcept Value.isPlain_of_applyInfix
  | .cond condition consequence none => by
      simp only [Expr.isSigned, Expr.unsigned, Expr.eval, Value.behindSign_false]
      refine (Expr.respells_of_unsigned hcalls (Expr.respells_unsigned hcalls scope condition)).bind ?_
      intro value _
      rw [← value.alike_respelled.isTruthy_eq]
      split
      · exact Block.respells hcalls scope .null consequence
      · exact respells_pure Value.respelled .null
  | .cond condition consequence (some alternative) => by
      simp only [Expr.isSigned, Expr.unsigned, Expr.eval, Value.behindSign_false]
      refine (Expr.respells_of_unsigned hcalls (Expr.respells_unsigned hcalls scope condition)).bind ?_
      intro value _
      rw [← value.alike_respelled.isTruthy_eq]
      split
      · exact Block.respells hcalls scope .null consequence
      · exact Block.respells hcalls scope .null alternative
  | .fn parameters body => by
      simp only [Expr.isSigned, Expr.unsigned, Expr.eval, Value.behindSign_false]
      exact respells_newFunction parameters body scope
  | .call callee arguments => by
      simp only [Expr.isSigned, Expr.unsigned, Expr.eval]
      refine (Expr.respells_unsigned hcalls scope callee).bind ?_
      rintro called ⟨before, after, hcalled⟩
      refine (Expr.respells_each hcalls scope arguments).bind ?_
      intro values _
      cases hsigned : callee.isSigned with
      | false =>
          rw [Value.behindSign_false]
          exact hcalls.respells called values
      | true =>
          -- Behind a sign a number is called, here and there, and neither call gives a value.
          obtain ⟨number, rfl⟩ := Expr.eval_of_signed hcalls scope hsigned hcalled
          intro machine
          have hopposite := hcalls.respells (.int (-number)) values machine
          rw [hcalls.notAFunction] at hopposite
          rw [hcalls.notAFunction]
          exact hopposite

theorem Expr.respells_each (hcalls : CallsRespelled apply other) (scope : ScopeId) : ∀ exprs : List Expr,
    Respells (List.map Value.respelled) (Expr.evalAll apply scope exprs)
      (Expr.evalAll other scope (Expr.respelledEach exprs))
  | [] => by
      simp only [Expr.respelledEach, Expr.evalAll]
      exact respells_pure (List.map Value.respelled) []
  | expr :: exprs => by
      simp only [Expr.respelledEach, Expr.evalAll]
      refine (Expr.respells_of_unsigned hcalls (Expr.respells_unsigned hcalls scope expr)).bind ?_
      intro value _
      refine (Expr.respells_each hcalls scope exprs).bind ?_
      intro values _
      exact respells_pure (List.map Value.respelled) (value :: values)

theorem Stmt.respells (hcalls : CallsRespelled apply other) (scope : ScopeId) : ∀ s : Stmt,
    Respells Value.respelled (s.eval apply scope) (s.respelled.eval other scope)
  | .bind name value => by
      simp only [Stmt.respelled, Stmt.eval]
      refine (Expr.respells_of_unsigned hcalls (Expr.respells_unsigned hcalls scope value)).bind ?_
      intro bound _
      refine (respells_bindName scope name bound).bind ?_
      intro _ _
      exact respells_pure Value.respelled .null
  | .ret none => by
      simp only [Stmt.respelled, Stmt.eval]
      exact fun _ => rfl
  | .ret (some value) => by
      simp only [Stmt.respelled, Stmt.eval]
      refine (Expr.respells_of_unsigned hcalls (Expr.respells_unsigned hcalls scope value)).bind ?_
      intro returned _
      exact fun _ => rfl
  | .expr value => by
      simp only [Stmt.respelled, Stmt.eval]
      exact Expr.respells_of_unsigned hcalls (Expr.respells_unsigned hcalls scope value)

theorem Block.respells (hcalls : CallsRespelled apply other) (scope : ScopeId) (last : Value) :
    ∀ statements : List Stmt, Respells Value.respelled (Block.eval apply scope last statements)
      (Block.eval other scope last.respelled (Block.respelled statements))
  | [] => by
      simp only [Block.respelled, Block.eval]
      exact respells_pure Value.respelled last
  | statement :: statements => by
      simp only [Block.respelled, Block.eval]
      refine (Stmt.respells hcalls scope statement).bind ?_
      intro value _
      exact Block.respells hcalls scope value statements

end

end Trees

/-! ## Calls -/

/-- What a call makes of the result of a body does not depend on the signs. -/
theorem Eval.leave_respelledResult (result : EStateM.Result Signal Machine Value) :
    leave (respelledResult Value.respelled result) = respelledResult Value.respelled (leave result) := by
  cases result with
  | ok value after => rfl
  | error signal after => cases signal <;> rfl

/-- The induction is on the budget: the bodies of functions have smaller ones. -/
theorem Eval.callsRespelled (limit budget : Nat) :
    CallsRespelled (call limit budget) (call limit budget) := by
  induction budget using Nat.strongRecOn with
  | _ budget ih =>
      refine ⟨?_, fun number arguments machine => call_of_notAFunction nofun⟩
      intro callee arguments machine
      have hlength : (arguments.map Value.respelled).length = arguments.length := List.length_map _
      cases call_cases limit budget callee arguments machine with
      | notAFunction hother hcall =>
          have hother' : ∀ function, callee.respelled ≠ .function function := by
            cases callee with
            | function f => exact absurd rfl (hother f)
            | _ => nofun
          rw [hcall, call_of_notAFunction hother', ← callee.alike_respelled.type_eq]
          rfl
      | @wrongCount f hfunction hcount hcall =>
          subst hfunction
          have hcount' : f.respelled.parameters.length ≠ (arguments.map Value.respelled).length := by
            rwa [hlength]
          rw [hcall, Value.respelled, call_of_wrongCount hcount', hlength]
          rfl
      | @refused f hfunction hcount hspent hcall =>
          subst hfunction
          have hcount' : f.respelled.parameters.length = (arguments.map Value.respelled).length := by
            rwa [hlength]
          have hspent' : limit ≤ machine.respelled.depth ∨ budget = 0 := hspent
          rw [hcall, Value.respelled, call_of_refused hcount' hspent']
          rfl
      | @entered f rest hfunction hcount hbudget hdepth hcall =>
          subst hfunction
          subst hbudget
          have hcount' : f.respelled.parameters.length = (arguments.map Value.respelled).length := by
            rwa [hlength]
          have hdepth' : machine.respelled.depth < limit := hdepth
          have hsize : machine.respelled.store.scopes.size = machine.store.scopes.size :=
            machine.store.size_respelled
          have hbody := Block.respells (ih rest (Nat.lt_succ_self rest)) machine.store.scopes.size .null f.body
            (machine.enter f arguments)
          rw [hcall, Value.respelled, call_of_entered hcount' hdepth', hsize, ← Machine.enter_respelled,
            ← leave_respelledResult]
          exact congrArg leave hbody

/-! ## Runs -/

/-- The flow with a respelled value. -/
def Flow.respelled : Flow → Flow
  | value v => value v.respelled
  | ret v => ret v.respelled
  | error e => error e

/-- The fragment with each sign as an operation. -/
def Fragment.respelled : Fragment → Fragment
  | block statements => block (Block.respelled statements)
  | statement stmt => statement stmt.respelled
  | expression expr => expression expr.respelled

theorem Fragment.respells {apply other : Value → List Value → Eval Value}
    (hcalls : Eval.CallsRespelled apply other) (scope : ScopeId) (fragment : Fragment) :
    Eval.Respells Value.respelled (fragment.eval apply scope) (fragment.respelled.eval other scope) := by
  cases fragment with
  | block statements => exact Block.respells hcalls scope .null statements
  | statement stmt => exact Stmt.respells hcalls scope stmt
  | expression expr => exact Expr.respells_of_unsigned hcalls (Expr.respells_unsigned hcalls scope expr)

theorem Flow.ofResult_respelled (result : EStateM.Result Signal Machine Value) :
    ofResult (Eval.respelledResult Value.respelled result) =
      ((ofResult result).1.respelled, (ofResult result).2.respelled) := by
  cases result with
  | ok value after => rfl
  | error signal after => cases signal <;> rfl

/-- A run goes with respelled trees from a respelled store as it goes without. -/
theorem Evaluator.run_respelled (evaluator : Evaluator) (store : Store) (scope : ScopeId) (fragment : Fragment) :
    evaluator.run store.respelled scope fragment.respelled =
      ((evaluator.run store scope fragment).1.respelled, (evaluator.run store scope fragment).2.1,
        (evaluator.run store scope fragment).2.2.respelled) := by
  have hcalls := Eval.callsRespelled evaluator.limit (evaluator.limit - evaluator.depth)
  have hstep : fragment.respelled.eval _ scope ⟨store.respelled, evaluator.depth⟩ =
      Eval.respelledResult Value.respelled (fragment.eval _ scope ⟨store, evaluator.depth⟩) :=
    fragment.respells hcalls scope ⟨store, evaluator.depth⟩
  simp only [run, hstep, Flow.ofResult_respelled]
  rfl

/-- A store without bindings stays as it is. -/
theorem Store.respelled_start : (({} : Store).enclose none).2.respelled = (({} : Store).enclose none).2 := by
  rw [enclose_respelled, respelled, Array.map_empty]

theorem Program.flow_respelled (program : Program) : program.respelled.flow = program.flow.respelled := by
  have hrun := Evaluator.run_respelled {} (({} : Store).enclose none).2 (({} : Store).enclose none).1
    (.block program.statements)
  rw [Store.respelled_start] at hrun
  exact congrArg Prod.fst hrun

end LetScript
