import LetScript.Proofs.Evaluation.Rules
import LetScript.Proofs.Evaluation.Sessions

/-!
# Every evaluation ends

* `Store.WellFormed.resolves` — in a well-formed store every search for a name ends.
* `Law.ready` — the budget lasts until the limit on open calls is met.
* `Expr.runs_eval`, `Eval.callsRun` — evaluation with such a budget follows the rules.  The induction is
  on the budget, which pays for the bodies of functions, and within it on the tree.
* `ExprRuns.eval_eq`, `CallRuns.call_eq` — the rules allow nothing else.
* `Fragment.EndsIn` — the evaluation of a fragment ends in a result, and in no other.
* `Fragment.evaluation_terminates` — every evaluation ends, in every state of a session.
-/

namespace LetScript

/-! ## Names -/

/-- Every search ends: outward the scopes get older. -/
theorem Store.WellFormed.resolves {store : Store} (hstore : store.WellFormed) (name : String)
    {scope : ScopeId} (hscope : scope < store.scopes.size) :
    Resolves store name scope (store.get? scope name) := by
  obtain ⟨s, hs⟩ : ∃ s, store.scopes[scope]? = some s := ⟨_, Array.getElem?_eq_getElem hscope⟩
  rw [Store.get?, hs]
  cases hlookup : s.bindings.lookup name with
  | some value => simpa [hlookup] using Resolves.here hs hlookup
  | none =>
      cases houter : s.outer with
      | none => simpa [hlookup, houter] using Resolves.missing hs hlookup houter
      | some outer =>
          have hlt : outer < scope := hstore.outer_lt hs houter
          have hanswer := hstore.resolves name (Nat.lt_trans hlt hscope)
          simpa [hlookup, houter, hlt] using Resolves.outward hs hlookup houter hanswer
termination_by scope

theorem Resolves.get?_eq {store : Store} {name : String} {scope : ScopeId} {answer : Option Value}
    (hresolves : Resolves store name scope answer) (hstore : store.WellFormed) :
    store.get? scope name = answer := by
  induction hresolves with
  | here hscope hbound =>
      rw [Store.get?, hscope]
      simp [hbound]
  | outward hscope hfree houter hanswer ih =>
      rw [Store.get?, hscope]
      simp [hfree, houter, hstore.outer_lt hscope houter, ih]
  | missing hscope hfree houter =>
      rw [Store.get?, hscope]
      simp [hfree, houter]

/-! ## Budgets -/

/-- A well-formed store with a scope to evaluate in, and a budget that lasts until the limit is met. -/
def Law.ready (limit budget : Nat) (scope : ScopeId) : Law where
  holds machine := (Law.wellFormed scope).holds machine ∧ limit - machine.depth ≤ budget
  admits := (Law.wellFormed scope).admits
  allows before after := (Law.wellFormed scope).allows before after ∧ after.depth = before.depth
  allows_refl _ := ⟨Nat.le_refl _, rfl⟩
  allows_trans hfirst hsecond :=
    ⟨Nat.le_trans hfirst.1 hsecond.1, hsecond.2.trans hfirst.2⟩
  admits_of_allows hallows := (Law.wellFormed scope).admits_of_allows hallows.1
  admits_of_isPlain := (Law.wellFormed scope).admits_of_isPlain

theorem Law.Meets.ready {limit budget : Nat} {scope : ScopeId} {machine : Machine}
    {result : EStateM.Result Signal Machine Value}
    (hwellFormed : (Law.wellFormed scope).Meets (Law.wellFormed scope).admits machine result)
    (hdepth : Law.depth.Meets Law.depth.admits machine result)
    (hbudget : limit - machine.depth ≤ budget) :
    (Law.ready limit budget scope).Meets (Law.ready limit budget scope).admits machine result := by
  have hsame := hdepth.allows_machineOf
  cases result with
  | ok value after =>
      have hafter : after.depth = machine.depth := hsame
      exact ⟨⟨hwellFormed.1, by omega⟩, ⟨hwellFormed.2.1, hafter⟩, hwellFormed.2.2⟩
  | error signal after =>
      have hafter : after.depth = machine.depth := hsame
      cases signal with
      | ret value => exact ⟨⟨hwellFormed.1, by omega⟩, ⟨hwellFormed.2.1, hafter⟩, hwellFormed.2.2⟩
      | error error => exact ⟨⟨hwellFormed.1, by omega⟩, ⟨hwellFormed.2, hafter⟩⟩

theorem Law.governs_ready (limit budget : Nat) (scope : ScopeId) :
    (Law.ready limit budget scope).Governs (Eval.call limit budget) scope .all where
  lookUp hholds hget := hholds.1.1.knows_of_get? hget
  bindName := by
    intro machine ident bound value _ hholds hvalue
    have hsize := Store.size_bind machine.store scope ident value
    refine ⟨⟨⟨hholds.1.1.bind hvalue, ?_⟩, hholds.2⟩, ⟨Nat.le_of_eq hsize.symm, rfl⟩, trivial⟩
    exact Nat.lt_of_lt_of_eq hholds.1.2 hsize.symm
  newFunction _ hholds :=
    ⟨⟨⟨hholds.1.1.newFunction, hholds.1.2⟩, hholds.2⟩, ⟨Nat.le_refl _, rfl⟩, hholds.1.2⟩
  apply := by
    intro machine callee arguments hholds hcallee harguments
    exact (Eval.call_wellFormed limit budget hholds.1 hcallee harguments).ready
      (Eval.call_depth limit budget callee arguments machine) hholds.2

/-! ## Evaluation follows the rules -/

section Rules

variable {limit budget : Nat} {scope : ScopeId} {machine : Machine}

theorem Expr.eval_ready (e : Expr) {machine : Machine}
    (hready : (Law.ready limit budget scope).holds machine) :
    (Law.ready limit budget scope).Meets (Law.ready limit budget scope).admits machine
      (e.eval (Eval.call limit budget) scope machine) :=
  Expr.eval_meets (Law.governs_ready limit budget scope) trivial hready

theorem Expr.evalAll_ready (exprs : List Expr) {machine : Machine}
    (hready : (Law.ready limit budget scope).holds machine) :
    (Law.ready limit budget scope).Meets
      (fun after values => ∀ value ∈ values, (Law.ready limit budget scope).admits after value)
      machine (Expr.evalAll (Eval.call limit budget) scope exprs machine) :=
  Expr.evalAll_meets (Law.governs_ready limit budget scope) trivial hready

theorem Stmt.eval_ready (s : Stmt) {machine : Machine}
    (hready : (Law.ready limit budget scope).holds machine) :
    (Law.ready limit budget scope).Meets (Law.ready limit budget scope).admits machine
      (s.eval (Eval.call limit budget) scope machine) :=
  Stmt.eval_meets (Law.governs_ready limit budget scope) trivial hready

theorem Eval.runs_lookUp (ident : String) (hstore : machine.store.WellFormed)
    (hscope : scope < machine.store.scopes.size) :
    ExprRuns limit scope (.name ident) machine (Eval.lookUp scope ident machine) := by
  have hresolves := hstore.resolves ident hscope
  cases hget : machine.store.get? scope ident with
  | some value =>
      rw [Eval.lookUp_of_some hget]
      exact .name (hget ▸ hresolves)
  | none =>
      rw [Eval.lookUp_of_none hget]
      exact .unbound (hget ▸ hresolves)

/-- Calls that the budget pays for follow the rules. -/
def Eval.CallsRun (limit budget : Nat) : Prop :=
  ∀ ⦃callee : Value⦄ ⦃arguments : List Value⦄ ⦃machine : Machine⦄, machine.store.WellFormed →
    limit - machine.depth ≤ budget → machine.store.Knows callee →
    (∀ argument ∈ arguments, machine.store.Knows argument) →
      CallRuns limit callee arguments machine (Eval.call limit budget callee arguments machine)

mutual

theorem Expr.runs_eval (hcalls : Eval.CallsRun limit budget) : ∀ (e : Expr) {machine : Machine},
    (Law.ready limit budget scope).holds machine →
      ExprRuns limit scope e machine (e.eval (Eval.call limit budget) scope machine)
  | .name ident, machine, hready => by
      simp only [Expr.eval]
      exact Eval.runs_lookUp ident hready.1.1 hready.1.2
  | .int value, machine, hready => by
      simp only [Expr.eval]
      exact .int
  | .str value, machine, hready => by
      simp only [Expr.eval]
      exact .str
  | .bool value, machine, hready => by
      simp only [Expr.eval]
      exact .bool
  | .unary op operand, machine, hready => by
      have hoperand := Expr.runs_eval hcalls operand hready
      simp only [Expr.eval]
      cases hresult : operand.eval (Eval.call limit budget) scope machine with
      | ok value after =>
          rw [hresult] at hoperand
          rw [Eval.bind_of_ok hresult]
          exact .unary hoperand
      | error signal after =>
          rw [hresult] at hoperand
          rw [Eval.bind_of_error hresult]
          exact .unaryStops hoperand
  | .binary op left right, machine, hready => by
      have hleft := Expr.runs_eval hcalls left hready
      have hkept := Expr.eval_ready left hready
      simp only [Expr.eval]
      cases hresult : left.eval (Eval.call limit budget) scope machine with
      | ok leftValue middle =>
          rw [hresult] at hleft hkept
          rw [Eval.bind_of_ok hresult]
          have hright := Expr.runs_eval hcalls right hkept.1
          cases hlast : right.eval (Eval.call limit budget) scope middle with
          | ok rightValue after =>
              rw [hlast] at hright
              rw [Eval.bind_of_ok hlast]
              exact .binary hleft hright
          | error signal after =>
              rw [hlast] at hright
              rw [Eval.bind_of_error hlast]
              exact .rightStops hleft hright
      | error signal after =>
          rw [hresult] at hleft
          rw [Eval.bind_of_error hresult]
          exact .leftStops hleft
  | .cond condition consequence none, machine, hready => by
      have hcondition := Expr.runs_eval hcalls condition hready
      have hkept := Expr.eval_ready condition hready
      simp only [Expr.eval]
      cases hresult : condition.eval (Eval.call limit budget) scope machine with
      | ok value middle =>
          rw [hresult] at hcondition hkept
          rw [Eval.bind_of_ok hresult]
          split
          · next htruthy =>
              exact .condTrue hcondition htruthy (Block.runs_eval hcalls consequence hkept.1)
          · next htruthy => exact .condMissing hcondition (Bool.eq_false_iff.2 htruthy)
      | error signal after =>
          rw [hresult] at hcondition
          rw [Eval.bind_of_error hresult]
          exact .condStops hcondition
  | .cond condition consequence (some alternative), machine, hready => by
      have hcondition := Expr.runs_eval hcalls condition hready
      have hkept := Expr.eval_ready condition hready
      simp only [Expr.eval]
      cases hresult : condition.eval (Eval.call limit budget) scope machine with
      | ok value middle =>
          rw [hresult] at hcondition hkept
          rw [Eval.bind_of_ok hresult]
          split
          · next htruthy =>
              exact .condTrue hcondition htruthy (Block.runs_eval hcalls consequence hkept.1)
          · next htruthy =>
              exact .condFalse hcondition (Bool.eq_false_iff.2 htruthy)
                (Block.runs_eval hcalls alternative hkept.1)
      | error signal after =>
          rw [hresult] at hcondition
          rw [Eval.bind_of_error hresult]
          exact .condStops hcondition
  | .fn parameters body, machine, hready => by
      simp only [Expr.eval]
      exact .fn
  | .call callee arguments, machine, hready => by
      have hcallee := Expr.runs_eval hcalls callee hready
      have hkept := Expr.eval_ready callee hready
      simp only [Expr.eval]
      cases hresult : callee.eval (Eval.call limit budget) scope machine with
      | ok function middle =>
          rw [hresult] at hcallee hkept
          obtain ⟨hmiddle, -, hfunction⟩ := hkept
          have harguments := Expr.argumentsRun_evalAll hcalls arguments hmiddle
          have hlast := Expr.evalAll_ready arguments hmiddle
          rw [Eval.bind_of_ok hresult]
          cases hvalues : Expr.evalAll (Eval.call limit budget) scope arguments middle with
          | ok values last =>
              rw [hvalues] at harguments hlast
              obtain ⟨hready, hallows, hknown⟩ := hlast
              -- The function was known before the arguments were evaluated, and the store only grew.
              have hfunction := (Law.ready limit budget scope).admits_of_allows hallows hfunction
              rw [Eval.bind_of_ok hvalues]
              exact .call hcallee harguments (hcalls hready.1.1 hready.2 hfunction hknown)
          | error signal after =>
              rw [hvalues] at harguments
              rw [Eval.bind_of_error hvalues]
              exact .argumentsStop hcallee harguments
      | error signal after =>
          rw [hresult] at hcallee
          rw [Eval.bind_of_error hresult]
          exact .calleeStops hcallee

theorem Expr.argumentsRun_evalAll (hcalls : Eval.CallsRun limit budget) :
    ∀ (exprs : List Expr) {machine : Machine}, (Law.ready limit budget scope).holds machine →
      ArgumentsRun limit scope exprs machine
        (Expr.evalAll (Eval.call limit budget) scope exprs machine)
  | [], machine, hready => by
      simp only [Expr.evalAll]
      exact .nil
  | expr :: exprs, machine, hready => by
      have hfirst := Expr.runs_eval hcalls expr hready
      have hkept := Expr.eval_ready expr hready
      simp only [Expr.evalAll]
      cases hresult : expr.eval (Eval.call limit budget) scope machine with
      | ok value middle =>
          rw [hresult] at hfirst hkept
          rw [Eval.bind_of_ok hresult]
          have hothers := Expr.argumentsRun_evalAll hcalls exprs hkept.1
          cases hvalues : Expr.evalAll (Eval.call limit budget) scope exprs middle with
          | ok values after =>
              rw [hvalues] at hothers
              rw [Eval.bind_of_ok hvalues]
              exact .cons hfirst hothers
          | error signal after =>
              rw [hvalues] at hothers
              rw [Eval.bind_of_error hvalues]
              exact .othersStop hfirst hothers
      | error signal after =>
          rw [hresult] at hfirst
          rw [Eval.bind_of_error hresult]
          exact .firstStops hfirst

theorem Stmt.runs_eval (hcalls : Eval.CallsRun limit budget) : ∀ (s : Stmt) {machine : Machine},
    (Law.ready limit budget scope).holds machine →
      StmtRuns limit scope s machine (s.eval (Eval.call limit budget) scope machine)
  | .bind ident value, machine, hready => by
      have hvalue := Expr.runs_eval hcalls value hready
      simp only [Stmt.eval]
      cases hresult : value.eval (Eval.call limit budget) scope machine with
      | ok bound after =>
          rw [hresult] at hvalue
          rw [Eval.bind_of_ok hresult]
          exact .bind hvalue
      | error signal after =>
          rw [hresult] at hvalue
          rw [Eval.bind_of_error hresult]
          exact .bindStops hvalue
  | .ret none, machine, _ => by
      simp only [Stmt.eval]
      exact .bare
  | .ret (some value), machine, hready => by
      have hvalue := Expr.runs_eval hcalls value hready
      simp only [Stmt.eval]
      cases hresult : value.eval (Eval.call limit budget) scope machine with
      | ok returned after =>
          rw [hresult] at hvalue
          rw [Eval.bind_of_ok hresult]
          exact .ret hvalue
      | error signal after =>
          rw [hresult] at hvalue
          rw [Eval.bind_of_error hresult]
          exact .retStops hvalue
  | .expr value, machine, hready => by
      simp only [Stmt.eval]
      exact .expr (Expr.runs_eval hcalls value hready)

theorem Block.runs_eval (hcalls : Eval.CallsRun limit budget) :
    ∀ (statements : List Stmt) {last : Value} {machine : Machine},
      (Law.ready limit budget scope).holds machine →
        BlockRuns limit scope last statements machine
          (Block.eval (Eval.call limit budget) scope last statements machine)
  | [], last, machine, hready => by
      simp only [Block.eval]
      exact .nil
  | statement :: statements, last, machine, hready => by
      have hfirst := Stmt.runs_eval hcalls statement hready
      have hkept := Stmt.eval_ready statement hready
      simp only [Block.eval]
      cases hresult : statement.eval (Eval.call limit budget) scope machine with
      | ok value middle =>
          rw [hresult] at hfirst hkept
          rw [Eval.bind_of_ok hresult]
          exact .cons hfirst (Block.runs_eval hcalls statements hkept.1)
      | error signal after =>
          rw [hresult] at hfirst
          rw [Eval.bind_of_error hresult]
          exact .stops hfirst

end

/-- Entering a function costs one unit of the budget and takes up one of the limit. -/
theorem Law.ready_enter {rest : Nat} {function : Function} {arguments : List Value}
    (hstore : machine.store.WellFormed) (hbudget : limit - machine.depth ≤ rest + 1)
    (hfunction : machine.store.Knows (.function function))
    (harguments : ∀ argument ∈ arguments, machine.store.Knows argument) :
    (Law.ready limit rest machine.store.scopes.size).holds (machine.enter function arguments) := by
  refine ⟨⟨Machine.wellFormed_enter hstore hfunction harguments, ?_⟩, ?_⟩
  · rw [machine.size_enter]
    exact Nat.lt_succ_self _
  · show limit - (machine.depth + 1) ≤ rest
    omega

/-- Every call ends: its body has a smaller budget, and without one the limit is met. -/
theorem Eval.callsRun (limit budget : Nat) : Eval.CallsRun limit budget := by
  induction budget using Nat.strongRecOn with
  | _ budget ih =>
      intro callee arguments machine hstore hbudget hcallee harguments
      cases Eval.call_cases limit budget callee arguments machine with
      | notAFunction hother hcall =>
          rw [hcall]
          exact .notAFunction hother
      | wrongCount hfunction hcount hcall =>
          subst hfunction
          rw [hcall]
          exact .wrongCount hcount
      | refused hfunction hcount hspent hcall =>
          subst hfunction
          -- A budget of nothing lasts until the limit only if the limit is met.
          have hmet : limit ≤ machine.depth := by omega
          rw [hcall]
          exact .refused hcount hmet
      | @entered function rest hfunction hcount hrest hdepth hcall =>
          subst hfunction
          have hready := Law.ready_enter hstore (hrest ▸ hbudget) hcallee harguments
          rw [hcall]
          exact .entered hcount hdepth (Block.runs_eval (ih rest (by omega)) function.body hready)

end Rules

/-! ## The rules allow nothing else -/

section Uniqueness

variable {limit : Nat}

mutual

theorem ExprRuns.eval_eq {budget : Nat} {scope : ScopeId} {e : Expr} {machine : Machine}
    {result : EStateM.Result Signal Machine Value} (hruns : ExprRuns limit scope e machine result)
    (hready : (Law.ready limit budget scope).holds machine) :
    e.eval (Eval.call limit budget) scope machine = result := by
  match hruns with
  | .name hresolves =>
      rw [Expr.eval]
      exact Eval.lookUp_of_some (hresolves.get?_eq hready.1.1)
  | .unbound hresolves =>
      rw [Expr.eval]
      exact Eval.lookUp_of_none (hresolves.get?_eq hready.1.1)
  | .int | .str | .bool =>
      rw [Expr.eval]
      rfl
  | .fn => rw [Expr.eval]
  | .unary hoperand => rw [Expr.eval, Eval.bind_of_ok (hoperand.eval_eq hready)]
  | .unaryStops hoperand => rw [Expr.eval, Eval.bind_of_error (hoperand.eval_eq hready)]
  | .binary hleft hright =>
      -- The right side starts from the machine that the left side leaves, which is ready as well.
      have hfirst := hleft.eval_eq hready
      have hmiddle := (Expr.eval_ready _ hready).holds_of_ok hfirst
      rw [Expr.eval, Eval.bind_of_ok hfirst, Eval.bind_of_ok (hright.eval_eq hmiddle)]
  | .leftStops hleft => rw [Expr.eval, Eval.bind_of_error (hleft.eval_eq hready)]
  | .rightStops hleft hright =>
      have hfirst := hleft.eval_eq hready
      have hmiddle := (Expr.eval_ready _ hready).holds_of_ok hfirst
      rw [Expr.eval, Eval.bind_of_ok hfirst, Eval.bind_of_error (hright.eval_eq hmiddle)]
  | @ExprRuns.condTrue _ _ _ _ alternative _ _ _ _ hcondition htruthy hblock =>
      have hfirst := hcondition.eval_eq hready
      have hmiddle := (Expr.eval_ready _ hready).holds_of_ok hfirst
      cases alternative with
      | none => rw [Expr.eval, Eval.bind_of_ok hfirst, if_pos htruthy, hblock.eval_eq hmiddle]
      | some block => rw [Expr.eval, Eval.bind_of_ok hfirst, if_pos htruthy, hblock.eval_eq hmiddle]
  | .condFalse hcondition htruthy hblock =>
      have hfirst := hcondition.eval_eq hready
      have hmiddle := (Expr.eval_ready _ hready).holds_of_ok hfirst
      rw [Expr.eval, Eval.bind_of_ok hfirst, if_neg (Bool.eq_false_iff.1 htruthy),
        hblock.eval_eq hmiddle]
  | .condMissing hcondition htruthy =>
      rw [Expr.eval, Eval.bind_of_ok (hcondition.eval_eq hready),
        if_neg (Bool.eq_false_iff.1 htruthy)]
      rfl
  | @ExprRuns.condStops _ _ _ _ alternative _ _ _ hcondition =>
      have hfirst := hcondition.eval_eq hready
      cases alternative with
      | none => rw [Expr.eval, Eval.bind_of_error hfirst]
      | some block => rw [Expr.eval, Eval.bind_of_error hfirst]
  | .call hcallee harguments hcall =>
      have hfunction := hcallee.eval_eq hready
      obtain ⟨hmiddle, -, hknown⟩ := (Expr.eval_ready _ hready).of_ok hfunction
      have hvalues := harguments.evalAll_eq hmiddle
      obtain ⟨hlast, hallows, hallKnown⟩ := (Expr.evalAll_ready _ hmiddle).of_ok hvalues
      -- The callee was known before the arguments were evaluated.
      have hstillKnown := (Law.ready limit budget scope).admits_of_allows hallows hknown
      rw [Expr.eval, Eval.bind_of_ok hfunction, Eval.bind_of_ok hvalues]
      exact hcall.call_eq hlast.1.1 hlast.2 hstillKnown hallKnown
  | .calleeStops hcallee => rw [Expr.eval, Eval.bind_of_error (hcallee.eval_eq hready)]
  | .argumentsStop hcallee harguments =>
      have hfunction := hcallee.eval_eq hready
      have hmiddle := (Expr.eval_ready _ hready).holds_of_ok hfunction
      rw [Expr.eval, Eval.bind_of_ok hfunction, Eval.bind_of_error (harguments.evalAll_eq hmiddle)]

theorem ArgumentsRun.evalAll_eq {budget : Nat} {scope : ScopeId} {exprs : List Expr}
    {machine : Machine} {result : EStateM.Result Signal Machine (List Value)}
    (hruns : ArgumentsRun limit scope exprs machine result)
    (hready : (Law.ready limit budget scope).holds machine) :
    Expr.evalAll (Eval.call limit budget) scope exprs machine = result := by
  match hruns with
  | .nil =>
      rw [Expr.evalAll]
      rfl
  | .cons hfirst hothers =>
      have hvalue := hfirst.eval_eq hready
      have hmiddle := (Expr.eval_ready _ hready).holds_of_ok hvalue
      rw [Expr.evalAll, Eval.bind_of_ok hvalue, Eval.bind_of_ok (hothers.evalAll_eq hmiddle)]
      rfl
  | .firstStops hfirst => rw [Expr.evalAll, Eval.bind_of_error (hfirst.eval_eq hready)]
  | .othersStop hfirst hothers =>
      have hvalue := hfirst.eval_eq hready
      have hmiddle := (Expr.eval_ready _ hready).holds_of_ok hvalue
      rw [Expr.evalAll, Eval.bind_of_ok hvalue, Eval.bind_of_error (hothers.evalAll_eq hmiddle)]

theorem StmtRuns.eval_eq {budget : Nat} {scope : ScopeId} {s : Stmt} {machine : Machine}
    {result : EStateM.Result Signal Machine Value} (hruns : StmtRuns limit scope s machine result)
    (hready : (Law.ready limit budget scope).holds machine) :
    s.eval (Eval.call limit budget) scope machine = result := by
  match hruns with
  | .bind hvalue =>
      rw [Stmt.eval, Eval.bind_of_ok (hvalue.eval_eq hready)]
      rfl
  | .bindStops hvalue => rw [Stmt.eval, Eval.bind_of_error (hvalue.eval_eq hready)]
  | .bare =>
      rw [Stmt.eval]
      rfl
  | .ret hvalue =>
      rw [Stmt.eval, Eval.bind_of_ok (hvalue.eval_eq hready)]
      rfl
  | .retStops hvalue => rw [Stmt.eval, Eval.bind_of_error (hvalue.eval_eq hready)]
  | .expr hvalue => rw [Stmt.eval, hvalue.eval_eq hready]

theorem BlockRuns.eval_eq {budget : Nat} {scope : ScopeId} {last : Value} {statements : List Stmt}
    {machine : Machine} {result : EStateM.Result Signal Machine Value}
    (hruns : BlockRuns limit scope last statements machine result)
    (hready : (Law.ready limit budget scope).holds machine) :
    Block.eval (Eval.call limit budget) scope last statements machine = result := by
  match hruns with
  | .nil =>
      rw [Block.eval]
      rfl
  | .cons hfirst hothers =>
      have hvalue := hfirst.eval_eq hready
      have hmiddle := (Stmt.eval_ready _ hready).holds_of_ok hvalue
      rw [Block.eval, Eval.bind_of_ok hvalue, hothers.eval_eq hmiddle]
  | .stops hfirst => rw [Block.eval, Eval.bind_of_error (hfirst.eval_eq hready)]

/-- Entering a function leaves it at least as much budget as there are calls up to the limit. -/
theorem CallRuns.call_eq {budget : Nat} {callee : Value} {arguments : List Value} {machine : Machine}
    {result : EStateM.Result Signal Machine Value}
    (hruns : CallRuns limit callee arguments machine result) (hstore : machine.store.WellFormed)
    (hbudget : limit - machine.depth ≤ budget) (hcallee : machine.store.Knows callee)
    (harguments : ∀ argument ∈ arguments, machine.store.Knows argument) :
    Eval.call limit budget callee arguments machine = result := by
  match hruns with
  | .notAFunction hother => exact Eval.call_of_notAFunction hother
  | .wrongCount hcount => exact Eval.call_of_wrongCount hcount
  | .refused hcount hdepth => exact Eval.call_of_refused hcount (.inl hdepth)
  | .entered hcount hdepth hbody =>
      cases budget with
      | zero => omega
      | succ rest =>
          have hready := Law.ready_enter hstore hbudget hcallee harguments
          rw [Eval.call_of_entered hcount hdepth, hbody.eval_eq hready]

end

theorem Fragment.runs_eval {budget : Nat} {scope : ScopeId} (fragment : Fragment) {machine : Machine}
    (hready : (Law.ready limit budget scope).holds machine) :
    fragment.Runs limit scope machine (fragment.eval (Eval.call limit budget) scope machine) := by
  have hcalls := Eval.callsRun limit budget
  cases fragment with
  | block statements => exact Block.runs_eval hcalls statements hready
  | statement stmt => exact Stmt.runs_eval hcalls stmt hready
  | expression expr => exact Expr.runs_eval hcalls expr hready

theorem Fragment.Runs.eval_eq {budget : Nat} {scope : ScopeId} {fragment : Fragment}
    {machine : Machine} {result : EStateM.Result Signal Machine Value}
    (hruns : fragment.Runs limit scope machine result)
    (hready : (Law.ready limit budget scope).holds machine) :
    fragment.eval (Eval.call limit budget) scope machine = result := by
  cases fragment with
  | block statements => exact BlockRuns.eval_eq hruns hready
  | statement stmt => exact StmtRuns.eval_eq hruns hready
  | expression expr => exact ExprRuns.eval_eq hruns hready

end Uniqueness

/-! ## Termination -/

/-- The evaluation of a fragment ends in a result and in no other, and every budget that lasts until the
limit on open calls gives that result. -/
structure Fragment.EndsIn (limit : Nat) (scope : ScopeId) (fragment : Fragment) (machine : Machine)
    (result : EStateM.Result Signal Machine Value) : Prop where
  runs : fragment.Runs limit scope machine result
  unique : ∀ {other}, fragment.Runs limit scope machine other → other = result
  eval_eq : ∀ {budget : Nat}, limit - machine.depth ≤ budget →
    fragment.eval (Eval.call limit budget) scope machine = result

theorem Fragment.endsIn_eval (limit : Nat) {scope : ScopeId} (fragment : Fragment) {machine : Machine}
    (hstore : machine.store.WellFormed) (hscope : scope < machine.store.scopes.size) :
    fragment.EndsIn limit scope machine
      (fragment.eval (Eval.call limit (limit - machine.depth)) scope machine) := by
  have hready : (Law.ready limit (limit - machine.depth) scope).holds machine :=
    ⟨⟨hstore, hscope⟩, Nat.le_refl _⟩
  have hruns := fragment.runs_eval hready
  refine ⟨hruns, ?_, ?_⟩
  · intro other hother
    exact (hother.eval_eq hready).symm
  · intro budget hbudget
    exact hruns.eval_eq ⟨⟨hstore, hscope⟩, hbudget⟩

/-- In a well-formed store, and so in every state of a session, the evaluation of a fragment ends: there
is one result that the rules allow, and it is the one that a run gives.  More budget changes nothing. -/
theorem Fragment.evaluation_terminates (fragment : Fragment) (scope : ScopeId) :
    (∀ (evaluator : Evaluator) (store : Store), store.WellFormed → scope < store.scopes.size →
      ∃ result, fragment.EndsIn evaluator.limit scope ⟨store, evaluator.depth⟩ result ∧
        evaluator.run store scope fragment = ((Flow.ofResult result).1,
          { evaluator with depth := (Flow.ofResult result).2.depth },
          (Flow.ofResult result).2.store)) ∧
    ∀ session : Session, session.Reachable → scope < session.store.scopes.size →
      ∃ result, fragment.EndsIn session.evaluator.limit scope
          ⟨session.store, session.evaluator.depth⟩ result ∧
        (session.evaluate scope fragment).1 = (Flow.ofResult result).1 ∧
        (session.evaluate scope fragment).2.store = (Flow.ofResult result).2.store := by
  refine ⟨?_, ?_⟩
  · intro evaluator store hstore hscope
    exact ⟨_, fragment.endsIn_eval evaluator.limit hstore hscope, rfl⟩
  · intro session hreachable hscope
    exact ⟨_, fragment.endsIn_eval session.evaluator.limit hreachable.wellFormed hscope, rfl, rfl⟩

/-- Two functions that call each other, bound by the first evaluation of a session. -/
theorem Fragment.mutual_recursion_terminates :
    ∃ (session : Session) (result : EStateM.Result Signal Machine Value), session.Reachable ∧
      session.store.WellFormed ∧
      session.store.get? 0 "f" = some (.function ⟨0, [], [.expr (.call (.name "g") [])], 0⟩) ∧
      session.store.get? 0 "g" = some (.function ⟨1, [], [.expr (.call (.name "f") [])], 0⟩) ∧
      Fragment.EndsIn 5 0 (.expression (.call (.name "f") [])) ⟨session.store, 0⟩ result ∧
      (Flow.ofResult result).1 = .error (.callDepthExceeded 5) := by
  let program : Fragment := .block
    [.bind "f" (.fn [] [.expr (.call (.name "g") [])]),
      .bind "g" (.fn [] [.expr (.call (.name "f") [])])]
  let session := (Session.start.evaluate 0 program).2
  have hreachable : session.Reachable := .step .start (.evaluate (by decide))
  have hscope : 0 < session.store.scopes.size := by decide +kernel
  obtain ⟨result, hends, hrun⟩ :=
    (Fragment.evaluation_terminates (.expression (.call (.name "f") [])) 0).1 ⟨5, 0⟩ session.store
      hreachable.wellFormed hscope
  refine ⟨session, result, hreachable, hreachable.wellFormed, by decide +kernel, by decide +kernel,
    hends, ?_⟩
  rw [← congrArg Prod.fst hrun]
  decide +kernel

end LetScript
