import LetScript.Proofs.Evaluation.Sequences

/-!
# Arithmetic

The integers of the language are those of 64 bits, and each operation on them wraps around.

* `Flow.ofAnswer`, `Evaluator.run_unary`, `Evaluator.run_binary` — an operation, given the runs of its operands.
* `Formula` — trees of literals, signs, sums, differences and products: `Formula.expr` is the expression,
  `Formula.exact` the number that it stands for, and `Formula.wrapped` what is left of that if every step wraps.
* `Formula.wrapped_eq_ofInt` — it is enough to wrap once, at the end; `Formula.run_expr` says that a run gives this.
* `Value.toInt_quotient`, `Value.applyInt_cases` — quotients, and the ends of all operations.
* `Evaluator.integers_wrap_around` — the arithmetic of runs.
-/

namespace LetScript

/-! ## Operations -/

/-- How a run ends that comes to the answer of an operation. -/
def Flow.ofAnswer : Except RuntimeError Value → Flow
  | .ok v => .value v
  | .error e => .error e

namespace Evaluator

variable {evaluator : Evaluator} {scope : ScopeId} {store middle after : Store}

theorem ofResult_ofExcept (answer : Except RuntimeError Value) (machine : Machine) :
    Flow.ofResult (Eval.ofExcept answer machine) = (.ofAnswer answer, machine) := by
  cases answer <;> rfl

theorem run_unary {operand : Expr} {value : Value} (op : PrefixOp)
    (hoperand : evaluator.run store scope (.expression operand) = (.value value, evaluator, after)) :
    evaluator.run store scope (.expression (.unary op operand)) =
      (.ofAnswer (value.applyPrefix op), evaluator, after) := by
  have hvalue : operand.eval evaluator.apply scope _ = .ok value _ := run_eq_value_iff.1 hoperand
  refine run_eq_iff.2 ?_
  rw [Fragment.eval, Expr.eval, Eval.bind_of_ok hvalue]
  exact ofResult_ofExcept _ _

theorem run_binary {left right : Expr} {a b : Value} (op : InfixOp)
    (hleft : evaluator.run store scope (.expression left) = (.value a, evaluator, middle))
    (hright : evaluator.run middle scope (.expression right) = (.value b, evaluator, after)) :
    evaluator.run store scope (.expression (.binary op left right)) =
      (.ofAnswer (a.applyInfix op b), evaluator, after) := by
  have hfirst : left.eval evaluator.apply scope _ = .ok a _ := run_eq_value_iff.1 hleft
  have hsecond : right.eval evaluator.apply scope _ = .ok b _ := run_eq_value_iff.1 hright
  refine run_eq_iff.2 ?_
  rw [Fragment.eval, Expr.eval, Eval.bind_of_ok hfirst, Eval.bind_of_ok hsecond]
  exact ofResult_ofExcept _ _

end Evaluator

/-! ## Formulas -/

/-- A formula of literals, signs, sums, differences and products. -/
inductive Formula where
  | literal (value : Int64)
  | negation (operand : Formula)
  | sum (left right : Formula)
  | difference (left right : Formula)
  | product (left right : Formula)

namespace Formula

/-- The formula as an expression of the language. -/
def expr : Formula → Expr
  | literal value => .int value
  | negation operand => .unary .minus operand.expr
  | sum left right => .binary .plus left.expr right.expr
  | difference left right => .binary .minus left.expr right.expr
  | product left right => .binary .asterisk left.expr right.expr

/-- The number that the formula stands for, however large. -/
def exact : Formula → Int
  | literal value => value.toInt
  | negation operand => -operand.exact
  | sum left right => left.exact + right.exact
  | difference left right => left.exact - right.exact
  | product left right => left.exact * right.exact

/-- The integer that is left of it if every step wraps around. -/
def wrapped : Formula → Int64
  | literal value => value
  | negation operand => -operand.wrapped
  | sum left right => left.wrapped + right.wrapped
  | difference left right => left.wrapped - right.wrapped
  | product left right => left.wrapped * right.wrapped

theorem wrapped_eq_ofInt (formula : Formula) : formula.wrapped = Int64.ofInt formula.exact := by
  induction formula with
  | literal value => exact (Int64.ofInt_toInt value).symm
  | negation operand ih => rw [wrapped, exact, ih, Int64.ofInt_neg]
  | sum left right ihl ihr => rw [wrapped, exact, ihl, ihr, Int64.ofInt_add]
  | difference left right ihl ihr => rw [wrapped, exact, ihl, ihr, Int64.ofInt_sub]
  | product left right ihl ihr => rw [wrapped, exact, ihl, ihr, Int64.ofInt_mul]

theorem toInt_wrapped (formula : Formula) : formula.wrapped.toInt = formula.exact.bmod Int64.size := by
  rw [wrapped_eq_ofInt]
  exact Int64.toInt_ofInt

/-- A run of a formula ends in its value, and leaves the store as it is. -/
theorem run_expr (evaluator : Evaluator) (store : Store) (scope : ScopeId) (formula : Formula) :
    evaluator.run store scope (.expression formula.expr) = (.value (.int formula.wrapped), evaluator, store) := by
  induction formula with
  | literal value => exact Evaluator.run_eq_value_iff.2 rfl
  | negation operand ih => exact Evaluator.run_unary .minus ih
  | sum left right ihl ihr => exact Evaluator.run_binary .plus ihl ihr
  | difference left right ihl ihr => exact Evaluator.run_binary .minus ihl ihr
  | product left right ihl ihr => exact Evaluator.run_binary .asterisk ihl ihr

end Formula

/-! ## Quotients -/

namespace Value

/-- The quotient is that of the numbers, rounded toward zero.  Only one quotient of integers is none: it wraps. -/
theorem toInt_quotient (l r : Int64) :
    (l / r).toInt =
      if l = Int64.minValue ∧ r = -1 then Int64.minValue.toInt else l.toInt.tdiv r.toInt := by
  by_cases hl : l = Int64.minValue
  · by_cases hr : r = -1
    · rw [if_pos ⟨hl, hr⟩, hl, hr, Int64.minValue_div_neg_one]
    · rw [if_neg fun hboth => hr hboth.2, Int64.toInt_div_of_ne_right l r hr]
  · rw [if_neg fun hboth => hl hboth.1, Int64.toInt_div_of_ne_left l r hl]

/-- An operation on integers gives an integer or a truth value, except for a division by zero. -/
theorem applyInt_cases (op : InfixOp) (l r : Int64) :
    op = .slash ∧ r = 0 ∧ applyInt op l r = .error .divisionByZero ∨
      ¬ (op = .slash ∧ r = 0) ∧
        ((∃ q : Int64, applyInt op l r = .ok (int q)) ∨ ∃ b : Bool, applyInt op l r = .ok (bool b)) := by
  cases op with
  | slash =>
      by_cases hr : r = 0
      · exact .inl ⟨rfl, hr, if_pos hr⟩
      · exact .inr ⟨fun hboth => hr hboth.2, .inl ⟨l / r, if_neg hr⟩⟩
  | plus | minus | asterisk => exact .inr ⟨nofun, .inl ⟨_, rfl⟩⟩
  | lt | gt | eq | notEq => exact .inr ⟨nofun, .inr ⟨_, rfl⟩⟩

end Value

/-- Formulas of integers end in the number that they stand for, brought into the range of 64 bits; whether every
step is brought there or only the last makes no difference, and nothing is bound.  Two operands that end in
integers make an operation that ends in an integer or a truth value.  Only a division by zero fails; any other
division gives the quotient rounded toward zero, but for the one quotient that is out of range. -/
theorem Evaluator.integers_wrap_around :
    (∀ (evaluator : Evaluator) (store : Store) (scope : ScopeId) (formula : Formula),
      evaluator.run store scope (.expression formula.expr) = (.value (.int formula.wrapped), evaluator, store) ∧
        formula.wrapped = Int64.ofInt formula.exact ∧
        formula.wrapped.toInt = formula.exact.bmod Int64.size) ∧
    ∀ (evaluator : Evaluator) (scope : ScopeId) (store middle after : Store) (left right : Expr) (l r : Int64),
      evaluator.run store scope (.expression left) = (.value (.int l), evaluator, middle) →
      evaluator.run middle scope (.expression right) = (.value (.int r), evaluator, after) →
        ∀ op : InfixOp, ∃ flow,
          evaluator.run store scope (.expression (.binary op left right)) = (flow, evaluator, after) ∧
          (flow = .error .divisionByZero ↔ op = .slash ∧ r = 0) ∧
          (¬ (op = .slash ∧ r = 0) →
            (∃ q : Int64, flow = .value (.int q)) ∨ ∃ b : Bool, flow = .value (.bool b)) ∧
          (op = .slash → r ≠ 0 → ∃ q : Int64, flow = .value (.int q) ∧
            q.toInt = if l = Int64.minValue ∧ r = -1 then Int64.minValue.toInt else l.toInt.tdiv r.toInt) := by
  refine ⟨?formulas, ?operations⟩
  case formulas =>
    intro evaluator store scope formula
    exact ⟨formula.run_expr evaluator store scope, formula.wrapped_eq_ofInt, formula.toInt_wrapped⟩
  case operations =>
    intro evaluator scope store middle after left right l r hleft hright op
    have happly : (Value.int l).applyInfix op (.int r) = Value.applyInt op l r := by
      rw [Value.applyInfix]
    have hrun := run_binary op hleft hright
    rw [happly] at hrun
    rcases Value.applyInt_cases op l r with ⟨rfl, hr, hanswer⟩ | ⟨hother, hends⟩
    · rw [hanswer] at hrun
      refine ⟨_, hrun, ?_, fun hnot => absurd ⟨rfl, hr⟩ hnot, fun _ hne => absurd hr hne⟩
      simp [Flow.ofAnswer, hr]
    · refine ⟨_, hrun, ?fails, fun _ => ?ends, ?quotient⟩
      case fails =>
        rcases hends with ⟨q, hanswer⟩ | ⟨b, hanswer⟩
        · simp [hanswer, Flow.ofAnswer, hother]
        · simp [hanswer, Flow.ofAnswer, hother]
      case ends =>
        rcases hends with ⟨q, hanswer⟩ | ⟨b, hanswer⟩
        · exact .inl ⟨q, by rw [hanswer, Flow.ofAnswer]⟩
        · exact .inr ⟨b, by rw [hanswer, Flow.ofAnswer]⟩
      case quotient =>
        rintro rfl hr
        exact ⟨l / r, by rw [Value.applyInt, if_neg hr, Flow.ofAnswer], Value.toInt_quotient l r⟩

/-- Behind an operand that binds a name, the least integer is divided by one less than zero. -/
theorem Evaluator.least_quotient_wraps :
    let store := (({} : Store).enclose none).2
    let middle := store.bind 0 "k" (.int Int64.minValue)
    let left : Expr := .cond (.bool true) [.bind "k" (.int Int64.minValue), .expr (.name "k")] none
    let right : Expr := .unary .minus (.int 1)
    let formula : Formula := .product (.literal Int64.maxValue) (.negation (.literal 2))
    Evaluator.run {} store 0 (.expression left) = (.value (.int Int64.minValue), {}, middle) ∧
      Evaluator.run {} middle 0 (.expression right) = (.value (.int (-1)), {}, middle) ∧
      Evaluator.run {} store 0 (.expression (.binary .slash left right)) =
        (.value (.int Int64.minValue), {}, middle) ∧
      Evaluator.run {} store 0 (.expression formula.expr) = (.value (.int 2), {}, store) := by
  intro store middle left right formula
  have hleft : Evaluator.run {} store 0 (.expression left) = (.value (.int Int64.minValue), {}, middle) := by
    decide +kernel
  have hright : Evaluator.run {} middle 0 (.expression right) = (.value (.int (-1)), {}, middle) := by
    decide +kernel
  obtain ⟨hformulas, hoperations⟩ := integers_wrap_around
  obtain ⟨flow, hrun, -, -, hquotient⟩ :=
    hoperations {} 0 store middle middle left right Int64.minValue (-1) hleft hright .slash
  obtain ⟨q, rfl, hq⟩ := hquotient rfl (by decide)
  rw [if_pos ⟨rfl, rfl⟩, Int64.toInt_inj] at hq
  subst hq
  obtain ⟨hformula, hwrapped, -⟩ := hformulas {} store 0 formula
  have hvalue : formula.wrapped = 2 := hwrapped.trans (by decide +kernel)
  rw [hvalue] at hformula
  exact ⟨hleft, hright, hrun, hformula⟩

end LetScript
