import LetScript.Evaluation.Value

/-!
# Operators on values

* `Value.applyPrefix` — the prefix operators;
* `Value.applyInt`, `Value.applyInfix` — the infix operators: arithmetic wraps around in 64 bits and division rounds
  toward zero; texts can be joined; comparison for equality takes two values of one type.
-/

namespace LetScript.Value

/-- The value of a prefix operation. -/
def applyPrefix : PrefixOp → Value → Except RuntimeError Value
  | .bang, operand => .ok (bool !operand.isTruthy)
  | .minus, int value => .ok (int (-value))
  | .minus, operand => .error (.unknownPrefix .minus operand.type)

/-- The value of an operation on two integers. -/
def applyInt : InfixOp → Int64 → Int64 → Except RuntimeError Value
  | .plus, left, right => .ok (int (left + right))
  | .minus, left, right => .ok (int (left - right))
  | .asterisk, left, right => .ok (int (left * right))
  | .slash, left, right =>
      if right = 0 then .error .divisionByZero else .ok (int (left / right))
  | .lt, left, right => .ok (bool (decide (left < right)))
  | .gt, left, right => .ok (bool (decide (right < left)))
  | .eq, left, right => .ok (bool (left == right))
  | .notEq, left, right => .ok (bool (left != right))

/-- The value of an infix operation. -/
def applyInfix (op : InfixOp) (left right : Value) : Except RuntimeError Value :=
  match op, left, right with
  | op, int left, int right => applyInt op left right
  | .eq, bool left, bool right => .ok (bool (left == right))
  | .notEq, bool left, bool right => .ok (bool (left != right))
  | .plus, str left, str right => .ok (str (left ++ right))
  | .eq, str left, str right => .ok (bool (left == right))
  | .notEq, str left, str right => .ok (bool (left != right))
  | op, left, right =>
      if left.type = right.type then .error (.unknownInfix left.type op right.type)
      else .error (.typeMismatch left.type op right.type)

end LetScript.Value
