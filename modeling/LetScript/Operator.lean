import LetScript.Token.Kind

/-!
# Operators

* `PrefixOp`, `InfixOp` — the operators with one and with two operands, each with its `symbol` in a
  script and its `name` in JSON;
* `PrefixOp.ofKind?`, `InfixOp.ofKind?` — the operator that a kind of token stands for;
* `Kind.power` — how strongly a token binds the operand before it;
* `Kind.prefixPower` — how strongly a prefix operator binds the operand behind it.
-/

namespace LetScript

/-- An operator that stands before its only operand. -/
inductive PrefixOp where
  | bang
  | minus
  deriving DecidableEq, Repr, Inhabited

/-- An operator that stands between its operands. -/
inductive InfixOp where
  | plus
  | minus
  | asterisk
  | slash
  | lt
  | gt
  | eq
  | notEq
  deriving DecidableEq, Repr, Inhabited

namespace PrefixOp

/-- Every prefix operator, once. -/
def all : List PrefixOp := [bang, minus]

/-- The kind of token that writes an operator. -/
def kind : PrefixOp → Kind
  | bang => .bang
  | minus => .minus

/-- The prefix operator that a kind of token writes. -/
def ofKind? : Kind → Option PrefixOp
  | .bang => some bang
  | .minus => some minus
  | _ => none

/-- The text of an operator in a script. -/
def symbol (op : PrefixOp) : String := op.kind.label

/-- The spelling of an operator in JSON. -/
def name (op : PrefixOp) : String := op.kind.name

/-- The operator with a given JSON name. -/
def ofName? (name : String) : Option PrefixOp :=
  all.find? (·.name == name)

theorem ofName?_name (op : PrefixOp) : ofName? op.name = some op := by
  cases op <;> decide

end PrefixOp

namespace InfixOp

/-- Every infix operator, once. -/
def all : List InfixOp := [plus, minus, asterisk, slash, lt, gt, eq, notEq]

/-- The kind of token that writes an operator. -/
def kind : InfixOp → Kind
  | plus => .plus
  | minus => .minus
  | asterisk => .asterisk
  | slash => .slash
  | lt => .lt
  | gt => .gt
  | eq => .eq
  | notEq => .notEq

/-- The infix operator that a kind of token writes. -/
def ofKind? : Kind → Option InfixOp
  | .plus => some plus
  | .minus => some minus
  | .asterisk => some asterisk
  | .slash => some slash
  | .lt => some lt
  | .gt => some gt
  | .eq => some eq
  | .notEq => some notEq
  | _ => none

/-- The text of an operator in a script. -/
def symbol (op : InfixOp) : String := op.kind.label

/-- The spelling of an operator in JSON. -/
def name (op : InfixOp) : String := op.kind.name

/-- The operator with a given JSON name. -/
def ofName? (name : String) : Option InfixOp :=
  all.find? (·.name == name)

/-- How strongly an operator binds: comparison less than sum, sum less than product. -/
def power : InfixOp → Nat
  | eq | notEq => 1
  | lt | gt => 2
  | plus | minus => 3
  | asterisk | slash => 4

theorem ofKind?_eq_some_iff {kind : Kind} {op : InfixOp} :
    ofKind? kind = some op ↔ kind = op.kind := by
  cases kind <;> cases op <;> decide

theorem ofName?_name (op : InfixOp) : ofName? op.name = some op := by
  cases op <;> decide

end InfixOp

namespace Kind

/-- How strongly a prefix operator binds: more than an infix operator, less than a call. -/
def prefixPower : Nat := 5

/-- How strongly the parenthesis of a call binds what is called. -/
def callPower : Nat := 6

/-- How strongly a token binds the operand before it; zero for a token that goes on with no
expression. -/
def power (kind : Kind) : Nat :=
  match InfixOp.ofKind? kind with
  | some op => op.power
  | none => if kind = .lParen then callPower else 0

end Kind

end LetScript
