import LetScript.Tree.Equality
import LetScript.Tree.Text

/-!
# Values

* `ValueType` — the types of values, and `ValueType.name`, their names in messages;
* `RuntimeError` — the ways in which an evaluation fails; `RuntimeError.message` is its text;
* `Function` — a function value: an identity, parameters, a body and the scope around its literal;
  `Function.text` is its text;
* `Value` — a value, with its `type`, its truth (`Value.isTruthy`) and its text (`Value.text`);
* `Value.same` — equality of values, which for functions is that of their identities.
-/

namespace LetScript

/-- The type of a value. -/
inductive ValueType where
  | integer
  | boolean
  | string
  | function
  | null
  | error
  deriving DecidableEq, Repr

/-- The name of a type. -/
def ValueType.name : ValueType → String
  | integer => "INTEGER"
  | boolean => "BOOLEAN"
  | string => "STRING"
  | function => "FUNCTION"
  | null => "NULL"
  | error => "ERROR"

/-- A way in which an evaluation fails. -/
inductive RuntimeError where
  | unboundName (name : String)
  /-- The operands are of different types, and the operator takes no such pair. -/
  | typeMismatch (left : ValueType) (op : InfixOp) (right : ValueType)
  | unknownPrefix (op : PrefixOp) (operand : ValueType)
  /-- The operands are of one type, and the operator does not take it. -/
  | unknownInfix (left : ValueType) (op : InfixOp) (right : ValueType)
  | notAFunction (type : ValueType)
  | wrongArgumentCount (want got : Nat)
  | divisionByZero
  | callDepthExceeded (limit : Nat)
  deriving DecidableEq, Repr

namespace RuntimeError

/-- The text of an error. -/
def message : RuntimeError → String
  | unboundName ident => "identifier not found: " ++ ident
  | typeMismatch left op right =>
      "type mismatch: " ++ left.name ++ " " ++ op.symbol ++ " " ++ right.name
  | unknownPrefix op operand => "unknown operator: " ++ op.symbol ++ operand.name
  | unknownInfix left op right =>
      "unknown operator: " ++ left.name ++ " " ++ op.symbol ++ " " ++ right.name
  | notAFunction type => "not a function: " ++ type.name
  | wrongArgumentCount want got =>
      "wrong number of arguments: want=" ++ toString want ++ ", got=" ++ toString got
  | divisionByZero => "division by zero"
  | callDepthExceeded limit => "maximum call depth exceeded: " ++ toString limit

/-- The name of an error's case. -/
def name : RuntimeError → String
  | unboundName _ => "IdentifierNotFound"
  | typeMismatch .. => "TypeMismatch"
  | unknownPrefix .. => "UnknownPrefixOperator"
  | unknownInfix .. => "UnknownInfixOperator"
  | notAFunction _ => "NotAFunction"
  | wrongArgumentCount .. => "WrongArgumentCount"
  | divisionByZero => "DivisionByZero"
  | callDepthExceeded _ => "CallDepthExceeded"

end RuntimeError

/-- A scope, by its number in the order in which scopes are made. -/
abbrev ScopeId := Nat

/-- A function value.  Each evaluation of a function literal gives a new identity. -/
structure Function where
  id : Nat
  parameters : List String
  body : Block
  /-- The scope in which the literal was evaluated. -/
  scope : ScopeId
  deriving DecidableEq

/-- The literal that a function comes from. -/
def Function.literal (function : Function) : Expr :=
  .fn function.parameters function.body

/-- The text of a function: its parameters, a comma before each but the first, and its body. -/
def Function.text (function : Function) : String :=
  let parameters := function.parameters.mapIdx fun place name => if 0 < place then ", " ++ name else name
  "fn(" ++ String.join parameters ++ ") " ++ Block.text function.body

/-- A value of the language.  An error is a value only where a host has bound it to a name. -/
inductive Value where
  | int (value : Int64)
  | bool (value : Bool)
  | str (value : String)
  | function (function : Function)
  | null
  | error (error : RuntimeError)
  deriving DecidableEq

namespace Value

/-- The type of a value. -/
def type : Value → ValueType
  | int _ => .integer
  | bool _ => .boolean
  | str _ => .string
  | function _ => .function
  | null => .null
  | error _ => .error

/-- Only `false` and null do not count as true. -/
def isTruthy : Value → Bool
  | bool value => value
  | null => false
  | _ => true

/-- Whether a value is an error. -/
def isError : Value → Bool
  | error _ => true
  | _ => false

/-- The text of a value. -/
def text : Value → String
  | int value => Text.decimal value
  | bool value => Text.truthWord value
  | str value => value
  | function f => f.text
  | null => "null"
  | error e => "ERROR: " ++ e.message

/-- Equality of values: by content, for functions by identity. -/
def same : Value → Value → Bool
  | function f, function g => f.id == g.id
  | a, b => a == b

end Value

end LetScript
