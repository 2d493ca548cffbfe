import LetScript.Json.Record
import LetScript.Tree.Basic

/-!
# Trees in JSON

* `Expr.toJson`, `Stmt.toJson`, `Block.toJson`, `Program.toJson` — the JSON value of a tree: each case
  is an object whose only field names the case;
* `Expr.ofJson?`, `Stmt.ofJson?`, `Block.ofJson?`, `Program.ofJson?` — the tree that a JSON value
  gives, `none` if it gives none.

In reading, a record may be an array of its fields, and the value of a return statement and the second
block of a conditional may be missing.  What is read may be nested no deeper than `Json.nestingLimit`:
each reader is given the levels of nesting that are left, spends one on each array or object that it
opens, and so recurs along them.
-/

namespace LetScript

/-- A case of a sum with what belongs to it. -/
def Json.tagged (tag : String) (content : Json) : Json := .obj [(tag, content)]

/-- The record of a name. -/
def Json.ofName (name : String) : Json := .obj [("name", .str name)]

/-- The record of a block, given the values of its statements. -/
def Json.ofBlock (statements : List Json) : Json := .obj [("statements", .arr statements)]

mutual

/-- The JSON value of an expression. -/
def Expr.toJson : Expr → Json
  | .name ident => .tagged "Identifier" (.ofName ident)
  | .int value => .tagged "IntegerLiteral" (.int value.toInt)
  | .str value => .tagged "StringLiteral" (.str value)
  | .bool value => .tagged "Boolean" (.bool value)
  | .unary op operand =>
      .tagged "Prefix" (.obj [("operator", .str op.name), ("right", operand.toJson)])
  | .binary op left right =>
      .tagged "Infix"
        (.obj [("operator", .str op.name), ("left", left.toJson), ("right", right.toJson)])
  | .cond condition consequence none =>
      .tagged "If"
        (.obj [("condition", condition.toJson),
          ("consequence", .ofBlock (Block.listToJson consequence)), ("alternative", .null)])
  | .cond condition consequence (some alternative) =>
      .tagged "If"
        (.obj [("condition", condition.toJson),
          ("consequence", .ofBlock (Block.listToJson consequence)),
          ("alternative", .ofBlock (Block.listToJson alternative))])
  | .fn parameters body =>
      .tagged "FunctionLiteral"
        (.obj [("parameters", .arr (parameters.map .ofName)),
          ("body", .ofBlock (Block.listToJson body))])
  | .call callee arguments =>
      .tagged "Call"
        (.obj [("function", callee.toJson), ("arguments", .arr (Expr.listToJson arguments))])

/-- The JSON value of a statement. -/
def Stmt.toJson : Stmt → Json
  | .bind name value =>
      .tagged "Let" (.obj [("name", .ofName name), ("value", value.toJson)])
  | .ret none => .tagged "Return" (.obj [("value", .null)])
  | .ret (some value) => .tagged "Return" (.obj [("value", value.toJson)])
  | .expr value => .tagged "Expression" value.toJson

/-- The JSON values of statements. -/
def Block.listToJson : List Stmt → List Json
  | [] => []
  | statement :: statements => statement.toJson :: Block.listToJson statements

/-- The JSON values of expressions. -/
def Expr.listToJson : List Expr → List Json
  | [] => []
  | expr :: exprs => expr.toJson :: Expr.listToJson exprs

end

/-- The JSON value of a block. -/
def Block.toJson (statements : Block) : Json :=
  .ofBlock (Block.listToJson statements)

/-- The JSON value of a program. -/
def Program.toJson (program : Program) : Json := Block.toJson program.statements

namespace Json

/-- The name that a record holds. -/
def toName? (levels : Nat) (value : Json) : Option String :=
  match levels, value.record? ["name"] with
  | _ + 1, some [some (.str name)] => some name
  | _, _ => none

/-- The 64-bit integer that a value is. -/
def toInt64? : Json → Option Int64
  | .int value =>
      if -0x8000000000000000 ≤ value ∧ value < 0x8000000000000000 then some (Int64.ofInt value)
      else none
  | _ => none

end Json

mutual

/-- The expression that a JSON value gives. -/
def Expr.ofJson? (levels : Nat) (value : Json) : Option Expr :=
  match levels, value.variant? with
  | levels + 1, some ("Identifier", content) => (content.toName? levels).map .name
  | _ + 1, some ("IntegerLiteral", content) => content.toInt64?.map .int
  | _ + 1, some ("StringLiteral", .str text) => some (.str text)
  | _ + 1, some ("Boolean", .bool truth) => some (.bool truth)
  | levels + 2, some ("Prefix", content) =>
      match content.record? ["operator", "right"] with
      | some [some op, some operand] => do
          return .unary (← (op.case? levels).bind PrefixOp.ofName?)
            (← Expr.ofJson? levels operand)
      | _ => none
  | levels + 2, some ("Infix", content) =>
      match content.record? ["operator", "left", "right"] with
      | some [some op, some left, some right] => do
          return .binary (← (op.case? levels).bind InfixOp.ofName?)
            (← Expr.ofJson? levels left) (← Expr.ofJson? levels right)
      | _ => none
  | levels + 2, some ("If", content) =>
      match content.record? ["condition", "consequence", "alternative"] with
      | some [some condition, some consequence, none]
      | some [some condition, some consequence, some .null] => do
          return .cond (← Expr.ofJson? levels condition) (← Block.ofJson? levels consequence) none
      | some [some condition, some consequence, some alternative] => do
          return .cond (← Expr.ofJson? levels condition) (← Block.ofJson? levels consequence)
            (some (← Block.ofJson? levels alternative))
      | _ => none
  | levels + 3, some ("FunctionLiteral", content) =>
      match content.record? ["parameters", "body"] with
      | some [some (.arr parameters), some body] => do
          return .fn (← parameters.mapM (Json.toName? levels)) (← Block.ofJson? (levels + 1) body)
      | _ => none
  | levels + 3, some ("Call", content) =>
      match content.record? ["function", "arguments"] with
      | some [some callee, some (.arr arguments)] => do
          return .call (← Expr.ofJson? (levels + 1) callee)
            (← arguments.mapM (Expr.ofJson? levels))
      | _ => none
  | _, _ => none
termination_by structural levels

/-- The statement that a JSON value gives. -/
def Stmt.ofJson? (levels : Nat) (value : Json) : Option Stmt :=
  match levels, value.variant? with
  | levels + 2, some ("Let", content) =>
      match content.record? ["name", "value"] with
      | some [some name, some bound] => do
          return .bind (← name.toName? levels) (← Expr.ofJson? levels bound)
      | _ => none
  | levels + 2, some ("Return", content) =>
      match content.record? ["value"] with
      | some [none] | some [some .null] => some (.ret none)
      | some [some result] => do return .ret (some (← Expr.ofJson? levels result))
      | _ => none
  | levels + 1, some ("Expression", content) => (Expr.ofJson? levels content).map .expr
  | _, _ => none
termination_by structural levels

/-- The block that a JSON value gives. -/
def Block.ofJson? (levels : Nat) (value : Json) : Option Block :=
  match levels, value.record? ["statements"] with
  | levels + 2, some [some (.arr statements)] => statements.mapM (Stmt.ofJson? levels)
  | _, _ => none
termination_by structural levels

end

/-- The program that a JSON value gives. -/
def Program.ofJson? (value : Json) : Option Program :=
  (Block.ofJson? Json.nestingLimit value).map Program.mk

end LetScript
