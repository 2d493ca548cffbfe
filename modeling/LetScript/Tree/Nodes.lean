import LetScript.Tree.Text

/-!
# The nodes of a tree

* `Node` — a node of any sort, with its `tag`, its `label` and its `text`;
* `Program.nodes` — every node of a program, each before the nodes below it, from left to right.
-/

namespace LetScript

/-- The label of an expression: the token that heads it. -/
def Expr.label : Expr → String
  | .name ident => ident
  | .int value => Text.decimal value
  | .str value => value
  | .bool value => Text.truthWord value
  | .unary op _ => op.symbol
  | .binary op _ _ => op.symbol
  | .cond .. => "if"
  | .fn .. => "fn"
  | .call .. => "("

/-- The label of a statement. -/
def Stmt.label : Stmt → String
  | .bind .. => "let"
  | .ret _ => "return"
  | .expr value => value.label

/-- The label of a program is that of its first statement, empty if it has none. -/
def Program.label (program : Program) : String :=
  (program.statements.head?.map Stmt.label).getD ""

/-- A node of a tree; a name that a statement or a function binds is a node of its own. -/
inductive Node where
  | program (program : Program)
  | stmt (statement : Stmt)
  | expr (expr : Expr)
  | block (block : Block)
  | binder (name : String)

namespace Node

/-- The sort of a node. -/
def tag : Node → String
  | program _ => "Program"
  | stmt (.bind ..) => "Let"
  | stmt (.ret _) => "Return"
  | stmt (.expr _) => "ExpressionStatement"
  | expr (.name _) => "Identifier"
  | expr (.int _) => "IntegerLiteral"
  | expr (.str _) => "StringLiteral"
  | expr (.bool _) => "Boolean"
  | expr (.unary ..) => "Prefix"
  | expr (.binary ..) => "Infix"
  | expr (.cond ..) => "If"
  | expr (.fn ..) => "FunctionLiteral"
  | expr (.call ..) => "Call"
  | block _ => "BlockStatement"
  | binder _ => "Name"

/-- The token that heads a node. -/
def label : Node → String
  | program tree => tree.label
  | stmt statement => statement.label
  | expr tree => tree.label
  | block _ => "\x7b"
  | binder ident => ident

/-- The canonical text of a node. -/
def text : Node → String
  | program tree => tree.text
  | stmt statement => statement.text
  | expr tree => tree.text
  | block statements => Block.text statements
  | binder ident => ident

end Node

mutual

/-- An expression and the nodes below it. -/
def Expr.nodes : Expr → List Node
  | .unary op operand => .expr (.unary op operand) :: operand.nodes
  | .binary op left right => .expr (.binary op left right) :: (left.nodes ++ right.nodes)
  | .cond condition consequence none =>
      .expr (.cond condition consequence none) ::
        (condition.nodes ++ .block consequence :: Block.nodes consequence)
  | .cond condition consequence (some alternative) =>
      .expr (.cond condition consequence (some alternative)) ::
        (condition.nodes ++ .block consequence :: (Block.nodes consequence ++
          .block alternative :: Block.nodes alternative))
  | .fn parameters body =>
      .expr (.fn parameters body) :: (parameters.map .binder ++ .block body :: Block.nodes body)
  | .call callee arguments =>
      .expr (.call callee arguments) :: (callee.nodes ++ Expr.listNodes arguments)
  | .name ident => [.expr (.name ident)]
  | .int value => [.expr (.int value)]
  | .str value => [.expr (.str value)]
  | .bool value => [.expr (.bool value)]

/-- A statement and the nodes below it. -/
def Stmt.nodes : Stmt → List Node
  | .bind name value => .stmt (.bind name value) :: .binder name :: value.nodes
  | .ret none => [.stmt (.ret none)]
  | .ret (some value) => .stmt (.ret (some value)) :: value.nodes
  | .expr value => .stmt (.expr value) :: value.nodes

/-- The nodes of statements in a row. -/
def Block.nodes : List Stmt → List Node
  | [] => []
  | statement :: statements => statement.nodes ++ Block.nodes statements

/-- The nodes of expressions in a row. -/
def Expr.listNodes : List Expr → List Node
  | [] => []
  | expr :: exprs => expr.nodes ++ Expr.listNodes exprs

end

/-- A program and the nodes below it. -/
def Program.nodes (program : Program) : List Node :=
  .program program :: Block.nodes program.statements

end LetScript
