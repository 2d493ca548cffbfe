import LetScript.Text.Spelling
import LetScript.Tree.Basic

/-!
# The canonical text of a tree

* `Expr.text`, `Stmt.text`, `Block.text`, `Program.text` — the text of a tree as a script.

Operations stand in parentheses, so the text says how it groups.  Statements are separated by a
space; an expression statement that others follow ends in a semicolon, because what follows could
otherwise go on with its expression.  Strings stand between quotes as they are, negative literals
with their sign.
-/

namespace LetScript

/-- What ends a statement that another one follows. -/
def Stmt.terminator : Stmt → String
  | .expr _ => ";"
  | .bind .. | .ret _ => ""

/-- A block in braces, given the text of its statements. -/
def Block.braced (statements : Block) (contents : String) : String :=
  if statements.isEmpty then "\x7b \x7d" else "\x7b " ++ contents ++ " \x7d"

mutual

/-- The text of an expression. -/
def Expr.text : Expr → String
  | .name ident => ident
  | .int value => Text.decimal value
  | .str value => "\"" ++ value ++ "\""
  | .bool value => Text.truthWord value
  | .unary op operand => "(" ++ op.symbol ++ operand.text ++ ")"
  | .binary op left right => "(" ++ left.text ++ " " ++ op.symbol ++ " " ++ right.text ++ ")"
  | .cond condition consequence none =>
      "if (" ++ condition.text ++ ") " ++ Block.braced consequence (Block.contents consequence)
  | .cond condition consequence (some alternative) =>
      "if (" ++ condition.text ++ ") " ++ Block.braced consequence (Block.contents consequence) ++
        " else " ++ Block.braced alternative (Block.contents alternative)
  | .fn parameters body =>
      "fn(" ++ Text.commaSeparated parameters ++ ") " ++ Block.braced body (Block.contents body)
  | .call callee arguments =>
      callee.text ++ "(" ++ Text.commaSeparated (Expr.texts arguments) ++ ")"

/-- The text of a statement. -/
def Stmt.text : Stmt → String
  | .bind name value => "let " ++ name ++ " = " ++ value.text ++ ";"
  | .ret none => "return;"
  | .ret (some value) => "return " ++ value.text ++ ";"
  | .expr value => value.text

/-- The texts of statements in a row. -/
def Block.contents : List Stmt → String
  | [] => ""
  | [statement] => statement.text
  | statement :: statements =>
      statement.text ++ statement.terminator ++ " " ++ Block.contents statements

/-- The texts of expressions, one by one. -/
def Expr.texts : List Expr → List String
  | [] => []
  | expr :: exprs => expr.text :: Expr.texts exprs

end

/-- The text of a block, braces included. -/
def Block.text (statements : Block) : String :=
  Block.braced statements (Block.contents statements)

/-- The text of a program. -/
def Program.text (program : Program) : String := Block.contents program.statements

end LetScript
