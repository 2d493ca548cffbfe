import LetScript.Operator

/-!
# Program trees

* `Expr`, `Stmt` — expressions and statements; a block is a list of statements;
* `Program` — the statements of a script.

Trees hold any names, strings and 64-bit integers, also those that no script can write.
-/

namespace LetScript

mutual

/-- An expression. -/
inductive Expr where
  | name (name : String)
  | int (value : Int64)
  | str (value : String)
  | bool (value : Bool)
  | unary (op : PrefixOp) (operand : Expr)
  | binary (op : InfixOp) (left right : Expr)
  /-- A conditional with two blocks, of which the second may be missing. -/
  | cond (condition : Expr) (consequence : List Stmt) (alternative : Option (List Stmt))
  | fn (parameters : List String) (body : List Stmt)
  | call (callee : Expr) (arguments : List Expr)

/-- A statement. -/
inductive Stmt where
  /-- Binds a name to a value in the current scope. -/
  | bind (name : String) (value : Expr)
  /-- Ends the function, with a value or without. -/
  | ret (value : Option Expr)
  | expr (value : Expr)

end

/-- A sequence of statements in braces. -/
abbrev Block := List Stmt

/-- A script as a tree. -/
structure Program where
  statements : Block

instance : Inhabited Expr := ⟨.bool false⟩

instance : Inhabited Stmt := ⟨.ret none⟩

instance : Inhabited Program := ⟨⟨[]⟩⟩

end LetScript
