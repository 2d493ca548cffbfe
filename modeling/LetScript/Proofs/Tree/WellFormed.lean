import LetScript.Proofs.Token.Layout
import LetScript.Tree.Basic

/-!
# Trees that a script can write

A tree can hold any name, string and integer.  Not all of them have a text that reads back as the same
tree.

* `Lexeme.isName` — a word that is not a keyword.
* `Expr.isSpellable`, `Stmt.isSpellable`, `Block.isSpellable` — all names in a tree are names, no string
  holds a quote, and each integer is one of a given set.  Nothing is asked of the shape of the tree.
* `Program.isWellFormed` — the same with the integers that have no sign.
-/

namespace LetScript

/-- A word that a script can use as a name. -/
def Lexeme.isName (text : String) : Bool :=
  isWord text && (Kind.ofKeyword? text).isNone

/-- A text that can stand between quotes. -/
def Lexeme.isQuoted (text : String) : Bool :=
  text.toList.all isQuotable

mutual

/-- Names are names, strings hold no quote, and the integers satisfy `literal`. -/
def Expr.isSpellable (literal : Int64 → Bool) : Expr → Bool
  | .name ident => Lexeme.isName ident
  | .int value => literal value
  | .str value => Lexeme.isQuoted value
  | .bool _ => true
  | .unary _ operand => operand.isSpellable literal
  | .binary _ left right => left.isSpellable literal && right.isSpellable literal
  | .cond condition consequence none =>
      condition.isSpellable literal && Block.isSpellable literal consequence
  | .cond condition consequence (some alternative) =>
      condition.isSpellable literal && Block.isSpellable literal consequence &&
        Block.isSpellable literal alternative
  | .fn parameters body => parameters.all Lexeme.isName && Block.isSpellable literal body
  | .call callee arguments => callee.isSpellable literal && Expr.areSpellable literal arguments

def Stmt.isSpellable (literal : Int64 → Bool) : Stmt → Bool
  | .bind name value => Lexeme.isName name && value.isSpellable literal
  | .ret none => true
  | .ret (some value) => value.isSpellable literal
  | .expr value => value.isSpellable literal

def Block.isSpellable (literal : Int64 → Bool) : List Stmt → Bool
  | [] => true
  | statement :: statements =>
      statement.isSpellable literal && Block.isSpellable literal statements

def Expr.areSpellable (literal : Int64 → Bool) : List Expr → Bool
  | [] => true
  | expr :: exprs => expr.isSpellable literal && Expr.areSpellable literal exprs

end

/-- A script can write the program: its names are names, its strings hold no quote, and its integers
have no sign. -/
def Program.isWellFormed (program : Program) : Bool :=
  Block.isSpellable (0 ≤ ·) program.statements

theorem Lexeme.isWord_of_isName {text : String} (hname : isName text = true) :
    isWord text = true :=
  (Bool.and_eq_true_iff.1 hname).1

theorem Lexeme.ofWord_of_isName {text : String} (hname : isName text = true) :
    Kind.ofWord text = .ident := by
  have hkeyword : Kind.ofKeyword? text = none :=
    Option.isNone_iff_eq_none.1 (Bool.and_eq_true_iff.1 hname).2
  rw [Kind.ofWord, hkeyword]
  rfl

theorem Lexeme.exists_of_isName {text : String} (hname : isName text = true) :
    ∃ c cs, text.toList = c :: cs ∧ isNameStart c = true := by
  obtain ⟨c, cs, htext, hstart, -⟩ := exists_of_isWord (isWord_of_isName hname)
  exact ⟨c, cs, htext, hstart⟩

end LetScript
