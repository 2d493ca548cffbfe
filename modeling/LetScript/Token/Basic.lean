import LetScript.Token.Kind

/-!
# Tokens

* `Lexeme` — a kind and a text: all that the reading of a program looks at;
* `Lexeme.spelling` — the characters that a lexeme takes up in a script;
* `Position` — a line and a column, moved on by characters (`Position.after`);
* `Token` — a lexeme and the position of its first character.
-/

namespace LetScript

/-- A kind with the text found for it; the text of a string comes without its quotes. -/
structure Lexeme where
  kind : Kind
  text : String
  deriving DecidableEq, Repr, Inhabited

/-- The characters of a lexeme in a script: its text, in quotes if it is a string. -/
def Lexeme.spelling (lexeme : Lexeme) : List Char :=
  match lexeme.kind with
  | .string => '"' :: lexeme.text.toList ++ ['"']
  | _ => lexeme.text.toList

/-- A place in a text; line and column start at one. -/
structure Position where
  line : Nat := 1
  column : Nat := 1
  deriving DecidableEq, Repr, Inhabited

namespace Position

/-- The place after one character: only a newline starts a line. -/
def step (position : Position) (c : Char) : Position :=
  if c = '\n' then ⟨position.line + 1, 1⟩ else ⟨position.line, position.column + 1⟩

/-- The place after a run of characters. -/
def after (position : Position) (cs : List Char) : Position :=
  cs.foldl step position

@[simp] theorem after_nil (position : Position) : position.after [] = position := rfl

@[simp] theorem after_cons (position : Position) (c : Char) (cs : List Char) :
    position.after (c :: cs) = (position.step c).after cs := rfl

theorem after_append (position : Position) (cs ds : List Char) :
    position.after (cs ++ ds) = (position.after cs).after ds := by
  simp [after]

end Position

/-- A lexeme at the position of its first character. -/
structure Token extends Lexeme where
  position : Position
  deriving DecidableEq, Repr, Inhabited

end LetScript
