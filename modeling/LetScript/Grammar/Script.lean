import LetScript.Grammar.Statements
import LetScript.Token.Cursor
import LetScript.Tree.Equality

/-!
# Reading a script

* `Grammar.Outcome.nextStatement` — where the next statement of a script starts: a statement that stops is
  given up to its semicolon, so an error stays in its own statement;
* `Parsed`, `Parsed.ofLexemes`, `Parsed.ofText` — the program that a script holds, and its errors;
* `Reader` — lexemes that are still to be read, with the errors so far.
-/

namespace LetScript

namespace Grammar

/-- The lexemes behind the first semicolon. -/
def behindSemicolon (lexemes : List Lexeme) : List Lexeme :=
  (lexemes.dropWhile (·.kind != .semicolon)).tail

theorem behindSemicolon_length_le (lexemes : List Lexeme) :
    (behindSemicolon lexemes).length ≤ lexemes.length - 1 := by
  have hle := (List.dropWhile_suffix (l := lexemes) (·.kind != .semicolon)).length_le
  simp only [behindSemicolon, List.length_tail]
  omega

namespace Outcome

variable {α : Type} {input : List Lexeme}

/-- The value that was read, if the step did not stop. -/
def value? : Outcome α input → Option α
  | .done value _ _ => some value
  | .stopped .. => none

/-- The lexemes of the next statement.  Behind a stop that is what follows the next semicolon, for
which the refused lexeme counts too. -/
def nextStatement : Outcome α input → { rest : List Lexeme // rest.length ≤ input.length }
  | .done _ rest h => ⟨rest, h⟩
  | .stopped none rest h =>
      ⟨behindSemicolon rest, by have hle := behindSemicolon_length_le rest; omega⟩
  | .stopped (some refused) rest h =>
      ⟨behindSemicolon (refused :: rest), Nat.le_trans (behindSemicolon_length_le _) h⟩

end Outcome

end Grammar

/-- A program, and the errors met in reading it.  A statement with an error of its own is left out. -/
structure Parsed where
  program : Program
  errors : List SyntaxError
  deriving DecidableEq

namespace Parsed

/-- Reads statements until no lexeme is left. -/
def ofLexemes (lexemes : List Lexeme) : Parsed :=
  match lexemes with
  | [] => ⟨⟨[]⟩, []⟩
  | lexeme :: rest =>
      let reading := Grammar.statement (lexeme :: rest)
      let ⟨next, _⟩ := reading.outcome.nextStatement
      let others := ofLexemes next
      ⟨⟨reading.outcome.value?.toList ++ others.program.statements⟩,
        reading.errors ++ others.errors⟩
termination_by lexemes.length
decreasing_by grind

/-- Reads a script. -/
def ofText (text : String) : Parsed :=
  ofLexemes (Cursor.ofText text).lexemes

/-- The messages of the errors. -/
def messages (parsed : Parsed) : List String :=
  parsed.errors.map SyntaxError.message

/-- The report of the errors, a line each below a heading. -/
def report (parsed : Parsed) : String :=
  "parse errors:\n" ++ "\n".intercalate parsed.messages

end Parsed

/-- Lexemes that are still to be read, and the errors so far. -/
structure Reader where
  lexemes : List Lexeme
  errors : List SyntaxError := []
  deriving DecidableEq

namespace Reader

/-- A reader of what is in front of a cursor. -/
def ofCursor (cursor : Cursor) : Reader :=
  ⟨cursor.lexemes, []⟩

/-- Reads all that is left; the new errors come behind the old ones. -/
def program (reader : Reader) : Program × Reader :=
  let parsed := Parsed.ofLexemes reader.lexemes
  (parsed.program, ⟨[], reader.errors ++ parsed.errors⟩)

end Reader

end LetScript
