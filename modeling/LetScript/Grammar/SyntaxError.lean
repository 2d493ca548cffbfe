import LetScript.Token.Basic

/-!
# Syntax errors

* `SyntaxError` — the ways in which lexemes fail to be a program;
* `SyntaxError.ofRefused` — the error of a lexeme that starts no expression;
* `SyntaxError.message`, `SyntaxError.name` — its text, and the name of its case in JSON.
-/

namespace LetScript

/-- A way in which lexemes fail to be a program. -/
inductive SyntaxError where
  /-- One kind of token had to come, and another one came. -/
  | expectedToken (expected got : Kind)
  /-- A token of this kind starts no expression. -/
  | noPrefixRule (kind : Kind)
  /-- The digits stand for a number beyond the 64-bit range. -/
  | invalidInteger (digits : String)
  | illegalToken (text : String)
  /-- The text runs from the quote to the end of the script. -/
  | unterminatedString (text : String)
  deriving DecidableEq, Repr

namespace SyntaxError

/-- The error of a lexeme that starts no expression: illegal text is reported as such. -/
def ofRefused (lexeme : Lexeme) : SyntaxError :=
  if lexeme.kind = .illegal then
    if lexeme.text.toList.head? = some '"' then unterminatedString lexeme.text
    else illegalToken lexeme.text
  else noPrefixRule lexeme.kind

/-- The text of an error. -/
def message : SyntaxError → String
  | expectedToken expected got =>
      "expected next token to be " ++ expected.label ++ ", got " ++ got.label ++ " instead"
  | noPrefixRule kind => "no prefix parse function for " ++ kind.label ++ " found"
  | invalidInteger digits => "could not parse " ++ digits ++ " as integer"
  | illegalToken text => "illegal token: " ++ text
  | unterminatedString text => "unterminated string literal: " ++ text

/-- The name of an error's case. -/
def name : SyntaxError → String
  | expectedToken .. => "ExpectedToken"
  | noPrefixRule _ => "NoPrefixParseFn"
  | invalidInteger _ => "InvalidInteger"
  | illegalToken _ => "IllegalToken"
  | unterminatedString _ => "UnterminatedString"

end SyntaxError

end LetScript
