import LetScript.Grammar.Reading
import LetScript.Tree.Basic

/-!
# Reading expressions and statements

* `expression` — an operand and what goes on with it, as long as it binds more strongly than a level;
* `continued` — the operators and calls behind an operand, read from left to right;
* `operand` — what can stand alone: a literal, a name, a group, a prefix operation, a conditional or
  a function;
* `statement`, `block` — statements, and statements up to a closing brace.

Each function is given the lexemes from its first one on, except that the opening brace of a block,
the opening parenthesis of arguments and the keyword of a conditional or of a function have been read.
A block drops a statement that stops, and goes on where it stopped.
-/

namespace LetScript.Grammar

/-- The value of a run of decimal digits, if it is a 64-bit integer, and so below the 63rd power of
two. -/
def integer? (digits : String) : Option Int64 :=
  let value := Nat.ofDigitChars 10 digits.toList 0
  if value < 0x8000000000000000 then some (Int64.ofNat value) else none

/-- The names behind the first parameter, up to the closing parenthesis. -/
def moreParameters (lexemes : List Lexeme) : Reading (List String) lexemes :=
  match lexemes with
  | ⟨.comma, _⟩ :: rest =>
      ((expect .ident rest).andThen fun name rest _ =>
        (moreParameters rest).map (name.text :: ·)).widen (by simp)
  | other => (expect .rParen other).map fun _ => []
termination_by lexemes.length
decreasing_by simp only [List.length_cons]; omega

/-- The parameters of a function and the closing parenthesis. -/
def parameters (lexemes : List Lexeme) : Reading (List String) lexemes :=
  match lexemes with
  | ⟨.rParen, _⟩ :: rest => (Reading.done [] rest).widen (by simp)
  | other =>
      (expect .ident other).andThen fun name rest _ =>
        (moreParameters rest).map (name.text :: ·)

mutual

/-- An expression whose operators all bind more strongly than `level`. -/
def expression (level : Nat) (lexemes : List Lexeme) : Reading Expr lexemes.tail :=
  (operand lexemes).andThen fun left rest _ => continued level left rest
termination_by 8 * lexemes.length + 2
decreasing_by all_goals grind

/-- What goes on with the expression `left` and binds more strongly than `level`.  Operators of equal
power group to the left. -/
def continued (level : Nat) (left : Expr) (lexemes : List Lexeme) : Reading Expr lexemes :=
  match lexemes with
  | [] => .done left []
  | lexeme :: rest =>
      if level < lexeme.kind.power then
        match InfixOp.ofKind? lexeme.kind with
        | some op =>
            Reading.afterOne (lexeme :: rest) <|
              ((expression op.power rest).afterOne rest).andThen fun right rest _ =>
                continued level (.binary op left right) rest
        | none =>
            Reading.afterOne (lexeme :: rest) <|
              (arguments rest).andThen fun args rest _ => continued level (.call left args) rest
      else .done left (lexeme :: rest)
termination_by 8 * lexemes.length
decreasing_by all_goals grind

/-- An expression without operators behind it. -/
def operand (lexemes : List Lexeme) : Reading Expr lexemes.tail :=
  match lexemes with
  | [] => .stop (.noPrefixRule .eof) none []
  | lexeme :: rest =>
      match lexeme.kind with
      | .ident => .done (.name lexeme.text) rest
      | .int =>
          match integer? lexeme.text with
          | some value => .done (.int value) rest
          | none => .stop (.invalidInteger lexeme.text) (some lexeme) rest
      | .string => .done (.str lexeme.text) rest
      | .trueKey => .done (.bool true) rest
      | .falseKey => .done (.bool false) rest
      | .bang => ((expression Kind.prefixPower rest).afterOne rest).map (.unary .bang)
      | .minus => ((expression Kind.prefixPower rest).afterOne rest).map (.unary .minus)
      | .lParen =>
          ((expression 0 rest).afterOne rest).andThen fun inner rest _ =>
            (expect .rParen rest).map fun _ => inner
      | .ifKey => conditional rest
      | .function => function rest
      | _ => .stop (.ofRefused lexeme) (some lexeme) rest
termination_by 8 * lexemes.length + 1
decreasing_by all_goals grind

/-- A conditional behind its keyword. -/
def conditional (lexemes : List Lexeme) : Reading Expr lexemes :=
  (expect .lParen lexemes).andThen fun _ rest _ =>
  ((expression 0 rest).afterOne rest).andThen fun condition rest _ =>
  (expect .rParen rest).andThen fun _ rest _ =>
  (expect .lBrace rest).andThen fun _ rest _ =>
  (block rest).andThen fun consequence rest _ =>
  (alternative rest).map fun other => .cond condition consequence other
termination_by 8 * lexemes.length + 7
decreasing_by all_goals grind

/-- The second block of a conditional, if its keyword comes next. -/
def alternative (lexemes : List Lexeme) : Reading (Option Block) lexemes :=
  match lexemes with
  | ⟨.elseKey, _⟩ :: rest =>
      Reading.afterOne (_ :: rest) <|
        (expect .lBrace rest).andThen fun _ rest _ =>
        (block rest).map some
  | other => .done none other
termination_by 8 * lexemes.length + 6
decreasing_by all_goals grind

/-- A function behind its keyword. -/
def function (lexemes : List Lexeme) : Reading Expr lexemes :=
  (expect .lParen lexemes).andThen fun _ rest _ =>
  (parameters rest).andThen fun names rest _ =>
  (expect .lBrace rest).andThen fun _ rest _ =>
  (block rest).map fun body => .fn names body
termination_by 8 * lexemes.length + 6
decreasing_by all_goals grind

/-- The arguments of a call and the closing parenthesis. -/
def arguments (lexemes : List Lexeme) : Reading (List Expr) lexemes :=
  match lexemes with
  | ⟨.rParen, _⟩ :: rest => (Reading.done [] rest).widen (by simp)
  | other =>
      ((expression 0 other).afterOne other).andThen fun first rest _ =>
        (moreArguments rest).map (first :: ·)
termination_by 8 * lexemes.length + 3
decreasing_by all_goals grind

/-- The arguments behind the first one, up to the closing parenthesis. -/
def moreArguments (lexemes : List Lexeme) : Reading (List Expr) lexemes :=
  match lexemes with
  | ⟨.comma, _⟩ :: rest =>
      (((expression 0 rest).afterOne rest).andThen fun next rest _ =>
        (moreArguments rest).map (next :: ·)).widen (by simp)
  | other => (expect .rParen other).map fun _ => []
termination_by 8 * lexemes.length
decreasing_by all_goals grind

/-- The statements of a block and the closing brace. -/
def block (lexemes : List Lexeme) : Reading Block lexemes :=
  match lexemes with
  | [] => .stop (.expectedToken .rBrace .eof) none []
  | lexeme :: rest =>
      Reading.afterOne (lexeme :: rest) <|
        if lexeme.kind = .rBrace then .done [] rest
        else
          (statement (lexeme :: rest)).attempt.andThen fun statement? rest _ =>
            (block rest).map (statement?.toList ++ ·)
termination_by 8 * lexemes.length + 5
decreasing_by all_goals grind

/-- One statement, and the semicolon behind it if there is one. -/
def statement (lexemes : List Lexeme) : Reading Stmt lexemes.tail :=
  match lexemes with
  | ⟨.letKey, _⟩ :: rest =>
      (expect .ident rest).andThen fun name rest _ =>
      (expect .assign rest).andThen fun _ rest _ =>
      ((expression 0 rest).afterOne rest).andThen fun value rest _ =>
      (skipSemicolon rest).map fun _ => .bind name.text value
  | ⟨.returnKey, _⟩ :: rest =>
      if nextKind rest ∈ [.semicolon, .rBrace, .eof] then
        (skipSemicolon rest).map fun _ => .ret none
      else
        ((expression 0 rest).afterOne rest).andThen fun value rest _ =>
        (skipSemicolon rest).map fun _ => .ret (some value)
  | other =>
      (expression 0 other).andThen fun value rest _ =>
      (skipSemicolon rest).map fun _ => .expr value
termination_by 8 * lexemes.length + 4
decreasing_by all_goals grind

end

end LetScript.Grammar
