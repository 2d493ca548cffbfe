import LetScript.Grammar.Script

/-!
# Where statements are tried

A block drops a statement that stops, and so does a script; nothing of it is left in the tree.  What reading has
tried is therefore told here, step by step as the grammar reads.  A place is given by the lexemes from it on.

* `Reading.behind` — the places of a further step, which is taken only behind a value.
* `expressionTries`, `operandTries`, `blockTries`, `statementTries`, … — the places at which a step of the grammar
  tries a statement, also within statements that are dropped in the end; one function for each step.
* `scriptTries` — those of a whole script.
* `leavesOut` — whether the statement at a place is dropped.
-/

namespace LetScript.Grammar

/-- The places of a further step, given the value of the first one; none if that has stopped. -/
def Reading.behind {α : Type} {input : List Lexeme} (reading : Reading α input)
    (places : α → (rest : List Lexeme) → rest.length ≤ input.length → List (List Lexeme)) :
    List (List Lexeme) :=
  match reading.outcome with
  | .done value rest h => places value rest h
  | .stopped .. => []

mutual

/-- The places at which an expression tries a statement. -/
def expressionTries (level : Nat) (lexemes : List Lexeme) : List (List Lexeme) :=
  operandTries lexemes ++
    (operand lexemes).behind fun left rest _ => continuedTries level left rest
termination_by 8 * lexemes.length + 2
decreasing_by all_goals grind

/-- The places behind an operand. -/
def continuedTries (level : Nat) (left : Expr) (lexemes : List Lexeme) : List (List Lexeme) :=
  match lexemes with
  | [] => []
  | lexeme :: rest =>
      if level < lexeme.kind.power then
        match InfixOp.ofKind? lexeme.kind with
        | some op =>
            expressionTries op.power rest ++
              ((expression op.power rest).afterOne rest).behind fun right rest _ =>
                continuedTries level (.binary op left right) rest
        | none =>
            argumentsTries rest ++
              (arguments rest).behind fun args rest _ => continuedTries level (.call left args) rest
      else []
termination_by 8 * lexemes.length
decreasing_by all_goals grind

/-- The places in an operand. -/
def operandTries (lexemes : List Lexeme) : List (List Lexeme) :=
  match lexemes with
  | [] => []
  | lexeme :: rest =>
      match lexeme.kind with
      | .bang | .minus => expressionTries Kind.prefixPower rest
      | .lParen => expressionTries 0 rest
      | .ifKey => conditionalTries rest
      | .function => functionTries rest
      | _ => []
termination_by 8 * lexemes.length + 1
decreasing_by all_goals grind

/-- The places in a conditional. -/
def conditionalTries (lexemes : List Lexeme) : List (List Lexeme) :=
  (expect .lParen lexemes).behind fun _ rest _ =>
  expressionTries 0 rest ++ ((expression 0 rest).afterOne rest).behind fun _ rest _ =>
  (expect .rParen rest).behind fun _ rest _ =>
  (expect .lBrace rest).behind fun _ rest _ =>
  blockTries rest ++ (block rest).behind fun _ rest _ => alternativeTries rest
termination_by 8 * lexemes.length + 7
decreasing_by all_goals grind

/-- The places in the second block of a conditional. -/
def alternativeTries (lexemes : List Lexeme) : List (List Lexeme) :=
  match lexemes with
  | ⟨.elseKey, _⟩ :: rest => (expect .lBrace rest).behind fun _ rest _ => blockTries rest
  | _ => []
termination_by 8 * lexemes.length + 6
decreasing_by all_goals grind

/-- The places in a function. -/
def functionTries (lexemes : List Lexeme) : List (List Lexeme) :=
  (expect .lParen lexemes).behind fun _ rest _ =>
  (parameters rest).behind fun _ rest _ =>
  (expect .lBrace rest).behind fun _ rest _ => blockTries rest
termination_by 8 * lexemes.length + 6
decreasing_by all_goals grind

/-- The places in the arguments of a call. -/
def argumentsTries (lexemes : List Lexeme) : List (List Lexeme) :=
  match lexemes with
  | ⟨.rParen, _⟩ :: _ => []
  | other =>
      expressionTries 0 other ++
        ((expression 0 other).afterOne other).behind fun _ rest _ => moreArgumentsTries rest
termination_by 8 * lexemes.length + 3
decreasing_by all_goals grind

/-- The places in the arguments behind the first one. -/
def moreArgumentsTries (lexemes : List Lexeme) : List (List Lexeme) :=
  match lexemes with
  | ⟨.comma, _⟩ :: rest =>
      expressionTries 0 rest ++
        ((expression 0 rest).afterOne rest).behind fun _ rest _ => moreArgumentsTries rest
  | _ => []
termination_by 8 * lexemes.length
decreasing_by all_goals grind

/-- The places of the statements of a block, and those within these. -/
def blockTries (lexemes : List Lexeme) : List (List Lexeme) :=
  match lexemes with
  | [] => []
  | lexeme :: rest =>
      if lexeme.kind = .rBrace then []
      else
        (lexeme :: rest) :: statementTries (lexeme :: rest) ++
          (statement (lexeme :: rest)).attempt.behind fun _ rest _ => blockTries rest
termination_by 8 * lexemes.length + 5
decreasing_by all_goals grind

/-- The places within a statement. -/
def statementTries (lexemes : List Lexeme) : List (List Lexeme) :=
  match lexemes with
  | ⟨.letKey, _⟩ :: rest =>
      (expect .ident rest).behind fun _ rest _ =>
      (expect .assign rest).behind fun _ rest _ => expressionTries 0 rest
  | ⟨.returnKey, _⟩ :: rest =>
      if nextKind rest ∈ [.semicolon, .rBrace, .eof] then [] else expressionTries 0 rest
  | other => expressionTries 0 other
termination_by 8 * lexemes.length + 4
decreasing_by all_goals grind

end

/-! ## Statements that are left out -/

/-- The statement at a place, none if it stops and so is left out. -/
def statementAt (place : List Lexeme) : Option Stmt :=
  (statement place).outcome.value?

/-- Whether the statement at a place is left out of the block, or the script, to which it belongs. -/
def leavesOut (place : List Lexeme) : Bool :=
  (statementAt place).isNone

/-- The places of the statements of a block, without those within these. -/
def blockPlaces (lexemes : List Lexeme) : List (List Lexeme) :=
  match lexemes with
  | [] => []
  | lexeme :: rest =>
      if lexeme.kind = .rBrace then []
      else
        (lexeme :: rest) :: (statement (lexeme :: rest)).attempt.behind fun _ rest _ => blockPlaces rest
termination_by lexemes.length
decreasing_by grind

/-- The places of the statements at the top of a script. -/
def scriptPlaces (lexemes : List Lexeme) : List (List Lexeme) :=
  match lexemes with
  | [] => []
  | lexeme :: rest =>
      let ⟨next, _⟩ := (statement (lexeme :: rest)).outcome.nextStatement
      (lexeme :: rest) :: scriptPlaces next
termination_by lexemes.length
decreasing_by grind

/-- The places at which a script tries a statement, at its top or within one. -/
def scriptTries (lexemes : List Lexeme) : List (List Lexeme) :=
  (scriptPlaces lexemes).flatMap fun place => place :: statementTries place

end LetScript.Grammar
