import LetScript.Grammar.SyntaxError

/-!
# Steps of reading

A step of reading takes lexemes off the front of a list.

* `Outcome` — what a step ends in: a value and the lexemes behind it, or a stop.  Both carry the
  proof that nothing was put back, on which the end of every loop rests.
* `Reading` — an outcome with the errors met on the way;
* `Reading.andThen` — a second step behind the first, if that one found its value;
* `Reading.attempt` — the same step, with a stop taken for a missing value;
* `expect`, `skipSemicolon` — the steps over one given lexeme.
-/

namespace LetScript.Grammar

/-- The end of a step that was given the lexemes `input`. -/
inductive Outcome (α : Type) (input : List Lexeme) where
  /-- A value was read, and `rest` is behind it. -/
  | done (value : α) (rest : List Lexeme) (length_le : rest.length ≤ input.length)
  /-- Reading stopped before `rest`, having used up the lexeme `refused` if there is one. -/
  | stopped (refused : Option Lexeme) (rest : List Lexeme) (length_le : rest.length ≤ input.length)

/-- The end of a step, and the errors met on the way in the order of the lexemes. -/
structure Reading (α : Type) (input : List Lexeme) where
  errors : List SyntaxError
  outcome : Outcome α input

variable {α β : Type} {input longer : List Lexeme}

/-- The same outcome, of a step that was given more. -/
def Outcome.widen (length_le : input.length ≤ longer.length) : Outcome α input → Outcome α longer
  | .done value rest h => .done value rest (Nat.le_trans h length_le)
  | .stopped refused rest h => .stopped refused rest (Nat.le_trans h length_le)

/-- The outcome with its value changed. -/
def Outcome.map (f : α → β) : Outcome α input → Outcome β input
  | .done value rest h => .done (f value) rest h
  | .stopped refused rest h => .stopped refused rest h

namespace Reading

/-- The step that reads nothing. -/
def done (value : α) (rest : List Lexeme) : Reading α rest :=
  ⟨[], .done value rest (Nat.le_refl _)⟩

/-- The stop with one error. -/
def stop (error : SyntaxError) (refused : Option Lexeme) (rest : List Lexeme) : Reading α rest :=
  ⟨[error], .stopped refused rest (Nat.le_refl _)⟩

/-- The same step, given more. -/
def widen (length_le : input.length ≤ longer.length) (reading : Reading α input) :
    Reading α longer :=
  ⟨reading.errors, reading.outcome.widen length_le⟩

/-- The same step, given one lexeme more. -/
def afterOne (lexemes : List Lexeme) (reading : Reading α lexemes.tail) : Reading α lexemes :=
  reading.widen (by simp)

/-- The step with its value changed. -/
def map (f : α → β) (reading : Reading α input) : Reading β input :=
  ⟨reading.errors, reading.outcome.map f⟩

/-- The first step, then `next` on its value and the lexemes behind it; a stop ends both. -/
def andThen (reading : Reading α input)
    (next : α → (rest : List Lexeme) → rest.length ≤ input.length → Reading β rest) :
    Reading β input :=
  match reading.outcome with
  | .done value rest h =>
      let second := next value rest h
      ⟨reading.errors ++ second.errors, second.outcome.widen h⟩
  | .stopped refused rest h => ⟨reading.errors, .stopped refused rest h⟩

/-- The step with a stop taken for a missing value: reading goes on where it stopped. -/
def attempt (reading : Reading α input) : Reading (Option α) input :=
  match reading.outcome with
  | .done value rest h => ⟨reading.errors, .done (some value) rest h⟩
  | .stopped _ rest h => ⟨reading.errors, .done none rest h⟩

end Reading

/-- The kind of the next lexeme, `eof` if there is none. -/
def nextKind : List Lexeme → Kind
  | [] => .eof
  | lexeme :: _ => lexeme.kind

/-- The step over a lexeme of the given kind.  Any other is left to be read. -/
def expect (kind : Kind) (lexemes : List Lexeme) : Reading Lexeme lexemes :=
  match lexemes with
  | [] => .stop (.expectedToken kind .eof) none []
  | lexeme :: rest =>
      if lexeme.kind = kind then (Reading.done lexeme rest).afterOne (lexeme :: rest)
      else .stop (.expectedToken kind lexeme.kind) none (lexeme :: rest)

/-- The step over a semicolon, if there is one. -/
def skipSemicolon (lexemes : List Lexeme) : Reading Unit lexemes :=
  if nextKind lexemes = .semicolon then (Reading.done () lexemes.tail).afterOne lexemes
  else .done () lexemes

end LetScript.Grammar
