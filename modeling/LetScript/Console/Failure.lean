/-!
# Failures of the command line

* `NumberError`, `ReadError` — why a number or a text cannot be read;
* `Failure` — what ends the program before its work is done;
* `Failure.report` — the report of a failure, its cause below it.
-/

namespace LetScript

/-- Why a text is no number. -/
inductive NumberError where
  | empty
  | invalidDigit
  | tooLarge
  deriving DecidableEq, Repr

/-- The text of a number's error. -/
def NumberError.message : NumberError → String
  | empty => "cannot parse integer from empty string"
  | invalidDigit => "invalid digit found in string"
  | tooLarge => "number too large to fit in target type"

/-- Why a text cannot be read. -/
inductive ReadError where
  | missing
  | invalidUtf8
  deriving DecidableEq, Repr

/-- The text of an error in reading. -/
def ReadError.message : ReadError → String
  | missing => "No such file or directory (os error 2)"
  | invalidUtf8 => "stream did not contain valid UTF-8"

/-- What ends the program before its work is done. -/
inductive Failure where
  | missingDepth
  | invalidDepth (text : String) (cause : NumberError)
  | unknownOption (argument : String)
  | secondScript
  | unreadableScript (path : String) (cause : ReadError)
  | unreadableInput (cause : ReadError)
  deriving DecidableEq, Repr

namespace Failure

/-- The text of a failure. -/
def message : Failure → String
  | missingDepth => "--max-depth requires a value"
  | invalidDepth text _ => "invalid --max-depth value: " ++ text
  | unknownOption argument => "unknown option: " ++ argument
  | secondScript => "only one script may be given"
  | unreadableScript path _ => "failed to read " ++ path
  | unreadableInput _ => "failed to read input"

/-- The text of a failure's cause. -/
def cause? : Failure → Option String
  | invalidDepth _ cause => some cause.message
  | unreadableScript _ cause => some cause.message
  | unreadableInput cause => some cause.message
  | missingDepth | unknownOption _ | secondScript => none

/-- The report of a failure. -/
def report (failure : Failure) : String :=
  "Error: " ++ failure.message ++ "\n" ++
    match failure.cause? with
    | some cause => "\nCaused by:\n    " ++ cause ++ "\n"
    | none => ""

end Failure

end LetScript
