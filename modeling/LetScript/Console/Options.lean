import LetScript.Console.Failure

/-!
# Options of the command line

* `Options` — what the command line asks for;
* `Options.number` — the limit on nested calls that an argument writes in decimal;
* `Options.ofArguments` — the options that arguments give.  Arguments are read from left to right, and
  the first one that has no place there is the failure.
-/

namespace LetScript

/-- What the command line asks for. -/
structure Options where
  /-- Answer with the canonical text of a script and do not evaluate it. -/
  parseOnly : Bool := false
  /-- Answer with the tree of a script as well. -/
  showTree : Bool := false
  /-- The limit on nested calls. -/
  limit : Nat := 128
  /-- The script to run; without one, lines are read and answered. -/
  script : Option String := none
  deriving DecidableEq

namespace Options

/-- Adds decimal digits to a number, which has to stay within 64 bits. -/
def appendDigits (value : Nat) : List Char → Except NumberError Nat
  | [] => .ok value
  | c :: cs =>
      -- What is no digit is found before what is too large, unless it comes later.
      if c.isDigit then
        let value := 10 * value + (c.toNat - '0'.toNat)
        if value < 0x10000000000000000 then appendDigits value cs else .error .tooLarge
      else .error .invalidDigit

/-- The number that a text writes in decimal, with a plus sign before it or none. -/
def number (text : String) : Except NumberError Nat :=
  match text.toList with
  | [] => .error .empty
  | ['+'] => .error .invalidDigit
  | '+' :: digits => appendDigits 0 digits
  | digits => appendDigits 0 digits

/-- The options with those that arguments give. -/
def add (options : Options) : List String → Except Failure Options
  | [] => .ok options
  | "--parse-only" :: arguments => { options with parseOnly := true }.add arguments
  | "--ast" :: arguments => { options with showTree := true }.add arguments
  | ["--max-depth"] => .error .missingDepth
  -- The argument behind this one is its value, whatever it looks like.
  | "--max-depth" :: depth :: arguments =>
      match number depth with
      | .ok limit => { options with limit }.add arguments
      | .error cause => .error (.invalidDepth depth cause)
  | argument :: arguments =>
      if "--".toList.isPrefixOf argument.toList then .error (.unknownOption argument)
      else if options.script.isSome then .error .secondScript
      else { options with script := some argument }.add arguments

/-- The options that arguments give. -/
def ofArguments (arguments : List String) : Except Failure Options :=
  ({} : Options).add arguments

end Options

end LetScript
