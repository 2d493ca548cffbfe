import LetScript.Console.Basic

/-!
# The command

* `main` — runs the script that the arguments name, or answers the lines of standard input.
-/

namespace LetScript

/-- Prints an ending, and gives its exit code. -/
def Ending.print (ending : Ending) : IO UInt32 := do
  IO.print ending.output
  IO.eprint ending.errors
  return ending.code.toUInt32

/-- The bytes of a file. -/
def readFile (path : String) : IO (Except ReadError (List UInt8)) := do
  try
    return .ok (← IO.FS.readBinFile path).toList
  catch _ =>
    return .error .missing

/-- The bytes up to the next newline, which is one of them, or up to the end; `front` stands before
them in reverse. -/
partial def readLine (input : IO.FS.Stream) (front : List UInt8) : IO (List UInt8) := do
  match (← input.read 1).toList with
  | [] => return front.reverse
  | byte :: _ =>
      if byte = 0x0a then return (byte :: front).reverse
      else readLine input (byte :: front)

/-- Asks for lines and answers them until the input ends or a line stops it. -/
partial def Console.talk (console : Console) : IO UInt32 := do
  IO.print Console.prompt
  (← IO.getStdout).flush
  match ← readLine (← IO.getStdin) [] with
  | [] => return 0
  | bytes =>
      match Text.ofUtf8? bytes with
      | none => (Ending.ofFailure "" (.unreadableInput .invalidUtf8)).print
      | some line =>
          match console.step line with
          | none => return 0
          | some (printed, console) =>
              IO.print printed
              console.talk

end LetScript

open LetScript in
/-- Runs the script that the arguments name, or answers the lines of standard input. -/
def main (arguments : List String) : IO UInt32 :=
  match Options.ofArguments arguments with
  | .error failure => (Ending.ofFailure "" failure).print
  | .ok options =>
      match options.script with
      | some path => do (runScript options path (← readFile path)).print
      | none => do
          IO.print Console.greeting
          (Console.start options).talk
