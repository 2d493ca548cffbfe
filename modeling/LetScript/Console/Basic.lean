import LetScript.Console.Options
import LetScript.Evaluation.Run
import LetScript.Json.Basic
import LetScript.Text.Blank
import LetScript.Text.Lines
import LetScript.Tree.Encoding

/-!
# The console

* `Console` — the scope and the evaluator that lines share, and whether trees are shown;
* `Console.answer` — the answer to a script;
* `Console.step` — the answer to a line, which may be a command, `none` for the command to stop;
* `Console.converse` — the answers to lines, with a prompt behind each;
* `Ending`, `runCommand` — what the program prints, and how it exits.
-/

namespace LetScript

/-- What lasts from one line to the next. -/
structure Console where
  options : Options
  showTree : Bool
  evaluator : Evaluator
  store : Store
  scope : ScopeId
  deriving DecidableEq

namespace Console

/-- A console to which nothing has been said. -/
def start (options : Options) : Console :=
  let (scope, store) := ({} : Store).enclose none
  ⟨options, options.showTree, { limit := options.limit }, store, scope⟩

/-- The lines that are said about the errors of a script. -/
def complaint (parsed : Parsed) : String :=
  "parser errors:" ++ String.join (parsed.messages.map ("\n\t" ++ ·))

/-- The answer to a script: its errors, or its tree if trees are shown, and its value or its canonical
text.  Null goes without an answer. -/
def answer (console : Console) (text : String) : Option String × Console :=
  let parsed := Parsed.ofText text
  if parsed.errors.isEmpty then
    let program := parsed.program
    let tree := if console.showTree then [program.toJson.pretty] else []
    if console.options.parseOnly then
      (some ("\n".intercalate (tree ++ [program.text])), console)
    else
      let (flow, evaluator, store) :=
        console.evaluator.run console.store console.scope (.block program.statements)
      let console := { console with evaluator, store }
      match flow.result, tree with
      | .null, [] => (none, console)
      | .null, tree => (some ("\n".intercalate tree), console)
      | value, tree => (some ("\n".intercalate (tree ++ [value.text])), console)
  else (some (complaint parsed), console)

/-- What is printed in answer to a line, and the console behind it. -/
def step (console : Console) (line : String) : Option (String × Console) :=
  match Text.trim line with
  | "" => some ("", console)
  | ":quit" | ":exit" => none
  | ":reset" => some ("environment cleared\n", start console.options)
  | ":ast" =>
      let shown := !console.showTree
      some (if shown then "ast output on\n" else "ast output off\n",
        { console with showTree := shown })
  | text =>
      let (answer?, console) := console.answer text
      some ((answer?.map (· ++ "\n")).getD "", console)

/-- The text that asks for a line. -/
def prompt : String := ">> "

/-- The text that greets. -/
def greeting : String := "Monkey 0.1.0 - type :quit to exit\n"

/-- What is printed in answer to lines, of which `none` is one that cannot be read, and whether all
went well. -/
def converse (console : Console) : List (Option String) → String × Except Failure Unit
  | [] => ("", .ok ())
  | none :: _ => ("", .error (.unreadableInput .invalidUtf8))
  | some line :: lines =>
      match console.step line with
      | none => ("", .ok ())
      | some (printed, console) =>
          let (others, ending) := console.converse lines
          (printed ++ prompt ++ others, ending)

end Console

/-- What the program prints, and how it exits. -/
structure Ending where
  output : String := ""
  errors : String := ""
  code : Nat := 0
  deriving DecidableEq, Repr

/-- The ending with a failure, behind some output. -/
def Ending.ofFailure (output : String) (failure : Failure) : Ending :=
  ⟨output, failure.report, 1⟩

/-- The ending of a run over a script. -/
def runScript (options : Options) (path : String) (bytes? : Except ReadError (List UInt8)) : Ending :=
  match bytes? with
  | .error cause => .ofFailure "" (.unreadableScript path cause)
  | .ok bytes =>
      match Text.ofUtf8? bytes with
      | none => .ofFailure "" (.unreadableScript path .invalidUtf8)
      | some text => { output := (((Console.start options).answer text).1.map (· ++ "\n")).getD "" }

/-- The ending of a conversation over input. -/
def runConsole (options : Options) (input : List UInt8) : Ending :=
  let (printed, ending) :=
    (Console.start options).converse ((Text.lines input).map Text.ofUtf8?)
  let output := Console.greeting ++ Console.prompt ++ printed
  match ending with
  | .ok () => { output }
  | .error failure => .ofFailure output failure

/-- The ending of the program, given its arguments, its input and the files that it can read. -/
def runCommand (arguments : List String) (input : List UInt8)
    (read : String → Except ReadError (List UInt8)) : Ending :=
  match Options.ofArguments arguments with
  | .error failure => .ofFailure "" failure
  | .ok options =>
      match options.script with
      | some path => runScript options path (read path)
      | none => runConsole options input

end LetScript
