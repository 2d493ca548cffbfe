import LetScript.Console.Basic

/-!
# Transcripts of the console

A conversation is told by what its lines have printed.  A console remembers of the lines before only its
scope, its evaluator and whether trees are shown, so a line that changes none of them can be taken out of a
conversation, and behind a reset it is as if nothing had been said.

* `Console.transcript` — what is printed in answer to lines, from the first prompt on.
* `Console.replies` — the same, line by line.
* `Console.isStop`, `Console.isSource`, `Console.Passing` — the lines that end a conversation, those that are
  read as a script, and those that leave the console as it was.
* `Console.step_of_passing`, `Console.step_of_not_stop` — what a line can do.
* `Console.replies_append`, `Console.replies_append_of_stop` — lines in a row.
* `Console.transcripts_compose` — transcripts of lines in a row, behind a reset, behind a stop and without a
  passing line.
-/

namespace LetScript.Console

/-- What is printed in answer to lines, from the first prompt on. -/
def transcript (options : Options) (lines : List String) : String :=
  prompt ++ ((start options).converse (lines.map some)).1

/-- What each line that is answered has printed, with the prompt behind it. -/
def replies (console : Console) : List String → List String
  | [] => []
  | line :: lines =>
      match console.step line with
      | none => []
      | some (printed, next) => (printed ++ prompt) :: next.replies lines

/-- A line that ends the conversation. -/
def isStop (line : String) : Bool :=
  Text.trim line == ":quit" || Text.trim line == ":exit"

/-- A line that is read as a script: it is neither blank nor a command. -/
def isSource (line : String) : Bool :=
  Text.trim line ∉ ["", ":quit", ":exit", ":reset", ":ast"]

/-- A line of which no later line shows anything. -/
inductive Passing (options : Options) (line : String) : Prop
  | blank (hblank : Text.trim line = "")
  | broken (hsource : isSource line = true) (herrors : (Parsed.ofText (Text.trim line)).errors ≠ [])
  | unevaluated (hsource : isSource line = true) (hmode : options.parseOnly = true)

/-! ## One line -/

variable {console : Console} {line : String} {options : Options}

theorem converse_some (console : Console) (lines : List String) :
    console.converse (lines.map some) = (String.join (console.replies lines), .ok ()) := by
  induction lines generalizing console with
  | nil => rfl
  | cons line lines ih =>
      rw [List.map_cons, converse, replies]
      cases hstep : console.step line with
      | none => rfl
      | some answer =>
          obtain ⟨printed, next⟩ := answer
          simp only [ih, String.join_cons]

theorem answer_of_errors (console : Console) {text : String} (herrors : (Parsed.ofText text).errors ≠ []) :
    console.answer text = (some (complaint (Parsed.ofText text)), console) := by
  have hsome : ¬ (Parsed.ofText text).errors.isEmpty = true := by
    rwa [List.isEmpty_iff]
  unfold answer
  exact if_neg hsome

theorem answer_of_parseOnly (hmode : console.options.parseOnly = true) (text : String) :
    (console.answer text).2 = console := by
  unfold answer
  dsimp only
  split
  · rfl
  · rfl

theorem answer_options (console : Console) (text : String) :
    (console.answer text).2.options = console.options := by
  unfold answer
  dsimp only
  split
  · split
    · rfl
    · split
      all_goals rfl
  · rfl

theorem step_of_blank (console : Console) (hblank : Text.trim line = "") :
    console.step line = some ("", console) := by
  unfold step
  rw [hblank]
  rfl

theorem step_of_reset (console : Console) (hreset : Text.trim line = ":reset") :
    console.step line = some ("environment cleared\n", start console.options) := by
  unfold step
  rw [hreset]
  rfl

theorem step_of_isStop (console : Console) (hstop : isStop line = true) : console.step line = none := by
  rw [isStop, Bool.or_eq_true, beq_iff_eq, beq_iff_eq] at hstop
  unfold step
  rcases hstop with hquit | hexit
  · rw [hquit]
    rfl
  · rw [hexit]
    rfl

theorem step_of_isSource (console : Console) (hsource : isSource line = true) :
    console.step line =
      some (((console.answer (Text.trim line)).1.map (· ++ "\n")).getD "",
        (console.answer (Text.trim line)).2) := by
  simp only [isSource, decide_eq_true_eq, List.mem_cons, not_or] at hsource
  obtain ⟨hblank, hquit, hexit, hreset, hast, -⟩ := hsource
  unfold step
  split
  · next h => exact absurd h hblank
  · next h => exact absurd h hquit
  · next h => exact absurd h hexit
  · next h => exact absurd h hreset
  · next h => exact absurd h hast
  · rfl

/-- Every line but those that stop is answered, and the options stay. -/
theorem step_of_not_stop (console : Console) (hstop : isStop line = false) :
    ∃ printed next, console.step line = some (printed, next) ∧ next.options = console.options := by
  rw [isStop, Bool.or_eq_false_iff, beq_eq_false_iff_ne, beq_eq_false_iff_ne] at hstop
  obtain ⟨hquit, hexit⟩ := hstop
  unfold step
  split
  · exact ⟨_, _, rfl, rfl⟩
  · next h => exact absurd h hquit
  · next h => exact absurd h hexit
  · exact ⟨_, _, rfl, rfl⟩
  · exact ⟨_, _, rfl, rfl⟩
  · exact ⟨_, _, rfl, answer_options console _⟩

/-- A passing line is answered, and the console stays as it is. -/
theorem step_of_passing (hpassing : Passing console.options line) :
    ∃ own, console.step line = some (own, console) := by
  cases hpassing with
  | blank hblank => exact ⟨_, step_of_blank console hblank⟩
  | broken hsource herrors =>
      have hstep := step_of_isSource console hsource
      rw [answer_of_errors console herrors] at hstep
      exact ⟨_, hstep⟩
  | unevaluated hsource hmode =>
      have hstep := step_of_isSource console hsource
      rw [answer_of_parseOnly hmode] at hstep
      exact ⟨_, hstep⟩

/-! ## Lines in a row -/

/-- Lines of which none stops lead to a console with the same options, which answers the lines behind. -/
theorem replies_append (console : Console) {before : List String}
    (hbefore : ∀ line ∈ before, isStop line = false) :
    ∃ next : Console, next.options = console.options ∧
      ∀ behind, console.replies (before ++ behind) = console.replies before ++ next.replies behind := by
  induction before generalizing console with
  | nil => exact ⟨console, rfl, fun behind => rfl⟩
  | cons line before ih =>
      obtain ⟨printed, middle, hstep, hmiddle⟩ := step_of_not_stop console (hbefore line List.mem_cons_self)
      obtain ⟨next, hnext, hreplies⟩ :=
        ih middle fun other hmem => hbefore other (List.mem_cons_of_mem line hmem)
      refine ⟨next, hnext.trans hmiddle, fun behind => ?_⟩
      rw [List.cons_append, replies, replies, hstep]
      exact congrArg _ (hreplies behind)

/-- Behind a line that stops no line is answered. -/
theorem replies_append_of_stop (console : Console) {before : List String}
    (hbefore : ∃ line ∈ before, isStop line = true) (behind : List String) :
    console.replies (before ++ behind) = console.replies before := by
  induction before generalizing console with
  | nil =>
      obtain ⟨line, hmem, -⟩ := hbefore
      cases hmem
  | cons line before ih =>
      rw [List.cons_append, replies, replies]
      cases hstep : console.step line with
      | none => rfl
      | some answer =>
          obtain ⟨printed, next⟩ := answer
          obtain ⟨stop, hmem, hstop⟩ := hbefore
          rcases List.mem_cons.1 hmem with rfl | hmem
          · rw [step_of_isStop console hstop] at hstep
            cases hstep
          · exact congrArg _ (ih next ⟨stop, hmem, hstop⟩)

theorem transcript_eq (options : Options) (lines : List String) :
    transcript options lines = prompt ++ String.join ((start options).replies lines) := by
  rw [transcript, converse_some]

/-- What the program prints in answer to lines that can be read. -/
theorem runConsole_eq {input : List UInt8} {lines : List String}
    (hlines : (Text.lines input).map Text.ofUtf8? = lines.map some) :
    runConsole options input = { output := greeting ++ transcript options lines } := by
  rw [runConsole, hlines, transcript, converse_some]
  exact congrArg (fun output => Ending.mk output "" 0) (String.append_assoc ..)

/-- Transcripts compose.  What the program prints is the transcript of its lines, and that is what `replies`
tells of them, with a prompt in front.  Behind a stop nothing is printed; behind a reset the conversation is
one that starts anew; and a passing line can be left out, with its own text and one prompt, and nothing else
changes. -/
theorem transcripts_compose (options : Options) (before : List String) (line : String)
    (behind : List String) :
    (∀ input lines, (Text.lines input).map Text.ofUtf8? = lines.map some →
        runConsole options input = { output := greeting ++ transcript options lines }) ∧
      (∀ lines, transcript options lines = prompt ++ String.join ((start options).replies lines)) ∧
      ((∃ stop ∈ before, isStop stop = true) →
        transcript options (before ++ behind) = transcript options before) ∧
      ((∀ other ∈ before, isStop other = false) →
        (Text.trim line = ":reset" →
          transcript options (before ++ line :: behind) =
            transcript options before ++ "environment cleared\n" ++ transcript options behind) ∧
        (Passing options line →
          ∃ own others,
            (start options).replies (before ++ line :: behind) =
                (start options).replies before ++ (own ++ prompt) :: others ∧
              (start options).replies (before ++ behind) = (start options).replies before ++ others)) := by
  refine ⟨fun input lines => runConsole_eq, transcript_eq options, fun hstop => ?stop, fun hbefore => ?_⟩
  case stop =>
    rw [transcript_eq, transcript_eq, replies_append_of_stop _ hstop]
  obtain ⟨next, hnext, hreplies⟩ := replies_append (start options) hbefore
  refine ⟨fun hreset => ?reset, fun hpassing => ?passing⟩
  case reset =>
    have hcleared : next.replies (line :: behind) =
        ("environment cleared\n" ++ prompt) :: (start options).replies behind := by
      rw [replies, step_of_reset next hreset, hnext]
      rfl
    rw [transcript_eq, transcript_eq, transcript_eq, hreplies, hcleared]
    simp only [String.join_append, String.join_cons, String.append_assoc]
  case passing =>
    have hsame : Passing next.options line := by rwa [hnext]
    obtain ⟨own, hstep⟩ := step_of_passing hsame
    refine ⟨own, next.replies behind, ?_, hreplies behind⟩
    rw [hreplies, replies, hstep]

/-- A binding is gone behind a reset, a line behind a stop is not answered, and a line with an error can be
left out. -/
theorem transcripts_compose_in_small :
    transcript {} ["let x = 2;", " :reset", "x"] =
        transcript {} ["let x = 2;"] ++ "environment cleared\n" ++ transcript {} ["x"] ∧
      transcript {} ["let x = 2;", ":exit", "x"] = transcript {} ["let x = 2;", ":exit"] ∧
      ∃ own others,
        (start {}).replies ["let x = 2;", "let x 5;", "x"] =
            (start {}).replies ["let x = 2;"] ++ (own ++ prompt) :: others ∧
          (start {}).replies ["let x = 2;", "x"] = (start {}).replies ["let x = 2;"] ++ others := by
  have hgoesOn : ∀ other ∈ ["let x = 2;"], isStop other = false := by decide +kernel
  have hbroken : Passing {} "let x 5;" := .broken (by decide +kernel) (by decide +kernel)
  refine ⟨?reset, ?stop, ?broken⟩
  case reset =>
    exact ((transcripts_compose {} ["let x = 2;"] " :reset" ["x"]).2.2.2 hgoesOn).1 (by decide +kernel)
  case stop =>
    exact (transcripts_compose {} ["let x = 2;", ":exit"] "" ["x"]).2.2.1 ⟨":exit", by simp, by decide +kernel⟩
  case broken =>
    exact ((transcripts_compose {} ["let x = 2;"] "let x 5;" ["x"]).2.2.2 hgoesOn).2 hbroken

end LetScript.Console
