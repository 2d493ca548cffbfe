import LetScript.Proofs.Grammar.Yields
import LetScript.Proofs.Tree.RoundTrip

/-!
# The trees that reading gives

* `Reader.program_isWellFormed` — a reader gives well-formed programs only, wherever in a text it starts and
  whatever errors it meets.
* `Program.reading_gives_wellFormed` — and it gives all of them; exactly these are given back when their
  canonical text is read.
-/

namespace LetScript

theorem Reader.program_isWellFormed (cursor : Cursor) :
    (Reader.ofCursor cursor).program.1.isWellFormed = true :=
  Parsed.ofLexemes_isWellFormed cursor.lexemes cursor.lexemes_haveShape

theorem Program.ofText_text_iff {program : Program} :
    (Parsed.ofText program.text).program = program ↔ program.isWellFormed = true := by
  constructor
  · intro hsame
    rw [← hsame]
    exact Reader.program_isWellFormed (Cursor.ofText program.text)
  · intro hwellFormed
    rw [Program.ofText_text hwellFormed]

/-- What is read of a text, from any of its tokens on and with any errors, is well-formed, and its canonical
text is read without errors as the same program.  Every well-formed program can be read, and a program
that is not well-formed is never read from its own text. -/
theorem Program.reading_gives_wellFormed :
    (∀ (text : String) (count : Nat),
      let read := (Reader.ofCursor ((Cursor.ofText text).take count).2).program.1
      read.isWellFormed = true ∧ Parsed.ofText read.text = ⟨read, []⟩) ∧
    (∀ program : Program,
      (∃ (text : String) (count : Nat),
        (Reader.ofCursor ((Cursor.ofText text).take count).2).program.1 = program) ↔
          program.isWellFormed = true) ∧
    ∀ program : Program,
      (Parsed.ofText program.text).program = program ↔ program.isWellFormed = true := by
  refine ⟨?_, ?_, ?_⟩
  · intro text count read
    have hread : read.isWellFormed = true := Reader.program_isWellFormed _
    exact ⟨hread, Program.ofText_text hread⟩
  · intro program
    constructor
    · rintro ⟨text, count, rfl⟩
      exact Reader.program_isWellFormed _
    · intro hwellFormed
      exact ⟨program.text, 0, Program.ofText_text_iff.2 hwellFormed⟩
  · intro program
    exact Program.ofText_text_iff

/-- A block drops a statement that stops and goes on where it stopped. -/
example : (Parsed.ofText "if (a) \x7b let 1; b \x7d").program =
    ⟨[.expr (.cond (.name "a") [.expr (.int 1), .expr (.name "b")] none)]⟩ := by decide +kernel

end LetScript
