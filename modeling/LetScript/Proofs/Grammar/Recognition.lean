import LetScript.Proofs.Grammar.Completeness
import LetScript.Proofs.Grammar.Soundness

/-!
# Reading recognises the grammar

* `ofLexemes_eq_iff` — lexemes are read without errors, as a program, exactly if they spell it.
* `SpellsProgram.unique` — the grammar is unambiguous.
* `ofText_eq_iff_spells` — the same for texts.
-/

namespace LetScript

open Grammar

theorem ofLexemes_eq_iff {ws : List Lexeme} {program : Program} :
    Parsed.ofLexemes ws = ⟨program, []⟩ ↔ SpellsProgram ws program :=
  ⟨spellsProgram_of_ofLexemes, ofLexemes_of_spellsProgram⟩

/-- Lexemes spell at most one program. -/
theorem SpellsProgram.unique {ws : List Lexeme} {program other : Program}
    (hspells : SpellsProgram ws program) (hother : SpellsProgram ws other) : program = other := by
  have hread := ofLexemes_eq_iff.2 hspells
  rw [ofLexemes_eq_iff.2 hother] at hread
  exact (congrArg Parsed.program hread).symm

/-- A text is read without errors, as a program, exactly if its lexemes spell the program. -/
theorem ofText_eq_iff_spells (text : String) (program : Program) :
    Parsed.ofText text = ⟨program, []⟩ ↔ SpellsProgram (Cursor.ofText text).lexemes program :=
  ofLexemes_eq_iff

/-- A second semicolon is no statement. -/
example : (Parsed.ofText "1;;").errors = [.noPrefixRule .semicolon] := by decide +kernel

end LetScript
