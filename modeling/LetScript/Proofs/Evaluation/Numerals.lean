import LetScript.Proofs.Evaluation.Respelling
import LetScript.Proofs.Grammar.Accounts
import LetScript.Proofs.Tree.RoundTrip
import Mathlib.Data.Nat.Digits.Defs

/-!
# Numerals

Digits are read as the number that they stand for if it is a 64-bit integer, and not at all if it is not.  What an
integer prints as is a script, which gives the integer back, but for the least one.

* `Lexeme.placeValue`, `Lexeme.number_eq_placeValue` — the number that digits stand for, place by place.
* `ofLexemes_digits`, `ofLexemes_digits_of_le` — a script of one row of digits.
* `runText_text` — running the text of a program runs the program with each sign as an operation.
* `numerals_are_exact` — reading digits, and running what an integer prints as.
-/

namespace LetScript

open Grammar

/-! ## Digits -/

/-- The number that digits stand for, from the last place to the first. -/
def Lexeme.placeValue (digits : List Char) : Nat :=
  Nat.ofDigits 10 (digits.reverse.map fun c => c.toNat - '0'.toNat)

/-- The induction is on the digits from the last place to the first. -/
theorem Lexeme.ofDigitChars_reverse (digits : List Char) :
    Nat.ofDigitChars 10 digits.reverse 0 = Nat.ofDigits 10 (digits.map fun c => c.toNat - '0'.toNat) := by
  induction digits with
  | nil => rfl
  | cons c digits ih =>
      rw [Nat.ofDigitChars_eq_foldl] at ih ⊢
      rw [List.reverse_cons, List.foldl_append, ih, List.foldl_cons, List.foldl_nil, List.map_cons,
        Nat.ofDigits_cons, Nat.add_comm]

theorem Lexeme.number_eq_placeValue (digits : String) : number digits = placeValue digits.toList := by
  have hnumber := ofDigitChars_reverse digits.toList.reverse
  rw [List.reverse_reverse] at hnumber
  exact hnumber

/-- Digits that stand for a 64-bit integer are a script of that integer. -/
theorem ofLexemes_digits {digits : String} {value : Int64}
    (hvalue : value.toInt = Lexeme.placeValue digits.toList) :
    Parsed.ofLexemes [⟨.int, digits⟩] = ⟨⟨[.expr (.int value)]⟩, []⟩ := by
  have hdigits : value.toInt = Nat.ofDigitChars 10 digits.toList 0 := by
    rw [hvalue, ← Lexeme.number_eq_placeValue, Lexeme.number]
  have hint : SpellsExpr .primary [⟨.int, digits⟩] (.int value) := .int hdigits
  have hopen : MayLeaveOpen (.expr (.int value)) (firstKind .eof []) := not_goesOn_of_power (Nat.le_refl 0)
  exact ofLexemes_of_spellsProgram (.leftOpen (.expr hint.toEquality) hopen .nil)

/-- Digits that stand for more than that are refused, and no statement is left. -/
theorem ofLexemes_digits_of_le {digits : String}
    (hnumber : 0x8000000000000000 ≤ Lexeme.placeValue digits.toList) :
    Parsed.ofLexemes [⟨.int, digits⟩] = ⟨⟨[]⟩, [.invalidInteger digits]⟩ := by
  have hnone : integer? digits = none := by
    rw [integer?_eq_none_iff, Lexeme.number_eq_placeValue]
    exact hnumber
  have hoperand : operand [⟨.int, digits⟩] = .stop (.invalidInteger digits) (some ⟨.int, digits⟩) [] := by
    rw [operand]
    simp only [hnone]
    rfl
  have hexpression : expression 0 [⟨.int, digits⟩] = .stop (.invalidInteger digits) (some ⟨.int, digits⟩) [] := by
    rw [expression, hoperand]
    rfl
  have hstatement : statement [⟨.int, digits⟩] = .stop (.invalidInteger digits) (some ⟨.int, digits⟩) [] := by
    have hlet : Kind.int ≠ .letKey := by decide
    have hreturn : Kind.int ≠ .returnKey := by decide
    rw [@statement_expr [⟨.int, digits⟩] hlet hreturn, hexpression]
    rfl
  have hnothing : Parsed.ofLexemes [] = ⟨⟨[]⟩, []⟩ := by rw [Parsed.ofLexemes]
  rw [Parsed.ofLexemes, hstatement]
  show Parsed.mk ⟨_ ++ (Parsed.ofLexemes []).program.statements⟩ (_ ++ (Parsed.ofLexemes []).errors) = _
  rw [hnothing]
  rfl

/-! ## Printed integers -/

/-- The text of a program is run as the program with each sign as an operation. -/
theorem runText_text {program : Program}
    (hspellable : Block.isSpellable (· ≠ Int64.minValue) program.statements = true) {value : Value}
    (hflow : program.flow.respelled.succeeded = .ok value) : runText program.text = .ok value := by
  have hread := Program.ofText_text_respelled hspellable
  simp only [runText, hread, Program.flow_respelled, hflow]
  rfl

/-- An integer that has an opposite prints as a script that gives it back. -/
theorem runText_int {value : Int64} (hvalue : value ≠ Int64.minValue) :
    runText (Value.int value).text = .ok (.int value) := by
  have htext : (Value.int value).text = (Program.mk [.expr (.int value)]).text := rfl
  have hspellable : Block.isSpellable (· ≠ Int64.minValue) [.expr (.int value)] = true := by
    simp only [Block.isSpellable, Stmt.isSpellable, Expr.isSpellable, decide_eq_true hvalue, Bool.and_true]
  rw [htext]
  exact runText_text hspellable rfl

/-- A row of digits is read as a script of the integer that it stands for, whatever zeros lead it.  If it stands
for more than 64 bits can hold with a sign, it is refused, and nothing else is.  What an integer prints as, run as
a script, gives the integer back.  Only the digits of the least one are refused, for they are read without the
sign. -/
theorem numerals_are_exact :
    (∀ digits : String, digits.toList ≠ [] → digits.toList.all Char.isDigit = true →
      if Lexeme.placeValue digits.toList ≤ 9223372036854775807 then
        ∃ value : Int64, value.toInt = Lexeme.placeValue digits.toList ∧
          Parsed.ofText digits = ⟨⟨[.expr (.int value)]⟩, []⟩
      else Parsed.ofText digits = ⟨⟨[]⟩, [.invalidInteger digits]⟩) ∧
    ∀ value : Int64, runText (Value.int value).text =
      if value = Int64.minValue then .error (.parse ⟨⟨[]⟩, [.invalidInteger "9223372036854775808"]⟩)
      else .ok (.int value) := by
  refine ⟨?digits, ?printed⟩
  case digits =>
    intro digits hnonempty hdigits
    have hlexes : Lexes (digits.toList ++ []) [⟨.int, digits⟩] :=
      lexes_digits hnonempty hdigits (startsOutside_nil _) lexes_nil
    rw [List.append_nil] at hlexes
    rw [Parsed.ofText, hlexes.lexemes_ofText]
    split
    · next hnumber =>
        have hrange : Lexeme.placeValue digits.toList < 0x8000000000000000 := by omega
        have hvalue := Int64.toInt_ofNat_of_lt hrange
        exact ⟨_, hvalue, ofLexemes_digits hvalue⟩
    · next hnumber => exact ofLexemes_digits_of_le (by omega)
  case printed =>
    intro value
    split
    · next hleast =>
        subst hleast
        decide +kernel
    · next hvalue => exact runText_int hvalue

/-- Zeros in front make no difference, neither within the range nor beyond it. -/
theorem numerals_at_the_ends :
    Parsed.ofText "0009223372036854775807" = ⟨⟨[.expr (.int Int64.maxValue)]⟩, []⟩ ∧
      Parsed.ofText "0009223372036854775808" = ⟨⟨[]⟩, [.invalidInteger "0009223372036854775808"]⟩ ∧
      runText "-9223372036854775807" = .ok (.int (-Int64.maxValue)) := by
  obtain ⟨hdigits, hprinted⟩ := numerals_are_exact
  refine ⟨?within, ?beyond, ?printed⟩
  case within =>
    have hread := hdigits "0009223372036854775807" (by decide) (by decide)
    rw [if_pos (by decide)] at hread
    obtain ⟨value, hvalue, hread⟩ := hread
    have hgreatest : value = Int64.maxValue := Int64.toInt_inj.1 (hvalue.trans (by decide))
    rw [hread, hgreatest]
  case beyond =>
    have hread := hdigits "0009223372036854775808" (by decide) (by decide)
    rwa [if_neg (by decide)] at hread
  case printed =>
    have hrun := hprinted (-Int64.maxValue)
    rwa [if_neg (by decide)] at hrun

end LetScript
