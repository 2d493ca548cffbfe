import LetScript.Console.Options
import Mathlib.Data.List.TakeWhile

/-!
# Numbers on the command line

An argument that is read as a number is one in decimal, or there is one thing wrong with it.

* `Options.unsigned`, `Options.leading` — what is behind the sign of a text, and the number that it starts with.
* `Options.IsNumeral` — the texts that write a number; `NumberError.Tells` — what is wrong with the others.
* `Options.appendDigits_eq` — digits are added up to the first other character, unless they are too many before.
* `Options.isNumeral_or_tells` — every text is of one kind or the other.
* `Options.number_eq_ok_iff`, `Options.number_eq_of_tells` — reading a number tells which.
-/

namespace LetScript

namespace Options

/-- The characters of a numeral behind its plus sign, if it has one. -/
def unsigned (text : String) : List Char :=
  match text.toList with
  | '+' :: digits => digits
  | digits => digits

/-- The text writes the number in decimal, with a plus sign before it or none, and 64 bits can hold it. -/
structure IsNumeral (text : String) (value : Nat) : Prop where
  ne_nil : unsigned text ≠ []
  digits : (unsigned text).all Char.isDigit = true
  value_eq : Nat.ofDigitChars 10 (unsigned text) 0 = value
  lt_size : value < UInt64.size

/-- The number that the digits of a text write up to the first other character. -/
def leading (text : String) : Nat :=
  Nat.ofDigitChars 10 ((unsigned text).takeWhile Char.isDigit) 0

end Options

/-- What is wrong with a text that writes no number.  Digits that write too large a number are found before any
other character behind them. -/
def NumberError.Tells (text : String) : NumberError → Prop
  | empty => text = ""
  | invalidDigit => text ≠ "" ∧ Options.leading text < UInt64.size ∧
      (Options.unsigned text = [] ∨ (Options.unsigned text).all Char.isDigit = false)
  | tooLarge => UInt64.size ≤ Options.leading text

namespace Options

theorem le_ofDigitChars (value : Nat) (digits : List Char) : value ≤ Nat.ofDigitChars 10 digits value := by
  rw [Nat.ofDigitChars_eq_ofDigitChars_zero]
  have hpower : 1 ≤ 10 ^ digits.length := Nat.one_le_pow _ _ (by decide)
  have hvalue := Nat.mul_le_mul_right value hpower
  omega

/-- The digits are added up to the first other character, unless they are too many before. -/
theorem appendDigits_eq {value : Nat} (hvalue : value < UInt64.size) (cs : List Char) :
    appendDigits value cs =
      if UInt64.size ≤ Nat.ofDigitChars 10 (cs.takeWhile Char.isDigit) value then .error .tooLarge
      else if cs.all Char.isDigit then .ok (Nat.ofDigitChars 10 cs value)
      else .error .invalidDigit := by
  induction cs generalizing value with
  | nil =>
      rw [List.takeWhile_nil, Nat.ofDigitChars_nil, if_neg (Nat.not_le.2 hvalue)]
      rfl
  | cons c cs ih =>
      rw [appendDigits]
      by_cases hdigit : c.isDigit = true
      · rw [if_pos hdigit, List.takeWhile_cons_of_pos hdigit, Nat.ofDigitChars_cons, Nat.ofDigitChars_cons,
          List.all_cons, hdigit, Bool.true_and]
        by_cases hnext : 10 * value + (c.toNat - '0'.toNat) < UInt64.size
        · exact (if_pos hnext).trans (ih hnext)
        · -- What is too large stays so, whatever digits follow.
          have hlarge := Nat.le_trans (Nat.not_lt.1 hnext)
            (le_ofDigitChars (10 * value + (c.toNat - '0'.toNat)) (cs.takeWhile Char.isDigit))
          rw [if_pos hlarge]
          exact if_neg hnext
      · rw [if_neg hdigit, List.takeWhile_cons_of_neg hdigit, Nat.ofDigitChars_nil,
          if_neg (Nat.not_le.2 hvalue), List.all_cons, Bool.eq_false_iff.2 hdigit]
        rfl

/-- A sign without digits counts as a wrong digit. -/
theorem number_eq (text : String) :
    number text =
      if text = "" then .error .empty
      else if unsigned text = [] then .error .invalidDigit
      else appendDigits 0 (unsigned text) := by
  unfold number unsigned
  cases htext : text.toList with
  | nil => rw [if_pos (String.toList_eq_nil_iff.1 htext)]
  | cons c cs =>
      have hne : text ≠ "" := by
        rintro rfl
        cases htext
      rw [if_neg hne]
      by_cases hsign : c = '+'
      · subst hsign
        cases cs with
        | nil => rfl
        | cons d ds => rfl
      · split
        · next h => cases h
        · next h => exact absurd (List.cons.inj h).1 hsign
        · next h => exact absurd (List.cons.inj h).1 hsign
        · split
          · next h => exact absurd (List.cons.inj h).1 hsign
          · rfl

theorem IsNumeral.number_eq {text : String} {value : Nat} (hnumeral : IsNumeral text value) :
    number text = .ok value := by
  obtain ⟨hne, hdigits, rfl, hsize⟩ := hnumeral
  have htext : text ≠ "" := by
    rintro rfl
    exact hne rfl
  have hwhole : (unsigned text).takeWhile Char.isDigit = unsigned text :=
    List.takeWhile_eq_self_iff.2 (List.all_eq_true.1 hdigits)
  rw [Options.number_eq, if_neg htext, if_neg hne, appendDigits_eq (by decide), hwhole,
    if_neg (Nat.not_le.2 hsize), if_pos hdigits]

theorem number_eq_of_tells {text : String} {cause : NumberError} (htells : cause.Tells text) :
    number text = .error cause := by
  rw [number_eq]
  cases cause with
  | empty => exact if_pos htells
  | invalidDigit =>
      obtain ⟨htext, hsmall, hwrong⟩ := htells
      rw [if_neg htext]
      by_cases hunsigned : unsigned text = []
      · exact if_pos hunsigned
      · have hdigits := hwrong.resolve_left hunsigned
        rw [if_neg hunsigned, appendDigits_eq (by decide), hdigits]
        exact if_neg (Nat.not_le.2 hsmall)
  | tooLarge =>
      have hlarge : UInt64.size ≤ Nat.ofDigitChars 10 ((unsigned text).takeWhile Char.isDigit) 0 := htells
      have hunsigned : unsigned text ≠ [] := by
        intro hnil
        rw [hnil] at hlarge
        exact absurd hlarge (by decide)
      have htext : text ≠ "" := by
        rintro rfl
        exact hunsigned rfl
      rw [if_neg htext, if_neg hunsigned, appendDigits_eq (by decide), if_pos hlarge]

/-- Something is wrong with every text that writes no number. -/
theorem isNumeral_or_tells (text : String) :
    (∃ value, IsNumeral text value) ∨ ∃ cause : NumberError, cause.Tells text := by
  by_cases htext : text = ""
  · exact .inr ⟨.empty, htext⟩
  · by_cases hlarge : UInt64.size ≤ leading text
    · exact .inr ⟨.tooLarge, hlarge⟩
    · have hsmall := Nat.not_le.1 hlarge
      by_cases hwrong : unsigned text = [] ∨ (unsigned text).all Char.isDigit = false
      · exact .inr ⟨.invalidDigit, htext, hsmall, hwrong⟩
      · rw [not_or, Bool.not_eq_false] at hwrong
        obtain ⟨hunsigned, hdigits⟩ := hwrong
        have hwhole : (unsigned text).takeWhile Char.isDigit = unsigned text :=
          List.takeWhile_eq_self_iff.2 (List.all_eq_true.1 hdigits)
        rw [leading, hwhole] at hsmall
        exact .inl ⟨_, hunsigned, hdigits, rfl, hsmall⟩

theorem number_eq_ok_iff {text : String} {value : Nat} : number text = .ok value ↔ IsNumeral text value := by
  refine ⟨fun hnumber => ?_, IsNumeral.number_eq⟩
  obtain ⟨other, hnumeral⟩ | ⟨cause, htells⟩ := isNumeral_or_tells text
  · rw [hnumeral.number_eq] at hnumber
    cases hnumber
    exact hnumeral
  · rw [number_eq_of_tells htells] at hnumber
    cases hnumber

instance (text : String) (value : Nat) : Decidable (IsNumeral text value) :=
  decidable_of_iff (number text = .ok value) number_eq_ok_iff

end Options

end LetScript
