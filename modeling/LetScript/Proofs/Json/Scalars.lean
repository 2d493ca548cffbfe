import LetScript.Json.Reading
import LetScript.Proofs.Token.Layout
import Mathlib.Tactic.SplitIfs

/-!
# Strings and numbers in JSON texts

* `Json.escape_cases` — the three ways in which a character is written in a string.
* `Json.pieces?_escape` — the escape of a character is read as one piece, which stands for that character.
* `Json.pieces?_flatMap_escape` — so the escaped characters of a string are read as the string.
* `Json.head?_toDigits` — a decimal numeral starts with a zero only if it is the numeral of zero.
* `Json.toList_toString_cases` — the decimal text of an integer, by its sign.
* `Json.number?_toList` — the decimal text of an integer is read as the integer.
-/

namespace LetScript.Json

/-! ## Strings -/

/-- A piece stands for a character: it adds that character to the string. -/
def Piece.StandsFor (piece : Piece) (c : Char) : Prop :=
  ∀ pieces, joinPieces? (piece :: pieces) = (joinPieces? pieces).map (c :: ·)

theorem Piece.standsFor_char (c : Char) : (Piece.char c).StandsFor c := by
  intro pieces
  rw [joinPieces?]

theorem Piece.standsFor_unit (c : Char) : (Piece.unit c.toNat).StandsFor c := by
  intro pieces
  have hvalid : c.toNat.isValidChar := c.valid
  rw [joinPieces?.eq_def]
  show (if c.toNat.isValidChar then _ else _) = _
  rw [if_pos hvalid, Char.ofNat_toNat]

theorem hexDigit?_digitChar {digit : Nat} (hdigit : digit < 16) :
    hexDigit? digit.digitChar = some digit := by
  have hall : ∀ digit : Fin 16, hexDigit? digit.val.digitChar = some digit.val := by decide
  exact hall ⟨digit, hdigit⟩

theorem hexCode?_of_lt {code : Nat} (hcode : code < 0x20) :
    hexCode? '0' '0' (code / 16).digitChar (code % 16).digitChar = some code := by
  have hzero : hexDigit? '0' = some 0 := by decide
  rw [hexCode?, hexDigit?_digitChar (by omega : code / 16 < 16),
    hexDigit?_digitChar (by omega : code % 16 < 16), hzero]
  show some (((0 * 16 + 0) * 16 + code / 16) * 16 + code % 16) = some code
  exact congrArg some (by omega)

theorem pieces?_backslash {c character : Char} (hunescape : unescape? c = some character)
    (rest : List Char) :
    pieces? ('\\' :: c :: rest) =
      (pieces? rest).map fun (pieces, behind) => (.char character :: pieces, behind) := by
  have hu : c ≠ 'u' := by
    rintro rfl
    cases hunescape
  rw [pieces?.eq_def]
  split
  · next heq => cases heq
  · next heq => cases heq
  · next heq =>
      cases heq
      exact absurd rfl hu
  · next heq =>
      cases heq
      rw [hunescape]
      cases pieces? rest <;> rfl
  · next hother heq =>
      cases heq
      exact absurd rfl (hother c rest rfl)

theorem pieces?_unit {a b c d : Char} {code : Nat} (hcode : hexCode? a b c d = some code)
    (rest : List Char) :
    pieces? ('\\' :: 'u' :: a :: b :: c :: d :: rest) =
      (pieces? rest).map fun (pieces, behind) => (.unit code :: pieces, behind) := by
  rw [pieces?, hcode]
  cases pieces? rest <;> rfl

theorem pieces?_plain {c : Char} (hquote : c ≠ '"') (hbackslash : c ≠ '\\') (hcontrol : 0x20 ≤ c.toNat)
    (rest : List Char) :
    pieces? (c :: rest) =
      (pieces? rest).map fun (pieces, behind) => (.char c :: pieces, behind) := by
  rw [pieces?.eq_def]
  split
  · next heq => cases heq
  · next heq =>
      cases heq
      exact absurd rfl hquote
  · next heq =>
      cases heq
      exact absurd rfl hbackslash
  · next heq =>
      cases heq
      exact absurd rfl hbackslash
  · next heq =>
      cases heq
      rw [if_neg (by omega)]
      cases pieces? rest <;> rfl

/-- A character is escaped by a letter that stands for it or by its code, or it stands for itself. -/
theorem escape_cases (c : Char) :
    (∃ letter, unescape? letter = some c ∧ escape c = ['\\', letter]) ∨
      (c.toNat < 0x20 ∧ escape c =
        ['\\', 'u', '0', '0', Nat.digitChar (c.toNat / 16), Nat.digitChar (c.toNat % 16)]) ∨
      (c ≠ '"' ∧ c ≠ '\\' ∧ 0x20 ≤ c.toNat ∧ escape c = [c]) := by
  have hletter {character letter : Char} (hc : c = character)
      (hunescape : unescape? letter = some character) :
      ∃ letter', unescape? letter' = some c ∧ ['\\', letter] = ['\\', letter'] :=
    ⟨letter, hc ▸ hunescape, rfl⟩
  unfold escape
  split_ifs with hquote hbackslash hb hf hn hr ht hcontrol
  · exact .inl (hletter hquote rfl)
  · exact .inl (hletter hbackslash rfl)
  · exact .inl (hletter hb rfl)
  · exact .inl (hletter hf rfl)
  · exact .inl (hletter hn rfl)
  · exact .inl (hletter hr rfl)
  · exact .inl (hletter ht rfl)
  · exact .inr (.inl ⟨hcontrol, rfl⟩)
  · exact .inr (.inr ⟨hquote, hbackslash, by omega, rfl⟩)

/-- The escape of a character is read as one piece, which stands for the character. -/
theorem pieces?_escape (c : Char) :
    ∃ piece : Piece, piece.StandsFor c ∧ ∀ rest, pieces? (escape c ++ rest) =
      (pieces? rest).map fun (pieces, behind) => (piece :: pieces, behind) := by
  rcases escape_cases c with ⟨letter, hunescape, hescape⟩ | ⟨hcontrol, hescape⟩ |
    ⟨hquote, hbackslash, hcontrol, hescape⟩
  · rw [hescape]
    exact ⟨_, Piece.standsFor_char c, pieces?_backslash hunescape⟩
  · rw [hescape]
    exact ⟨_, Piece.standsFor_unit c, pieces?_unit (hexCode?_of_lt hcontrol)⟩
  · rw [hescape]
    exact ⟨_, Piece.standsFor_char c, pieces?_plain hquote hbackslash hcontrol⟩

/-- The escaped characters of a string are read up to the quote behind them, and give the string. -/
theorem pieces?_flatMap_escape (cs rest : List Char) :
    ∃ pieces, pieces? (cs.flatMap escape ++ '"' :: rest) = some (pieces, rest) ∧
      joinPieces? pieces = some cs := by
  induction cs with
  | nil => exact ⟨[], by rw [List.flatMap_nil, List.nil_append, pieces?], by rw [joinPieces?]⟩
  | cons c cs ih =>
      obtain ⟨pieces, hpieces, hjoin⟩ := ih
      obtain ⟨piece, hstands, hescape⟩ := pieces?_escape c
      refine ⟨piece :: pieces, ?_, ?_⟩
      · rw [List.flatMap_cons, List.append_assoc, hescape, hpieces]
        rfl
      · rw [hstands, hjoin]
        rfl

/-! ## Numbers -/

/-- Only the numeral of zero starts with a zero. -/
theorem head?_toDigits {number : Nat} (hzero : (Nat.toDigits 10 number).head? = some '0') :
    number = 0 := by
  induction number using Nat.strongRecOn with
  | _ number ih =>
      rw [Nat.toDigits_eq_if (by decide)] at hzero
      split at hzero
      · next hsmall =>
          have hall : ∀ digit : Fin 10, digit.val.digitChar = '0' → digit.val = 0 := by decide
          exact hall ⟨number, hsmall⟩ (Option.some.inj hzero)
      · next hlarge =>
          rw [List.head?_append, Option.or_of_isSome
            (List.isSome_head?.2 Nat.toDigits_ne_nil)] at hzero
          have hnone : number / 10 = 0 := ih (number / 10) (by omega) hzero
          omega

theorem isDigit_of_mem_toDigits {number : Nat} {c : Char} (hc : c ∈ Nat.toDigits 10 number) :
    c.isDigit = true :=
  Nat.isDigit_of_mem_toDigits (by decide) (Nat.le_refl _) hc

theorem unsigned?_toDigits (number : Nat) :
    unsigned? (Nat.toDigits 10 number) = some (.int number) := by
  have hall : (Nat.toDigits 10 number).all Char.isDigit = true :=
    List.all_eq_true.2 fun _ => isDigit_of_mem_toDigits
  have htake : (Nat.toDigits 10 number).takeWhile Char.isDigit = Nat.toDigits 10 number := by
    simpa using takeWhile_append_of_startsOutside hall (startsOutside_nil _)
  have hdrop : (Nat.toDigits 10 number).dropWhile Char.isDigit = [] := by
    simpa using dropWhile_append_of_startsOutside hall (startsOutside_nil _)
  have hsome : (Nat.toDigits 10 number).isEmpty = false := by
    rw [List.isEmpty_eq_false_iff]
    exact Nat.toDigits_ne_nil
  have hleading : ((Nat.toDigits 10 number).head? == some '0' &&
      (Nat.toDigits 10 number).tail.length != 0) = false := by
    rw [Bool.and_eq_false_imp, beq_iff_eq]
    intro hhead
    rw [head?_toDigits hhead]
    decide
  simp only [unsigned?, htake, hdrop, hsome, hleading, Nat.ofDigitChars_ten_toDigits]
  rfl

/-- The decimal text of an integer is a numeral, behind a minus sign if the integer is negative. -/
theorem toList_toString_cases (value : Int) :
    (∃ number : Nat, value = number ∧ (toString value).toList = Nat.toDigits 10 number) ∨
      ∃ number : Nat, value = Int.negSucc number ∧
        (toString value).toList = '-' :: Nat.toDigits 10 (number + 1) := by
  have hnumeral : ∀ number : Nat, (toString number).toList = Nat.toDigits 10 number :=
    fun _ => Nat.toList_repr
  cases value with
  | ofNat number => exact .inl ⟨number, rfl, hnumeral number⟩
  | negSucc number =>
      refine .inr ⟨number, rfl, ?_⟩
      show ("-" ++ toString (number + 1)).toList = _
      rw [String.toList_append, hnumeral]
      rfl

/-- The decimal text of an integer is read as the integer. -/
theorem number?_toList (value : Int) : number? (toString value).toList = some (.int value) := by
  rcases toList_toString_cases value with ⟨number, rfl, htext⟩ | ⟨number, rfl, htext⟩
  · rw [htext, number?.eq_def]
    split
    · next cs hcs =>
        have hminus : '-' ∈ Nat.toDigits 10 number := by
          rw [hcs]
          exact List.mem_cons_self
        exact absurd (isDigit_of_mem_toDigits hminus) (by decide)
    · exact unsigned?_toDigits number
  · rw [htext]
    show (unsigned? (Nat.toDigits 10 (number + 1))).map _ = _
    rw [unsigned?_toDigits]
    -- A numeral behind a minus sign is not that of zero, which would be no integer.
    show some (if ((number + 1 : Nat) : Int) = 0 then Json.other else _) = _
    rw [if_neg (by omega)]
    rfl

/-- Every character of the decimal text of an integer may stand in a number. -/
theorem toList_toString_isNumberPart (value : Int) :
    (toString value).toList.all isNumberPart = true := by
  have hnumeral : ∀ number : Nat, (Nat.toDigits 10 number).all isNumberPart = true := by
    intro number
    rw [List.all_eq_true]
    intro c hc
    simp [isNumberPart, isDigit_of_mem_toDigits hc]
  rcases toList_toString_cases value with ⟨number, -, htext⟩ | ⟨number, -, htext⟩
  · rw [htext, hnumeral]
  · rw [htext, List.all_cons, hnumeral]
    rfl

/-- The decimal text of an integer starts with a digit or a minus sign. -/
theorem exists_toList_toString (value : Int) :
    ∃ c cs, (toString value).toList = c :: cs ∧ (c.isDigit = true ∨ c = '-') := by
  rcases toList_toString_cases value with ⟨number, -, htext⟩ | ⟨number, -, htext⟩
  · obtain ⟨c, cs, hdigits⟩ := List.exists_cons_of_ne_nil (@Nat.toDigits_ne_nil number 10)
    have hdigit : c.isDigit = true :=
      isDigit_of_mem_toDigits (by rw [hdigits]; exact List.mem_cons_self)
    exact ⟨c, cs, htext.trans hdigits, .inl hdigit⟩
  · exact ⟨'-', _, htext, .inr rfl⟩

end LetScript.Json
