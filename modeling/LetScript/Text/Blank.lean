/-!
# Blanks

* `Text.isBlank` — the characters of the Unicode property `White_Space`;
* `Text.trim` — a text without the blanks at its ends.
-/

namespace LetScript.Text

/-- The ranges of the Unicode property `White_Space`, first and last character. -/
def blankRanges : List (Nat × Nat) :=
  [(0x0009, 0x000d), (0x0020, 0x0020), (0x0085, 0x0085), (0x00a0, 0x00a0), (0x1680, 0x1680),
    (0x2000, 0x200a), (0x2028, 0x2029), (0x202f, 0x202f), (0x205f, 0x205f), (0x3000, 0x3000)]

/-- Whether a character has the Unicode property `White_Space`. -/
def isBlank (c : Char) : Bool :=
  blankRanges.any fun (low, high) => low ≤ c.toNat && c.toNat ≤ high

/-- A text without the blanks at its ends. -/
def trim (text : String) : String :=
  let chars := text.toList.dropWhile isBlank
  .ofList (chars.reverse.dropWhile isBlank).reverse

end LetScript.Text
