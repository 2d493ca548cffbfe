/-!
# Spellings

* `Text.decimal`, `Text.truthWord` — the texts of an integer and of a truth value;
* `Text.commaSeparated` — texts in a row with commas between them.
-/

namespace LetScript.Text

/-- The text of a 64-bit integer in decimal, with a minus sign if it is negative. -/
def decimal (value : Int64) : String := toString value.toInt

/-- The text of a truth value. -/
def truthWord (value : Bool) : String := if value then "true" else "false"

/-- Texts with a comma and a space between them. -/
def commaSeparated : List String → String
  | [] => ""
  | [text] => text
  | text :: texts => text ++ ", " ++ commaSeparated texts

end LetScript.Text
