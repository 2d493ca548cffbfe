/-!
# Lines of bytes

* `Text.lines` — bytes cut at newlines, without the newlines and without a carriage return before one;
* `Text.ofUtf8?` — the text that bytes encode in UTF-8.
-/

namespace LetScript.Text

/-- A line without a carriage return at its end. -/
def dropReturn (line : List UInt8) : List UInt8 :=
  if line.getLast? = some 0x0d then line.dropLast else line

/-- The lines of bytes.  A newline ends a line, so what follows the last one is a line only if it is
not empty. -/
def lines (bytes : List UInt8) : List (List UInt8) :=
  let line := bytes.takeWhile (· != 0x0a)
  match _hrest : bytes.dropWhile (· != 0x0a) with
  | [] => if line.isEmpty then [] else [line]
  | _ :: rest => dropReturn line :: lines rest
termination_by bytes.length
decreasing_by
  have hle := (List.dropWhile_suffix (l := bytes) (· != 0x0a)).length_le
  rw [_hrest, List.length_cons] at hle
  exact hle

/-- The text that bytes encode in UTF-8, `none` if they encode none. -/
def ofUtf8? (bytes : List UInt8) : Option String :=
  String.fromUTF8? ⟨bytes.toArray⟩

end LetScript.Text
