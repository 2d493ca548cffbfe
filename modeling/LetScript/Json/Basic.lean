/-!
# JSON values

* `Json` — a value; the fields of an object keep their order, and a name may occur more than once;
* `Json.compact` — the text of a value without blanks;
* `Json.pretty` — the text with an item or field to a line, indented by two spaces.
-/

namespace LetScript

/-- A JSON value. -/
inductive Json where
  | null
  | bool (value : Bool)
  | int (value : Int)
  | str (value : String)
  | arr (items : List Json)
  | obj (fields : List (String × Json))
  /-- A value that no text here writes: a number that is no integer, or text that holds half of a
  surrogate pair. -/
  | other
  deriving Inhabited

namespace Json

/-- The escape of a character in a string: quotes, backslashes and control characters have one, every
other character stands for itself. -/
def escape (c : Char) : List Char :=
  if c = '"' then ['\\', '"']
  else if c = '\\' then ['\\', '\\']
  else if c = '\x08' then ['\\', 'b']
  else if c = '\x0c' then ['\\', 'f']
  else if c = '\n' then ['\\', 'n']
  else if c = '\r' then ['\\', 'r']
  else if c = '\t' then ['\\', 't']
  else if c.toNat < 0x20 then
    ['\\', 'u', '0', '0', Nat.digitChar (c.toNat / 16), Nat.digitChar (c.toNat % 16)]
  else [c]

/-- A string in quotes. -/
def quote (text : String) : String :=
  String.ofList ('"' :: text.toList.flatMap escape ++ ['"'])

mutual

/-- The text of a value without blanks. -/
def compact : Json → String
  | null => "null"
  | bool true => "true"
  | bool false => "false"
  | int value => toString value
  | str value => quote value
  | arr items => "[" ++ compactItems items ++ "]"
  | obj fields => "\x7b" ++ compactFields fields ++ "\x7d"
  | other => "null"

/-- Values with commas between them. -/
def compactItems : List Json → String
  | [] => ""
  | [item] => item.compact
  | item :: items => item.compact ++ "," ++ compactItems items

/-- Fields with commas between them. -/
def compactFields : List (String × Json) → String
  | [] => ""
  | [(name, value)] => quote name ++ ":" ++ value.compact
  | (name, value) :: fields => quote name ++ ":" ++ value.compact ++ "," ++ compactFields fields

end

/-- The start of a line at a depth of nesting. -/
def lineStart (depth : Nat) : String :=
  String.ofList ('\n' :: List.replicate (2 * depth) ' ')

mutual

/-- The text of a value with an item or field to a line, inside `depth` others. -/
def prettyAt (depth : Nat) : Json → String
  | null => "null"
  | bool true => "true"
  | bool false => "false"
  | int value => toString value
  | str value => quote value
  | arr [] => "[]"
  | arr (item :: items) =>
      "[" ++ prettyItems (depth + 1) (item :: items) ++ lineStart depth ++ "]"
  | obj [] => "\x7b\x7d"
  | obj (field :: fields) =>
      "\x7b" ++ prettyFields (depth + 1) (field :: fields) ++ lineStart depth ++ "\x7d"
  | other => "null"

/-- Values on lines of their own, with commas between them. -/
def prettyItems (depth : Nat) : List Json → String
  | [] => ""
  | [item] => lineStart depth ++ item.prettyAt depth
  | item :: items => lineStart depth ++ item.prettyAt depth ++ "," ++ prettyItems depth items

/-- Fields on lines of their own, with commas between them. -/
def prettyFields (depth : Nat) : List (String × Json) → String
  | [] => ""
  | [(name, value)] => lineStart depth ++ quote name ++ ": " ++ value.prettyAt depth
  | (name, value) :: fields =>
      lineStart depth ++ quote name ++ ": " ++ value.prettyAt depth ++ "," ++
        prettyFields depth fields

end

/-- The text of a value with an item or field to a line. -/
def pretty (value : Json) : String := value.prettyAt 0

end Json

end LetScript
