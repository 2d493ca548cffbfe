import LetScript.Json.Symbol

/-!
# Reading JSON

The symbols of a text are read one by one, with a stack of the arrays and objects that are still
open, so nesting has no limit.

* `Json.Frame` — an open array or object, with what it holds so far;
* `Json.Stage` — what the next symbol may be;
* `Json.step?`, `Json.run?` — the reading of one symbol and of all symbols;
* `Json.ofText?` — the value that a text writes, `none` if it writes none.
-/

namespace LetScript.Json

/-- An array or object that is still open; what it holds stands in reverse. -/
inductive Frame where
  | arr (items : List Json)
  | obj (fields : List (Option String × Json))
  /-- An object that waits for the value of its last name. -/
  | field (fields : List (Option String × Json)) (name : Option String)

/-- What the next symbol may be. -/
inductive Stage where
  /-- A value. -/
  | value
  /-- A value, or the end of the array that was just opened. -/
  | firstItem
  /-- A name, or the end of the object that was just opened. -/
  | firstName
  /-- A name. -/
  | name
  /-- The colon behind a name. -/
  | colon (name : Option String)
  /-- Whatever may stand behind a value. -/
  | behind (value : Json)

/-- A string as a value. -/
def ofString : Option String → Json
  | some value => .str value
  | none => .other

/-- An object; one with a name that no text here writes is no such object. -/
def ofFields (fields : List (Option String × Json)) : Json :=
  match fields.mapM fun (name, value) => name.map (·, value) with
  | some fields => .obj fields
  | none => .other

/-- The start of a value: a scalar is a value at once, a bracket opens a frame. -/
def start? (frames : List Frame) : Symbol → Option (Stage × List Frame)
  | .scalar value => some (.behind value, frames)
  | .text value => some (.behind (ofString value), frames)
  | .openArr => some (.firstItem, .arr [] :: frames)
  | .openObj => some (.firstName, .obj [] :: frames)
  | _ => none

/-- The reading of one symbol, `none` if it may not come next. -/
def step? : Stage → List Frame → Symbol → Option (Stage × List Frame)
  | .firstItem, .arr _ :: frames, .closeArr => some (.behind (.arr []), frames)
  | .firstName, .obj _ :: frames, .closeObj => some (.behind (.obj []), frames)
  | .firstName, frames, .text name => some (.colon name, frames)
  | .name, frames, .text name => some (.colon name, frames)
  | .colon name, .obj fields :: frames, .colon => some (.value, .field fields name :: frames)
  | .behind value, .arr items :: frames, .comma => some (.value, .arr (value :: items) :: frames)
  | .behind value, .arr items :: frames, .closeArr =>
      some (.behind (.arr (value :: items).reverse), frames)
  | .behind value, .field fields name :: frames, .comma =>
      some (.name, .obj ((name, value) :: fields) :: frames)
  | .behind value, .field fields name :: frames, .closeObj =>
      some (.behind (ofFields ((name, value) :: fields).reverse), frames)
  | .value, frames, symbol => start? frames symbol
  | .firstItem, frames, symbol => start? frames symbol
  | _, _, _ => none

/-- The reading of all symbols: at the end there is a value and no open frame. -/
def run? : Stage → List Frame → List Symbol → Option Json
  | .behind value, [], [] => some value
  | _, _, [] => none
  | stage, frames, symbol :: symbols =>
      match step? stage frames symbol with
      | some (stage, frames) => run? stage frames symbols
      | none => none

/-- The value that a text writes. -/
def ofText? (text : String) : Option Json :=
  (Symbol.ofChars? text.toList).bind (run? .value [])

/-- The last field of an object with a given name. -/
def field? (name : String) : Json → Option Json
  | .obj fields => fields.reverse.lookup name
  | _ => none

/-- The text of a value that is a string. -/
def text? : Json → Option String
  | .str value => some value
  | _ => none

/-- The items of a value that is an array. -/
def items? : Json → Option (List Json)
  | .arr items => some items
  | _ => none

/-- The number of a value that counts something: an integer of 64 bits without sign. -/
def count? : Json → Option Nat
  | .int value => if 0 ≤ value ∧ value < 0x10000000000000000 then some value.toNat else none
  | _ => none

/-- The truth value of a value that is one. -/
def bool? : Json → Option Bool
  | .bool value => some value
  | _ => none

end LetScript.Json
