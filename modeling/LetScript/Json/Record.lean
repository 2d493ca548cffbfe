import LetScript.Json.Basic

/-!
# Records and variants in JSON

* `Json.nestingLimit` — how deep arrays and objects may be nested in what is read as a tree;
* `Json.variant?` — a case of a sum: an object whose only field names the case;
* `Json.case?` — a case to which nothing belongs;
* `Json.record?` — the values of named fields: an object that may hold other fields as well, but none
  of the named ones twice, or an array of just the values in order.
-/

namespace LetScript.Json

/-- How deep arrays and objects may be nested in what is read as a tree.  Fields that are not read may
be nested deeper. -/
def nestingLimit : Nat := 127

/-- The case of a sum that a value gives, and what belongs to it. -/
def variant? : Json → Option (String × Json)
  | obj [(tag, content)] => some (tag, content)
  | _ => none

/-- The name of a case to which nothing belongs: its text, or an object that names it with `null`.
The object needs one of the `levels` of nesting that are left. -/
def case? : (levels : Nat) → Json → Option String
  | _, str name => some name
  | _ + 1, obj [(name, null)] => some name
  | _, _ => none

/-- The value of the only field with a given name: `some none` if there is no such field, `none` if
there are several. -/
def onlyField? (fields : List (String × Json)) (name : String) : Option (Option Json) :=
  match fields.filter (·.1 == name) with
  | [] => some none
  | [(_, value)] => some (some value)
  | _ => none

/-- The values of the fields with the given names, in the order of the names. -/
def record? (names : List String) : Json → Option (List (Option Json))
  | obj fields => names.mapM (onlyField? fields)
  | arr items => if items.length = names.length then some (items.map some) else none
  | _ => none

end LetScript.Json
