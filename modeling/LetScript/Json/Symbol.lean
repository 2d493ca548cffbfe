import LetScript.Json.Basic

/-!
# The symbols of a JSON text

* `Json.Symbol` — a bracket, a comma, a colon, a text or another scalar;
* `Json.Symbol.first?` — the symbol at the front of a text and what is behind it;
* `Json.Symbol.ofChars?` — the symbols of a text, blanks dropped, `none` if some part is no symbol.
-/

namespace LetScript.Json

/-- A smallest part of a JSON text. -/
inductive Symbol where
  | openArr
  | closeArr
  | openObj
  | closeObj
  | comma
  | colon
  /-- A string, `none` if it holds half of a surrogate pair. -/
  | text (value : Option String)
  /-- A word or a number. -/
  | scalar (value : Json)

/-- The characters that may stand between symbols. -/
def isBlank (c : Char) : Bool :=
  c == ' ' || c == '\t' || c == '\n' || c == '\r'

/-- A part of a string: a character, or a code unit that an escape gives in hexadecimal. -/
inductive Piece where
  | char (c : Char)
  | unit (code : Nat)

/-- The value of a hexadecimal digit. -/
def hexDigit? (c : Char) : Option Nat :=
  if '0' ≤ c ∧ c ≤ '9' then some (c.toNat - '0'.toNat)
  else if 'a' ≤ c ∧ c ≤ 'f' then some (c.toNat - 'a'.toNat + 10)
  else if 'A' ≤ c ∧ c ≤ 'F' then some (c.toNat - 'A'.toNat + 10)
  else none

/-- The value of four hexadecimal digits. -/
def hexCode? (a b c d : Char) : Option Nat := do
  let a ← hexDigit? a
  let b ← hexDigit? b
  let c ← hexDigit? c
  let d ← hexDigit? d
  return ((a * 16 + b) * 16 + c) * 16 + d

/-- The character that a letter stands for behind a backslash. -/
def unescape? : Char → Option Char
  | '"' => some '"'
  | '\\' => some '\\'
  | '/' => some '/'
  | 'b' => some '\x08'
  | 'f' => some '\x0c'
  | 'n' => some '\n'
  | 'r' => some '\r'
  | 't' => some '\t'
  | _ => none

/-- The parts of a string up to its closing quote, and what is behind that. -/
def pieces? : List Char → Option (List Piece × List Char)
  | [] => none
  | '"' :: rest => some ([], rest)
  | '\\' :: 'u' :: a :: b :: c :: d :: rest => do
      let code ← hexCode? a b c d
      let (pieces, behind) ← pieces? rest
      return (.unit code :: pieces, behind)
  | '\\' :: c :: rest => do
      let c ← unescape? c
      let (pieces, behind) ← pieces? rest
      return (.char c :: pieces, behind)
  | c :: rest =>
      if c.toNat < 0x20 then none
      else do
        let (pieces, behind) ← pieces? rest
        return (.char c :: pieces, behind)

/-- The characters of a string.  Two code units of a surrogate pair make one character; half of a
pair makes none. -/
def joinPieces? : List Piece → Option (List Char)
  | [] => some []
  | .char c :: pieces => (joinPieces? pieces).map (c :: ·)
  | .unit code :: pieces =>
      if code.isValidChar then (joinPieces? pieces).map (Char.ofNat code :: ·)
      else
        -- All other code units are halves of surrogate pairs.
        match pieces with
        | .unit low :: pieces =>
            if code < 0xdc00 ∧ 0xdc00 ≤ low ∧ low < 0xe000 then
              (joinPieces? pieces).map
                (Char.ofNat (0x10000 + (code - 0xd800) * 0x400 + (low - 0xdc00)) :: ·)
            else none
        | _ => none

/-- The characters that a number may hold. -/
def isNumberPart (c : Char) : Bool :=
  c.isDigit || c == '-' || c == '+' || c == '.' || c == 'e' || c == 'E'

/-- One digit or more. -/
def areDigits (cs : List Char) : Bool :=
  !cs.isEmpty && cs.all Char.isDigit

/-- An exponent: its letter, a sign or none, and digits. -/
def isExponent : List Char → Bool
  | c :: '+' :: cs => (c == 'e' || c == 'E') && areDigits cs
  | c :: '-' :: cs => (c == 'e' || c == 'E') && areDigits cs
  | c :: cs => (c == 'e' || c == 'E') && areDigits cs
  | [] => false

/-- A fraction, an exponent, or the one behind the other. -/
def isScale : List Char → Bool
  | '.' :: cs =>
      let behind := cs.dropWhile Char.isDigit
      areDigits (cs.takeWhile Char.isDigit) && (behind.isEmpty || isExponent behind)
  | cs => isExponent cs

/-- The number without sign that a text writes: digits without a needless zero, and a scale or
none.  A number with a scale is no integer. -/
def unsigned? (cs : List Char) : Option Json :=
  let digits := cs.takeWhile Char.isDigit
  let behind := cs.dropWhile Char.isDigit
  if digits.isEmpty || (digits.head? == some '0' && digits.tail.length != 0) then none
  else if behind.isEmpty then some (.int (Nat.ofDigitChars 10 digits 0))
  else if isScale behind then some .other
  else none

/-- The number that a text writes.  Minus zero is no integer. -/
def number? : List Char → Option Json
  | '-' :: cs => (unsigned? cs).map fun
      | .int value => if value = 0 then .other else .int (-value)
      | value => value
  | cs => unsigned? cs

namespace Symbol

/-- The symbol at the front of `c :: cs`, which does not start with a blank, and what is behind
it. -/
def first? (c : Char) (cs : List Char) : Option (Symbol × List Char) :=
  match c, cs with
  | '[', cs => some (openArr, cs)
  | ']', cs => some (closeArr, cs)
  | '\x7b', cs => some (openObj, cs)
  | '\x7d', cs => some (closeObj, cs)
  | ',', cs => some (comma, cs)
  | ':', cs => some (colon, cs)
  | '"', cs => (pieces? cs).map fun (pieces, behind) =>
      (text ((joinPieces? pieces).map .ofList), behind)
  | 'n', 'u' :: 'l' :: 'l' :: cs => some (scalar .null, cs)
  | 't', 'r' :: 'u' :: 'e' :: cs => some (scalar (.bool true), cs)
  | 'f', 'a' :: 'l' :: 's' :: 'e' :: cs => some (scalar (.bool false), cs)
  -- No symbol can follow a number without a mark between, so the number takes all it can hold.
  | c, cs =>
      (number? (c :: cs.takeWhile isNumberPart)).map fun value =>
        (scalar value, cs.dropWhile isNumberPart)

end Symbol

theorem pieces?_length_le {cs behind : List Char} {pieces : List Piece}
    (hpieces : pieces? cs = some (pieces, behind)) : behind.length ≤ cs.length := by
  fun_induction pieces? cs generalizing pieces behind with
  | case1 => cases hpieces
  | case2 rest => cases hpieces; simp
  | case3 a b c d rest ih =>
      simp only [Option.pure_def, Option.bind_eq_bind, Option.bind_eq_some_iff] at hpieces
      obtain ⟨_, _, ⟨more, behind'⟩, hmore, heq⟩ := hpieces
      cases heq
      have hle : behind'.length ≤ rest.length := ih hmore
      simp only [List.length_cons]
      omega
  | case4 c rest _ ih =>
      simp only [Option.pure_def, Option.bind_eq_bind, Option.bind_eq_some_iff] at hpieces
      obtain ⟨_, _, ⟨more, behind'⟩, hmore, heq⟩ := hpieces
      cases heq
      have hle : behind'.length ≤ rest.length := ih hmore
      simp only [List.length_cons]
      omega
  | case5 => cases hpieces
  | case6 c rest _ _ _ _ ih =>
      simp only [Option.pure_def, Option.bind_eq_bind, Option.bind_eq_some_iff] at hpieces
      obtain ⟨⟨more, behind'⟩, hmore, heq⟩ := hpieces
      cases heq
      have hle : behind'.length ≤ rest.length := ih hmore
      simp only [List.length_cons]
      omega

theorem Symbol.first?_length_le {c : Char} {cs behind : List Char} {symbol : Symbol}
    (hfirst : first? c cs = some (symbol, behind)) : behind.length ≤ cs.length := by
  unfold first? at hfirst
  split at hfirst
  case h_7 =>
      simp only [Option.map_eq_some_iff] at hfirst
      obtain ⟨⟨pieces, behind'⟩, hpieces, heq⟩ := hfirst
      cases heq
      exact pieces?_length_le hpieces
  case h_11 =>
      simp only [Option.map_eq_some_iff] at hfirst
      obtain ⟨_, _, heq⟩ := hfirst
      cases heq
      exact (List.dropWhile_suffix _).length_le
  all_goals grind

/-- The symbols of a text. -/
def Symbol.ofChars? : List Char → Option (List Symbol)
  | [] => some []
  | c :: cs =>
      if isBlank c then ofChars? cs
      else
        match _hfirst : first? c cs with
        | none => none
        | some (symbol, behind) => (ofChars? behind).map (symbol :: ·)
termination_by cs => cs.length
decreasing_by
  · simp
  · exact Nat.lt_succ_of_le (first?_length_le _hfirst)

end LetScript.Json
