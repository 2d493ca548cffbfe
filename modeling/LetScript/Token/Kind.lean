/-!
# Kinds of token

The kinds into which a script text falls.

* `Kind.label` — the spelling that messages use;
* `Kind.name` — the spelling of the JSON form, read back by `Kind.ofName?`;
* `Kind.ofSymbol?` — the kind that a single character stands for;
* `Kind.ofKeyword?`, `Kind.ofWord` — the kind of a word: a keyword's own, else an identifier's.
-/

namespace LetScript

/-- The kind of a token. -/
inductive Kind where
  /-- Text that starts no token, and a string that is never closed. -/
  | illegal
  /-- The end of the text. -/
  | eof
  | ident
  | int
  | string
  | assign
  | plus
  | minus
  | bang
  | asterisk
  | slash
  | lt
  | gt
  | eq
  | notEq
  | comma
  | semicolon
  | lParen
  | rParen
  | lBrace
  | rBrace
  | function
  | letKey
  | trueKey
  | falseKey
  | ifKey
  | elseKey
  | returnKey
  deriving DecidableEq, Repr, Inhabited

namespace Kind

/-- Every kind, once. -/
def all : List Kind :=
  [illegal, eof, ident, int, string, assign, plus, minus, bang, asterisk, slash, lt, gt, eq, notEq,
    comma, semicolon, lParen, rParen, lBrace, rBrace, function, letKey, trueKey, falseKey, ifKey,
    elseKey, returnKey]

/-- The spelling of a kind in messages: an operator or delimiter stands for itself. -/
def label : Kind → String
  | illegal => "ILLEGAL"
  | eof => "EOF"
  | ident => "IDENT"
  | int => "INT"
  | string => "STRING"
  | assign => "="
  | plus => "+"
  | minus => "-"
  | bang => "!"
  | asterisk => "*"
  | slash => "/"
  | lt => "<"
  | gt => ">"
  | eq => "=="
  | notEq => "!="
  | comma => ","
  | semicolon => ";"
  | lParen => "("
  | rParen => ")"
  | lBrace => "\x7b"
  | rBrace => "\x7d"
  | function => "FUNCTION"
  | letKey => "LET"
  | trueKey => "TRUE"
  | falseKey => "FALSE"
  | ifKey => "IF"
  | elseKey => "ELSE"
  | returnKey => "RETURN"

/-- The spelling of a kind in JSON. -/
def name : Kind → String
  | illegal => "Illegal"
  | eof => "Eof"
  | ident => "Ident"
  | int => "Int"
  | string => "String"
  | assign => "Assign"
  | plus => "Plus"
  | minus => "Minus"
  | bang => "Bang"
  | asterisk => "Asterisk"
  | slash => "Slash"
  | lt => "Lt"
  | gt => "Gt"
  | eq => "Eq"
  | notEq => "NotEq"
  | comma => "Comma"
  | semicolon => "Semicolon"
  | lParen => "LParen"
  | rParen => "RParen"
  | lBrace => "LBrace"
  | rBrace => "RBrace"
  | function => "Function"
  | letKey => "Let"
  | trueKey => "True"
  | falseKey => "False"
  | ifKey => "If"
  | elseKey => "Else"
  | returnKey => "Return"

/-- The kind with a given JSON name. -/
def ofName? (name : String) : Option Kind :=
  all.find? (·.name == name)

/-- The kind of an operator or delimiter of one character. -/
def ofSymbol? : Char → Option Kind
  | '=' => some assign
  | '+' => some plus
  | '-' => some minus
  | '!' => some bang
  | '*' => some asterisk
  | '/' => some slash
  | '<' => some lt
  | '>' => some gt
  | ',' => some comma
  | ';' => some semicolon
  | '(' => some lParen
  | ')' => some rParen
  | '\x7b' => some lBrace
  | '\x7d' => some rBrace
  | _ => none

/-- The words that a script cannot use as names, each with its kind. -/
def keywords : List (String × Kind) :=
  [("fn", function), ("let", letKey), ("true", trueKey), ("false", falseKey), ("if", ifKey),
    ("else", elseKey), ("return", returnKey)]

/-- The kind of a keyword, `none` for any other word. -/
def ofKeyword? (word : String) : Option Kind :=
  keywords.lookup word

/-- The kind of a word: its keyword's, else `ident`. -/
def ofWord (word : String) : Kind :=
  (ofKeyword? word).getD ident

/-- Whether a kind is that of a keyword. -/
def isKeyword (kind : Kind) : Bool :=
  keywords.any (·.2 == kind)

/-- A kind is read back from its JSON name, so no two kinds share one. -/
theorem ofName?_name (kind : Kind) : ofName? kind.name = some kind := by
  cases kind <;> decide

end Kind

end LetScript
