import LetScript.Token.Basic

/-!
# Reading tokens off a text

* `Lexeme.first` — the lexeme at the front of a text and the text behind it; the two together are the
  text again (`Lexeme.first_split`);
* `Cursor` — the unread part of a text and the position of its first character;
* `Cursor.next?` — the next token, `none` when only blanks are left; `Cursor.next` answers with an
  end token instead, however often it is asked;
* `Cursor.tokens` — the tokens before the end; `Cursor.allTokens` adds the end token.
-/

namespace LetScript

namespace Lexeme

/-- The characters that may stand between tokens. -/
def isBlank (c : Char) : Bool :=
  c == ' ' || c == '\t' || c == '\n' || c == '\r'

/-- The characters that may start a name: the ASCII letters and the underscore. -/
def isNameStart (c : Char) : Bool :=
  c.isAlpha || c == '_'

/-- The characters that may go on with a name. -/
def isNamePart (c : Char) : Bool :=
  c.isAlphanum || c == '_'

/-- The characters that may stand in a string. -/
def isQuotable (c : Char) : Bool :=
  c != '"'

/-- The lexeme that starts with a quote, and what is behind it.  A string ends at the next quote;
without one the quote and all the text behind it are illegal. -/
def quoted (cs : List Char) : Lexeme × List Char :=
  match cs.dropWhile isQuotable with
  | [] => (⟨.illegal, .ofList ('"' :: cs)⟩, [])
  | _ :: rest => (⟨.string, .ofList (cs.takeWhile isQuotable)⟩, rest)

/-- The lexeme at the front of `c :: cs`, which does not start with a blank, and what is behind it. -/
def first (c : Char) (cs : List Char) : Lexeme × List Char :=
  match c, cs with
  | '=', '=' :: rest => (⟨.eq, "=="⟩, rest)
  | '!', '=' :: rest => (⟨.notEq, "!="⟩, rest)
  | _, _ =>
      if c = '"' then quoted cs
      else if c.isDigit then
        (⟨.int, .ofList (c :: cs.takeWhile Char.isDigit)⟩, cs.dropWhile Char.isDigit)
      else if isNameStart c then
        let word := String.ofList (c :: cs.takeWhile isNamePart)
        (⟨Kind.ofWord word, word⟩, cs.dropWhile isNamePart)
      else (⟨(Kind.ofSymbol? c).getD .illegal, .ofList [c]⟩, cs)

/-- No word is read as a string. -/
theorem ofWord_ne_string (word : String) : Kind.ofWord word ≠ .string := by
  simp only [Kind.ofWord, Kind.ofKeyword?, Kind.keywords, List.lookup_cons, List.lookup_nil]
  repeat' split
  all_goals simp

theorem ofSymbol?_ne_string (c : Char) : (Kind.ofSymbol? c).getD .illegal ≠ .string := by
  unfold Kind.ofSymbol?
  split <;> simp

theorem spelling_of_ne_string {kind : Kind} (text : String) (hkind : kind ≠ .string) :
    (Lexeme.mk kind text).spelling = text.toList := by
  unfold spelling
  split
  · next h => exact absurd h hkind
  · rfl

theorem quoted_split (cs : List Char) : (quoted cs).1.spelling ++ (quoted cs).2 = '"' :: cs := by
  unfold quoted
  split
  · simp [spelling]
  · next c rest hrest =>
      have hc : c = '"' := by
        have hhead := List.head?_dropWhile_not isQuotable cs
        rw [hrest] at hhead
        simpa [isQuotable] using hhead
      have hcs := List.takeWhile_append_dropWhile (p := isQuotable) (l := cs)
      rw [hrest, hc] at hcs
      simp [spelling, hcs]

theorem quoted_rest_length (cs : List Char) : (quoted cs).2.length ≤ cs.length := by
  unfold quoted
  split
  · exact Nat.zero_le _
  · next hrest =>
      have hle := (List.dropWhile_suffix (l := cs) isQuotable).length_le
      rw [hrest, List.length_cons] at hle
      exact Nat.le_of_succ_le hle

/-- Nothing of a text is lost between its first lexeme and what is behind it. -/
theorem first_split (c : Char) (cs : List Char) :
    (first c cs).1.spelling ++ (first c cs).2 = c :: cs := by
  unfold first
  split
  · simp [spelling]
  · simp [spelling]
  · split
    · next hc => rw [hc, quoted_split]
    · split
      · simp [spelling, List.takeWhile_append_dropWhile]
      · split
        · simp [spelling_of_ne_string _ (ofWord_ne_string _), List.takeWhile_append_dropWhile]
        · rw [spelling_of_ne_string _ (ofSymbol?_ne_string c)]
          simp

/-- A lexeme takes up at least one character. -/
theorem first_rest_length (c : Char) (cs : List Char) :
    (first c cs).2.length ≤ cs.length := by
  unfold first
  split
  · simp
  · simp
  · split
    · exact quoted_rest_length cs
    · split
      · exact (List.dropWhile_suffix _).length_le
      · split
        · exact (List.dropWhile_suffix _).length_le
        · exact Nat.le_refl _

end Lexeme

/-- The unread part of a text, and the position of its first character. -/
structure Cursor where
  rest : List Char
  position : Position := ⟨1, 1⟩
  deriving DecidableEq, Repr

namespace Cursor

/-- The cursor at the start of a text. -/
def ofText (text : String) : Cursor :=
  ⟨text.toList, ⟨1, 1⟩⟩

/-- The position of the first character that is no blank. -/
def tokenPosition (cursor : Cursor) : Position :=
  cursor.position.after (cursor.rest.takeWhile Lexeme.isBlank)

/-- The next token and the cursor behind it, `none` if nothing but blanks is left. -/
def next? (cursor : Cursor) : Option (Token × Cursor) :=
  match cursor.rest.dropWhile Lexeme.isBlank with
  | [] => none
  | c :: cs =>
      let (lexeme, rest) := Lexeme.first c cs
      some (⟨lexeme, cursor.tokenPosition⟩, ⟨rest, cursor.tokenPosition.after lexeme.spelling⟩)

/-- The cursor behind the last character. -/
def finish (cursor : Cursor) : Cursor :=
  ⟨[], cursor.position.after cursor.rest⟩

/-- The token that stands for the end of the text, and lies behind its last character. -/
def endToken (cursor : Cursor) : Token :=
  ⟨⟨.eof, ""⟩, cursor.finish.position⟩

/-- The next token, which is the end token once no other is left. -/
def next (cursor : Cursor) : Token × Cursor :=
  cursor.next?.getD (cursor.endToken, cursor.finish)

/-- A token shortens what is left to read. -/
theorem next?_rest_length {cursor after : Cursor} {token : Token}
    (hnext : cursor.next? = some (token, after)) : after.rest.length < cursor.rest.length := by
  unfold next? at hnext
  split at hnext
  · cases hnext
  · next c cs hrest =>
      cases hnext
      have hfirst := Lexeme.first_rest_length c cs
      have hle := (List.dropWhile_suffix (l := cursor.rest) Lexeme.isBlank).length_le
      rw [hrest, List.length_cons] at hle
      exact Nat.lt_of_le_of_lt hfirst hle

/-- The tokens before the end of the text. -/
def tokens (cursor : Cursor) : List Token :=
  match _hnext : cursor.next? with
  | none => []
  | some (token, after) => token :: after.tokens
termination_by cursor.rest.length
decreasing_by exact next?_rest_length _hnext

theorem tokens_of_next?_none {cursor : Cursor} (hnext : cursor.next? = none) :
    cursor.tokens = [] := by
  rw [tokens]
  split
  · rfl
  · next h => rw [hnext] at h; cases h

theorem tokens_of_next?_some {cursor after : Cursor} {token : Token}
    (hnext : cursor.next? = some (token, after)) : cursor.tokens = token :: after.tokens := by
  rw [tokens]
  split
  · next h => rw [hnext] at h; cases h
  · next h => rw [hnext] at h; cases h; rfl

/-- The tokens of the text, the end token last. -/
def allTokens (cursor : Cursor) : List Token :=
  cursor.tokens ++ [cursor.endToken]

/-- The answers to `count` calls of `next`, and the cursor that they leave. -/
def take (cursor : Cursor) : Nat → List Token × Cursor
  | 0 => ([], cursor)
  | count + 1 =>
      let (token, after) := cursor.next
      let (tokens, last) := after.take count
      (token :: tokens, last)

/-- The kinds and texts of the tokens before the end. -/
def lexemes (cursor : Cursor) : List Lexeme :=
  cursor.tokens.map Token.toLexeme

end Cursor

end LetScript
