import LetScript.Proofs.Tree.WellFormed
import LetScript.Tree.Text
import Mathlib.Data.List.Forall2

/-!
# The lexemes of canonical texts

* `Lexeme.symbol`, `Lexeme.ofInt`, `Lexeme.commaSeparated` — the lexemes that the parts of a canonical
  text fall into.
* `Expr.lexemes`, `Stmt.lexemes`, `Block.lexemes` — those of whole trees, form by form as the text is
  written.
* `Writes` — a text falls into lexemes, in front of any text that does not go on with a name.
* `Expr.writes_text`, `Stmt.writes_text`, `Block.writes_contents` — the canonical text of a spellable tree
  falls into its lexemes.  Negative integers are allowed here; they fall into a sign and a number.
* `Program.lexemes_ofText_text` — whole programs.
-/

namespace LetScript

/-! ## Lexemes of the parts -/

/-- The lexeme of a kind that has one text. -/
def Lexeme.symbol (kind : Kind) : Lexeme :=
  ⟨kind, kind.label⟩

/-- The lexemes of an integer: its digits, behind a sign if it is negative. -/
def Lexeme.ofInt (value : Int64) : List Lexeme :=
  match value.toInt with
  | .ofNat number => [⟨.int, toString number⟩]
  | .negSucc number => [symbol .minus, ⟨.int, toString (number + 1)⟩]

/-- The lexeme of a truth value. -/
def Lexeme.ofBool (value : Bool) : Lexeme :=
  ⟨if value then .trueKey else .falseKey, Text.truthWord value⟩

/-- Lexemes with commas between them. -/
def Lexeme.commaSeparated : List (List Lexeme) → List Lexeme
  | [] => []
  | [ws] => ws
  | ws :: more => ws ++ symbol .comma :: commaSeparated more

/-- The lexeme behind a statement that another one follows. -/
def Stmt.terminatorLexemes : Stmt → List Lexeme
  | .expr _ => [Lexeme.symbol .semicolon]
  | .bind .. | .ret _ => []

/-- Lexemes in braces. -/
def Lexeme.braced (ws : List Lexeme) : List Lexeme :=
  symbol .lBrace :: (ws ++ [symbol .rBrace])

mutual

/-- The lexemes of the canonical text of an expression. -/
def Expr.lexemes : Expr → List Lexeme
  | .name ident => [⟨.ident, ident⟩]
  | .int value => Lexeme.ofInt value
  | .str value => [⟨.string, value⟩]
  | .bool value => [Lexeme.ofBool value]
  | .unary op operand =>
      .symbol .lParen :: .symbol op.kind :: (operand.lexemes ++ [.symbol .rParen])
  | .binary op left right =>
      .symbol .lParen :: (left.lexemes ++ .symbol op.kind :: (right.lexemes ++ [.symbol .rParen]))
  | .cond condition consequence none =>
      ⟨.ifKey, "if"⟩ :: .symbol .lParen :: (condition.lexemes ++ .symbol .rParen ::
        Lexeme.braced (Block.lexemes consequence))
  | .cond condition consequence (some alternative) =>
      ⟨.ifKey, "if"⟩ :: .symbol .lParen :: (condition.lexemes ++ .symbol .rParen ::
        (Lexeme.braced (Block.lexemes consequence) ++
          ⟨.elseKey, "else"⟩ :: Lexeme.braced (Block.lexemes alternative)))
  | .fn parameters body =>
      ⟨.function, "fn"⟩ :: .symbol .lParen ::
        (Lexeme.commaSeparated (parameters.map fun name => [⟨.ident, name⟩]) ++ .symbol .rParen ::
          Lexeme.braced (Block.lexemes body))
  | .call callee arguments =>
      callee.lexemes ++ .symbol .lParen ::
        (Lexeme.commaSeparated (Expr.lexemesEach arguments) ++ [.symbol .rParen])

/-- The lexemes of the canonical text of a statement. -/
def Stmt.lexemes : Stmt → List Lexeme
  | .bind name value =>
      ⟨.letKey, "let"⟩ :: ⟨.ident, name⟩ :: .symbol .assign :: (value.lexemes ++ [.symbol .semicolon])
  | .ret none => [⟨.returnKey, "return"⟩, .symbol .semicolon]
  | .ret (some value) => ⟨.returnKey, "return"⟩ :: (value.lexemes ++ [.symbol .semicolon])
  | .expr value => value.lexemes

/-- The lexemes of the canonical text of statements in a row. -/
def Block.lexemes : List Stmt → List Lexeme
  | [] => []
  | [statement] => statement.lexemes
  | statement :: statements =>
      statement.lexemes ++ (statement.terminatorLexemes ++ Block.lexemes statements)

/-- The lexemes of expressions, one by one. -/
def Expr.lexemesEach : List Expr → List (List Lexeme)
  | [] => []
  | expr :: exprs => expr.lexemes :: Expr.lexemesEach exprs

end

/-! ## Texts of the parts -/

/-- The text falls into the lexemes, in front of any text that does not go on with a name. -/
def Writes (text : String) (us : List Lexeme) : Prop :=
  ∀ ⦃rest : List Char⦄ ⦃ws : List Lexeme⦄, StartsOutside Lexeme.isNamePart rest → Lexes rest ws →
    Lexes (text.toList ++ rest) (us ++ ws)

theorem lexes_space {cs : List Char} {ws : List Lexeme} (hlexes : Lexes cs ws) :
    Lexes (' ' :: cs) ws :=
  lexes_blank rfl hlexes

/-- The kinds of fixed text with which no other text starts. -/
def Kind.isDelimiter (kind : Kind) : Bool :=
  kind.isSymbol && kind != .assign && kind != .bang

/-- What follows a delimiter does not matter. -/
theorem lexes_delimiter (kind : Kind) {rest : List Char} {ws : List Lexeme}
    (hkind : kind.isDelimiter = true) (hlexes : Lexes rest ws) :
    Lexes (kind.label.toList ++ rest) (.symbol kind :: ws) := by
  simp only [Kind.isDelimiter, Bool.and_eq_true, bne_iff_ne] at hkind
  refine lexes_symbol hkind.1.1 ?_ hlexes
  intro heq
  rcases heq with heq | heq
  · exact absurd heq hkind.1.2
  · exact absurd heq hkind.2

theorem writes_word {text : String} {kind : Kind} (hword : Lexeme.isWord text = true)
    (hkind : Kind.ofWord text = kind) : Writes text [⟨kind, text⟩] := by
  intro rest ws houtside hlexes
  rw [← hkind]
  exact lexes_word hword houtside hlexes

theorem writes_name {text : String} (hname : Lexeme.isName text = true) :
    Writes text [⟨.ident, text⟩] :=
  writes_word (Lexeme.isWord_of_isName hname) (Lexeme.ofWord_of_isName hname)

theorem writes_keyword (text : String) (kind : Kind) (hkeyword : (text, kind) ∈ Kind.keywords) :
    Writes text [⟨kind, text⟩] := by
  obtain ⟨hword, hkind⟩ := Lexeme.isWord_of_mem_keywords hkeyword
  exact writes_word hword hkind

theorem writes_number (number : Nat) : Writes (toString number) [⟨.int, toString number⟩] := by
  intro rest ws houtside hlexes
  have hdigits : (toString number).toList = Nat.toDigits 10 number := Nat.toList_repr
  refine lexes_digits ?_ ?_ ?_ hlexes
  · rw [hdigits]
    exact Nat.toDigits_ne_nil
  · rw [hdigits, List.all_eq_true]
    intro c hc
    exact Nat.isDigit_of_mem_toDigits (by decide : 0 < 10) (Nat.le_refl _) hc
  · exact houtside.mono fun c => Lexeme.isNamePart_of_isDigit

theorem writes_decimal (value : Int64) : Writes (Text.decimal value) (Lexeme.ofInt value) := by
  intro rest ws houtside hlexes
  unfold Text.decimal Lexeme.ofInt
  cases hvalue : value.toInt with
  | ofNat number => exact writes_number number houtside hlexes
  | negSucc number =>
      show Lexes (("-" ++ toString (number + 1)).toList ++ rest) _
      rw [String.toList_append, List.append_assoc]
      exact lexes_delimiter .minus rfl (writes_number _ houtside hlexes)

theorem writes_truthWord (value : Bool) :
    Writes (Text.truthWord value) [Lexeme.ofBool value] := by
  cases value with
  | false => exact writes_keyword _ _ (by decide)
  | true => exact writes_keyword _ _ (by decide)

theorem writes_quoted {text : String} (hquoted : Lexeme.isQuoted text = true) :
    Writes ("\"" ++ text ++ "\"") [⟨.string, text⟩] := by
  intro rest ws houtside hlexes
  simp only [String.toList_append, List.append_assoc]
  exact lexes_string hquoted hlexes

theorem writes_commaSeparated {texts : List String} {uss : List (List Lexeme)}
    (hwrites : List.Forall₂ Writes texts uss) :
    Writes (Text.commaSeparated texts) (Lexeme.commaSeparated uss) := by
  intro rest ws houtside hlexes
  induction hwrites with
  | nil => exact hlexes
  | @cons text us texts uss hfirst hothers ih =>
      cases hothers with
      | nil => exact hfirst houtside hlexes
      | cons hsecond hmore =>
          simp only [Text.commaSeparated, Lexeme.commaSeparated, String.toList_append,
            List.append_assoc, List.cons_append] at ih ⊢
          refine hfirst (startsOutside_cons.2 rfl) ?_
          exact lexes_delimiter .comma rfl (lexes_space ih)

theorem writes_names {names : List String} (hnames : names.all Lexeme.isName = true) :
    Writes (Text.commaSeparated names)
      (Lexeme.commaSeparated (names.map fun name => [⟨.ident, name⟩])) := by
  refine writes_commaSeparated ?_
  rw [List.forall₂_map_right_iff, List.forall₂_same]
  intro name hname
  exact writes_name (List.all_eq_true.1 hnames name hname)

/-- A block in braces ends its text itself. -/
theorem Block.lexes_braced {statements : Block} {rest : List Char} {ws : List Lexeme}
    (hcontents : Writes (Block.contents statements) (Block.lexemes statements))
    (hlexes : Lexes rest ws) :
    Lexes ((Block.braced statements (Block.contents statements)).toList ++ rest)
      (Lexeme.braced (Block.lexemes statements) ++ ws) := by
  have hclosing : Lexes (' ' :: '\x7d' :: rest) (.symbol .rBrace :: ws) :=
    lexes_space (lexes_delimiter .rBrace rfl hlexes)
  cases statements with
  | nil => exact lexes_delimiter .lBrace rfl hclosing
  | cons first others =>
      have hinner := hcontents (startsOutside_cons.2 rfl) hclosing
      have hopening := lexes_delimiter .lBrace rfl (lexes_space hinner)
      simpa [Block.braced, Lexeme.braced, Kind.label] using hopening

/-! ## Trees -/

/-- No expression starts with `=`, so a `!` in front of it stays by itself. -/
theorem Expr.startsOutside_text {literal : Int64 → Bool} : ∀ {e : Expr} (rest : List Char),
    e.isSpellable literal = true → StartsOutside (· == '=') (e.text.toList ++ rest)
  | .name ident, rest, hspellable => by
      obtain ⟨c, cs, htext, hstart⟩ := Lexeme.exists_of_isName (by simpa [isSpellable] using hspellable)
      simp only [text, htext, List.cons_append, startsOutside_cons, beq_eq_false_iff_ne]
      rintro rfl
      exact absurd hstart (by decide)
  | .int value, rest, _ => by
      simp only [text, Text.decimal]
      cases value.toInt with
      | ofNat number =>
          show StartsOutside _ ((toString number).toList ++ rest)
          have hdigits : (toString number).toList = Nat.toDigits 10 number := Nat.toList_repr
          obtain ⟨c, cs, htext⟩ := List.exists_cons_of_ne_nil (@Nat.toDigits_ne_nil number 10)
          have hdigit : c.isDigit = true :=
            Nat.isDigit_of_mem_toDigits (by decide : 0 < 10) (Nat.le_refl _)
              (by rw [htext]; exact List.mem_cons_self)
          simp only [hdigits, htext, List.cons_append, startsOutside_cons, beq_eq_false_iff_ne]
          rintro rfl
          exact absurd hdigit (by decide)
      | negSucc number =>
          show StartsOutside _ (("-" ++ toString (number + 1)).toList ++ rest)
          simp
  | .str value, rest, _ => by simp [text]
  | .bool value, rest, _ => by cases value <;> simp [text, Text.truthWord]
  | .unary op operand, rest, _ => by simp [text]
  | .binary op left right, rest, _ => by simp [text]
  | .cond condition consequence none, rest, _ => by simp [text]
  | .cond condition consequence (some alternative), rest, _ => by simp [text]
  | .fn parameters body, rest, _ => by simp [text]
  | .call callee arguments, rest, hspellable => by
      simp only [isSpellable, Bool.and_eq_true] at hspellable
      simp only [text, String.toList_append, List.append_assoc]
      exact startsOutside_text _ hspellable.1

/-- Between two statements stand a semicolon or nothing, and a space. -/
theorem Stmt.lexes_terminator (s : Stmt) {rest : List Char} {ws : List Lexeme}
    (hlexes : Lexes (' ' :: rest) ws) :
    Lexes (s.terminator.toList ++ ' ' :: rest) (s.terminatorLexemes ++ ws) ∧
      StartsOutside Lexeme.isNamePart (s.terminator.toList ++ ' ' :: rest) := by
  cases s with
  | bind name value => exact ⟨hlexes, startsOutside_cons.2 rfl⟩
  | ret value => exact ⟨hlexes, startsOutside_cons.2 rfl⟩
  | expr value =>
      have hterminator := lexes_delimiter .semicolon rfl hlexes
      exact ⟨hterminator, by simp [terminator]; decide⟩

mutual

theorem Expr.writes_text {literal : Int64 → Bool} : ∀ {e : Expr}, e.isSpellable literal = true →
    Writes e.text e.lexemes
  | .name ident, hspellable => by
      simp only [Expr.isSpellable] at hspellable
      simp only [Expr.text, Expr.lexemes]
      exact writes_name hspellable
  | .int value, _ => by
      simp only [Expr.text, Expr.lexemes]
      exact writes_decimal value
  | .str value, hspellable => by
      simp only [Expr.isSpellable] at hspellable
      simp only [Expr.text, Expr.lexemes]
      exact writes_quoted hspellable
  | .bool value, _ => by
      simp only [Expr.text, Expr.lexemes]
      exact writes_truthWord value
  | .unary op operand, hspellable => by
      intro rest ws houtside hlexes
      simp only [Expr.isSpellable] at hspellable
      simp only [Expr.text, Expr.lexemes, String.toList_append, List.append_assoc, List.cons_append]
      have hclosing := lexes_delimiter .rParen rfl hlexes
      have hoperand := Expr.writes_text hspellable (startsOutside_cons.2 rfl) hclosing
      -- The operand follows without a space, and with an `=` in front `!` would become `!=`.
      have hop : Lexes (op.symbol.toList ++ (operand.text.toList ++ (")".toList ++ rest)))
          (.symbol op.kind :: (operand.lexemes ++ .symbol .rParen :: ws)) :=
        lexes_symbol (by cases op <;> rfl) (fun _ => Expr.startsOutside_text _ hspellable) hoperand
      exact lexes_delimiter .lParen rfl hop
  | .binary op left right, hspellable => by
      intro rest ws houtside hlexes
      simp only [Expr.isSpellable, Bool.and_eq_true] at hspellable
      simp only [Expr.text, Expr.lexemes, String.toList_append, List.append_assoc, List.cons_append]
      have hclosing := lexes_delimiter .rParen rfl hlexes
      have hright := Expr.writes_text hspellable.2 (startsOutside_cons.2 rfl) hclosing
      have hop : Lexes (op.symbol.toList ++ ' ' :: (right.text.toList ++ (")".toList ++ rest)))
          (.symbol op.kind :: (right.lexemes ++ .symbol .rParen :: ws)) :=
        lexes_symbol (by cases op <;> rfl) (fun _ => startsOutside_cons.2 rfl) (lexes_space hright)
      have hleft := Expr.writes_text hspellable.1 (startsOutside_cons.2 rfl) (lexes_space hop)
      exact lexes_delimiter .lParen rfl hleft
  | .cond condition consequence none, hspellable => by
      intro rest ws houtside hlexes
      simp only [Expr.isSpellable, Bool.and_eq_true] at hspellable
      simp only [Expr.text, Expr.lexemes, String.toList_append, List.append_assoc, List.cons_append]
      have hconsequence := Block.lexes_braced (Block.writes_contents hspellable.2) hlexes
      have hclosing := lexes_delimiter .rParen rfl (lexes_space hconsequence)
      have hcondition := Expr.writes_text hspellable.1 (startsOutside_cons.2 rfl) hclosing
      have hopening := lexes_delimiter .lParen rfl hcondition
      exact writes_keyword "if" .ifKey (by decide) (startsOutside_cons.2 rfl) (lexes_space hopening)
  | .cond condition consequence (some alternative), hspellable => by
      intro rest ws houtside hlexes
      simp only [Expr.isSpellable, Bool.and_eq_true] at hspellable
      simp only [Expr.text, Expr.lexemes, String.toList_append, List.append_assoc, List.cons_append]
      have halternative := Block.lexes_braced (Block.writes_contents hspellable.2) hlexes
      have helse := writes_keyword "else" .elseKey (by decide) (startsOutside_cons.2 rfl)
        (lexes_space halternative)
      have hconsequence := Block.lexes_braced (Block.writes_contents hspellable.1.2) (lexes_space helse)
      have hclosing := lexes_delimiter .rParen rfl (lexes_space hconsequence)
      have hcondition := Expr.writes_text hspellable.1.1 (startsOutside_cons.2 rfl) hclosing
      have hopening := lexes_delimiter .lParen rfl hcondition
      exact writes_keyword "if" .ifKey (by decide) (startsOutside_cons.2 rfl) (lexes_space hopening)
  | .fn parameters body, hspellable => by
      intro rest ws houtside hlexes
      simp only [Expr.isSpellable, Bool.and_eq_true] at hspellable
      simp only [Expr.text, Expr.lexemes, String.toList_append, List.append_assoc, List.cons_append]
      have hbody := Block.lexes_braced (Block.writes_contents hspellable.2) hlexes
      have hclosing := lexes_delimiter .rParen rfl (lexes_space hbody)
      have hnames := writes_names hspellable.1 (startsOutside_cons.2 rfl) hclosing
      have hopening := lexes_delimiter .lParen rfl hnames
      exact writes_keyword "fn" .function (by decide) (startsOutside_cons.2 rfl) hopening
  | .call callee arguments, hspellable => by
      intro rest ws houtside hlexes
      simp only [Expr.isSpellable, Bool.and_eq_true] at hspellable
      simp only [Expr.text, Expr.lexemes, String.toList_append, List.append_assoc, List.cons_append]
      have hclosing := lexes_delimiter .rParen rfl hlexes
      have harguments := writes_commaSeparated (Expr.writes_texts hspellable.2) (startsOutside_cons.2 rfl)
        hclosing
      have hopening := lexes_delimiter .lParen rfl harguments
      exact Expr.writes_text hspellable.1 (startsOutside_cons.2 rfl) hopening

theorem Stmt.writes_text {literal : Int64 → Bool} : ∀ {s : Stmt}, s.isSpellable literal = true →
    Writes s.text s.lexemes
  | .bind name value, hspellable => by
      intro rest ws houtside hlexes
      simp only [Stmt.isSpellable, Bool.and_eq_true] at hspellable
      simp only [Stmt.text, Stmt.lexemes, String.toList_append, List.append_assoc, List.cons_append]
      have hclosing := lexes_delimiter .semicolon rfl hlexes
      have hvalue := Expr.writes_text hspellable.2 (startsOutside_cons.2 rfl) hclosing
      have hassign : Lexes ('=' :: ' ' :: (value.text.toList ++ (";".toList ++ rest)))
          (.symbol .assign :: (value.lexemes ++ .symbol .semicolon :: ws)) :=
        @lexes_symbol .assign _ _ rfl (fun _ => startsOutside_cons.2 rfl) (lexes_space hvalue)
      have hname := writes_name hspellable.1 (startsOutside_cons.2 rfl) (lexes_space hassign)
      exact writes_keyword "let" .letKey (by decide) (startsOutside_cons.2 rfl) (lexes_space hname)
  | .ret none, _ => by
      intro rest ws houtside hlexes
      simp only [Stmt.text, Stmt.lexemes]
      have hclosing := lexes_delimiter .semicolon rfl hlexes
      exact writes_keyword "return" .returnKey (by decide) (startsOutside_cons.2 rfl) hclosing
  | .ret (some value), hspellable => by
      intro rest ws houtside hlexes
      simp only [Stmt.isSpellable] at hspellable
      simp only [Stmt.text, Stmt.lexemes, String.toList_append, List.append_assoc, List.cons_append]
      have hclosing := lexes_delimiter .semicolon rfl hlexes
      have hvalue := Expr.writes_text hspellable (startsOutside_cons.2 rfl) hclosing
      exact writes_keyword "return" .returnKey (by decide) (startsOutside_cons.2 rfl) (lexes_space hvalue)
  | .expr value, hspellable => by
      simp only [Stmt.isSpellable] at hspellable
      simp only [Stmt.text, Stmt.lexemes]
      exact Expr.writes_text hspellable

theorem Block.writes_contents {literal : Int64 → Bool} : ∀ {statements : Block},
    Block.isSpellable literal statements = true →
      Writes (Block.contents statements) (Block.lexemes statements)
  | [], _ => by
      intro rest ws houtside hlexes
      simpa [Block.contents, Block.lexemes] using hlexes
  | [statement], hspellable => by
      simp only [Block.isSpellable, Bool.and_eq_true] at hspellable
      simp only [Block.contents, Block.lexemes]
      exact Stmt.writes_text hspellable.1
  | statement :: second :: statements, hspellable => by
      intro rest ws houtside hlexes
      have hothers : Block.isSpellable literal (second :: statements) = true := by
        simp only [Block.isSpellable, Bool.and_eq_true] at hspellable ⊢
        exact hspellable.2
      simp only [Block.isSpellable, Bool.and_eq_true] at hspellable
      rw [Block.contents, Block.lexemes]
      simp only [String.toList_append, List.append_assoc]
      have hmore := lexes_space (Block.writes_contents hothers houtside hlexes)
      obtain ⟨hterminator, hends⟩ := statement.lexes_terminator hmore
      exact Stmt.writes_text hspellable.1 hends hterminator
      -- Both equations are for rows of two statements or more.
      all_goals
        intro hnil
        cases hnil

theorem Expr.writes_texts {literal : Int64 → Bool} : ∀ {exprs : List Expr},
    Expr.areSpellable literal exprs = true →
      List.Forall₂ Writes (Expr.texts exprs) (Expr.lexemesEach exprs)
  | [], _ => by
      simp only [Expr.texts, Expr.lexemesEach]
      exact .nil
  | expr :: exprs, hspellable => by
      simp only [Expr.areSpellable, Bool.and_eq_true] at hspellable
      simp only [Expr.texts, Expr.lexemesEach]
      exact .cons (Expr.writes_text hspellable.1) (Expr.writes_texts hspellable.2)

end

theorem Program.lexemes_ofText_text {literal : Int64 → Bool} {program : Program}
    (hspellable : Block.isSpellable literal program.statements = true) :
    (Cursor.ofText program.text).lexemes = Block.lexemes program.statements := by
  have hlexes := Block.writes_contents hspellable (startsOutside_nil _) lexes_nil
  rw [List.append_nil, List.append_nil] at hlexes
  exact hlexes.lexemes_ofText

end LetScript
