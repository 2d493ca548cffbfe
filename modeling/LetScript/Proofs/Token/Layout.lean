import LetScript.Token.Cursor

/-!
# The lexemes of a text, one by one

What a text falls into does not depend on where it stands, and its first lexeme depends only on the
characters up to the one that ends it.

* `Lexes` — a text falls into lexemes, at any position.
* `lexes_blank`, `lexes_first` — a blank is skipped, any other character starts a lexeme.
* `StartsOutside` — the text behind a word or a number does not go on with it.
* `Lexeme.isWord`, `Kind.isSymbol` — the texts of names and keywords, and the kinds with one fixed text.
* `lexes_word`, `lexes_digits`, `lexes_string`, `lexes_symbol` — one lemma for each shape of lexeme:
  written in front of a text, it is the lexeme in front of those of the text.
-/

namespace LetScript

/-- A text falls into the lexemes, wherever it stands. -/
def Lexes (cs : List Char) (ws : List Lexeme) : Prop :=
  ∀ position : Position, (Cursor.mk cs position).lexemes = ws

theorem Lexes.lexemes_ofText {text : String} {ws : List Lexeme} (hlexes : Lexes text.toList ws) :
    (Cursor.ofText text).lexemes = ws :=
  hlexes _

theorem lexes_nil : Lexes [] [] := by
  intro position
  have hnext : (Cursor.mk [] position).next? = none := rfl
  rw [Cursor.lexemes, Cursor.tokens_of_next?_none hnext, List.map_nil]

theorem lexes_blank {c : Char} {cs : List Char} {ws : List Lexeme} (hblank : Lexeme.isBlank c = true)
    (hlexes : Lexes cs ws) : Lexes (c :: cs) ws := by
  intro position
  have hdrop : (c :: cs).dropWhile Lexeme.isBlank = cs.dropWhile Lexeme.isBlank :=
    List.dropWhile_cons_of_pos hblank
  have hposition : (Cursor.mk (c :: cs) position).tokenPosition =
      (Cursor.mk cs (position.step c)).tokenPosition := by
    simp only [Cursor.tokenPosition, List.takeWhile_cons_of_pos hblank, Position.after_cons]
  have hnext : (Cursor.mk (c :: cs) position).next? =
      (Cursor.mk cs (position.step c)).next? := by
    simp only [Cursor.next?, hdrop, hposition]
  have htokens : (Cursor.mk (c :: cs) position).tokens =
      (Cursor.mk cs (position.step c)).tokens := by
    cases hfirst : (Cursor.mk cs (position.step c)).next? with
    | none =>
        rw [Cursor.tokens_of_next?_none hfirst, Cursor.tokens_of_next?_none (hnext.trans hfirst)]
    | some answer =>
        rw [Cursor.tokens_of_next?_some hfirst, Cursor.tokens_of_next?_some (hnext.trans hfirst)]
  rw [Cursor.lexemes, htokens]
  exact hlexes (position.step c)

theorem lexes_first {c : Char} {cs rest : List Char} {lexeme : Lexeme} {ws : List Lexeme}
    (hblank : Lexeme.isBlank c = false) (hfirst : Lexeme.first c cs = (lexeme, rest))
    (hlexes : Lexes rest ws) : Lexes (c :: cs) (lexeme :: ws) := by
  intro position
  have hdrop : (c :: cs).dropWhile Lexeme.isBlank = c :: cs :=
    List.dropWhile_cons_of_neg (by rw [hblank]; decide)
  have hnext : (Cursor.mk (c :: cs) position).next? =
      some (⟨lexeme, (Cursor.mk (c :: cs) position).tokenPosition⟩,
        ⟨rest, (Cursor.mk (c :: cs) position).tokenPosition.after lexeme.spelling⟩) := by
    simp only [Cursor.next?, hdrop, hfirst]
  rw [Cursor.lexemes, Cursor.tokens_of_next?_some hnext, List.map_cons]
  exact congrArg (lexeme :: ·) (hlexes _)

/-! ## Where a lexeme ends -/

/-- The text does not start with a character of the class. -/
def StartsOutside (p : Char → Bool) (cs : List Char) : Prop :=
  ∀ c ∈ cs.head?, p c = false

@[simp] theorem startsOutside_nil (p : Char → Bool) : StartsOutside p [] := by
  intro c hc
  cases hc

@[simp] theorem startsOutside_cons {p : Char → Bool} {c : Char} {cs : List Char} :
    StartsOutside p (c :: cs) ↔ p c = false := by
  simp [StartsOutside]

theorem StartsOutside.mono {p q : Char → Bool} {cs : List Char} (houtside : StartsOutside p cs)
    (hsub : ∀ c, q c = true → p c = true) : StartsOutside q cs := by
  intro c hc
  have hp := houtside c hc
  cases hq : q c with
  | false => rfl
  | true => rw [hsub c hq] at hp; cases hp

theorem startsOutside_dropWhile (p : Char → Bool) (cs : List Char) : StartsOutside p (cs.dropWhile p) := by
  intro c hc
  have hhead := List.head?_dropWhile_not p cs
  rw [Option.mem_def.1 hc] at hhead
  simpa using hhead

/-- A run of characters of a class ends where the text behind it starts outside the class. -/
theorem takeWhile_append_of_startsOutside {p : Char → Bool} {us cs : List Char}
    (hall : us.all p = true) (houtside : StartsOutside p cs) : (us ++ cs).takeWhile p = us := by
  rw [List.takeWhile_append_of_pos (by simpa using hall)]
  cases cs with
  | nil => simp
  | cons c cs => simp [startsOutside_cons.1 houtside]

theorem dropWhile_append_of_startsOutside {p : Char → Bool} {us cs : List Char}
    (hall : us.all p = true) (houtside : StartsOutside p cs) : (us ++ cs).dropWhile p = cs := by
  rw [List.dropWhile_append_of_pos (by simpa using hall)]
  cases cs with
  | nil => simp
  | cons c cs => simp [startsOutside_cons.1 houtside]

/-! ## The shapes of lexemes -/

/-- The text of a name or a keyword. -/
def Lexeme.isWord (text : String) : Bool :=
  match text.toList with
  | [] => false
  | c :: cs => isNameStart c && cs.all isNamePart

theorem Lexeme.exists_of_isWord {text : String} (hword : isWord text = true) :
    ∃ c cs, text.toList = c :: cs ∧ isNameStart c = true ∧ cs.all isNamePart = true := by
  unfold isWord at hword
  split at hword
  · cases hword
  · next c cs htext => exact ⟨c, cs, htext, Bool.and_eq_true_iff.1 hword⟩

theorem Lexeme.isWord_of_mem_keywords {word : String} {kind : Kind}
    (hkeyword : (word, kind) ∈ Kind.keywords) : isWord word = true ∧ Kind.ofWord word = kind := by
  have hall : ∀ entry ∈ Kind.keywords, isWord entry.1 = true ∧ Kind.ofWord entry.1 = entry.2 := by
    decide
  exact hall _ hkeyword

/-- The kinds of the operators and delimiters, each of which has one fixed text. -/
def Kind.isSymbol : Kind → Bool
  | assign | plus | minus | bang | asterisk | slash | lt | gt | eq | notEq | comma | semicolon
  | lParen | rParen | lBrace | rBrace => true
  | _ => false

theorem Lexeme.isNamePart_of_isDigit {c : Char} (hdigit : c.isDigit = true) :
    isNamePart c = true := by
  simp [isNamePart, Char.isAlphanum, hdigit]

theorem Lexeme.isNamePart_of_isNameStart {c : Char} (hstart : isNameStart c = true) :
    isNamePart c = true := by
  simp only [isNameStart, isNamePart, Char.isAlphanum, Bool.or_eq_true] at hstart ⊢
  rcases hstart with halpha | hunderscore
  · exact .inl (.inl halpha)
  · exact .inr hunderscore

/-- No name starts with a digit. -/
theorem Lexeme.isDigit_of_isNameStart {c : Char} (hstart : isNameStart c = true) :
    c.isDigit = false := by
  cases hc : c.isDigit with
  | false => rfl
  | true =>
      delta isNameStart Char.isAlpha Char.isUpper Char.isLower at hstart
      simp only [Char.isDigit, Bool.or_eq_true, Bool.and_eq_true, decide_eq_true_eq,
        beq_iff_eq] at hstart hc
      rcases hstart with (hupper | hlower) | rfl
      · have := UInt32.le_trans hupper.1 hc.2
        exact absurd this (by decide)
      · have := UInt32.le_trans hlower.1 hc.2
        exact absurd this (by decide)
      · exact absurd hc.2 (by decide)

/-- A character that can start a name starts no other lexeme. -/
theorem Lexeme.first_of_isNameStart {c : Char} (cs : List Char) (hstart : isNameStart c = true) :
    first c cs =
      (⟨Kind.ofWord (.ofList (c :: cs.takeWhile isNamePart)),
        .ofList (c :: cs.takeWhile isNamePart)⟩, cs.dropWhile isNamePart) := by
  have hquote : c ≠ '"' := by
    rintro rfl
    exact absurd hstart (by decide)
  have hdigit : ¬ c.isDigit = true := by
    rw [isDigit_of_isNameStart hstart]
    decide
  unfold first
  split
  · exact absurd hstart (by decide)
  · exact absurd hstart (by decide)
  · rw [if_neg hquote, if_neg hdigit, if_pos hstart]

/-- A character of a class that no blank is in is no blank. -/
theorem Lexeme.isBlank_eq_false {p : Char → Bool} {c : Char}
    (hoff : [' ', '\t', '\n', '\r'].any p = false) (hc : p c = true) : isBlank c = false := by
  cases hblank : isBlank c with
  | false => rfl
  | true =>
      have hmem : c ∈ [' ', '\t', '\n', '\r'] := by
        simpa [isBlank, or_assoc] using hblank
      rw [List.any_eq_false] at hoff
      exact absurd hc (hoff c hmem)

theorem lexes_word {text : String} {rest : List Char} {ws : List Lexeme}
    (hword : Lexeme.isWord text = true) (houtside : StartsOutside Lexeme.isNamePart rest)
    (hlexes : Lexes rest ws) : Lexes (text.toList ++ rest) (⟨Kind.ofWord text, text⟩ :: ws) := by
  obtain ⟨c, cs, htext, hstart, hall⟩ := Lexeme.exists_of_isWord hword
  have hofList : String.ofList (c :: cs) = text := by rw [← htext, String.ofList_toList]
  have hfirst : Lexeme.first c (cs ++ rest) = (⟨Kind.ofWord text, text⟩, rest) := by
    rw [Lexeme.first_of_isNameStart _ hstart, takeWhile_append_of_startsOutside hall houtside,
      dropWhile_append_of_startsOutside hall houtside, hofList]
  rw [htext]
  exact lexes_first (Lexeme.isBlank_eq_false rfl hstart) hfirst hlexes

theorem Lexeme.first_of_isDigit {c : Char} (cs : List Char) (hdigit : c.isDigit = true) :
    first c cs = (⟨.int, .ofList (c :: cs.takeWhile Char.isDigit)⟩, cs.dropWhile Char.isDigit) := by
  have hquote : c ≠ '"' := by
    rintro rfl
    exact absurd hdigit (by decide)
  unfold first
  split
  · exact absurd hdigit (by decide)
  · exact absurd hdigit (by decide)
  · rw [if_neg hquote, if_pos hdigit]

theorem lexes_digits {text : String} {rest : List Char} {ws : List Lexeme}
    (hnonempty : text.toList ≠ []) (hdigits : text.toList.all Char.isDigit = true)
    (houtside : StartsOutside Char.isDigit rest) (hlexes : Lexes rest ws) :
    Lexes (text.toList ++ rest) (⟨.int, text⟩ :: ws) := by
  obtain ⟨c, cs, htext⟩ := List.exists_cons_of_ne_nil hnonempty
  have hofList : String.ofList (c :: cs) = text := by rw [← htext, String.ofList_toList]
  rw [htext] at hdigits
  obtain ⟨hdigit, hall⟩ := Bool.and_eq_true_iff.1 hdigits
  have hfirst : Lexeme.first c (cs ++ rest) = (⟨.int, text⟩, rest) := by
    rw [Lexeme.first_of_isDigit _ hdigit, takeWhile_append_of_startsOutside hall houtside,
      dropWhile_append_of_startsOutside hall houtside, hofList]
  rw [htext]
  exact lexes_first (Lexeme.isBlank_eq_false rfl hdigit) hfirst hlexes

theorem lexes_string {text : String} {rest : List Char} {ws : List Lexeme}
    (hquotable : text.toList.all Lexeme.isQuotable = true) (hlexes : Lexes rest ws) :
    Lexes ('"' :: (text.toList ++ '"' :: rest)) (⟨.string, text⟩ :: ws) := by
  have houtside : StartsOutside Lexeme.isQuotable ('"' :: rest) := startsOutside_cons.2 rfl
  have hfirst : Lexeme.first '"' (text.toList ++ '"' :: rest) = (⟨.string, text⟩, rest) := by
    show Lexeme.quoted (text.toList ++ '"' :: rest) = _
    unfold Lexeme.quoted
    rw [dropWhile_append_of_startsOutside hquotable houtside,
      takeWhile_append_of_startsOutside hquotable houtside, String.ofList_toList]
  exact lexes_first rfl hfirst hlexes

/-- An `=` or a `!` with no other `=` behind it is a symbol by itself. -/
theorem Lexeme.first_of_startsOutside {c : Char} {rest : List Char} (hc : c = '=' ∨ c = '!')
    (houtside : StartsOutside (· == '=') rest) :
    first c rest = (⟨(Kind.ofSymbol? c).getD .illegal, .ofList [c]⟩, rest) := by
  unfold first
  split
  · exact absurd (startsOutside_cons.1 houtside) (by decide)
  · exact absurd (startsOutside_cons.1 houtside) (by decide)
  · rcases hc with rfl | rfl
    · rfl
    · rfl

/-- Only behind `=` and `!` it matters what follows: another `=` would become part of the operator. -/
theorem lexes_symbol {kind : Kind} {rest : List Char} {ws : List Lexeme}
    (hkind : kind.isSymbol = true)
    (houtside : kind = .assign ∨ kind = .bang → StartsOutside (· == '=') rest)
    (hlexes : Lexes rest ws) : Lexes (kind.label.toList ++ rest) (⟨kind, kind.label⟩ :: ws) := by
  cases kind with
  | assign =>
      have hfirst := Lexeme.first_of_startsOutside (.inl rfl) (houtside (.inl rfl))
      exact lexes_first rfl hfirst hlexes
  | bang =>
      have hfirst := Lexeme.first_of_startsOutside (.inr rfl) (houtside (.inr rfl))
      exact lexes_first rfl hfirst hlexes
  | eq | notEq | plus | minus | asterisk | slash | lt | gt | comma | semicolon | lParen | rParen
  | lBrace | rBrace => exact lexes_first rfl rfl hlexes
  | _ => cases hkind

end LetScript
