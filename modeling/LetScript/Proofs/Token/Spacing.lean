import LetScript.Grammar.Script
import LetScript.Proofs.Token.Covering

/-!
# Tokens and the gaps between them

Each lexeme takes up as many characters as it can.  So lexemes that are written in a row are read back, whatever
blanks stand between them, unless one could go on with the first character of the next one; and then a blank
has to stand there.

* `Lexeme.isStray`, `Lexeme.IsClosed` — a character that starts no token, and the lexemes that end by themselves.
* `Kind.goesOnWith`, `Kind.needsGap` — the characters with which a lexeme goes on, and the pairs of lexemes that
  may not touch; `Kind.IsLedBy.goesOnWith_eq` says that the two are the same, as `Lexeme.IsClosed.isLedBy` has it.
* `Lexeme.Layout`, `Lexeme.IsLayout` — lexemes with gaps between them, as they may be written.
* `Lexeme.IsClosed.lexes`, `Lexeme.Layout.lexes` — what is written so is read back.
* `Lexeme.first_isClosed`, `Lexes.exists_layout` — every text is written so.
* `Lexeme.layouts_read_alike` — the texts with given tokens are the layouts of these, and hold one program.
-/

namespace LetScript

/-! ## Lexemes as they are written -/

/-- A character that stands in no gap and starts no token. -/
def Lexeme.isStray (c : Char) : Bool :=
  !isBlank c && c != '"' && !c.isDigit && !isNameStart c && (Kind.ofSymbol? c).isNone

/-- The lexemes that end by themselves, wherever in a text they stand. -/
inductive Lexeme.IsClosed : Lexeme → Prop
  | symbol {kind : Kind} (hsymbol : kind.isSymbol = true) : IsClosed ⟨kind, kind.label⟩
  | keyword {word : String} {kind : Kind} (hkeyword : (word, kind) ∈ Kind.keywords) : IsClosed ⟨kind, word⟩
  | name {text : String} (hname : isName text = true) : IsClosed ⟨.ident, text⟩
  | number {text : String} (hnonempty : text.toList ≠ []) (hdigits : text.toList.all Char.isDigit = true) :
      IsClosed ⟨.int, text⟩
  | string {text : String} (hquoted : isQuoted text = true) : IsClosed ⟨.string, text⟩
  | stray {c : Char} (hstray : isStray c = true) : IsClosed ⟨.illegal, .ofList [c]⟩

/-- The string that is left open in front of the given characters. -/
def Lexeme.unclosed (cs : List Char) : Lexeme :=
  ⟨.illegal, .ofList ('"' :: cs)⟩

/-- Whether a lexeme is a name or a keyword. -/
def Kind.isWord (kind : Kind) : Bool :=
  kind == .ident || kind.isKeyword

/-- Whether a lexeme of the first kind may not touch one of the second kind behind it. -/
def Kind.needsGap (first second : Kind) : Bool :=
  first.isWord && (second.isWord || second == .int) ||
    first == .int && second == .int ||
    (first == .assign || first == .bang) && (second == .assign || second == .eq)

/-- Whether a lexeme of a kind goes on with a character. -/
def Kind.goesOnWith (kind : Kind) (c : Char) : Bool :=
  kind.isWord && Lexeme.isNamePart c ||
    kind == .int && c.isDigit ||
    (kind == .assign || kind == .bang) && c == '='

/-- Lexemes with the gaps in front of them, and the gap behind them all, as they may be written: gaps hold blanks,
lexemes touch where they may, and only at the end of the text a string is left open. -/
inductive Lexeme.Layout : List (List Char × Lexeme) → List Char → Prop
  | nil {last : List Char} (hblank : last.all isBlank = true) : Layout [] last
  | unclosed {gap cs : List Char} (hblank : gap.all isBlank = true) (hquotable : cs.all isQuotable = true) :
      Layout [(gap, .unclosed cs)] []
  | closed {gap last : List Char} {lexeme : Lexeme} {placed : List (List Char × Lexeme)}
      (hblank : gap.all isBlank = true) (hclosed : lexeme.IsClosed)
      (hparted : ∀ next ∈ placed.head?, lexeme.kind.needsGap next.2.kind = true → next.1 ≠ [])
      (hrest : Layout placed last) : Layout ((gap, lexeme) :: placed) last

/-- The text is a layout of the lexemes. -/
def Lexeme.IsLayout (ws : List Lexeme) (text : String) : Prop :=
  ∃ placed last, Layout placed last ∧ laidOut placed last = text.toList ∧ placed.map Prod.snd = ws

/-! ## The first character of a lexeme -/

/-- What the first character of a lexeme says of its kind, as far as the lexeme in front of it is concerned. -/
structure Kind.IsLedBy (kind : Kind) (c : Char) : Prop where
  isNamePart_eq : Lexeme.isNamePart c = (kind.isWord || kind == .int)
  isDigit_eq : c.isDigit = (kind == .int)
  isEquals_eq : (c == '=') = (kind == .assign || kind == .eq)

/-- A lexeme goes on with the first character of another one just if the two may not touch. -/
theorem Kind.IsLedBy.goesOnWith_eq {second : Kind} {c : Char} (hled : second.IsLedBy c) (first : Kind) :
    first.goesOnWith c = first.needsGap second := by
  simp only [goesOnWith, needsGap, hled.isNamePart_eq, hled.isDigit_eq, hled.isEquals_eq]

theorem Kind.isLedBy_of_isNameStart {kind : Kind} {c : Char} (hword : kind.isWord = true)
    (hstart : Lexeme.isNameStart c = true) : kind.IsLedBy c := by
  have hothers : (kind == .int) = false ∧ (kind == .assign || kind == .eq) = false := by
    revert hword
    cases kind <;> decide
  refine ⟨?_, ?_, ?_⟩
  · rw [Lexeme.isNamePart_of_isNameStart hstart, hword, Bool.true_or]
  · rw [Lexeme.isDigit_of_isNameStart hstart, hothers.1]
  · rw [hothers.2, beq_eq_false_iff_ne]
    rintro rfl
    exact absurd hstart (by decide)

theorem Kind.isLedBy_digit {c : Char} (hdigit : c.isDigit = true) : Kind.int.IsLedBy c := by
  refine ⟨Lexeme.isNamePart_of_isDigit hdigit, hdigit, ?_⟩
  show (c == '=') = false
  rw [beq_eq_false_iff_ne]
  rintro rfl
  exact absurd hdigit (by decide)

/-- Illegal text can follow anything. -/
theorem Kind.isLedBy_stray {c : Char} (hstray : Lexeme.isStray c = true) : Kind.illegal.IsLedBy c := by
  simp only [Lexeme.isStray, Bool.and_eq_true, Bool.not_eq_true', bne_iff_ne, ne_eq] at hstray
  obtain ⟨⟨⟨⟨-, -⟩, hdigit⟩, hstart⟩, hsymbol⟩ := hstray
  refine ⟨?_, hdigit, ?_⟩
  · simp only [Lexeme.isNameStart, Bool.or_eq_false_iff] at hstart
    simp only [Lexeme.isNamePart, Char.isAlphanum, hdigit, hstart, Bool.or_false]
    rfl
  · show (c == '=') = false
    rw [beq_eq_false_iff_ne]
    rintro rfl
    cases hsymbol

theorem Kind.isWord_of_mem_keywords {word : String} {kind : Kind} (hkeyword : (word, kind) ∈ keywords) :
    kind.isWord = true := by
  have hall : ∀ entry ∈ keywords, entry.2.isWord = true := by decide
  exact hall _ hkeyword

/-- The first character of a lexeme tells a lexeme in front of it what it needs to know. -/
theorem Lexeme.IsClosed.isLedBy {lexeme : Lexeme} (hclosed : lexeme.IsClosed) :
    ∃ c cs, lexeme.spelling = c :: cs ∧ lexeme.kind.IsLedBy c := by
  cases hclosed with
  | @symbol kind hsymbol =>
      cases kind with
      | assign | plus | minus | bang | asterisk | slash | lt | gt | eq | notEq | comma | semicolon
      | lParen | rParen | lBrace | rBrace => exact ⟨_, _, rfl, ⟨by decide, by decide, by decide⟩⟩
      | _ => cases hsymbol
  | @keyword word kind hkeyword =>
      have hkind := Kind.isWord_of_mem_keywords hkeyword
      obtain ⟨c, cs, htext, hstart, -⟩ := exists_of_isWord (isWord_of_mem_keywords hkeyword).1
      have hstring : kind ≠ .string := by
        rintro rfl
        cases hkind
      exact ⟨c, cs, (spelling_of_ne_string word hstring).trans htext, Kind.isLedBy_of_isNameStart hkind hstart⟩
  | @name text hname =>
      obtain ⟨c, cs, htext, hstart⟩ := exists_of_isName hname
      exact ⟨c, cs, htext, Kind.isLedBy_of_isNameStart rfl hstart⟩
  | @number text hnonempty hdigits =>
      obtain ⟨c, cs, htext⟩ := List.exists_cons_of_ne_nil hnonempty
      rw [htext] at hdigits
      exact ⟨c, cs, htext, Kind.isLedBy_digit (Bool.and_eq_true_iff.1 hdigits).1⟩
  | @string text hquoted => exact ⟨'"', text.toList ++ ['"'], rfl, ⟨rfl, rfl, rfl⟩⟩
  | @stray c hstray => exact ⟨c, [], String.toList_ofList, Kind.isLedBy_stray hstray⟩

/-- A string in front of which nothing goes on. -/
theorem Kind.isLedBy_quote : Kind.illegal.IsLedBy '"' :=
  ⟨rfl, rfl, rfl⟩

theorem Kind.needsGap_illegal (first : Kind) : first.needsGap .illegal = false := by
  cases first <;> rfl

theorem Kind.any_goesOnWith_blank (kind : Kind) :
    [' ', '\t', '\n', '\r'].any kind.goesOnWith = false := by
  cases kind <;> rfl

theorem Kind.goesOnWith_of_isWord {kind : Kind} (hword : kind.isWord = true) :
    kind.goesOnWith = Lexeme.isNamePart := by
  funext c
  cases kind with
  | ident | function | letKey | trueKey | falseKey | ifKey | elseKey | returnKey =>
      exact (Bool.or_false _).trans (Bool.or_false _)
  | _ => cases hword

theorem Kind.goesOnWith_int : Kind.int.goesOnWith = Char.isDigit := by
  funext c
  exact Bool.or_false _

/-! ## Layouts are read back -/

section Gaps

variable {gap cs : List Char}

/-- Nothing goes on behind a blank. -/
theorem startsOutside_gap {p : Char → Bool} (hoff : [' ', '\t', '\n', '\r'].any p = false)
    (hblank : gap.all Lexeme.isBlank = true) (houtside : gap = [] → StartsOutside p cs) :
    StartsOutside p (gap ++ cs) := by
  cases gap with
  | nil => exact houtside rfl
  | cons c gap =>
      have hc : Lexeme.isBlank c = true := (Bool.and_eq_true_iff.1 hblank).1
      exact StartsBlank.startsOutside ⟨c, gap ++ cs, rfl, hc⟩ hoff

theorem lexes_gap {ws : List Lexeme} (hblank : gap.all Lexeme.isBlank = true) (hlexes : Lexes cs ws) :
    Lexes (gap ++ cs) ws := by
  induction gap with
  | nil => exact hlexes
  | cons c gap ih =>
      obtain ⟨hc, hgap⟩ := Bool.and_eq_true_iff.1 hblank
      exact lexes_blank hc (ih hgap)

end Gaps

namespace Lexeme

variable {placed : List (List Char × Lexeme)} {last : List Char}

/-- A character that starts no token is one by itself. -/
theorem first_of_isStray {c : Char} (rest : List Char) (hstray : isStray c = true) :
    isBlank c = false ∧ first c rest = (⟨.illegal, .ofList [c]⟩, rest) := by
  simp only [isStray, Bool.and_eq_true, Bool.not_eq_true', bne_iff_ne, ne_eq,
    Option.isNone_iff_eq_none] at hstray
  obtain ⟨⟨⟨⟨hblank, hquote⟩, hdigit⟩, hstart⟩, hsymbol⟩ := hstray
  have hsingle : c = '=' ∨ c = '!' → rest.head? ≠ some '=' := by
    rintro (rfl | rfl)
    · cases hsymbol
    · cases hsymbol
  refine ⟨hblank, ?_⟩
  rw [first_of_single hsingle, if_neg hquote, hdigit, hstart, hsymbol]
  rfl

/-- Written in front of a text that does not go on with it, a lexeme is read back. -/
theorem IsClosed.lexes {lexeme : Lexeme} {rest : List Char} {ws : List Lexeme} (hclosed : lexeme.IsClosed)
    (houtside : StartsOutside lexeme.kind.goesOnWith rest) (hlexes : Lexes rest ws) :
    Lexes (lexeme.spelling ++ rest) (lexeme :: ws) := by
  cases hclosed with
  | @symbol kind hsymbol =>
      have hstring : kind ≠ .string := by
        rintro rfl
        cases hsymbol
      rw [spelling_of_ne_string _ hstring]
      refine lexes_symbol hsymbol ?_ hlexes
      rintro (rfl | rfl)
      · exact houtside
      · exact houtside
  | @keyword word kind hkeyword =>
      have hkind := Kind.isWord_of_mem_keywords hkeyword
      obtain ⟨hword, hofWord⟩ := isWord_of_mem_keywords hkeyword
      have hstring : kind ≠ .string := by
        rintro rfl
        cases hkind
      rw [Kind.goesOnWith_of_isWord hkind] at houtside
      rw [spelling_of_ne_string _ hstring, ← hofWord]
      exact lexes_word hword houtside hlexes
  | @name text hname =>
      rw [Kind.goesOnWith_of_isWord rfl] at houtside
      have hlexes := lexes_word (isWord_of_isName hname) houtside hlexes
      rwa [ofWord_of_isName hname] at hlexes
  | @number text hnonempty hdigits =>
      rw [Kind.goesOnWith_int] at houtside
      exact lexes_digits hnonempty hdigits houtside hlexes
  | @string text hquoted =>
      have hlexes := lexes_string hquoted hlexes
      simpa [spelling] using hlexes
  | @stray c hstray =>
      obtain ⟨hblank, hfirst⟩ := first_of_isStray rest hstray
      have hspelling : (Lexeme.mk .illegal (.ofList [c])).spelling = [c] := String.toList_ofList
      rw [hspelling]
      exact lexes_first hblank hfirst hlexes

theorem spelling_unclosed (cs : List Char) : (unclosed cs).spelling = '"' :: cs :=
  String.toList_ofList

theorem lexes_unclosed {cs : List Char} (hquotable : cs.all isQuotable = true) :
    Lexes ((unclosed cs).spelling ++ []) [unclosed cs] := by
  have hquoted : quoted cs = (unclosed cs, []) := by
    rw [quoted, List.dropWhile_eq_nil_iff.2 (List.all_eq_true.1 hquotable)]
    rfl
  rw [spelling_unclosed, List.append_nil]
  exact lexes_first rfl hquoted lexes_nil

/-- A lexeme of a layout does not go on with what is laid out behind it. -/
theorem Layout.startsOutside {kind : Kind} (hlayout : Layout placed last)
    (hparted : ∀ next ∈ placed.head?, kind.needsGap next.2.kind = true → next.1 ≠ []) :
    StartsOutside kind.goesOnWith (laidOut placed last) := by
  have hoff := kind.any_goesOnWith_blank
  cases hlayout with
  | nil hblank =>
      rw [laidOut, ← List.append_nil last]
      exact startsOutside_gap hoff hblank fun _ => startsOutside_nil _
  | @unclosed gap cs hblank hquotable =>
      rw [laidOut, List.append_assoc]
      refine startsOutside_gap hoff hblank fun _ => ?_
      rw [spelling_unclosed, List.cons_append, startsOutside_cons, Kind.isLedBy_quote.goesOnWith_eq]
      exact kind.needsGap_illegal
  | @closed gap last lexeme placed hblank hclosed _ hrest =>
      rw [laidOut, List.append_assoc]
      refine startsOutside_gap hoff hblank fun hgap => ?_
      obtain ⟨c, cs, hspelling, hled⟩ := hclosed.isLedBy
      rw [hspelling, List.cons_append, startsOutside_cons, hled.goesOnWith_eq, ← Bool.not_eq_true]
      exact fun hneeds => hparted _ rfl hneeds hgap

theorem Layout.lexes (hlayout : Layout placed last) : Lexes (laidOut placed last) (placed.map Prod.snd) := by
  induction hlayout with
  | @nil last hblank =>
      have hlexes := lexes_gap hblank lexes_nil
      rwa [List.append_nil] at hlexes
  | @unclosed gap cs hblank hquotable =>
      rw [laidOut, List.append_assoc]
      exact lexes_gap hblank (lexes_unclosed hquotable)
  | @closed gap last lexeme placed hblank hclosed hparted hrest ih =>
      rw [laidOut, List.append_assoc]
      exact lexes_gap hblank (hclosed.lexes (hrest.startsOutside hparted) ih)

/-! ## Every text is a layout -/

theorem isClosed_word {text : String} (hword : isWord text = true) :
    (Lexeme.mk (Kind.ofWord text) text).IsClosed ∧ (Kind.ofWord text).isWord = true := by
  cases hkeyword : Kind.ofKeyword? text with
  | none =>
      have hname : isName text = true := by rw [isName, hword, hkeyword]; rfl
      rw [ofWord_of_isName hname]
      exact ⟨.name hname, rfl⟩
  | some kind =>
      have hmem := Kind.mem_keywords_of_ofKeyword? hkeyword
      rw [(isWord_of_mem_keywords hmem).2]
      exact ⟨.keyword hmem, Kind.isWord_of_mem_keywords hmem⟩

/-- An operator or delimiter of one character ends behind it, unless an `=` makes it longer. -/
theorem isClosed_symbol {c : Char} {cs : List Char} {kind : Kind} (hkind : Kind.ofSymbol? c = some kind)
    (hsingle : c = '=' ∨ c = '!' → cs.head? ≠ some '=') :
    (Lexeme.mk kind (.ofList [c])).IsClosed ∧ StartsOutside kind.goesOnWith cs := by
  have hequals (hc : c = '=' ∨ c = '!') : StartsOutside (· == '=') cs := by
    intro d hd
    rw [beq_eq_false_iff_ne]
    rintro rfl
    exact hsingle hc hd
  -- Only the arms of `=` and `!` have to look at the character behind.
  unfold Kind.ofSymbol? at hkind
  split at hkind
  case h_1 => cases hkind; exact ⟨@IsClosed.symbol .assign rfl, hequals (.inl rfl)⟩
  case h_4 => cases hkind; exact ⟨@IsClosed.symbol .bang rfl, hequals (.inr rfl)⟩
  case h_15 => cases hkind
  all_goals
    cases hkind
    exact ⟨.symbol rfl, fun _ _ => rfl⟩

/-- Behind a quote there is another one, or the string is left open. -/
theorem quoted_isClosed (cs : List Char) :
    (quoted cs).1.IsClosed ∧ StartsOutside (quoted cs).1.kind.goesOnWith (quoted cs).2 ∨
      ∃ text, text.all isQuotable = true ∧ quoted cs = (unclosed text, []) := by
  rw [quoted]
  split
  · next hrest =>
      refine .inr ⟨cs, ?_, rfl⟩
      exact List.all_eq_true.2 (List.dropWhile_eq_nil_iff.1 hrest)
  · refine .inl ⟨.string ?_, fun _ _ => rfl⟩
    rw [isQuoted, String.toList_ofList]
    exact List.all_takeWhile

/-- The lexeme at the front of a text ends by itself and goes no further, or it is a string that is left
open. -/
theorem first_isClosed (c : Char) (cs : List Char) (hblank : isBlank c = false) :
    (first c cs).1.IsClosed ∧ StartsOutside (first c cs).1.kind.goesOnWith (first c cs).2 ∨
      ∃ quoted, quoted.all isQuotable = true ∧ first c cs = (unclosed quoted, []) := by
  by_cases hdouble : (c = '=' ∨ c = '!') ∧ cs.head? = some '='
  · -- The operators of two characters end behind the second one, whatever comes then.
    obtain ⟨hc, hhead⟩ := hdouble
    obtain ⟨rest, rfl⟩ := List.head?_eq_some_iff.1 hhead
    rcases hc with rfl | rfl
    · exact .inl ⟨@IsClosed.symbol .eq rfl, fun _ _ => rfl⟩
    · exact .inl ⟨@IsClosed.symbol .notEq rfl, fun _ _ => rfl⟩
  have hsingle : c = '=' ∨ c = '!' → cs.head? ≠ some '=' := fun hc hhead => hdouble ⟨hc, hhead⟩
  rw [first_of_single hsingle]
  split
  · exact quoted_isClosed cs
  · next hquote =>
      left
      split
      · next hdigit =>
          refine ⟨.number ?_ ?_, ?_⟩
          · rw [String.toList_ofList]
            exact List.cons_ne_nil c _
          · simp only [String.toList_ofList, List.all_cons, hdigit, List.all_takeWhile, Bool.and_self]
          · rw [Kind.goesOnWith_int]
            exact startsOutside_dropWhile _ cs
      · next hdigit =>
          split
          · next hstart =>
              have hword : isWord (.ofList (c :: cs.takeWhile isNamePart)) = true := by
                simp only [isWord, String.toList_ofList, hstart, List.all_takeWhile, Bool.and_self]
              obtain ⟨hclosed, hkind⟩ := isClosed_word hword
              refine ⟨hclosed, ?_⟩
              rw [Kind.goesOnWith_of_isWord hkind]
              exact startsOutside_dropWhile _ cs
          · next hstart =>
              cases hkind : Kind.ofSymbol? c with
              | some kind => exact isClosed_symbol hkind hsingle
              | none =>
                  refine ⟨.stray ?_, fun _ _ => rfl⟩
                  simp [isStray, hblank, hquote, hdigit, hstart, hkind]

theorem Layout.blank_cons {c : Char} (hblank : isBlank c = true) (hlayout : Layout placed last) :
    ∃ placed' last', Layout placed' last' ∧ laidOut placed' last' = c :: laidOut placed last ∧
      placed'.map Prod.snd = placed.map Prod.snd := by
  have hall {gap : List Char} (hgap : gap.all isBlank = true) : (c :: gap).all isBlank = true :=
    Bool.and_eq_true_iff.2 ⟨hblank, hgap⟩
  cases hlayout with
  | nil hlast => exact ⟨_, _, .nil (hall hlast), rfl, rfl⟩
  | unclosed hgap hquotable => exact ⟨_, _, .unclosed (hall hgap) hquotable, rfl, rfl⟩
  | closed hgap hclosed hparted hrest => exact ⟨_, _, .closed (hall hgap) hclosed hparted hrest, rfl, rfl⟩

/-- A lexeme that does not go on with a layout may touch it. -/
theorem Layout.parted {kind : Kind} (hlayout : Layout placed last)
    (houtside : StartsOutside kind.goesOnWith (laidOut placed last)) :
    ∀ next ∈ placed.head?, kind.needsGap next.2.kind = true → next.1 ≠ [] := by
  intro next hnext hneeds hgap
  cases hlayout with
  | nil => cases hnext
  | unclosed =>
      cases hnext
      have hillegal : kind.needsGap .illegal = true := hneeds
      rw [kind.needsGap_illegal] at hillegal
      cases hillegal
  | closed _ hclosed =>
      cases hnext
      obtain rfl : _ = [] := hgap
      obtain ⟨c, cs, hspelling, hled⟩ := hclosed.isLedBy
      rw [laidOut, List.nil_append, hspelling, List.cons_append, startsOutside_cons, hled.goesOnWith_eq,
        hneeds] at houtside
      cases houtside

end Lexeme

/-- Every text is a layout of its lexemes. -/
theorem Lexes.exists_layout {cs : List Char} {ws : List Lexeme} (hlexes : Lexes cs ws) :
    ∃ placed last, Lexeme.Layout placed last ∧ Lexeme.laidOut placed last = cs ∧ placed.map Prod.snd = ws := by
  have hrow := lexes_induction (motive := fun cs ws =>
    ∃ placed last, Lexeme.Layout placed last ∧ Lexeme.laidOut placed last = cs ∧ placed.map Prod.snd = ws)
    ⟨[], [], .nil rfl, rfl, rfl⟩ ?_ ?_ cs
  · obtain ⟨us, hothers, hlayout⟩ := hrow
    obtain rfl := hlexes.unique hothers
    exact hlayout
  · rintro c cs ws hblank ⟨placed, last, hlayout, rfl, rfl⟩
    exact hlayout.blank_cons hblank
  · rintro c cs ws hblank hrest ⟨placed, last, hlayout, hlaidOut, rfl⟩
    have hgap : ([] : List Char).all Lexeme.isBlank = true := rfl
    rcases Lexeme.first_isClosed c cs hblank with ⟨hclosed, houtside⟩ | ⟨quoted, hquotable, hfirst⟩
    · rw [← hlaidOut] at houtside
      refine ⟨_, last, .closed hgap hclosed (hlayout.parted houtside) hlayout, ?_, rfl⟩
      rw [Lexeme.laidOut, hlaidOut, List.nil_append, Lexeme.first_split]
    · -- Nothing is behind a string that is left open, and so nothing was laid out there.
      rw [hfirst] at hrest
      have hnothing : placed.map Prod.snd = [] := hrest.unique lexes_nil
      have hsplit := Lexeme.first_split c cs
      rw [hfirst, List.append_nil] at hsplit
      refine ⟨_, [], .unclosed hgap hquotable, ?_, ?_⟩
      · rw [Lexeme.laidOut, Lexeme.laidOut, List.append_nil, List.nil_append, hsplit]
      · rw [hfirst, hnothing]
        rfl

/-- A lexeme list is that of a text just if the text is a layout of it. -/
theorem Lexeme.isLayout_iff {ws : List Lexeme} {text : String} :
    IsLayout ws text ↔ (Cursor.ofText text).lexemes = ws := by
  constructor
  · rintro ⟨placed, last, hlayout, htext, rfl⟩
    have hlexes := hlayout.lexes
    rw [htext] at hlexes
    exact hlexes.lexemes_ofText
  · rintro rfl
    exact (lexes_ofText text).exists_layout

/-- The tokens of a text are given ones, with the end token behind them, just if the text is a layout of these;
and all layouts of the same tokens hold the same program, with the same errors. -/
theorem Lexeme.layouts_read_alike (ws : List Lexeme) (text : String) :
    (IsLayout ws text ↔ (Cursor.ofText text).allTokens.map Token.toLexeme = ws ++ [⟨.eof, ""⟩]) ∧
      ∀ other, IsLayout ws text → IsLayout ws other → Parsed.ofText other = Parsed.ofText text := by
  refine ⟨?tokens, ?program⟩
  case tokens =>
    rw [isLayout_iff, Cursor.map_allTokens, List.append_left_inj]
  case program =>
    intro other htext hother
    have hsame := (isLayout_iff.1 hother).trans (isLayout_iff.1 htext).symm
    rw [Parsed.ofText, Parsed.ofText, hsame]

/-- Tokens that touch wherever they may, the last one a string that is left open, and the same tokens apart. -/
theorem Lexeme.touching_tokens_read_alike :
    IsLayout [⟨.int, "05"⟩, ⟨.ident, "x2"⟩, ⟨.notEq, "!="⟩, ⟨.eq, "=="⟩, ⟨.string, "a"⟩, ⟨.illegal, "\"b"⟩]
      "05x2!===\"a\"\"b" ∧
    IsLayout [⟨.int, "05"⟩, ⟨.ident, "x2"⟩, ⟨.notEq, "!="⟩, ⟨.eq, "=="⟩, ⟨.string, "a"⟩, ⟨.illegal, "\"b"⟩]
      " 05 x2\t!=\r\n== \"a\" \"b" ∧
    Parsed.ofText " 05 x2\t!=\r\n== \"a\" \"b" = Parsed.ofText "05x2!===\"a\"\"b" := by
  have htouching : IsLayout _ "05x2!===\"a\"\"b" := isLayout_iff.2 rfl
  have hapart : IsLayout (Cursor.ofText "05x2!===\"a\"\"b").lexemes " 05 x2\t!=\r\n== \"a\" \"b" :=
    isLayout_iff.2 (by decide +kernel)
  have hlexemes : (Cursor.ofText "05x2!===\"a\"\"b").lexemes =
      [⟨.int, "05"⟩, ⟨.ident, "x2"⟩, ⟨.notEq, "!="⟩, ⟨.eq, "=="⟩, ⟨.string, "a"⟩, ⟨.illegal, "\"b"⟩] := by
    decide +kernel
  rw [← hlexemes]
  exact ⟨htouching, hapart, (layouts_read_alike _ _).2 _ htouching hapart⟩

end LetScript
