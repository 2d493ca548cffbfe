import LetScript.Proofs.Token.Shapes

/-!
# Tokens cover the text

A text is its tokens with blanks between them: nothing else is left out, and nothing is read twice.

* `Lexeme.laidOut` — the characters of lexemes, each behind a gap of its own.
* `Lexeme.Covers` — a text is laid out so, with gaps of blanks, and only at its end a string is left open.
* `Lexes.exists_covers` — the lexemes of every text cover it.
* `Lexeme.HasShape.spelling_ne_nil` — every lexeme takes up a character, so there are not more of them.
* `Cursor.take_length_tokens` — asked once more than there are tokens, a cursor has given all of them and the
  end token.
* `Cursor.tokens_take`, `Cursor.lexemes_take` — the tokens behind those that a cursor has given.
* `Cursor.allTokens_cover` — all this of the tokens of a text.
-/

namespace LetScript

namespace Lexeme

/-- The characters of lexemes, each with the gap in front of it, and those of the gap behind them all. -/
def laidOut : List (List Char × Lexeme) → List Char → List Char
  | [], last => last
  | (gap, lexeme) :: placed, last => gap ++ lexeme.spelling ++ laidOut placed last

/-- The lexemes stand in the text, in their order and with nothing but blanks between them.  Illegal text is
one character, or a quote with all the text behind it. -/
structure Covers (placed : List (List Char × Lexeme)) (last cs : List Char) (ws : List Lexeme) : Prop where
  lexemes : placed.map Prod.snd = ws
  text : laidOut placed last = cs
  blank : ∀ gap ∈ last :: placed.map Prod.fst, gap.all isBlank = true
  illegal : ∀ before gap lexeme behind, placed = before ++ (gap, lexeme) :: behind →
    lexeme.kind = .illegal →
      (∃ c, c ≠ '"' ∧ lexeme.text.toList = [c]) ∨
        (∃ quoted, lexeme.text.toList = '"' :: quoted) ∧ behind = [] ∧ last = []

/-! ## One lexeme -/

/-- A string that is not closed takes up the whole text. -/
theorem quoted_rest_of_illegal {cs : List Char} (hkind : (quoted cs).1.kind = .illegal) :
    (quoted cs).2 = [] := by
  unfold quoted at hkind ⊢
  split
  · rfl
  · next hrest =>
      rw [hrest] at hkind
      cases hkind

theorem first_rest_of_illegal {c : Char} {cs : List Char} (hkind : (first c cs).1.kind = .illegal) :
    (∃ d, d ≠ '"' ∧ (first c cs).1.text.toList = [d]) ∨
      (∃ quoted, (first c cs).1.text.toList = '"' :: quoted) ∧ (first c cs).2 = [] := by
  have hshape := first_hasShape c cs
  have hsplit := first_split c cs
  rw [HasShape, hkind] at hshape
  rw [spelling, hkind] at hsplit
  by_cases hquote : c = '"'
  · subst hquote
    refine .inr ⟨?_, quoted_rest_of_illegal hkind⟩
    rcases hshape with ⟨d, htext⟩ | ⟨ds, htext, -⟩
    · rw [htext] at hsplit
      obtain ⟨rfl, -⟩ := List.cons.inj hsplit
      exact ⟨[], htext⟩
    · exact ⟨ds, htext⟩
  · rcases hshape with ⟨d, htext⟩ | ⟨ds, htext, -⟩
    · rw [htext] at hsplit
      obtain ⟨rfl, -⟩ := List.cons.inj hsplit
      exact .inl ⟨d, hquote, htext⟩
    · rw [htext] at hsplit
      exact absurd (List.cons.inj hsplit).1.symm hquote

theorem ne_nil_of_isWord {text : String} (hword : isWord text = true) : text.toList ≠ [] := by
  intro hnil
  rw [isWord, hnil] at hword
  cases hword

theorem HasShape.spelling_ne_nil {lexeme : Lexeme} (hshape : lexeme.HasShape) : lexeme.spelling ≠ [] := by
  have hlabel (kind : Kind) : kind.label.toList ≠ [] := by cases kind <;> decide
  have hkeywords : ∀ entry ∈ Kind.keywords, entry.1.toList ≠ [] := by decide
  obtain ⟨kind, text⟩ := lexeme
  cases kind with
  | string => exact List.cons_ne_nil _ _
  | ident => exact ne_nil_of_isWord (Bool.and_eq_true_iff.1 hshape).1
  | int => exact hshape.1
  | illegal =>
      show text.toList ≠ []
      rcases hshape with ⟨c, htext⟩ | ⟨cs, htext, -⟩
      · rw [show text.toList = [c] from htext]
        exact List.cons_ne_nil _ _
      · rw [show text.toList = '"' :: cs from htext]
        exact List.cons_ne_nil _ _
  | eof => exact hshape.elim
  | _ =>
      rcases hshape with ⟨-, htext⟩ | hmem
      · exact fun hnil => hlabel _ ((congrArg String.toList htext).symm.trans hnil)
      · exact hkeywords _ hmem

/-! ## Gaps and lexemes in a row -/

variable {placed : List (List Char × Lexeme)} {last cs : List Char} {ws : List Lexeme}

theorem covers_nil : Covers [] [] [] [] where
  lexemes := rfl
  text := rfl
  blank := by simp
  illegal := by simp

/-- A blank in front of the text belongs to the first gap. -/
theorem Covers.blank_cons {c : Char} (hblank : isBlank c = true) (hcovers : Covers placed last cs ws) :
    ∃ placed last, Covers placed last (c :: cs) ws := by
  cases placed with
  | nil =>
      refine ⟨[], c :: last, hcovers.lexemes, congrArg (c :: ·) hcovers.text, ?_, by simp⟩
      have hlast := hcovers.blank last List.mem_cons_self
      simpa [hblank] using hlast
  | cons place placed =>
      obtain ⟨gap, lexeme⟩ := place
      refine ⟨(c :: gap, lexeme) :: placed, last, hcovers.lexemes, congrArg (c :: ·) hcovers.text, ?_, ?_⟩
      · simpa [hblank] using hcovers.blank
      · intro before gap' lexeme' behind hplaced
        cases before with
        | nil =>
            obtain ⟨hplace, rfl⟩ := List.cons.inj hplaced
            obtain ⟨rfl, rfl⟩ := Prod.mk.inj hplace
            exact hcovers.illegal [] gap lexeme placed rfl
        | cons first before =>
            obtain ⟨-, rfl⟩ := List.cons.inj hplaced
            exact hcovers.illegal ((gap, lexeme) :: before) gap' lexeme' behind rfl

/-- A lexeme that the text starts with has no gap in front of it. -/
theorem Covers.first_cons {c : Char} (hcovers : Covers placed last (first c cs).2 ws)
    (hend : (first c cs).2 = [] → ws = []) :
    Covers (([], (first c cs).1) :: placed) last (c :: cs) ((first c cs).1 :: ws) where
  lexemes := congrArg _ hcovers.lexemes
  text := by
    rw [laidOut, hcovers.text, List.nil_append, first_split]
  blank := by simpa using hcovers.blank
  illegal := by
    intro before gap lexeme behind hplaced hkind
    cases before with
    | nil =>
        obtain ⟨hplace, rfl⟩ := List.cons.inj hplaced
        obtain ⟨-, rfl⟩ := Prod.mk.inj hplace
        refine (first_rest_of_illegal hkind).imp_right ?_
        rintro ⟨hquote, hrest⟩
        obtain rfl : placed = [] := List.map_eq_nil_iff.1 (hcovers.lexemes.trans (hend hrest))
        exact ⟨hquote, rfl, hcovers.text.trans hrest⟩
    | cons place before =>
        obtain ⟨-, rfl⟩ := List.cons.inj hplaced
        exact hcovers.illegal before gap lexeme behind rfl hkind

theorem length_le_laidOut (hspelling : ∀ place ∈ placed, place.2.spelling ≠ []) :
    placed.length ≤ (laidOut placed last).length := by
  induction placed with
  | nil => exact Nat.zero_le _
  | cons place placed ih =>
      have hrest := ih fun other hmem => hspelling other (List.mem_cons_of_mem place hmem)
      have hfirst := List.length_pos_iff.2 (hspelling place List.mem_cons_self)
      rw [laidOut, List.length_append, List.length_append, List.length_cons]
      omega

end Lexeme

theorem Lexes.exists_covers {cs : List Char} {ws : List Lexeme} (hlexes : Lexes cs ws) :
    ∃ placed last, Lexeme.Covers placed last cs ws := by
  have hrow := lexes_induction (motive := fun cs ws => ∃ placed last, Lexeme.Covers placed last cs ws)
    ⟨[], [], Lexeme.covers_nil⟩ ?_ ?_ cs
  · obtain ⟨us, hothers, hcovers⟩ := hrow
    obtain rfl := hlexes.unique hothers
    exact hcovers
  · rintro c cs ws hblank ⟨placed, last, hcovers⟩
    exact hcovers.blank_cons hblank
  · rintro c cs ws - hrest ⟨placed, last, hcovers⟩
    refine ⟨_, last, hcovers.first_cons fun hnil => ?_⟩
    rw [hnil] at hrest
    exact hrest.unique lexes_nil

namespace Cursor

/-- Behind a token the text ends where it ended. -/
theorem finish_of_next? {cursor after : Cursor} {token : Token} (hnext : cursor.next? = some (token, after)) :
    after.finish = cursor.finish := by
  unfold next? at hnext
  split at hnext
  · cases hnext
  · next c cs hrest =>
      have hsplit := Lexeme.first_split c cs
      generalize Lexeme.first c cs = answer at hsplit hnext
      obtain ⟨lexeme, rest⟩ := answer
      obtain ⟨-, rfl⟩ := Prod.mk.inj (Option.some.inj hnext)
      have hwhole : cursor.rest.takeWhile Lexeme.isBlank ++ (lexeme.spelling ++ rest) = cursor.rest := by
        rw [hsplit, ← hrest, List.takeWhile_append_dropWhile]
      rw [finish, finish, tokenPosition, ← Position.after_append, ← Position.after_append, hwhole]

theorem next_of_next?_none {cursor : Cursor} (hnext : cursor.next? = none) :
    cursor.next = (cursor.endToken, cursor.finish) := by
  rw [next, hnext, Option.getD_none]

theorem next_of_next?_some {cursor after : Cursor} {token : Token} (hnext : cursor.next? = some (token, after)) :
    cursor.next = (token, after) := by
  rw [next, hnext, Option.getD_some]

/-- The calls of `next` that give all tokens and the end token. -/
theorem take_length_tokens (cursor : Cursor) :
    cursor.take (cursor.tokens.length + 1) = (cursor.allTokens, cursor.finish) := by
  induction cursor using Cursor.tokens.induct with
  | case1 cursor hnext =>
      rw [allTokens, tokens_of_next?_none hnext]
      simp only [List.length_nil, take, next_of_next?_none hnext, List.nil_append]
  | case2 cursor token after hnext ih =>
      have hfinish := finish_of_next? hnext
      rw [allTokens, tokens_of_next?_some hnext, List.length_cons, take]
      simp only [next_of_next?_some hnext, ih, hfinish, allTokens, endToken, List.cons_append]

/-- The tokens behind those that were taken.  The text still ends where it ended. -/
theorem tokens_take (cursor : Cursor) (count : Nat) :
    (cursor.take count).2.tokens = cursor.tokens.drop count ∧
      (cursor.take count).2.finish = cursor.finish := by
  induction count generalizing cursor with
  | zero => exact ⟨rfl, rfl⟩
  | succ count ih =>
      rw [take]
      cases hnext : cursor.next? with
      | none =>
          have hfinish : cursor.finish.tokens = [] := tokens_of_next?_none rfl
          obtain ⟨htokens, hend⟩ := ih cursor.finish
          rw [hfinish, List.drop_nil] at htokens
          rw [tokens_of_next?_none hnext, List.drop_nil, next_of_next?_none hnext]
          exact ⟨htokens, hend⟩
      | some answer =>
          obtain ⟨token, after⟩ := answer
          obtain ⟨htokens, hend⟩ := ih after
          rw [tokens_of_next?_some hnext, List.drop_succ_cons, next_of_next?_some hnext]
          exact ⟨htokens, hend.trans (finish_of_next? hnext)⟩

theorem lexemes_take (cursor : Cursor) (count : Nat) :
    (cursor.take count).2.lexemes = cursor.lexemes.drop count := by
  rw [lexemes, (tokens_take cursor count).1, List.map_drop, lexemes]

theorem map_allTokens (cursor : Cursor) :
    cursor.allTokens.map Token.toLexeme = cursor.lexemes ++ [⟨.eof, ""⟩] := by
  rw [allTokens, List.map_append, lexemes]
  rfl

/-- The tokens of a text, the end token left out, cover it with blanks between them; they have the shape of
their kind, and each takes up a character.  The end token comes behind them, once. -/
theorem allTokens_cover (text : String) :
    (∃ placed last, Lexeme.Covers placed last text.toList (ofText text).lexemes) ∧
      (∀ lexeme ∈ (ofText text).lexemes, lexeme.HasShape ∧ lexeme.spelling ≠ []) ∧
      (ofText text).tokens.length ≤ text.length ∧
      ((ofText text).take ((ofText text).tokens.length + 1)).1 = (ofText text).allTokens ∧
      ∃ final, (ofText text).allTokens = (ofText text).tokens ++ [final] ∧
        final.toLexeme = ⟨.eof, ""⟩ ∧ ∀ token ∈ (ofText text).tokens, token.kind ≠ .eof := by
  have hshapes := (ofText text).lexemes_haveShape
  obtain ⟨placed, last, hcovers⟩ := (lexes_ofText text).exists_covers
  refine ⟨⟨placed, last, hcovers⟩, ?shapes, ?length, ?calls, ?final⟩
  case shapes => exact fun lexeme hmem => ⟨hshapes lexeme hmem, (hshapes lexeme hmem).spelling_ne_nil⟩
  case length =>
    have hspelling : ∀ place ∈ placed, place.2.spelling ≠ [] := by
      intro place hmem
      refine (hshapes place.2 ?_).spelling_ne_nil
      rw [← hcovers.lexemes]
      exact List.mem_map_of_mem hmem
    have hlength : placed.length ≤ (Lexeme.laidOut placed last).length := Lexeme.length_le_laidOut hspelling
    rwa [hcovers.text, ← List.length_map Prod.snd, hcovers.lexemes, lexemes, List.length_map,
      String.length_toList] at hlength
  case calls => rw [take_length_tokens]
  case final =>
    refine ⟨(ofText text).endToken, rfl, rfl, ?_⟩
    intro token hmem hkind
    have hshape := hshapes token.toLexeme (List.mem_map_of_mem hmem)
    rw [Lexeme.HasShape, hkind] at hshape
    exact hshape

end Cursor

end LetScript
