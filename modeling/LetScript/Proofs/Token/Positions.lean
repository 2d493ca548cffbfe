import LetScript.Proofs.Token.Covering
import Mathlib.Data.List.Forall2

/-!
# The positions of tokens

A cursor counts lines and columns up as it reads.  The position of a token can be told from the text alone, by the
index at which the token starts.

* `Position.ofIndex` — the position of the character with a given index.
* `Position.after_eq_ofIndex` — characters counted one by one lead to it.
* `Lexeme.starts` — the indices at which laid-out lexemes start.
* `Cursor.next?_of_laidOut` — the first lexeme of a laid-out text is read; `Cursor.tokens_standAt` — all are.
* `Cursor.take_add`, `Cursor.take_finish` — behind the end there are end tokens only.
* `Cursor.positions_exact` — all this of the tokens of a text.
-/

namespace LetScript

namespace Position

/-- The position of the character with a given index.  The newlines in front of it are counted for the line, and
the characters behind the last of them for the column. -/
def ofIndex (cs : List Char) (index : Nat) : Position :=
  ⟨1 + (cs.take index).count '\n', 1 + ((cs.take index).reverse.takeWhile (· != '\n')).length⟩

/-- The induction is on the last character of the text: a newline there starts the column anew. -/
theorem after_reverse (cs : List Char) :
    (⟨1, 1⟩ : Position).after cs.reverse =
      ⟨1 + cs.count '\n', 1 + (cs.takeWhile (· != '\n')).length⟩ := by
  induction cs with
  | nil => rfl
  | cons c cs ih =>
      rw [List.reverse_cons, after_append, ih, after_cons, after_nil, step]
      by_cases hc : c = '\n'
      · subst hc
        simp [Nat.add_assoc]
      · simp [hc, Nat.add_assoc]

theorem after_eq_ofIndex (before behind : List Char) :
    (⟨1, 1⟩ : Position).after before = ofIndex (before ++ behind) before.length := by
  have hafter := after_reverse before.reverse
  rw [List.reverse_reverse, List.count_reverse] at hafter
  rw [ofIndex, List.take_left, hafter]

end Position

namespace Lexeme

/-- The indices at which laid-out lexemes start, if the gap in front of the first starts at the given one. -/
def starts : Nat → List (List Char × Lexeme) → List Nat
  | _, [] => []
  | index, (gap, lexeme) :: placed =>
      (index + gap.length) :: starts (index + gap.length + lexeme.spelling.length) placed

/-- A lexeme that is read starts with the character that no gap takes. -/
theorem startsOutside_spelling {c : Char} (cs behind : List Char) (hblank : isBlank c = false) :
    StartsOutside isBlank ((first c cs).1.spelling ++ behind) := by
  obtain ⟨d, ds, hspelling⟩ := List.exists_cons_of_ne_nil (first_hasShape c cs).spelling_ne_nil
  have hsplit := first_split c cs
  rw [hspelling] at hsplit ⊢
  obtain ⟨rfl, -⟩ := List.cons.inj hsplit
  exact startsOutside_cons.2 hblank

end Lexeme

/-- The token stands in the text at an index, and has the position of the character there. -/
def Token.StandsAt (cs : List Char) (token : Token) (index : Nat) : Prop :=
  token.spelling <+: cs.drop index ∧ token.position = .ofIndex cs index

namespace Cursor

/-! ## Laid-out text -/

theorem exists_first_of_lexemes {cursor : Cursor} {lexeme : Lexeme} {ws : List Lexeme}
    (hlexemes : cursor.lexemes = lexeme :: ws) :
    ∃ c cs, cursor.rest.dropWhile Lexeme.isBlank = c :: cs ∧ (Lexeme.first c cs).1 = lexeme := by
  cases hdrop : cursor.rest.dropWhile Lexeme.isBlank with
  | nil =>
      have hnext : cursor.next? = none := by rw [next?, hdrop]
      rw [lexemes, tokens_of_next?_none hnext] at hlexemes
      cases hlexemes
  | cons c cs =>
      have hnext : cursor.next? = some (⟨(Lexeme.first c cs).1, cursor.tokenPosition⟩,
          ⟨(Lexeme.first c cs).2, cursor.tokenPosition.after (Lexeme.first c cs).1.spelling⟩) := by
        rw [next?, hdrop]
      rw [lexemes, tokens_of_next?_some hnext] at hlexemes
      exact ⟨c, cs, rfl, (List.cons.inj hlexemes).1⟩

/-- Nothing but the gap in front of a lexeme is skipped. -/
theorem next?_of_laidOut {cursor : Cursor} {gap behind : List Char} {lexeme : Lexeme} {ws : List Lexeme}
    (hrest : cursor.rest = gap ++ (lexeme.spelling ++ behind)) (hgap : gap.all Lexeme.isBlank = true)
    (hlexemes : cursor.lexemes = lexeme :: ws) :
    cursor.next? = some (⟨lexeme, cursor.position.after gap⟩,
      ⟨behind, (cursor.position.after gap).after lexeme.spelling⟩) := by
  obtain ⟨c, cs, hdrop, hfirst⟩ := exists_first_of_lexemes hlexemes
  have hoff := startsOutside_dropWhile Lexeme.isBlank cursor.rest
  rw [hdrop, startsOutside_cons] at hoff
  have houtside := Lexeme.startsOutside_spelling cs behind hoff
  rw [hfirst] at houtside
  have htake : cursor.rest.takeWhile Lexeme.isBlank = gap := by
    rw [hrest, takeWhile_append_of_startsOutside hgap houtside]
  have hbehind : (Lexeme.first c cs).2 = behind := by
    have hsplit := Lexeme.first_split c cs
    rw [hfirst, ← hdrop, hrest, dropWhile_append_of_startsOutside hgap houtside] at hsplit
    exact List.append_cancel_left hsplit
  rw [next?, hdrop]
  simp only [tokenPosition, htake, hfirst, hbehind]

/-- The tokens of laid-out text, behind other text that the cursor has counted. -/
theorem tokens_standAt {cursor : Cursor} (before : List Char) {last : List Char}
    {placed : List (List Char × Lexeme)}
    (hposition : cursor.position = (⟨1, 1⟩ : Position).after before)
    (hrest : cursor.rest = Lexeme.laidOut placed last)
    (hblank : ∀ gap ∈ placed.map Prod.fst, gap.all Lexeme.isBlank = true)
    (hlexemes : cursor.lexemes = placed.map Prod.snd) :
    List.Forall₂ (Token.StandsAt (before ++ cursor.rest)) cursor.tokens (Lexeme.starts before.length placed) := by
  induction placed generalizing cursor before with
  | nil =>
      have htokens : cursor.tokens = [] := List.map_eq_nil_iff.1 hlexemes
      rw [htokens]
      exact .nil
  | cons place placed ih =>
      obtain ⟨gap, lexeme⟩ := place
      obtain ⟨hgap, hgaps⟩ := List.forall_mem_cons.1 hblank
      rw [Lexeme.laidOut, List.append_assoc] at hrest
      have hnext := next?_of_laidOut hrest hgap hlexemes
      rw [lexemes, tokens_of_next?_some hnext] at hlexemes
      have hcounted : (cursor.position.after gap).after lexeme.spelling =
          (⟨1, 1⟩ : Position).after (before ++ gap ++ lexeme.spelling) := by
        rw [hposition, Position.after_append, Position.after_append]
      have hothers := ih _ hcounted rfl hgaps (List.cons.inj hlexemes).2
      rw [hrest, tokens_of_next?_some hnext, Lexeme.starts]
      rw [List.length_append, List.length_append, List.append_assoc, List.append_assoc] at hothers
      refine .cons ⟨?characters, ?counted⟩ hothers
      case characters =>
        rw [← List.append_assoc, ← List.length_append, List.drop_left]
        exact List.prefix_append _ _
      case counted =>
        show cursor.position.after gap = _
        rw [hposition, ← Position.after_append, ← List.append_assoc, ← List.length_append]
        exact Position.after_eq_ofIndex _ _

/-! ## Behind the end -/

theorem take_add (cursor : Cursor) (count more : Nat) :
    cursor.take (count + more) =
      ((cursor.take count).1 ++ ((cursor.take count).2.take more).1, ((cursor.take count).2.take more).2) := by
  induction count generalizing cursor with
  | zero => rw [Nat.zero_add, take, List.nil_append]
  | succ count ih =>
      rw [Nat.succ_add]
      simp only [take, ih, List.cons_append]

theorem take_finish (cursor : Cursor) (count : Nat) :
    cursor.finish.take count = (List.replicate count cursor.endToken, cursor.finish) := by
  have hnext : cursor.finish.next = (cursor.endToken, cursor.finish) := rfl
  induction count with
  | zero => rfl
  | succ count ih => simp only [take, hnext, ih, List.replicate_succ]

/-- Each token of a text is at the line and the column of the character at which it starts, however the text is laid
out, and the end token is at those of the end of the text.  A cursor that has given all of them goes on with the
end token. -/
theorem positions_exact (text : String) :
    let tokens := (ofText text).tokens
    let final : Token := ⟨⟨.eof, ""⟩, Position.ofIndex text.toList text.length⟩
    (∃ placed last, Lexeme.Covers placed last text.toList (ofText text).lexemes) ∧
      (∀ placed last, Lexeme.Covers placed last text.toList (ofText text).lexemes →
        List.Forall₂ (Token.StandsAt text.toList) tokens (Lexeme.starts 0 placed)) ∧
      (ofText text).allTokens = tokens ++ [final] ∧
      ∀ count, ((ofText text).take (tokens.length + 1 + count)).1 =
        tokens ++ [final] ++ List.replicate count final := by
  intro tokens final
  have hfinal : (ofText text).endToken = final := by
    have hposition := Position.after_eq_ofIndex text.toList []
    rw [List.append_nil, String.length_toList] at hposition
    exact congrArg (Token.mk ⟨.eof, ""⟩) hposition
  refine ⟨(lexes_ofText text).exists_covers, ?starts, ?all, ?beyond⟩
  case starts =>
    intro placed last hcovers
    refine tokens_standAt [] rfl hcovers.text.symm ?_ hcovers.lexemes.symm
    intro gap hmem
    exact hcovers.blank gap (List.mem_cons_of_mem last hmem)
  case all => rw [allTokens, hfinal]
  case beyond =>
    intro count
    rw [take_add, take_length_tokens, take_finish, allTokens, hfinal]

/-- A newline in a string starts a line, and any other character takes up one column. -/
theorem positions_around_string :
    let text := "a\r\n\t\"🦀\n\" b"
    let placed : List (List Char × Lexeme) :=
      [([], ⟨.ident, "a"⟩), (['\r', '\n', '\t'], ⟨.string, "🦀\n"⟩), ([' '], ⟨.ident, "b"⟩)]
    Lexeme.Covers placed [] text.toList (ofText text).lexemes ∧
      List.Forall₂ (Token.StandsAt text.toList) (ofText text).tokens [0, 4, 9] ∧
      (ofText text).allTokens.map Token.position = [⟨1, 1⟩, ⟨2, 2⟩, ⟨3, 3⟩, ⟨3, 4⟩] ∧
      ((ofText text).take 5).1.drop 3 = [⟨⟨.eof, ""⟩, ⟨3, 4⟩⟩, ⟨⟨.eof, ""⟩, ⟨3, 4⟩⟩] := by
  intro text placed
  have hcovers : Lexeme.Covers placed [] text.toList (ofText text).lexemes := by
    refine ⟨by decide +kernel, by decide +kernel, by decide, ?_⟩
    intro before gap lexeme behind hplaced hkind
    have hlegal : ∀ place ∈ placed, place.2.kind ≠ .illegal := by decide
    have hmem : (gap, lexeme) ∈ placed := hplaced ▸ List.mem_append_right before List.mem_cons_self
    exact absurd hkind (hlegal _ hmem)
  obtain ⟨-, hstarts, -, -⟩ := positions_exact text
  exact ⟨hcovers, hstarts placed [] hcovers, by decide +kernel, by decide +kernel⟩

end Cursor

end LetScript
