import LetScript.Proofs.Token.Lines
import LetScript.Proofs.Tree.WellFormed
import Mathlib.Data.List.TakeWhile

/-!
# The shapes of lexemes

The kind of a lexeme that is read off a text says what its text looks like.

* `Lexeme.HasShape` — the text fits the kind: a name is no keyword, digits are digits, a string holds no
  quote, everything else has its fixed text or, if it is illegal, starts no lexeme.
* `Lexeme.first_hasShape` — the lexeme at the front of a text fits.
* `Cursor.lexemes_haveShape` — so do all lexemes in front of a cursor, wherever in a text it stands.
-/

namespace LetScript

/-- The text of a lexeme is one that its kind allows. -/
def Lexeme.HasShape (lexeme : Lexeme) : Prop :=
  match lexeme.kind with
  | .ident => isName lexeme.text = true
  | .int => lexeme.text.toList ≠ [] ∧ lexeme.text.toList.all Char.isDigit = true
  | .string => isQuoted lexeme.text = true
  | .illegal =>
      (∃ c, lexeme.text.toList = [c]) ∨
        ∃ cs, lexeme.text.toList = '"' :: cs ∧ cs.all isQuotable = true
  | .eof => False
  | kind => kind.isSymbol = true ∧ lexeme.text = kind.label ∨ (lexeme.text, kind) ∈ Kind.keywords

theorem Kind.mem_keywords_of_ofKeyword? {word : String} {kind : Kind}
    (hkind : ofKeyword? word = some kind) : (word, kind) ∈ keywords := by
  obtain ⟨before, behind, hkeywords, -⟩ := List.lookup_eq_some_iff.1 hkind
  rw [hkeywords]
  simp

namespace Lexeme

theorem hasShape_word {word : String} (hword : isWord word = true) :
    (Lexeme.mk (Kind.ofWord word) word).HasShape := by
  cases hkeyword : Kind.ofKeyword? word with
  | none =>
      have hname : isName word = true := by rw [isName, hword, hkeyword]; rfl
      rw [Kind.ofWord, hkeyword]
      exact hname
  | some kind =>
      have hmem := Kind.mem_keywords_of_ofKeyword? hkeyword
      rw [Kind.ofWord, hkeyword]
      simp only [Kind.keywords, List.mem_cons, Prod.mk.injEq, List.not_mem_nil, or_false] at hmem
      rcases hmem with ⟨rfl, rfl⟩ | ⟨rfl, rfl⟩ | ⟨rfl, rfl⟩ | ⟨rfl, rfl⟩ | ⟨rfl, rfl⟩ | ⟨rfl, rfl⟩ |
        ⟨rfl, rfl⟩
      all_goals exact .inr (by decide)

theorem hasShape_quoted (cs : List Char) : (quoted cs).1.HasShape := by
  unfold quoted
  split
  · next hbehind =>
      refine .inr ⟨cs, String.toList_ofList .., ?_⟩
      exact List.all_eq_true.2 (List.dropWhile_eq_nil_iff.1 hbehind)
  · show isQuoted _ = true
    rw [isQuoted, String.toList_ofList]
    exact List.all_takeWhile

theorem hasShape_symbol (c : Char) :
    (Lexeme.mk ((Kind.ofSymbol? c).getD .illegal) (.ofList [c])).HasShape := by
  unfold Kind.ofSymbol?
  split
  case h_15 => exact .inl ⟨c, String.toList_ofList ..⟩
  all_goals exact .inl ⟨rfl, rfl⟩

theorem first_hasShape (c : Char) (cs : List Char) : (first c cs).1.HasShape := by
  unfold first
  split
  · exact .inl ⟨rfl, rfl⟩
  · exact .inl ⟨rfl, rfl⟩
  · split
    · exact hasShape_quoted cs
    · split
      · next hdigit =>
          have htext := String.toList_ofList (l := c :: cs.takeWhile Char.isDigit)
          refine ⟨?_, ?_⟩
          · rw [htext]
            exact List.cons_ne_nil c _
          · simp only [htext, List.all_cons, hdigit, List.all_takeWhile, Bool.and_self]
      · split
        · next hstart =>
            refine hasShape_word ?_
            simp only [isWord, String.toList_ofList, hstart, List.all_takeWhile, Bool.and_self]
        · exact hasShape_symbol c

end Lexeme

/-- All lexemes in front of a cursor have the shape of their kind. -/
theorem Cursor.lexemes_haveShape (cursor : Cursor) : ∀ lexeme ∈ cursor.lexemes, lexeme.HasShape := by
  obtain ⟨cs, position⟩ := cursor
  have hshapes := lexes_induction (motive := fun _ ws => ∀ lexeme ∈ ws, lexeme.HasShape)
    (fun _ hmem => nomatch hmem) (fun _ hothers => hothers) ?_ cs
  · obtain ⟨ws, hlexes, hshapes⟩ := hshapes
    rw [hlexes position]
    exact hshapes
  · intro c cs ws _ _ hothers lexeme hmem
    rcases List.mem_cons.1 hmem with rfl | hbehind
    · exact Lexeme.first_hasShape c cs
    · exact hothers lexeme hbehind

end LetScript
