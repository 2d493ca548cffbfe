import LetScript.Proofs.Token.Layout

/-!
# The lexemes of texts in a row

A newline ends every lexeme but a string, so what stands in front of it and what stands behind it fall into
lexemes apart.  The only lexeme that goes on behind a newline is a string that is never closed.  A semicolon
is a lexeme by itself, whatever stands behind it.

* `lexes_induction`, `Lexes.unique` — every text falls into lexemes, in one way.
* `Lexeme.EndsBefore` — what stands behind a lexeme does not go on with it.
* `Lexeme.first_append` — then the first lexeme of a text is also that of the text with more behind it.
* `lexes_append`, `lexes_line` — the lexemes of a text, or of a line, and those of what stands behind it.
-/

namespace LetScript

theorem Lexes.unique {cs : List Char} {ws vs : List Lexeme} (hlexes : Lexes cs ws)
    (hother : Lexes cs vs) : ws = vs :=
  (hlexes ⟨1, 1⟩).symm.trans (hother ⟨1, 1⟩)

/-- Every text falls into lexemes, and what holds of them can be shown from one lexeme to the next.  The
induction is on the length of the text. -/
theorem lexes_induction {motive : List Char → List Lexeme → Prop} (hnil : motive [] [])
    (hblank : ∀ {c cs ws}, Lexeme.isBlank c = true → motive cs ws → motive (c :: cs) ws)
    (hfirst : ∀ {c cs ws}, Lexeme.isBlank c = false → Lexes (Lexeme.first c cs).2 ws →
      motive (Lexeme.first c cs).2 ws → motive (c :: cs) ((Lexeme.first c cs).1 :: ws))
    (cs : List Char) : ∃ ws, Lexes cs ws ∧ motive cs ws := by
  induction hlength : cs.length using Nat.strongRecOn generalizing cs with
  | _ length ih =>
      subst hlength
      cases cs with
      | nil => exact ⟨[], lexes_nil, hnil⟩
      | cons c cs =>
          cases hc : Lexeme.isBlank c with
          | true =>
              obtain ⟨ws, hlexes, hmotive⟩ := ih cs.length (Nat.lt_succ_self _) cs rfl
              exact ⟨ws, lexes_blank hc hlexes, hblank hc hmotive⟩
          | false =>
              have hshorter := Nat.lt_succ_of_le (Lexeme.first_rest_length c cs)
              obtain ⟨ws, hlexes, hmotive⟩ := ih _ hshorter (Lexeme.first c cs).2 rfl
              exact ⟨_, lexes_first hc rfl hlexes, hfirst hc hlexes hmotive⟩

/-- The lexemes of a text, wherever it stands. -/
theorem lexes_ofText (text : String) : Lexes text.toList (Cursor.ofText text).lexemes := by
  obtain ⟨ws, hlexes, -⟩ := lexes_induction (motive := fun _ _ => True) trivial (fun _ _ => trivial)
    (fun _ _ _ => trivial) text.toList
  rw [hlexes.lexemes_ofText]
  exact hlexes

/-- The text starts with a blank. -/
def StartsBlank (cs : List Char) : Prop :=
  ∃ c rest, cs = c :: rest ∧ Lexeme.isBlank c = true

theorem StartsBlank.startsOutside {p : Char → Bool} {cs : List Char} (hblank : StartsBlank cs)
    (hoff : [' ', '\t', '\n', '\r'].any p = false) : StartsOutside p cs := by
  obtain ⟨c, rest, rfl, hc⟩ := hblank
  refine startsOutside_cons.2 ?_
  cases hp : p c with
  | false => rfl
  | true =>
      rw [Lexeme.isBlank_eq_false hoff hp] at hc
      cases hc

section Runs

variable {p : Char → Bool} {cs ds : List Char}

/-- A run of characters of a class ends at the same place if more text follows: it has ended before, or it
ends there. -/
theorem takeWhile_append_of_ends (hends : cs.dropWhile p ≠ [] ∨ StartsOutside p ds) :
    (cs ++ ds).takeWhile p = cs.takeWhile p := by
  induction cs with
  | nil =>
      rcases hends with hends | houtside
      · exact absurd rfl hends
      · exact takeWhile_append_of_startsOutside rfl houtside
  | cons c cs ih =>
      rw [List.cons_append, List.takeWhile_cons, List.takeWhile_cons]
      split
      · next hc =>
          rw [List.dropWhile_cons_of_pos hc] at hends
          rw [ih hends]
      · rfl

theorem dropWhile_append_of_ends (hends : cs.dropWhile p ≠ [] ∨ StartsOutside p ds) :
    (cs ++ ds).dropWhile p = cs.dropWhile p ++ ds := by
  induction cs with
  | nil =>
      rcases hends with hends | houtside
      · exact absurd rfl hends
      · exact dropWhile_append_of_startsOutside rfl houtside
  | cons c cs ih =>
      rw [List.cons_append, List.dropWhile_cons, List.dropWhile_cons]
      split
      · next hc =>
          rw [List.dropWhile_cons_of_pos hc] at hends
          rw [ih hends]
      · rfl

end Runs

namespace Lexeme

/-- A string that is closed is closed at the same place if more text follows. -/
theorem quoted_append {cs : List Char} (hclosed : (quoted cs).1.kind ≠ .illegal ∨ (quoted cs).2 ≠ [])
    (ds : List Char) : quoted (cs ++ ds) = ((quoted cs).1, (quoted cs).2 ++ ds) := by
  have hbehind : cs.dropWhile isQuotable ≠ [] := by
    intro hnil
    have hopen : quoted cs = (⟨.illegal, .ofList ('"' :: cs)⟩, []) := by rw [quoted, hnil]
    rw [hopen] at hclosed
    rcases hclosed with hkind | hrest
    · exact hkind rfl
    · exact hrest rfl
  obtain ⟨c, rest, hrest⟩ := List.exists_cons_of_ne_nil hbehind
  rw [quoted, quoted, takeWhile_append_of_ends (.inl hbehind), dropWhile_append_of_ends (.inl hbehind),
    hrest]
  rfl

/-- Unless an `=` makes an operator of two characters of it, the first character decides what the first
lexeme is. -/
theorem first_of_single {c : Char} {cs : List Char}
    (hsingle : c = '=' ∨ c = '!' → cs.head? ≠ some '=') :
    first c cs =
      if c = '"' then quoted cs
      else if c.isDigit then
        (⟨.int, .ofList (c :: cs.takeWhile Char.isDigit)⟩, cs.dropWhile Char.isDigit)
      else if isNameStart c then
        (⟨Kind.ofWord (.ofList (c :: cs.takeWhile isNamePart)),
          .ofList (c :: cs.takeWhile isNamePart)⟩, cs.dropWhile isNamePart)
      else (⟨(Kind.ofSymbol? c).getD .illegal, .ofList [c]⟩, cs) := by
  unfold first
  split
  · exact absurd rfl (hsingle (.inl rfl))
  · exact absurd rfl (hsingle (.inr rfl))
  · rfl

/-- No word is a symbol. -/
theorem isSymbol_ofWord (word : String) : (Kind.ofWord word).isSymbol = false := by
  simp only [Kind.ofWord, Kind.ofKeyword?, Kind.keywords, List.lookup_cons, List.lookup_nil]
  repeat' split
  all_goals rfl

/-- Nothing of the text goes on with the lexeme: no lexeme but a string goes on behind a blank, and
a semicolon never does. -/
def EndsBefore (lexeme : Lexeme) (ds : List Char) : Prop :=
  lexeme.kind = .semicolon ∨ lexeme.kind ≠ .illegal ∧ StartsBlank ds

theorem EndsBefore.ne_illegal {lexeme : Lexeme} {ds : List Char} (hends : lexeme.EndsBefore ds) :
    lexeme.kind ≠ .illegal := by
  rcases hends with hkind | hblank
  · rw [hkind]
    decide
  · exact hblank.1

theorem EndsBefore.startsBlank {lexeme : Lexeme} {ds : List Char} (hends : lexeme.EndsBefore ds)
    (hkind : lexeme.kind ≠ .semicolon) : StartsBlank ds := by
  rcases hends with hsemicolon | hblank
  · exact absurd hsemicolon hkind
  · exact hblank.2

/-- The first lexeme of a text is that of the text with more behind it, unless it could go on there. -/
theorem first_append {c : Char} {cs ds : List Char}
    (hends : (first c cs).2 ≠ [] ∨ (first c cs).1.EndsBefore ds) :
    first c (cs ++ ds) = ((first c cs).1, (first c cs).2 ++ ds) := by
  by_cases hdouble : (c = '=' ∨ c = '!') ∧ cs.head? = some '='
  · -- The operators of two characters are complete, whatever is behind them.
    obtain ⟨hc, hhead⟩ := hdouble
    obtain ⟨rest, rfl⟩ := List.head?_eq_some_iff.1 hhead
    rcases hc with rfl | rfl
    · rfl
    · rfl
  have hsingle : c = '=' ∨ c = '!' → cs.head? ≠ some '=' := fun hc hhead => hdouble ⟨hc, hhead⟩
  have hlonger : c = '=' ∨ c = '!' → (cs ++ ds).head? ≠ some '=' := by
    intro hc
    cases cs with
    | cons d cs => exact hsingle hc
    | nil =>
        -- Nothing but a blank is behind a sign at the very end, so the two are no operator.
        have houtside : StartsOutside (· == '=') ds := by
          rcases hends with hrest | hends
          · rcases hc with rfl | rfl
            · exact absurd rfl hrest
            · exact absurd rfl hrest
          · refine (hends.startsBlank ?_).startsOutside rfl
            rcases hc with rfl | rfl
            · decide
            · decide
        intro hhead
        exact absurd (houtside _ hhead) (by decide)
  rw [first_of_single hsingle] at hends
  rw [first_of_single hsingle, first_of_single hlonger]
  split
  · next hquote =>
      rw [if_pos hquote] at hends
      exact quoted_append (hends.symm.imp_left EndsBefore.ne_illegal) ds
  · next hquote =>
      rw [if_neg hquote] at hends
      split
      · next hdigit =>
          rw [if_pos hdigit] at hends
          have hrun : cs.dropWhile Char.isDigit ≠ [] ∨ StartsOutside Char.isDigit ds := by
            exact hends.imp_right fun hends => (hends.startsBlank nofun).startsOutside rfl
          rw [takeWhile_append_of_ends hrun, dropWhile_append_of_ends hrun]
      · next hdigit =>
          rw [if_neg hdigit] at hends
          split
          · next hstart =>
              rw [if_pos hstart] at hends
              have hrun : cs.dropWhile isNamePart ≠ [] ∨ StartsOutside isNamePart ds := by
                refine hends.imp_right fun hends => (hends.startsBlank ?_).startsOutside rfl
                intro hkind
                have hword := isSymbol_ofWord (.ofList (c :: cs.takeWhile isNamePart))
                rw [show Kind.ofWord _ = .semicolon from hkind] at hword
                cases hword
              rw [takeWhile_append_of_ends hrun, dropWhile_append_of_ends hrun]
          · rfl

end Lexeme

/-- The lexemes of a text, and those of the text behind it. -/
theorem lexes_append {cs ds : List Char} {ws vs : List Lexeme} (hlexes : Lexes cs ws)
    (hlast : ∀ lexeme ∈ ws.getLast?, lexeme.EndsBefore ds) (hmore : Lexes ds vs) :
    Lexes (cs ++ ds) (ws ++ vs) := by
  suffices hrow : ∃ us, Lexes cs us ∧ ((∀ lexeme ∈ us.getLast?, lexeme.EndsBefore ds) →
      Lexes (cs ++ ds) (us ++ vs)) by
    obtain ⟨us, hothers, hrow⟩ := hrow
    obtain rfl := hlexes.unique hothers
    exact hrow hlast
  refine lexes_induction (motive := fun cs ws =>
    (∀ lexeme ∈ ws.getLast?, lexeme.EndsBefore ds) → Lexes (cs ++ ds) (ws ++ vs)) ?_ ?_ ?_ cs
  · intro _
    exact hmore
  · intro c cs ws hblank ih hlast
    exact lexes_blank hblank (ih hlast)
  · intro c cs ws hblank hrest ih hlast
    have hfirst : (Lexeme.first c cs).2 ≠ [] ∨ (Lexeme.first c cs).1.EndsBefore ds := by
      refine Decidable.or_iff_not_imp_left.2 fun hnil => ?_
      rw [Decidable.not_not.1 hnil] at hrest
      obtain rfl := hrest.unique lexes_nil
      exact hlast _ rfl
    have hbehind : ∀ lexeme ∈ ws.getLast?, lexeme.EndsBefore ds := by
      intro lexeme hmem
      refine hlast lexeme ?_
      rw [List.getLast?_cons, Option.mem_def.1 hmem]
      rfl
    exact lexes_first hblank (Lexeme.first_append hfirst) (ih hbehind)

/-- The lexemes of a line, and those of the lines behind it. -/
theorem lexes_line {cs ds : List Char} {ws vs : List Lexeme} (hlexes : Lexes cs ws)
    (hlast : ∀ lexeme ∈ ws.getLast?, lexeme.kind ≠ .illegal) (hmore : Lexes ds vs) :
    Lexes (cs ++ '\n' :: ds) (ws ++ vs) :=
  lexes_append hlexes (fun lexeme hmem => .inr ⟨hlast lexeme hmem, '\n', ds, rfl, rfl⟩)
    (lexes_blank rfl hmore)

end LetScript
