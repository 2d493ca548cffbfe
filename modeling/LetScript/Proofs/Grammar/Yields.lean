import LetScript.Proofs.Grammar.Strata
import LetScript.Proofs.Token.Shapes

/-!
# What reading builds, also behind errors

Whatever errors a step of reading meets, the tree that it builds is one that a script can write: names and
strings come out of lexemes, and these have the shape of their kind.

* `Reading.Yields` — a value that a step finds is good, and what it leaves is an end of what it was given;
  one lemma for each way in which steps are put together.
* `HaveShape` — all lexemes of a list have the shape of their kind.
* `expression_yields`, `operand_yields`, `block_yields`, … — one lemma for each step of the grammar.
* `Parsed.ofLexemes_isWellFormed` — so a whole script gives a well-formed program.
-/

namespace LetScript.Grammar

namespace Reading

variable {α β : Type} {input longer : List Lexeme} {good : α → Prop} {better : β → Prop}

/-- The value, if one was read, is good, and what is left to be read is an end of the input. -/
def Yields (good : α → Prop) (reading : Reading α input) : Prop :=
  match reading.outcome with
  | .done value rest _ => good value ∧ rest <:+ input
  | .stopped _ rest _ => rest <:+ input

theorem yields_done {value : α} (rest : List Lexeme) (hgood : good value) :
    (done value rest).Yields good :=
  ⟨hgood, List.suffix_rfl⟩

theorem yields_stop (error : SyntaxError) (refused : Option Lexeme) (rest : List Lexeme) :
    (stop error refused rest).Yields good :=
  List.suffix_rfl

theorem Yields.widen {reading : Reading α input} (hreading : reading.Yields good)
    (hsuffix : input <:+ longer) (length_le : input.length ≤ longer.length) :
    (reading.widen length_le).Yields good := by
  obtain ⟨errors, outcome⟩ := reading
  cases outcome with
  | done value rest hle => exact ⟨hreading.1, hreading.2.trans hsuffix⟩
  | stopped refused rest hle => exact List.IsSuffix.trans hreading hsuffix

theorem Yields.afterOne {lexemes : List Lexeme} {reading : Reading α lexemes.tail}
    (hreading : reading.Yields good) : (reading.afterOne lexemes).Yields good :=
  hreading.widen (List.tail_suffix lexemes) _

theorem Yields.map {reading : Reading α input} {f : α → β} (hreading : reading.Yields good)
    (hf : ∀ value, good value → better (f value)) : (reading.map f).Yields better := by
  obtain ⟨errors, outcome⟩ := reading
  cases outcome with
  | done value rest hle => exact ⟨hf value hreading.1, hreading.2⟩
  | stopped refused rest hle => exact hreading

/-- The second step may use what the first one has found. -/
theorem Yields.andThen {reading : Reading α input}
    {next : α → (rest : List Lexeme) → Reading β rest} (hreading : reading.Yields good)
    (hnext : ∀ value rest, good value → rest <:+ input → (next value rest).Yields better) :
    (reading.andThen fun value rest _ => next value rest).Yields better := by
  obtain ⟨errors, outcome⟩ := reading
  cases outcome with
  | done value rest hle =>
      obtain ⟨hgood, hsuffix⟩ := hreading
      exact (hnext value rest hgood hsuffix).widen hsuffix hle
  | stopped refused rest hle => exact hreading

theorem Yields.attempt {reading : Reading α input} (hreading : reading.Yields good) :
    reading.attempt.Yields fun value? => ∀ value ∈ value?, good value := by
  obtain ⟨errors, outcome⟩ := reading
  cases outcome with
  | done value rest hle =>
      refine ⟨?_, hreading.2⟩
      intro found hfound
      cases hfound
      exact hreading.1
  | stopped refused rest hle =>
      refine ⟨?_, hreading⟩
      intro value hvalue
      cases hvalue

end Reading

open Reading

/-- All lexemes of a list have the shape of their kind. -/
def HaveShape (lexemes : List Lexeme) : Prop :=
  ∀ lexeme ∈ lexemes, lexeme.HasShape

theorem HaveShape.suffix {input rest : List Lexeme} (hinput : HaveShape input)
    (hsuffix : rest <:+ input) : HaveShape rest :=
  fun lexeme hmem => hinput lexeme (hsuffix.subset hmem)

theorem HaveShape.tail {lexeme : Lexeme} {rest : List Lexeme} (hinput : HaveShape (lexeme :: rest)) :
    HaveShape rest :=
  hinput.suffix (List.suffix_cons lexeme rest)

/-! ## One given lexeme -/

theorem expect_yields (kind : Kind) {lexemes : List Lexeme} (hshapes : HaveShape lexemes) :
    (expect kind lexemes).Yields fun lexeme => lexeme.kind = kind ∧ lexeme.HasShape := by
  cases lexemes with
  | nil => exact yields_stop _ _ _
  | cons lexeme rest =>
      unfold expect
      dsimp only
      split
      · next hkind =>
          exact (yields_done rest ⟨hkind, hshapes lexeme List.mem_cons_self⟩).afterOne
      · exact yields_stop _ _ _

theorem skipSemicolon_yields (lexemes : List Lexeme) :
    (skipSemicolon lexemes).Yields fun _ => True := by
  unfold skipSemicolon
  split
  · exact (yields_done _ trivial).afterOne
  · exact yields_done _ trivial

/-- A lexeme in the place of a name holds one. -/
theorem isName_of_hasShape {lexeme : Lexeme} (hlexeme : lexeme.kind = .ident ∧ lexeme.HasShape) :
    Lexeme.isName lexeme.text = true := by
  obtain ⟨kind, text⟩ := lexeme
  obtain ⟨rfl, hshape⟩ := hlexeme
  exact hshape

/-! ## Parameters -/

theorem moreParameters_yields {lexemes : List Lexeme} (hshapes : HaveShape lexemes) :
    (moreParameters lexemes).Yields fun names => names.all Lexeme.isName = true := by
  rw [moreParameters.eq_def]
  split
  · next text rest =>
      refine Yields.widen ?_ (List.suffix_cons _ rest) _
      refine (expect_yields .ident hshapes.tail).andThen fun name behind hname hsuffix => ?_
      have hle := hsuffix.length_le
      refine (moreParameters_yields (hshapes.tail.suffix hsuffix)).map fun names hnames => ?_
      rw [List.all_cons, isName_of_hasShape hname, hnames, Bool.and_self]
  · exact (expect_yields .rParen hshapes).map fun _ _ => rfl
termination_by lexemes.length
decreasing_by grind

theorem parameters_yields {lexemes : List Lexeme} (hshapes : HaveShape lexemes) :
    (parameters lexemes).Yields fun names => names.all Lexeme.isName = true := by
  unfold parameters
  split
  · next text rest => exact Yields.widen (yields_done rest rfl) (List.suffix_cons _ rest) (by simp)
  · refine (expect_yields .ident hshapes).andThen fun name behind hname hsuffix => ?_
    refine (moreParameters_yields (hshapes.suffix hsuffix)).map fun names hnames => ?_
    rw [List.all_cons, isName_of_hasShape hname, hnames, Bool.and_self]

/-! ## Expressions and statements -/

/-- An integer that is read has no sign. -/
theorem nonneg_of_integer? {digits : String} {value : Int64} (hvalue : integer? digits = some value) :
    0 ≤ value := by
  have hnumber := integer?_eq_some_iff.1 hvalue
  refine Int64.le_iff_toInt_le.2 ?_
  rw [hnumber]
  exact Int.natCast_nonneg _

mutual

theorem expression_yields (level : Nat) {lexemes : List Lexeme} (hshapes : HaveShape lexemes) :
    (expression level lexemes).Yields fun e => e.isSpellable (0 ≤ ·) = true := by
  rw [expression]
  refine (operand_yields hshapes).andThen fun left rest hleft hsuffix => ?_
  have hle := hsuffix.length_le
  exact continued_yields level hleft (hshapes.suffix (hsuffix.trans (List.tail_suffix _)))
termination_by 8 * lexemes.length + 2
decreasing_by all_goals grind

theorem continued_yields (level : Nat) {left : Expr} (hleft : left.isSpellable (0 ≤ ·) = true)
    {lexemes : List Lexeme} (hshapes : HaveShape lexemes) :
    (continued level left lexemes).Yields fun e => e.isSpellable (0 ≤ ·) = true := by
  cases lexemes with
  | nil =>
      rw [continued]
      exact yields_done [] hleft
  | cons lexeme rest =>
      rw [continued]
      by_cases hpower : level < lexeme.kind.power
      · rw [if_pos hpower]
        split
        · next op _ =>
            refine Yields.afterOne ((expression_yields op.power hshapes.tail).afterOne.andThen ?_)
            intro right behind hright hsuffix
            have hle := hsuffix.length_le
            refine continued_yields level ?_ (hshapes.tail.suffix hsuffix)
            rw [Expr.isSpellable, hleft, hright, Bool.and_self]
        · refine Yields.afterOne ((arguments_yields hshapes.tail).andThen ?_)
          intro args behind hargs hsuffix
          have hle := hsuffix.length_le
          refine continued_yields level ?_ (hshapes.tail.suffix hsuffix)
          rw [Expr.isSpellable, hleft, hargs, Bool.and_self]
      · rw [if_neg hpower]
        exact yields_done _ hleft
termination_by 8 * lexemes.length
decreasing_by all_goals grind

theorem operand_yields {lexemes : List Lexeme} (hshapes : HaveShape lexemes) :
    (operand lexemes).Yields fun e => e.isSpellable (0 ≤ ·) = true := by
  cases lexemes with
  | nil =>
      rw [operand]
      exact yields_stop _ _ _
  | cons lexeme rest =>
      have hfirst := hshapes lexeme List.mem_cons_self
      obtain ⟨kind, text⟩ := lexeme
      rw [operand]
      cases kind with
      | ident =>
          refine yields_done rest ?_
          rw [Expr.isSpellable]
          exact hfirst
      | string =>
          refine yields_done rest ?_
          rw [Expr.isSpellable]
          exact hfirst
      | trueKey | falseKey =>
          refine yields_done rest ?_
          rw [Expr.isSpellable]
      | int =>
          cases hvalue : integer? text with
          | some value =>
              refine yields_done rest ?_
              rw [Expr.isSpellable, decide_eq_true_eq]
              exact nonneg_of_integer? hvalue
          | none => exact yields_stop _ _ _
      | bang | minus =>
          refine (expression_yields Kind.prefixPower hshapes.tail).afterOne.map fun inner hinner => ?_
          rw [Expr.isSpellable, hinner]
      | lParen =>
          refine (expression_yields 0 hshapes.tail).afterOne.andThen fun inner behind hinner hsuffix => ?_
          exact (expect_yields .rParen (hshapes.tail.suffix hsuffix)).map fun _ _ => hinner
      | ifKey => exact conditional_yields hshapes.tail
      | function => exact function_yields hshapes.tail
      | _ => exact yields_stop _ _ _
termination_by 8 * lexemes.length + 1
decreasing_by all_goals grind

theorem conditional_yields {lexemes : List Lexeme} (hshapes : HaveShape lexemes) :
    (conditional lexemes).Yields fun e => e.isSpellable (0 ≤ ·) = true := by
  rw [conditional]
  refine (expect_yields .lParen hshapes).andThen fun _ first _ hfirst => ?_
  have hfirst' := hshapes.suffix hfirst
  refine (expression_yields 0 hfirst').afterOne.andThen fun condition second hcondition hsecond => ?_
  have hsecond' := hfirst'.suffix hsecond
  refine (expect_yields .rParen hsecond').andThen fun _ third _ hthird => ?_
  have hthird' := hsecond'.suffix hthird
  refine (expect_yields .lBrace hthird').andThen fun _ fourth _ hfourth => ?_
  have hfourth' := hthird'.suffix hfourth
  refine (block_yields hfourth').andThen fun consequence fifth hconsequence hfifth => ?_
  refine (alternative_yields (hfourth'.suffix hfifth)).map fun other hother => ?_
  cases other with
  | none => rw [Expr.isSpellable, hcondition, hconsequence, Bool.and_self]
  | some statements =>
      rw [Expr.isSpellable, hcondition, hconsequence, hother statements rfl, Bool.and_self, Bool.and_self]
termination_by 8 * lexemes.length + 7
decreasing_by all_goals grind

theorem alternative_yields {lexemes : List Lexeme} (hshapes : HaveShape lexemes) :
    (alternative lexemes).Yields fun other =>
      ∀ statements ∈ other, Block.isSpellable (0 ≤ ·) statements = true := by
  rw [alternative.eq_def]
  split
  · refine Yields.afterOne ((expect_yields .lBrace hshapes.tail).andThen fun _ first _ hfirst => ?_)
    refine (block_yields (hshapes.tail.suffix hfirst)).map fun statements hstatements => ?_
    intro found hfound
    cases hfound
    exact hstatements
  · refine yields_done _ ?_
    intro found hfound
    cases hfound
termination_by 8 * lexemes.length + 6
decreasing_by all_goals grind

theorem function_yields {lexemes : List Lexeme} (hshapes : HaveShape lexemes) :
    (function lexemes).Yields fun e => e.isSpellable (0 ≤ ·) = true := by
  rw [function]
  refine (expect_yields .lParen hshapes).andThen fun _ first _ hfirst => ?_
  have hfirst' := hshapes.suffix hfirst
  refine (parameters_yields hfirst').andThen fun names second hnames hsecond => ?_
  have hsecond' := hfirst'.suffix hsecond
  refine (expect_yields .lBrace hsecond').andThen fun _ third _ hthird => ?_
  refine (block_yields (hsecond'.suffix hthird)).map fun body hbody => ?_
  rw [Expr.isSpellable, hnames, hbody, Bool.and_self]
termination_by 8 * lexemes.length + 6
decreasing_by all_goals grind

theorem arguments_yields {lexemes : List Lexeme} (hshapes : HaveShape lexemes) :
    (arguments lexemes).Yields fun args => Expr.areSpellable (0 ≤ ·) args = true := by
  rw [arguments.eq_def]
  split
  · next text rest =>
      exact Yields.widen (yields_done rest rfl) (List.suffix_cons _ rest) (by simp)
  · refine (expression_yields 0 hshapes).afterOne.andThen fun first rest hfirst hsuffix => ?_
    refine (moreArguments_yields (hshapes.suffix hsuffix)).map fun others hothers => ?_
    rw [Expr.areSpellable, hfirst, hothers, Bool.and_self]
termination_by 8 * lexemes.length + 3
decreasing_by all_goals grind

theorem moreArguments_yields {lexemes : List Lexeme} (hshapes : HaveShape lexemes) :
    (moreArguments lexemes).Yields fun args => Expr.areSpellable (0 ≤ ·) args = true := by
  rw [moreArguments.eq_def]
  split
  · next text rest =>
      refine Yields.widen ?_ (List.suffix_cons _ rest) _
      refine (expression_yields 0 hshapes.tail).afterOne.andThen fun next behind hnext hsuffix => ?_
      refine (moreArguments_yields (hshapes.tail.suffix hsuffix)).map fun others hothers => ?_
      rw [Expr.areSpellable, hnext, hothers, Bool.and_self]
  · exact (expect_yields .rParen hshapes).map fun _ _ => rfl
termination_by 8 * lexemes.length
decreasing_by all_goals grind

/-- A block that drops statements is good if the others are. -/
theorem block_yields {lexemes : List Lexeme} (hshapes : HaveShape lexemes) :
    (block lexemes).Yields fun statements => Block.isSpellable (0 ≤ ·) statements = true := by
  cases lexemes with
  | nil =>
      rw [block]
      exact yields_stop _ _ _
  | cons lexeme rest =>
      by_cases hbrace : lexeme.kind = .rBrace
      · obtain ⟨kind, text⟩ := lexeme
        subst hbrace
        rw [block_rBrace]
        exact Yields.afterOne (yields_done rest rfl)
      · rw [block_of_ne_rBrace hbrace]
        refine Yields.afterOne ((statement_yields hshapes).attempt.andThen ?_)
        intro first? behind hfirst hsuffix
        refine (block_yields (hshapes.tail.suffix hsuffix)).map fun others hothers => ?_
        cases first? with
        | none => exact hothers
        | some first =>
            show Block.isSpellable _ (first :: others) = true
            rw [Block.isSpellable, hfirst first rfl, hothers, Bool.and_self]
termination_by 8 * lexemes.length + 5
decreasing_by all_goals grind

theorem statement_yields {lexemes : List Lexeme} (hshapes : HaveShape lexemes) :
    (statement lexemes).Yields fun s => s.isSpellable (0 ≤ ·) = true := by
  rcases statement_shape lexemes with ⟨text, rest, rfl⟩ | ⟨text, rest, rfl⟩ | ⟨hlet, hreturn⟩
  · rw [statement_let]
    refine (expect_yields .ident hshapes.tail).andThen fun name first hname hfirst => ?_
    have hfirst' := hshapes.tail.suffix hfirst
    refine (expect_yields .assign hfirst').andThen fun _ second _ hsecond => ?_
    have hsecond' := hfirst'.suffix hsecond
    refine (expression_yields 0 hsecond').afterOne.andThen fun value third hvalue hthird => ?_
    refine (skipSemicolon_yields third).map fun _ _ => ?_
    rw [Stmt.isSpellable, isName_of_hasShape hname, hvalue, Bool.and_self]
  · by_cases hnext : nextKind rest ∈ [.semicolon, .rBrace, .eof]
    · rw [statement_bare hnext]
      exact (skipSemicolon_yields rest).map fun _ _ => rfl
    · rw [statement_ret hnext]
      refine (expression_yields 0 hshapes.tail).afterOne.andThen fun value first hvalue hfirst => ?_
      refine (skipSemicolon_yields first).map fun _ _ => ?_
      rw [Stmt.isSpellable, hvalue]
  · rw [statement_expr hlet hreturn]
    refine (expression_yields 0 hshapes).andThen fun value first hvalue hfirst => ?_
    refine (skipSemicolon_yields first).map fun _ _ => ?_
    rw [Stmt.isSpellable, hvalue]
termination_by 8 * lexemes.length + 4
decreasing_by all_goals grind

end

/-! ## Scripts -/

section Ends

variable {α : Type} {input : List Lexeme} {good : α → Prop} {reading : Reading α input}

theorem Reading.Yields.good_of_value? (hreading : reading.Yields good) {value : α}
    (hvalue : reading.outcome.value? = some value) : good value := by
  obtain ⟨errors, outcome⟩ := reading
  cases outcome with
  | done found rest hle =>
      cases hvalue
      exact hreading.1
  | stopped refused rest hle => cases hvalue

/-- What a step has left to be read. -/
def Outcome.rest : Outcome α input → List Lexeme
  | .done _ rest _ => rest
  | .stopped _ rest _ => rest

theorem Reading.Yields.rest_suffix (hreading : reading.Yields good) : reading.outcome.rest <:+ input := by
  obtain ⟨errors, outcome⟩ := reading
  cases outcome with
  | done value rest hle => exact hreading.2
  | stopped refused rest hle => exact hreading

/-- Behind a stop reading goes on with an end of what is left. -/
theorem Outcome.nextStatement_suffix (outcome : Outcome α input) :
    outcome.nextStatement.1 <:+ outcome.rest := by
  have hbehind (lexemes : List Lexeme) : behindSemicolon lexemes <:+ lexemes :=
    (List.tail_suffix _).trans (List.dropWhile_suffix _)
  cases outcome with
  | done value rest hle => exact List.suffix_rfl
  | stopped refused rest hle =>
      cases refused with
      | none => exact hbehind rest
      | some lexeme =>
          -- Of a refused lexeme nothing is left, whether or not it is a semicolon.
          show behindSemicolon (lexeme :: rest) <:+ rest
          by_cases hkind : lexeme.kind = .semicolon
          · simp [behindSemicolon, hkind]
          · have hskip : behindSemicolon (lexeme :: rest) = behindSemicolon rest := by
              simp [behindSemicolon, hkind]
            rw [hskip]
            exact hbehind rest

/-- Behind a stop reading goes on with an end of what was given. -/
theorem Reading.Yields.nextStatement_suffix (hreading : reading.Yields good) :
    reading.outcome.nextStatement.1 <:+ input :=
  reading.outcome.nextStatement_suffix.trans hreading.rest_suffix

end Ends

end LetScript.Grammar

namespace LetScript

open Grammar

theorem Block.isSpellable_append {literal : Int64 → Bool} {statements others : Block} :
    Block.isSpellable literal (statements ++ others) =
      (Block.isSpellable literal statements && Block.isSpellable literal others) := by
  induction statements with
  | nil => rfl
  | cons statement statements ih =>
      rw [List.cons_append, Block.isSpellable, Block.isSpellable, ih, Bool.and_assoc]

/-- Whatever errors there are, the program that is read is one that a script can write. -/
theorem Parsed.ofLexemes_isWellFormed (lexemes : List Lexeme) (hshapes : HaveShape lexemes) :
    (Parsed.ofLexemes lexemes).program.isWellFormed = true := by
  rw [Program.isWellFormed]
  induction hlength : lexemes.length using Nat.strongRecOn generalizing lexemes with
  | _ length ih =>
      subst hlength
      cases lexemes with
      | nil =>
          rw [Parsed.ofLexemes]
          rfl
      | cons lexeme rest =>
          have hfirst := statement_yields hshapes
          have hsuffix := hfirst.nextStatement_suffix
          have hothers := ih _ (Nat.lt_succ_of_le hsuffix.length_le) _ (hshapes.tail.suffix hsuffix) rfl
          rw [Parsed.ofLexemes]
          show Block.isSpellable _ (_ ++ _) = true
          rw [Block.isSpellable_append, hothers, Bool.and_true]
          -- A statement that stopped is left out.
          cases hvalue : (statement (lexeme :: rest)).outcome.value? with
          | none => rfl
          | some first =>
              show Block.isSpellable _ [first] = true
              rw [Block.isSpellable, hfirst.good_of_value? hvalue]
              rfl

end LetScript
