import LetScript.Proofs.Grammar.Rules

/-!
# Programs one behind the other

A semicolon can end a statement but is never the last lexeme of one, so behind it a program can go on with
any other program.

* `endsExpr`, `endsStmt` — the kinds with which an expression ends, and a statement.
* `SpellsExpr.endsIn`, `SpellsStmt.endsIn` — no expression and no statement ends with another kind.
* `SpellsStmts.append` — statements in a row that end with a semicolon, and those behind them.
-/

namespace LetScript.Grammar

/-- The kinds with which an expression ends. -/
def endsExpr : Kind → Bool
  | .ident | .int | .string | .trueKey | .falseKey | .rParen | .rBrace => true
  | _ => false

/-- The kinds with which a statement ends, the semicolon behind it left out. -/
def endsStmt : Kind → Bool
  | .returnKey => true
  | kind => endsExpr kind

theorem endsStmt_of_endsExpr {kind : Kind} (hkind : endsExpr kind = true) : endsStmt kind = true := by
  cases kind <;> first | rfl | exact hkind

/-- The last lexeme is of a kind in the class. -/
def EndsIn (p : Kind → Bool) (ws : List Lexeme) : Prop :=
  ∃ others lexeme, ws = others ++ [lexeme] ∧ p lexeme.kind = true

section Ends

variable {p : Kind → Bool} {ws : List Lexeme} {lexeme : Lexeme}

theorem endsIn_singleton (hlexeme : p lexeme.kind = true) : EndsIn p [lexeme] :=
  ⟨[], lexeme, rfl, hlexeme⟩

theorem EndsIn.append (hends : EndsIn p ws) (us : List Lexeme) : EndsIn p (us ++ ws) := by
  obtain ⟨others, lexeme, rfl, hlexeme⟩ := hends
  exact ⟨us ++ others, lexeme, (List.append_assoc ..).symm, hlexeme⟩

theorem EndsIn.cons (hends : EndsIn p ws) (lexeme : Lexeme) : EndsIn p (lexeme :: ws) :=
  hends.append [lexeme]

theorem EndsIn.mono {q : Kind → Bool} (hends : EndsIn p ws)
    (hsub : ∀ {kind}, p kind = true → q kind = true) : EndsIn q ws := by
  obtain ⟨others, lexeme, rfl, hlexeme⟩ := hends
  exact ⟨others, lexeme, rfl, hsub hlexeme⟩

end Ends

theorem SpellsBlock.endsIn {ws : List Lexeme} {body : Block} (hspells : SpellsBlock ws body) :
    EndsIn endsExpr ws := by
  cases hspells with
  | braces => exact ((endsIn_singleton rfl).append _).cons _

theorem SpellsBlock.endsIn_else {vs ws : List Lexeme} {consequence : Block}
    {alternative : Option Block} (hconsequence : SpellsBlock vs consequence)
    (halternative : SpellsElse ws alternative) : EndsIn endsExpr (vs ++ ws) := by
  cases halternative with
  | none =>
      rw [List.append_nil]
      exact hconsequence.endsIn
  | some hbody => exact (hbody.endsIn.cons _).append _

theorem SpellsExpr.endsIn : ∀ {tier : Tier} {ws : List Lexeme} {e : Expr}, SpellsExpr tier ws e →
    EndsIn endsExpr ws
  | _, _, _, .binary _ hright => (hright.endsIn.cons _).append _
  | _, _, _, .unary hoperand => hoperand.endsIn.cons _
  | _, _, _, .call _ _ => (((endsIn_singleton rfl).append _).cons _).append _
  | _, _, _, .name | _, _, _, .int _ | _, _, _, .str | _, _, _, .trueKey | _, _, _, .falseKey =>
      endsIn_singleton rfl
  | _, _, _, .group _ => ((endsIn_singleton rfl).append _).cons _
  | _, _, _, .cond _ hconsequence halternative => by
      have hblocks := hconsequence.endsIn_else halternative
      exact (((hblocks.cons _).append _).cons _).cons _
  | _, _, _, .fn _ hbody => (((hbody.endsIn.cons _).append _).cons _).cons _
  | _, _, _, .lift habove => habove.endsIn

theorem SpellsStmt.endsIn {ws : List Lexeme} {s : Stmt} (hspells : SpellsStmt ws s) :
    EndsIn endsStmt ws := by
  cases hspells with
  | bind hvalue => exact ((((hvalue.endsIn).mono endsStmt_of_endsExpr).cons _).cons _).cons _
  | bare => exact endsIn_singleton rfl
  | ret hvalue => exact ((hvalue.endsIn).mono endsStmt_of_endsExpr).cons _
  | expr hvalue => exact (hvalue.endsIn).mono endsStmt_of_endsExpr

/-- No statement ends with a semicolon: that stands behind it. -/
theorem SpellsStmt.getLast?_ne {ws : List Lexeme} {s : Stmt} (hspells : SpellsStmt ws s) :
    ∃ lexeme ∈ ws.getLast?, lexeme.kind ≠ .semicolon := by
  obtain ⟨others, lexeme, rfl, hkind⟩ := hspells.endsIn
  refine ⟨lexeme, List.getLast?_concat, ?_⟩
  intro hsemicolon
  rw [hsemicolon] at hkind
  cases hkind

theorem mem_getLast?_append {ws : List Lexeme} {lexeme : Lexeme} (hlast : lexeme ∈ ws.getLast?)
    (us : List Lexeme) : lexeme ∈ (us ++ ws).getLast? := by
  rw [List.getLast?_append, Option.mem_def.1 hlast]
  rfl

/-- Behind a semicolon, or from the start, other statements can follow statements in a row. -/
theorem SpellsStmts.append {closing : Kind} {ws vs : List Lexeme} {statements others : Block}
    (hspells : SpellsStmts closing ws statements)
    (hlast : ∀ lexeme ∈ ws.getLast?, lexeme.kind = .semicolon)
    (hothers : SpellsStmts closing vs others) :
    SpellsStmts closing (ws ++ vs) (statements ++ others) := by
  induction statements generalizing ws with
  | nil =>
      cases hspells
      exact hothers
  | cons first rest ih =>
      cases hspells with
      | @ended _ us _ text ws _ hfirst hrest =>
          have hbehind : ∀ lexeme ∈ ws.getLast?, lexeme.kind = .semicolon := by
            intro lexeme hmem
            exact hlast lexeme (mem_getLast?_append (mem_getLast?_append hmem [_]) us)
          have hjoined : SpellsStmts closing (us ++ ⟨.semicolon, text⟩ :: (ws ++ vs))
            (first :: (rest ++ others)) := .ended hfirst (ih hrest hbehind)
          rwa [← List.cons_append, ← List.append_assoc] at hjoined
      | @leftOpen _ us _ ws _ hfirst hopen hrest =>
          -- With nothing behind the statement its own last lexeme would be the semicolon.
          have hne : ws ≠ [] := by
            rintro rfl
            obtain ⟨lexeme, hmem, hkind⟩ := hfirst.getLast?_ne
            rw [List.append_nil] at hlast
            exact hkind (hlast lexeme hmem)
          have hbehind : ∀ lexeme ∈ ws.getLast?, lexeme.kind = .semicolon := by
            intro lexeme hmem
            exact hlast lexeme (mem_getLast?_append hmem us)
          have hopen' : MayLeaveOpen first (firstKind closing (ws ++ vs)) := by
            obtain ⟨lexeme, behind, rfl⟩ := List.exists_cons_of_ne_nil hne
            exact hopen
          have hjoined : SpellsStmts closing (us ++ (ws ++ vs)) (first :: (rest ++ others)) :=
            .leftOpen hfirst hopen' (ih hrest hbehind)
          rwa [← List.append_assoc] at hjoined

end LetScript.Grammar
