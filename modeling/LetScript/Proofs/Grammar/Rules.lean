import LetScript.Token.Basic
import LetScript.Tree.Basic

/-!
# The grammar

The grammar of scripts as rules over lexemes, independent of any way of reading them.  A relation
`Spells… ws t` says that the lexemes `ws`, all of them, spell the tree `t`.

* `Tier` — the strata of expressions: four of infix operators, each of which groups to the left, then
  prefix operators, calls, and what stands alone.
* `SpellsExpr`, `SpellsArguments`, `SpellsBlock`, `SpellsStmt`, `SpellsStmts` and their companions — the
  rules.  Parentheses for grouping leave no trace in the tree.
* `MayLeaveOpen` — when the semicolon behind a statement may be missing.
* `SpellsProgram` — the rule for a whole script.
* `SpellsExpr.exists_starts`, `SpellsStmt.exists_starts` — what an expression and a statement start with.
-/

namespace LetScript.Grammar

/-- The strata of expressions, from the operators that bind least to what stands alone. -/
inductive Tier where
  | equality
  | comparison
  | sum
  | product
  | unary
  | application
  | primary
  deriving DecidableEq, Repr

/-- The stratum above; there is none above what stands alone. -/
def Tier.next : Tier → Tier
  | equality => comparison
  | comparison => sum
  | sum => product
  | product => unary
  | unary => application
  | application => primary
  | primary => primary

/-- The stratum of an infix operator. -/
def Tier.ofInfix : InfixOp → Tier
  | .eq | .notEq => equality
  | .lt | .gt => comparison
  | .plus | .minus => sum
  | .asterisk | .slash => product

/-- The kind of the first of some lexemes, `closing` if there is none. -/
def firstKind (closing : Kind) : List Lexeme → Kind
  | [] => closing
  | lexeme :: _ => lexeme.kind

/-- Whether the semicolon behind a statement may be missing in front of a lexeme of the kind `next`.
Behind an expression it may not if the lexeme would go on with the expression; behind a return
without a value it may only at the end of a block or script. -/
def MayLeaveOpen : Stmt → Kind → Prop
  | .ret none, next => next = .rBrace ∨ next = .eof
  | .ret (some _), next | .bind _ _, next | .expr _, next =>
      next ≠ .lParen ∧ ∀ op : InfixOp, next ≠ op.kind

/-- Names, each behind a comma. -/
inductive SpellsMoreNames : List Lexeme → List String → Prop
  | nil : SpellsMoreNames [] []
  | cons {comma name ws names} (hmore : SpellsMoreNames ws names) :
      SpellsMoreNames (⟨.comma, comma⟩ :: ⟨.ident, name⟩ :: ws) (name :: names)

/-- Names with commas between them. -/
inductive SpellsNames : List Lexeme → List String → Prop
  | nil : SpellsNames [] []
  | cons {name ws names} (hmore : SpellsMoreNames ws names) :
      SpellsNames (⟨.ident, name⟩ :: ws) (name :: names)

mutual

/-- Expressions of a stratum and of those above it. -/
inductive SpellsExpr : Tier → List Lexeme → Expr → Prop
  /-- The operand on the left may have an operator of the same stratum, the one on the right not. -/
  | binary {op us left text ws right} (hleft : SpellsExpr (.ofInfix op) us left)
      (hright : SpellsExpr (Tier.ofInfix op).next ws right) :
      SpellsExpr (.ofInfix op) (us ++ ⟨op.kind, text⟩ :: ws) (.binary op left right)
  | unary {op text ws operand} (hoperand : SpellsExpr .unary ws operand) :
      SpellsExpr .unary (⟨op.kind, text⟩ :: ws) (.unary op operand)
  | call {us callee opening ws args closing} (hcallee : SpellsExpr .application us callee)
      (hargs : SpellsArguments ws args) :
      SpellsExpr .application (us ++ ⟨.lParen, opening⟩ :: (ws ++ [⟨.rParen, closing⟩]))
        (.call callee args)
  | name {text} : SpellsExpr .primary [⟨.ident, text⟩] (.name text)
  /-- The digits stand for a number in the 64-bit range. -/
  | int {text} {value : Int64} (hvalue : value.toInt = Nat.ofDigitChars 10 text.toList 0) :
      SpellsExpr .primary [⟨.int, text⟩] (.int value)
  | str {text} : SpellsExpr .primary [⟨.string, text⟩] (.str text)
  | trueKey {text} : SpellsExpr .primary [⟨.trueKey, text⟩] (.bool true)
  | falseKey {text} : SpellsExpr .primary [⟨.falseKey, text⟩] (.bool false)
  | group {opening ws e closing} (hinner : SpellsExpr .equality ws e) :
      SpellsExpr .primary (⟨.lParen, opening⟩ :: (ws ++ [⟨.rParen, closing⟩])) e
  | cond {keyword opening us condition closing vs consequence ws alternative}
      (hcondition : SpellsExpr .equality us condition) (hconsequence : SpellsBlock vs consequence)
      (halternative : SpellsElse ws alternative) :
      SpellsExpr .primary
        (⟨.ifKey, keyword⟩ :: ⟨.lParen, opening⟩ :: (us ++ ⟨.rParen, closing⟩ :: (vs ++ ws)))
        (.cond condition consequence alternative)
  | fn {keyword opening us names closing ws body} (hnames : SpellsNames us names)
      (hbody : SpellsBlock ws body) :
      SpellsExpr .primary
        (⟨.function, keyword⟩ :: ⟨.lParen, opening⟩ :: (us ++ ⟨.rParen, closing⟩ :: ws))
        (.fn names body)
  /-- An expression of one stratum is one of every stratum below. -/
  | lift {tier : Tier} {ws e} (habove : SpellsExpr tier.next ws e) : SpellsExpr tier ws e

/-- Expressions with commas between them. -/
inductive SpellsArguments : List Lexeme → List Expr → Prop
  | nil : SpellsArguments [] []
  | cons {us first ws others} (hfirst : SpellsExpr .equality us first)
      (hmore : SpellsMoreArguments ws others) : SpellsArguments (us ++ ws) (first :: others)

/-- Expressions, each behind a comma. -/
inductive SpellsMoreArguments : List Lexeme → List Expr → Prop
  | nil : SpellsMoreArguments [] []
  | cons {comma us first ws others} (hfirst : SpellsExpr .equality us first)
      (hmore : SpellsMoreArguments ws others) :
      SpellsMoreArguments (⟨.comma, comma⟩ :: (us ++ ws)) (first :: others)

/-- The second block of a conditional, which may be missing. -/
inductive SpellsElse : List Lexeme → Option Block → Prop
  | none : SpellsElse [] none
  | some {keyword ws body} (hbody : SpellsBlock ws body) :
      SpellsElse (⟨.elseKey, keyword⟩ :: ws) (some body)

/-- A block in braces. -/
inductive SpellsBlock : List Lexeme → Block → Prop
  | braces {opening ws statements closing} (hstatements : SpellsStmts .rBrace ws statements) :
      SpellsBlock (⟨.lBrace, opening⟩ :: (ws ++ [⟨.rBrace, closing⟩])) statements

/-- A statement without the semicolon behind it. -/
inductive SpellsStmt : List Lexeme → Stmt → Prop
  | bind {keyword name assign ws value} (hvalue : SpellsExpr .equality ws value) :
      SpellsStmt (⟨.letKey, keyword⟩ :: ⟨.ident, name⟩ :: ⟨.assign, assign⟩ :: ws)
        (.bind name value)
  | bare {keyword} : SpellsStmt [⟨.returnKey, keyword⟩] (.ret none)
  | ret {keyword ws value} (hvalue : SpellsExpr .equality ws value) :
      SpellsStmt (⟨.returnKey, keyword⟩ :: ws) (.ret (some value))
  | expr {ws value} (hvalue : SpellsExpr .equality ws value) : SpellsStmt ws (.expr value)

/-- Statements in a row, in front of a lexeme of the kind `closing`. -/
inductive SpellsStmts : Kind → List Lexeme → Block → Prop
  | nil {closing} : SpellsStmts closing [] []
  | ended {closing us first text ws others} (hfirst : SpellsStmt us first)
      (hothers : SpellsStmts closing ws others) :
      SpellsStmts closing (us ++ ⟨.semicolon, text⟩ :: ws) (first :: others)
  | leftOpen {closing us first ws others} (hfirst : SpellsStmt us first)
      (hopen : MayLeaveOpen first (firstKind closing ws)) (hothers : SpellsStmts closing ws others) :
      SpellsStmts closing (us ++ ws) (first :: others)

end

/-- The lexemes spell the program. -/
def SpellsProgram (ws : List Lexeme) (program : Program) : Prop :=
  SpellsStmts .eof ws program.statements

/-! ## What comes first -/

/-- The kinds with which an expression starts. -/
def startsExpr : Kind → Bool
  | .ident | .int | .string | .trueKey | .falseKey | .bang | .minus | .lParen | .ifKey
  | .function => true
  | _ => false

/-- The kinds with which a statement starts. -/
def startsStmt : Kind → Bool
  | .letKey | .returnKey => true
  | kind => startsExpr kind

theorem startsStmt_of_startsExpr {kind : Kind} (hkind : startsExpr kind = true) :
    startsStmt kind = true := by
  cases kind <;> first | rfl | exact hkind

/-- An expression is spelled by at least one lexeme, and the first one is of few kinds. -/
theorem SpellsExpr.exists_starts : ∀ {tier : Tier} {ws : List Lexeme} {e : Expr},
    SpellsExpr tier ws e →
      ∃ lexeme others, ws = lexeme :: others ∧ startsExpr lexeme.kind = true
  | _, _, _, .binary hleft _ => by
      obtain ⟨lexeme, others, rfl, hstarts⟩ := hleft.exists_starts
      exact ⟨lexeme, _, rfl, hstarts⟩
  | _, _, _, @SpellsExpr.unary op _ _ _ _ => by
      refine ⟨_, _, rfl, ?_⟩
      cases op <;> rfl
  | _, _, _, .call hcallee _ => by
      obtain ⟨lexeme, others, rfl, hstarts⟩ := hcallee.exists_starts
      exact ⟨lexeme, _, rfl, hstarts⟩
  | _, _, _, .name | _, _, _, .int _ | _, _, _, .str | _, _, _, .trueKey | _, _, _, .falseKey
  | _, _, _, .group _ | _, _, _, .cond _ _ _ | _, _, _, .fn _ _ => ⟨_, _, rfl, rfl⟩
  | _, _, _, .lift habove => habove.exists_starts

theorem SpellsStmt.exists_starts {ws : List Lexeme} {s : Stmt} (hspells : SpellsStmt ws s) :
    ∃ lexeme others, ws = lexeme :: others ∧ startsStmt lexeme.kind = true := by
  cases hspells with
  | bind | bare | ret => exact ⟨_, _, rfl, rfl⟩
  | expr hvalue =>
      obtain ⟨lexeme, others, rfl, hstarts⟩ := hvalue.exists_starts
      exact ⟨lexeme, others, rfl, startsStmt_of_startsExpr hstarts⟩

/-- Nothing but what starts a statement can follow a statement in a row. -/
theorem SpellsStmts.firstKind_eq_or_starts {closing : Kind} {ws : List Lexeme} {statements : Block}
    (hspells : SpellsStmts closing ws statements) :
    ws = [] ∧ firstKind closing ws = closing ∨ startsStmt (firstKind closing ws) = true := by
  cases hspells with
  | nil => exact .inl ⟨rfl, rfl⟩
  | ended hfirst | leftOpen hfirst =>
      obtain ⟨lexeme, others, rfl, hstarts⟩ := hfirst.exists_starts
      exact .inr hstarts

end LetScript.Grammar
