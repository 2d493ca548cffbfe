import LetScript.Proofs.Grammar.Branches
import LetScript.Proofs.Grammar.Rules

/-!
# Strata and levels

The rules of the grammar tell expressions apart by strata, the reading of expressions by numbers: it
goes on behind an operand as long as the next lexeme binds more strongly than a level.  Two numbers
translate a stratum.

* `Tier.floor` — the highest level at which expressions of the stratum are read as a whole.
* `Tier.ceiling` — the highest power of a lexeme that can stand behind an expression of the stratum
  without going on with its last operand.
* `SpellsExpr.lower` — an expression of one stratum is one of each stratum of a lower rank; the lemmas
  behind it find the stratum that an operator, a call or a prefix operator asks for.
-/

namespace LetScript

/-- No lexeme binds more strongly than the parenthesis of a call. -/
theorem Kind.power_le_callPower (kind : Kind) : kind.power ≤ Kind.callPower := by
  cases kind <;> decide

theorem InfixOp.power_lt_prefixPower (op : InfixOp) : op.power < Kind.prefixPower := by
  cases op <;> decide

namespace Grammar

/-- A run of digits is a literal exactly if its number is that of a 64-bit integer. -/
theorem integer?_eq_some_iff {text : String} {value : Int64} :
    integer? text = some value ↔ value.toInt = Nat.ofDigitChars 10 text.toList 0 := by
  simp only [integer?]
  generalize Nat.ofDigitChars 10 text.toList 0 = number
  have hrange := Int64.toInt_lt value
  constructor
  · intro hsome
    split at hsome
    · next hnumber =>
        cases hsome
        exact Int64.toInt_ofNat_of_lt hnumber
    · cases hsome
  · intro hvalue
    have hnumber : number < 0x8000000000000000 := by omega
    rw [if_pos hnumber]
    congr 1
    apply Int64.toInt_inj.1
    rw [hvalue]
    exact Int64.toInt_ofNat_of_lt hnumber

namespace Tier

/-- The highest level at which expressions of a stratum are read as a whole. -/
def floor : Tier → Nat
  | equality => 0
  | comparison => 1
  | sum => 2
  | product => 3
  | unary | application | primary => Kind.prefixPower

/-- The highest power of a lexeme that does not go on with the last operand of an expression. -/
def ceiling : Tier → Nat
  | equality => 1
  | comparison => 2
  | sum => 3
  | product => 4
  | unary => Kind.prefixPower
  | application | primary => Kind.callPower

/-- The place of a stratum among the others. -/
def rank : Tier → Nat
  | equality => 0
  | comparison => 1
  | sum => 2
  | product => 3
  | unary => 4
  | application => 5
  | primary => 6

theorem rank_next_le {tier higher : Tier} (hrank : tier.rank < higher.rank) :
    tier.next.rank ≤ higher.rank ∧ tier.rank < tier.next.rank := by
  cases tier <;> cases higher <;> revert hrank <;> decide

theorem floor_le_next (tier : Tier) : tier.floor ≤ tier.next.floor := by
  cases tier <;> decide

theorem ceiling_le_next (tier : Tier) : tier.ceiling ≤ tier.next.ceiling := by
  cases tier <;> decide

@[simp] theorem ceiling_ofInfix (op : InfixOp) : (ofInfix op).ceiling = op.power := by
  cases op <;> rfl

theorem lt_power_iff_le_floor {level : Nat} {op : InfixOp} :
    level < op.power ↔ level ≤ (ofInfix op).floor := by
  cases op <;> exact Nat.lt_succ_iff

theorem power_le_floor_next (op : InfixOp) : op.power ≤ (ofInfix op).next.floor := by
  cases op <;> decide

theorem rank_ofInfix_le {op : InfixOp} {tier : Tier} (hceiling : op.power ≤ tier.ceiling) :
    (ofInfix op).rank ≤ tier.rank := by
  cases op <;> cases tier <;> revert hceiling <;> decide

theorem rank_next_ofInfix_le {op : InfixOp} {tier : Tier} (hfloor : op.power ≤ tier.floor) :
    (ofInfix op).next.rank ≤ tier.rank := by
  cases op <;> cases tier <;> revert hfloor <;> decide

theorem rank_application_le {tier : Tier} (hceiling : Kind.callPower ≤ tier.ceiling) :
    application.rank ≤ tier.rank := by
  cases tier <;> revert hceiling <;> decide

theorem rank_unary_le {tier : Tier} (hfloor : Kind.prefixPower ≤ tier.floor) :
    unary.rank ≤ tier.rank := by
  cases tier <;> revert hfloor <;> decide

end Tier

/-- An expression of one stratum is one of each stratum of a lower rank. -/
theorem SpellsExpr.lower {tier higher : Tier} {ws : List Lexeme} {e : Expr}
    (hspells : SpellsExpr higher ws e) (hrank : tier.rank ≤ higher.rank) : SpellsExpr tier ws e := by
  by_cases hlt : tier.rank < higher.rank
  · obtain ⟨hnext, hstep⟩ := Tier.rank_next_le hlt
    exact .lift (hspells.lower hnext)
  · have heq : tier = higher := by
      cases tier <;> cases higher <;> revert hrank hlt <;> decide
    rw [heq]
    exact hspells
termination_by higher.rank - tier.rank

/-- Any expression is one of the lowest stratum. -/
theorem SpellsExpr.toEquality {tier : Tier} {ws : List Lexeme} {e : Expr}
    (hspells : SpellsExpr tier ws e) : SpellsExpr .equality ws e :=
  hspells.lower (Nat.zero_le _)

/-- At the end of a script the kind of the next lexeme is that of the end. -/
theorem firstKind_eof (ws : List Lexeme) : firstKind .eof ws = nextKind ws := by
  cases ws <;> rfl

/-- A semicolon may be missing where no expression would go on. -/
theorem not_goesOn_of_power {kind : Kind} (hpower : kind.power ≤ 0) :
    kind ≠ .lParen ∧ ∀ op : InfixOp, kind ≠ op.kind := by
  constructor
  · rintro rfl
    exact absurd hpower (by decide)
  · rintro op rfl
    cases op <;> exact absurd hpower (by decide)

theorem power_eq_zero {kind : Kind} (hparen : kind ≠ .lParen)
    (hop : ∀ op : InfixOp, kind ≠ op.kind) : kind.power = 0 := by
  apply Nat.eq_zero_of_not_pos
  intro hpower
  obtain ⟨op, hkind⟩ | hkind := Kind.exists_of_lt_power hpower
  · exact hop op hkind
  · exact hparen hkind

end Grammar

end LetScript
