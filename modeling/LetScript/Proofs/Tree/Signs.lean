import LetScript.Proofs.Tree.WellFormed

/-!
# Literals with a sign

A script writes integers without a sign.  The canonical text of a negative literal is a sign in front of digits, and
what is read of it is the prefix operation.  At the head of a call the sign is read as that of the whole call.

* `Expr.isSigned`, `Expr.unsigned` — whether the text of an expression starts with the sign of a literal, and the
  expression behind that.
* `Expr.respelled`, `Stmt.respelled`, `Block.respelled`, `Program.respelled` — trees with each sign as an operation.
* `toInt_neg_of_ne_minValue`, `nonneg_unsigned_iff` — which integers have an opposite.
* `Program.isWellFormed_respelled` — they are well-formed if the tree holds no literal that has no opposite.
* `Program.respelled_eq_self` — well-formed trees have no signs.
-/

namespace LetScript

/-! ## Respelled trees -/

/-- The text of the expression starts with the sign of a literal. -/
def Expr.isSigned : Expr → Bool
  | .int value => value < 0
  | .call callee _ => callee.isSigned
  | _ => false

/-- An expression behind a sign, if there is to be one. -/
def Expr.behindSign (signed : Bool) (e : Expr) : Expr :=
  if signed then .unary .minus e else e

mutual

/-- The expression behind the sign that its text starts with.  All parts have their signs as operations. -/
def Expr.unsigned : Expr → Expr
  | .name ident => .name ident
  | .int value => .int (if value < 0 then -value else value)
  | .str value => .str value
  | .bool value => .bool value
  | .unary op operand => .unary op (operand.unsigned.behindSign operand.isSigned)
  | .binary op left right =>
      .binary op (left.unsigned.behindSign left.isSigned) (right.unsigned.behindSign right.isSigned)
  | .cond condition consequence none =>
      .cond (condition.unsigned.behindSign condition.isSigned) (Block.respelled consequence) none
  | .cond condition consequence (some alternative) =>
      .cond (condition.unsigned.behindSign condition.isSigned) (Block.respelled consequence)
        (some (Block.respelled alternative))
  | .fn parameters body => .fn parameters (Block.respelled body)
  -- The sign of the callee stands in front of the call, so it is left out here.
  | .call callee arguments => .call callee.unsigned (Expr.respelledEach arguments)

/-- The statement with each sign as an operation. -/
def Stmt.respelled : Stmt → Stmt
  | .bind name value => .bind name (value.unsigned.behindSign value.isSigned)
  | .ret none => .ret none
  | .ret (some value) => .ret (some (value.unsigned.behindSign value.isSigned))
  | .expr value => .expr (value.unsigned.behindSign value.isSigned)

/-- The statements with each sign as an operation. -/
def Block.respelled : List Stmt → List Stmt
  | [] => []
  | statement :: statements => statement.respelled :: Block.respelled statements

/-- The expressions with each sign as an operation. -/
def Expr.respelledEach : List Expr → List Expr
  | [] => []
  | expr :: exprs => expr.unsigned.behindSign expr.isSigned :: Expr.respelledEach exprs

end

/-- The expression with each sign as an operation. -/
def Expr.respelled (e : Expr) : Expr :=
  e.unsigned.behindSign e.isSigned

/-- The program with each sign as an operation. -/
def Program.respelled (program : Program) : Program :=
  ⟨Block.respelled program.statements⟩

theorem Expr.respelled_of_signed {e : Expr} (hsigned : e.isSigned = true) :
    e.respelled = .unary .minus e.unsigned := by
  rw [respelled, behindSign, if_pos hsigned]

theorem Expr.respelled_of_plain {e : Expr} (hplain : e.isSigned = false) : e.respelled = e.unsigned := by
  rw [respelled, behindSign, hplain]
  rfl

/-! ## Well-formed trees -/

/-- Only the least integer has no opposite. -/
theorem toInt_neg_of_ne_minValue {value : Int64} (hvalue : value ≠ Int64.minValue) :
    (-value).toInt = -value.toInt := by
  have hleast : value.toInt ≠ -9223372036854775808 := by
    intro heq
    exact hvalue (Int64.toInt_inj.1 heq)
  have hlower := Int64.le_toInt value
  have hupper := Int64.toInt_lt value
  rw [Int64.toInt_neg]
  exact Int.bmod_eq_of_le (by omega) (by omega)

/-- The least integer has no opposite; every other one is written with at most a sign. -/
theorem nonneg_unsigned_iff (value : Int64) :
    0 ≤ (if value < 0 then -value else value) ↔ value ≠ Int64.minValue := by
  by_cases hnegative : value < 0
  · rw [if_pos hnegative]
    constructor
    · rintro hnonneg rfl
      exact absurd hnonneg (by decide)
    · intro hvalue
      have hopposite := toInt_neg_of_ne_minValue hvalue
      have hbelow := Int64.lt_iff_toInt_lt.1 hnegative
      rw [Int64.toInt_zero] at hbelow
      rw [Int64.le_iff_toInt_le, Int64.toInt_zero, hopposite]
      omega
  · rw [if_neg hnegative]
    refine iff_of_true (Int64.not_lt.1 hnegative) ?_
    rintro rfl
    exact hnegative (by decide)

theorem Expr.isSpellable_behindSign (literal : Int64 → Bool) (signed : Bool) (e : Expr) :
    (e.behindSign signed).isSpellable literal = e.isSpellable literal := by
  cases signed with
  | false => rfl
  | true => rw [behindSign, if_pos rfl, isSpellable]

mutual

theorem Expr.isSpellable_unsigned : ∀ e : Expr,
    e.unsigned.isSpellable (0 ≤ ·) = e.isSpellable (· ≠ Int64.minValue)
  | .name ident => by simp only [Expr.unsigned, Expr.isSpellable]
  | .int value => by
      simp only [Expr.unsigned, Expr.isSpellable]
      exact decide_eq_decide.2 (nonneg_unsigned_iff value)
  | .str value => by simp only [Expr.unsigned, Expr.isSpellable]
  | .bool value => by simp only [Expr.unsigned, Expr.isSpellable]
  | .unary op operand => by
      simp only [Expr.unsigned, Expr.isSpellable, Expr.isSpellable_behindSign, Expr.isSpellable_unsigned operand]
  | .binary op left right => by
      simp only [Expr.unsigned, Expr.isSpellable, Expr.isSpellable_behindSign, Expr.isSpellable_unsigned left,
        Expr.isSpellable_unsigned right]
  | .cond condition consequence none => by
      simp only [Expr.unsigned, Expr.isSpellable, Expr.isSpellable_behindSign, Expr.isSpellable_unsigned condition,
        Block.isSpellable_respelled consequence]
  | .cond condition consequence (some alternative) => by
      simp only [Expr.unsigned, Expr.isSpellable, Expr.isSpellable_behindSign, Expr.isSpellable_unsigned condition,
        Block.isSpellable_respelled consequence, Block.isSpellable_respelled alternative]
  | .fn parameters body => by
      simp only [Expr.unsigned, Expr.isSpellable, Block.isSpellable_respelled body]
  | .call callee arguments => by
      simp only [Expr.unsigned, Expr.isSpellable, Expr.isSpellable_unsigned callee,
        Expr.areSpellable_respelledEach arguments]

theorem Stmt.isSpellable_respelled : ∀ s : Stmt,
    s.respelled.isSpellable (0 ≤ ·) = s.isSpellable (· ≠ Int64.minValue)
  | .bind name value => by
      simp only [Stmt.respelled, Stmt.isSpellable, Expr.isSpellable_behindSign, Expr.isSpellable_unsigned value]
  | .ret none => by simp only [Stmt.respelled, Stmt.isSpellable]
  | .ret (some value) => by
      simp only [Stmt.respelled, Stmt.isSpellable, Expr.isSpellable_behindSign, Expr.isSpellable_unsigned value]
  | .expr value => by
      simp only [Stmt.respelled, Stmt.isSpellable, Expr.isSpellable_behindSign, Expr.isSpellable_unsigned value]

theorem Block.isSpellable_respelled : ∀ statements : List Stmt,
    Block.isSpellable (0 ≤ ·) (Block.respelled statements) = Block.isSpellable (· ≠ Int64.minValue) statements
  | [] => by simp only [Block.respelled, Block.isSpellable]
  | statement :: statements => by
      simp only [Block.respelled, Block.isSpellable, Stmt.isSpellable_respelled statement,
        Block.isSpellable_respelled statements]

theorem Expr.areSpellable_respelledEach : ∀ exprs : List Expr,
    Expr.areSpellable (0 ≤ ·) (Expr.respelledEach exprs) = Expr.areSpellable (· ≠ Int64.minValue) exprs
  | [] => by simp only [Expr.respelledEach, Expr.areSpellable]
  | expr :: exprs => by
      simp only [Expr.respelledEach, Expr.areSpellable, Expr.isSpellable_behindSign, Expr.isSpellable_unsigned expr,
        Expr.areSpellable_respelledEach exprs]

end

theorem Program.isWellFormed_respelled (program : Program) :
    program.respelled.isWellFormed = Block.isSpellable (· ≠ Int64.minValue) program.statements :=
  Block.isSpellable_respelled program.statements

mutual

theorem Expr.unsigned_eq_self : ∀ {e : Expr}, e.isSpellable (0 ≤ ·) = true →
    e.isSigned = false ∧ e.unsigned = e
  | .name ident, _ => ⟨rfl, rfl⟩
  | .int value, hspellable => by
      simp only [Expr.isSpellable, decide_eq_true_eq] at hspellable
      have hnot : ¬ value < 0 := Int64.not_lt.2 hspellable
      exact ⟨decide_eq_false hnot, by rw [Expr.unsigned, if_neg hnot]⟩
  | .str value, _ => ⟨rfl, rfl⟩
  | .bool value, _ => ⟨rfl, rfl⟩
  | .unary op operand, hspellable => by
      simp only [Expr.isSpellable] at hspellable
      obtain ⟨hplain, hsame⟩ := Expr.unsigned_eq_self hspellable
      exact ⟨rfl, by rw [Expr.unsigned, hplain, hsame]; rfl⟩
  | .binary op left right, hspellable => by
      simp only [Expr.isSpellable, Bool.and_eq_true] at hspellable
      obtain ⟨hplain, hsame⟩ := Expr.unsigned_eq_self hspellable.1
      obtain ⟨hplain', hsame'⟩ := Expr.unsigned_eq_self hspellable.2
      exact ⟨rfl, by rw [Expr.unsigned, hplain, hsame, hplain', hsame']; rfl⟩
  | .cond condition consequence none, hspellable => by
      simp only [Expr.isSpellable, Bool.and_eq_true] at hspellable
      obtain ⟨hplain, hsame⟩ := Expr.unsigned_eq_self hspellable.1
      exact ⟨rfl, by rw [Expr.unsigned, hplain, hsame, Block.respelled_eq_self hspellable.2]; rfl⟩
  | .cond condition consequence (some alternative), hspellable => by
      simp only [Expr.isSpellable, Bool.and_eq_true] at hspellable
      obtain ⟨hplain, hsame⟩ := Expr.unsigned_eq_self hspellable.1.1
      exact ⟨rfl, by
        rw [Expr.unsigned, hplain, hsame, Block.respelled_eq_self hspellable.1.2,
          Block.respelled_eq_self hspellable.2]
        rfl⟩
  | .fn parameters body, hspellable => by
      simp only [Expr.isSpellable, Bool.and_eq_true] at hspellable
      exact ⟨rfl, by rw [Expr.unsigned, Block.respelled_eq_self hspellable.2]⟩
  | .call callee arguments, hspellable => by
      simp only [Expr.isSpellable, Bool.and_eq_true] at hspellable
      obtain ⟨hplain, hsame⟩ := Expr.unsigned_eq_self hspellable.1
      exact ⟨hplain, by rw [Expr.unsigned, hsame, Expr.respelledEach_eq_self hspellable.2]⟩

theorem Stmt.respelled_eq_self : ∀ {s : Stmt}, s.isSpellable (0 ≤ ·) = true → s.respelled = s
  | .bind name value, hspellable => by
      simp only [Stmt.isSpellable, Bool.and_eq_true] at hspellable
      obtain ⟨hplain, hsame⟩ := Expr.unsigned_eq_self hspellable.2
      rw [Stmt.respelled, hplain, hsame]
      rfl
  | .ret none, _ => rfl
  | .ret (some value), hspellable => by
      simp only [Stmt.isSpellable] at hspellable
      obtain ⟨hplain, hsame⟩ := Expr.unsigned_eq_self hspellable
      rw [Stmt.respelled, hplain, hsame]
      rfl
  | .expr value, hspellable => by
      simp only [Stmt.isSpellable] at hspellable
      obtain ⟨hplain, hsame⟩ := Expr.unsigned_eq_self hspellable
      rw [Stmt.respelled, hplain, hsame]
      rfl

theorem Block.respelled_eq_self : ∀ {statements : List Stmt}, Block.isSpellable (0 ≤ ·) statements = true →
    Block.respelled statements = statements
  | [], _ => rfl
  | statement :: statements, hspellable => by
      simp only [Block.isSpellable, Bool.and_eq_true] at hspellable
      rw [Block.respelled, Stmt.respelled_eq_self hspellable.1, Block.respelled_eq_self hspellable.2]

theorem Expr.respelledEach_eq_self : ∀ {exprs : List Expr}, Expr.areSpellable (0 ≤ ·) exprs = true →
    Expr.respelledEach exprs = exprs
  | [], _ => rfl
  | expr :: exprs, hspellable => by
      simp only [Expr.areSpellable, Bool.and_eq_true] at hspellable
      obtain ⟨hplain, hsame⟩ := Expr.unsigned_eq_self hspellable.1
      rw [Expr.respelledEach, hplain, hsame, Expr.respelledEach_eq_self hspellable.2]
      rfl

end

theorem Program.respelled_eq_self {program : Program} (hwellFormed : program.isWellFormed = true) :
    program.respelled = program := by
  rw [respelled, Block.respelled_eq_self hwellFormed]

end LetScript
