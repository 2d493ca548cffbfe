import LetScript.Tree.Basic

/-!
# Equality of program trees

* `Expr.beq`, `Stmt.beq`, `Block.beq`, `Expr.listBeq` — comparison of two trees, node by node;
* the instances of `DecidableEq` that they give, with the two directions of each.
-/

namespace LetScript

mutual

/-- Whether two expressions are the same tree. -/
def Expr.beq : Expr → Expr → Bool
  | .name a, .name b => a == b
  | .int a, .int b => a == b
  | .str a, .str b => a == b
  | .bool a, .bool b => a == b
  | .unary op a, .unary op' b => op == op' && a.beq b
  | .binary op a c, .binary op' b d => op == op' && (a.beq b && c.beq d)
  | .cond a c none, .cond b d none => a.beq b && Block.beq c d
  | .cond a c (some e), .cond b d (some f) => a.beq b && (Block.beq c d && Block.beq e f)
  | .fn ps a, .fn qs b => ps == qs && Block.beq a b
  | .call a as, .call b bs => a.beq b && Expr.listBeq as bs
  | _, _ => false
termination_by structural a => a

/-- Whether two statements are the same tree. -/
def Stmt.beq : Stmt → Stmt → Bool
  | .bind a x, .bind b y => a == b && x.beq y
  | .ret none, .ret none => true
  | .ret (some x), .ret (some y) => x.beq y
  | .expr x, .expr y => x.beq y
  | _, _ => false
termination_by structural a => a

/-- Whether two blocks are the same statement by statement. -/
def Block.beq : List Stmt → List Stmt → Bool
  | [], [] => true
  | s :: ss, t :: ts => s.beq t && Block.beq ss ts
  | _, _ => false
termination_by structural a => a

/-- Whether two lists of expressions are the same item by item. -/
def Expr.listBeq : List Expr → List Expr → Bool
  | [], [] => true
  | a :: as, b :: bs => a.beq b && Expr.listBeq as bs
  | _, _ => false
termination_by structural a => a

end

mutual

theorem Expr.eq_of_beq : ∀ a b : Expr, a.beq b = true → a = b
  | .name _, b, h => by cases b <;> simp_all [Expr.beq]
  | .int _, b, h => by cases b <;> simp_all [Expr.beq]
  | .str _, b, h => by cases b <;> simp_all [Expr.beq]
  | .bool _, b, h => by cases b <;> simp_all [Expr.beq]
  | .unary _ a, b, h => by
      cases b <;> simp only [Expr.beq, Bool.and_eq_true, beq_iff_eq, Bool.false_eq_true] at h
      next b => rw [h.1, Expr.eq_of_beq a b h.2]
  | .binary _ a c, b, h => by
      cases b <;> simp only [Expr.beq, Bool.and_eq_true, beq_iff_eq, Bool.false_eq_true] at h
      next b d => rw [h.1, Expr.eq_of_beq a b h.2.1, Expr.eq_of_beq c d h.2.2]
  | .cond a c none, b, h => by
      cases b with
      | cond b d f =>
          cases f <;> simp only [Expr.beq, Bool.and_eq_true, Bool.false_eq_true] at h
          rw [Expr.eq_of_beq a b h.1, Block.eq_of_beq c d h.2]
      | _ => simp [Expr.beq] at h
  | .cond a c (some e), b, h => by
      cases b with
      | cond b d f =>
          cases f <;> simp only [Expr.beq, Bool.and_eq_true, Bool.false_eq_true] at h
          next f => rw [Expr.eq_of_beq a b h.1, Block.eq_of_beq c d h.2.1, Block.eq_of_beq e f h.2.2]
      | _ => simp [Expr.beq] at h
  | .fn _ a, b, h => by
      cases b <;> simp only [Expr.beq, Bool.and_eq_true, beq_iff_eq, Bool.false_eq_true] at h
      next b => rw [h.1, Block.eq_of_beq a b h.2]
  | .call a as, b, h => by
      cases b <;> simp only [Expr.beq, Bool.and_eq_true, Bool.false_eq_true] at h
      next b bs => rw [Expr.eq_of_beq a b h.1, Expr.eq_of_listBeq as bs h.2]

theorem Stmt.eq_of_beq : ∀ s t : Stmt, s.beq t = true → s = t
  | .bind _ x, t, h => by
      cases t <;> simp only [Stmt.beq, Bool.and_eq_true, beq_iff_eq, Bool.false_eq_true] at h
      next y => rw [h.1, Expr.eq_of_beq x y h.2]
  | .ret none, t, h => by
      cases t with
      | ret y => cases y <;> simp_all [Stmt.beq]
      | _ => simp [Stmt.beq] at h
  | .ret (some x), t, h => by
      cases t with
      | ret y =>
          cases y <;> simp only [Stmt.beq, Bool.false_eq_true] at h
          next y => rw [Expr.eq_of_beq x y h]
      | _ => simp [Stmt.beq] at h
  | .expr x, t, h => by
      cases t <;> simp only [Stmt.beq, Bool.false_eq_true] at h
      next y => rw [Expr.eq_of_beq x y h]

theorem Block.eq_of_beq : ∀ ss ts : List Stmt, Block.beq ss ts = true → ss = ts
  | [], ts, h => by cases ts <;> simp_all [Block.beq]
  | s :: ss, ts, h => by
      cases ts <;> simp only [Block.beq, Bool.and_eq_true, Bool.false_eq_true] at h
      next t ts => rw [Stmt.eq_of_beq s t h.1, Block.eq_of_beq ss ts h.2]

theorem Expr.eq_of_listBeq : ∀ as bs : List Expr, Expr.listBeq as bs = true → as = bs
  | [], bs, h => by cases bs <;> simp_all [Expr.listBeq]
  | a :: as, bs, h => by
      cases bs <;> simp only [Expr.listBeq, Bool.and_eq_true, Bool.false_eq_true] at h
      next b bs => rw [Expr.eq_of_beq a b h.1, Expr.eq_of_listBeq as bs h.2]

end

mutual

theorem Expr.beq_self : ∀ a : Expr, a.beq a = true
  | .name _ | .int _ | .str _ | .bool _ => by simp [Expr.beq]
  | .unary _ a => by simp [Expr.beq, a.beq_self]
  | .binary _ a b => by simp [Expr.beq, a.beq_self, b.beq_self]
  | .cond a c none => by simp [Expr.beq, a.beq_self, Block.beq_self c]
  | .cond a c (some e) => by simp [Expr.beq, a.beq_self, Block.beq_self c, Block.beq_self e]
  | .fn _ a => by simp [Expr.beq, Block.beq_self a]
  | .call a as => by simp [Expr.beq, a.beq_self, Expr.listBeq_self as]

theorem Stmt.beq_self : ∀ s : Stmt, s.beq s = true
  | .bind _ x => by simp [Stmt.beq, x.beq_self]
  | .ret none => by simp [Stmt.beq]
  | .ret (some x) => by simp [Stmt.beq, x.beq_self]
  | .expr x => by simp [Stmt.beq, x.beq_self]

theorem Block.beq_self : ∀ ss : List Stmt, Block.beq ss ss = true
  | [] => by simp [Block.beq]
  | s :: ss => by simp [Block.beq, s.beq_self, Block.beq_self ss]

theorem Expr.listBeq_self : ∀ as : List Expr, Expr.listBeq as as = true
  | [] => by simp [Expr.listBeq]
  | a :: as => by simp [Expr.listBeq, a.beq_self, Expr.listBeq_self as]

end

instance : DecidableEq Expr := fun a b =>
  decidable_of_iff (a.beq b = true) ⟨Expr.eq_of_beq a b, fun h => h ▸ a.beq_self⟩

instance : DecidableEq Stmt := fun s t =>
  decidable_of_iff (s.beq t = true) ⟨Stmt.eq_of_beq s t, fun h => h ▸ s.beq_self⟩

deriving instance DecidableEq for Program

end LetScript
