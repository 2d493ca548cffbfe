import LetScript.Evaluation.Run

/-!
# What evaluation keeps

The one induction over evaluation on which its invariants rest.

* `Expr.lets`, `Stmt.lets`, `Block.lets`, `Fragment.lets` — the names that a tree can bind in the scope
  in which it is evaluated.
* `TreeClass` — a class of trees that is closed under the parts that are evaluated with a tree, such as
  the trees that bind only given names.
* `Law` — an invariant of machines, the values that may occur, and the changes of machines that are
  allowed; `Law.Meets` says that the result of an evaluation obeys a law.
* `Law.Governs` — the operations of evaluation obey a law, calls included.
* `Expr.eval_meets`, `Fragment.eval_meets` — then the evaluation of every tree does.
-/

namespace LetScript

/-! ## Bound names -/

mutual

/-- The names in a `let` of an expression, function literals left out: these bind elsewhere. -/
def Expr.lets : Expr → List String
  | .name _ | .int _ | .str _ | .bool _ | .fn _ _ => []
  | .unary _ operand => operand.lets
  | .binary _ left right => left.lets ++ right.lets
  | .cond condition consequence none => condition.lets ++ Block.lets consequence
  | .cond condition consequence (some alternative) =>
      condition.lets ++ (Block.lets consequence ++ Block.lets alternative)
  | .call callee arguments => callee.lets ++ Expr.letsOfAll arguments

def Stmt.lets : Stmt → List String
  | .bind name value => name :: value.lets
  | .ret none => []
  | .ret (some value) | .expr value => value.lets

def Block.lets : List Stmt → List String
  | [] => []
  | statement :: statements => statement.lets ++ Block.lets statements

def Expr.letsOfAll : List Expr → List String
  | [] => []
  | expr :: exprs => expr.lets ++ Expr.letsOfAll exprs

end

/-- The names in a `let` of a fragment, function literals left out. -/
def Fragment.lets : Fragment → List String
  | block statements => Block.lets statements
  | statement stmt => stmt.lets
  | expression expr => expr.lets

/-! ## Classes of trees -/

/-- A class of trees.  With a tree it has in it the parts that are evaluated in the same scope, and so not the
bodies of functions. -/
structure TreeClass where
  expr : Expr → Prop
  exprs : List Expr → Prop
  stmt : Stmt → Prop
  block : Block → Prop
  operand : ∀ {op operand}, expr (.unary op operand) → expr operand
  left : ∀ {op left right}, expr (.binary op left right) → expr left
  right : ∀ {op left right}, expr (.binary op left right) → expr right
  condition : ∀ {condition consequence alternative},
    expr (.cond condition consequence alternative) → expr condition
  consequence : ∀ {condition consequence alternative},
    expr (.cond condition consequence alternative) → block consequence
  alternative : ∀ {condition consequence alternative},
    expr (.cond condition consequence (some alternative)) → block alternative
  callee : ∀ {callee arguments}, expr (.call callee arguments) → expr callee
  arguments : ∀ {callee arguments}, expr (.call callee arguments) → exprs arguments
  firstExpr : ∀ {first others}, exprs (first :: others) → expr first
  otherExprs : ∀ {first others}, exprs (first :: others) → exprs others
  bound : ∀ {name value}, stmt (.bind name value) → expr value
  returned : ∀ {value}, stmt (.ret (some value)) → expr value
  expression : ∀ {value}, stmt (.expr value) → expr value
  firstStmt : ∀ {first others}, block (first :: others) → stmt first
  otherStmts : ∀ {first others}, block (first :: others) → block others

namespace TreeClass

/-- The fragments in a class of trees. -/
def fragment (trees : TreeClass) : Fragment → Prop
  | .block statements => trees.block statements
  | .statement stmt => trees.stmt stmt
  | .expression expr => trees.expr expr

/-- All trees. -/
def all : TreeClass where
  expr _ := True
  exprs _ := True
  stmt _ := True
  block _ := True
  operand := id
  left := id
  right := id
  condition := id
  consequence := id
  alternative := id
  callee := id
  arguments := id
  firstExpr := id
  otherExprs := id
  bound := id
  returned := id
  expression := id
  firstStmt := id
  otherStmts := id

theorem fragment_all (fragment : Fragment) : all.fragment fragment := by
  cases fragment <;> trivial

/-- The trees that bind only the given names. -/
def binding (names : List String) : TreeClass where
  expr e := e.lets ⊆ names
  exprs exprs := Expr.letsOfAll exprs ⊆ names
  stmt s := s.lets ⊆ names
  block statements := Block.lets statements ⊆ names
  operand hlets := hlets
  left hlets := (List.append_subset.1 hlets).1
  right hlets := (List.append_subset.1 hlets).2
  condition := by
    rintro condition consequence (_ | alternative) hlets
    · exact (List.append_subset.1 hlets).1
    · exact (List.append_subset.1 hlets).1
  consequence := by
    rintro condition consequence (_ | alternative) hlets
    · exact (List.append_subset.1 hlets).2
    · exact (List.append_subset.1 (List.append_subset.1 hlets).2).1
  alternative hlets := (List.append_subset.1 (List.append_subset.1 hlets).2).2
  callee hlets := (List.append_subset.1 hlets).1
  arguments hlets := (List.append_subset.1 hlets).2
  firstExpr hlets := (List.append_subset.1 hlets).1
  otherExprs hlets := (List.append_subset.1 hlets).2
  bound hlets := (List.cons_subset.1 hlets).2
  returned hlets := hlets
  expression hlets := hlets
  firstStmt hlets := (List.append_subset.1 hlets).1
  otherStmts hlets := (List.append_subset.1 hlets).2

theorem mem_of_binding {names : List String} {name : String} {value : Expr}
    (hlets : (binding names).stmt (.bind name value)) : name ∈ names :=
  (List.cons_subset.1 hlets).1

theorem fragment_binding (fragment : Fragment) : (binding fragment.lets).fragment fragment := by
  cases fragment <;> exact List.Subset.refl _

end TreeClass

/-! ## Laws -/

/-- A value that is neither a function nor an error. -/
def Value.isPlain : Value → Bool
  | int _ | bool _ | str _ | null => true
  | function _ | error _ => false

theorem Value.isPlain_of_applyPrefix {op : PrefixOp} {operand value : Value}
    (hvalue : operand.applyPrefix op = .ok value) : value.isPlain = true := by
  unfold applyPrefix at hvalue
  split at hvalue
  · cases hvalue
    rfl
  · cases hvalue
    rfl
  · cases hvalue

theorem Value.isPlain_of_applyInt {op : InfixOp} {left right : Int64} {value : Value}
    (hvalue : applyInt op left right = .ok value) : value.isPlain = true := by
  unfold applyInt at hvalue
  split at hvalue
  case h_4 =>
    split at hvalue
    · cases hvalue
    · cases hvalue
      rfl
  all_goals
    cases hvalue
    rfl

theorem Value.isPlain_of_applyInfix {op : InfixOp} {left right value : Value}
    (hvalue : left.applyInfix op right = .ok value) : value.isPlain = true := by
  unfold applyInfix at hvalue
  split at hvalue
  · exact isPlain_of_applyInt hvalue
  case h_7 =>
    split at hvalue
    · cases hvalue
    · cases hvalue
  all_goals
    cases hvalue
    rfl

/-- The machine that an evaluation leaves, however it ends. -/
def Eval.machineOf {α : Type} : EStateM.Result Signal Machine α → Machine
  | .ok _ after => after
  | .error _ after => after

/-- The machine that an evaluation leaves is that of its flow. -/
theorem Flow.ofResult_snd (result : EStateM.Result Signal Machine Value) :
    (Flow.ofResult result).2 = Eval.machineOf result := by
  cases result with
  | ok value after => rfl
  | error signal after => cases signal <;> rfl

section Sequences

variable {α β : Type} {x : Eval α} {f : α → Eval β} {machine after : Machine}

theorem Eval.bind_of_ok {value : α} (hx : x machine = .ok value after) :
    (x >>= f) machine = f value after := by
  show EStateM.bind x f machine = _
  rw [EStateM.bind, hx]

theorem Eval.bind_of_error {signal : Signal} (hx : x machine = .error signal after) :
    (x >>= f) machine = .error signal after := by
  show EStateM.bind x f machine = _
  rw [EStateM.bind, hx]

end Sequences

section Names

variable {scope : ScopeId} {ident : String} {machine : Machine}

theorem Eval.lookUp_of_some {value : Value} (hget : machine.store.get? scope ident = some value) :
    Eval.lookUp scope ident machine = .ok value machine := by
  have hstate : (get : Eval Machine) machine = .ok machine machine := rfl
  rw [lookUp, Eval.bind_of_ok hstate, hget]
  rfl

theorem Eval.lookUp_of_none (hget : machine.store.get? scope ident = none) :
    Eval.lookUp scope ident machine = .error (.error (.unboundName ident)) machine := by
  have hstate : (get : Eval Machine) machine = .ok machine machine := rfl
  rw [lookUp, Eval.bind_of_ok hstate, hget]
  rfl

end Names

/-- What evaluation is to keep: an invariant of machines, the values that may occur in one, and the
changes that are allowed between two. -/
structure Law where
  holds : Machine → Prop
  admits : Machine → Value → Prop
  allows : Machine → Machine → Prop
  allows_refl : ∀ machine, allows machine machine
  allows_trans : ∀ {first second third}, allows first second → allows second third → allows first third
  admits_of_allows : ∀ {before after value}, allows before after → admits before value →
    admits after value
  admits_of_isPlain : ∀ machine {value : Value}, value.isPlain = true → admits machine value

namespace Law

variable {α β : Type}

/-- The result of an evaluation that started from `before` obeys the law; `good` is what is asked of its
value.  A return carries a value of the language, an error carries none. -/
def Meets (law : Law) (good : Machine → α → Prop) (before : Machine) :
    EStateM.Result Signal Machine α → Prop
  | .ok value after => law.holds after ∧ law.allows before after ∧ good after value
  | .error (.ret value) after => law.holds after ∧ law.allows before after ∧ law.admits after value
  | .error (.error _) after => law.holds after ∧ law.allows before after

variable {law : Law}

theorem Meets.of_ok {good : Machine → α → Prop} {before after : Machine} {value : α}
    {result : EStateM.Result Signal Machine α} (hmeets : law.Meets good before result)
    (hresult : result = .ok value after) :
    law.holds after ∧ law.allows before after ∧ good after value := by
  rw [hresult] at hmeets
  exact hmeets

theorem Meets.holds_of_ok {good : Machine → α → Prop} {before after : Machine} {value : α}
    {result : EStateM.Result Signal Machine α} (hmeets : law.Meets good before result)
    (hresult : result = .ok value after) : law.holds after :=
  (hmeets.of_ok hresult).1

theorem Meets.holds_machineOf {good : Machine → α → Prop} {before : Machine}
    {result : EStateM.Result Signal Machine α} (hmeets : law.Meets good before result) :
    law.holds (Eval.machineOf result) := by
  cases result with
  | ok value after => exact hmeets.1
  | error signal after => cases signal <;> exact hmeets.1

theorem Meets.allows_machineOf {good : Machine → α → Prop} {before : Machine}
    {result : EStateM.Result Signal Machine α} (hmeets : law.Meets good before result) :
    law.allows before (Eval.machineOf result) := by
  cases result with
  | ok value after => exact hmeets.2.1
  | error signal after =>
      cases signal with
      | ret value => exact hmeets.2.1
      | error error => exact hmeets.2

/-- Where every value is admitted, only the machine that is left matters. -/
theorem Meets.of_machineOf {before : Machine} {result : EStateM.Result Signal Machine Value}
    (hholds : law.holds (Eval.machineOf result)) (hallows : law.allows before (Eval.machineOf result))
    (hadmits : ∀ value, law.admits (Eval.machineOf result) value) : law.Meets law.admits before result := by
  cases result with
  | ok value after => exact ⟨hholds, hallows, hadmits value⟩
  | error signal after =>
      cases signal with
      | ret value => exact ⟨hholds, hallows, hadmits value⟩
      | error error => exact ⟨hholds, hallows⟩

/-- A step that obeys the law, followed by one that does. -/
theorem Meets.bind {good : Machine → α → Prop} {better : Machine → β → Prop} {x : Eval α}
    {f : α → Eval β} {before : Machine} (hx : law.Meets good before (x before))
    (hf : ∀ value middle, law.holds middle → law.allows before middle → good middle value →
      law.Meets better middle (f value middle)) :
    law.Meets better before ((x >>= f) before) := by
  cases hresult : x before with
  | ok value middle =>
      obtain ⟨hholds, hallows, hgood⟩ := hx.of_ok hresult
      -- The second step obeys the law from `middle` on; transitivity takes its change back to `before`.
      have hsecond := hf value middle hholds hallows hgood
      rw [Eval.bind_of_ok hresult]
      cases hlast : f value middle with
      | ok last after =>
          rw [hlast] at hsecond
          exact ⟨hsecond.1, law.allows_trans hallows hsecond.2.1, hsecond.2.2⟩
      | error signal after =>
          rw [hlast] at hsecond
          cases signal with
          | ret last => exact ⟨hsecond.1, law.allows_trans hallows hsecond.2.1, hsecond.2.2⟩
          | error error => exact ⟨hsecond.1, law.allows_trans hallows hsecond.2⟩
  | error signal after =>
      rw [hresult] at hx
      rw [Eval.bind_of_error hresult]
      cases signal with
      | ret value => exact hx
      | error error => exact hx

theorem meets_pure {good : Machine → α → Prop} {machine : Machine} {value : α}
    (hholds : law.holds machine) (hgood : good machine value) :
    law.Meets good machine ((pure value : Eval α) machine) :=
  ⟨hholds, law.allows_refl machine, hgood⟩

theorem meets_ofExcept {machine : Machine} {answer : Except RuntimeError Value}
    (hholds : law.holds machine) (hplain : ∀ {value}, answer = .ok value → value.isPlain = true) :
    law.Meets law.admits machine (Eval.ofExcept answer machine) := by
  cases answer with
  | ok value => exact ⟨hholds, law.allows_refl machine, law.admits_of_isPlain machine (hplain rfl)⟩
  | error error => exact ⟨hholds, law.allows_refl machine⟩

/-- The operations of evaluation in a scope obey the law, as long as they are those of trees in the given
class. -/
structure Governs (law : Law) (apply : Value → List Value → Eval Value) (scope : ScopeId)
    (trees : TreeClass) : Prop where
  lookUp : ∀ {machine ident value}, law.holds machine → machine.store.get? scope ident = some value →
    law.admits machine value
  bindName : ∀ {machine ident bound value}, trees.stmt (.bind ident bound) → law.holds machine →
    law.admits machine value →
      law.Meets (fun _ _ => True) machine (Eval.bindName scope ident value machine)
  newFunction : ∀ {machine parameters body}, trees.expr (.fn parameters body) → law.holds machine →
    law.Meets law.admits machine (Eval.newFunction parameters body scope machine)
  apply : ∀ {machine callee arguments}, law.holds machine → law.admits machine callee →
    (∀ argument ∈ arguments, law.admits machine argument) →
    law.Meets law.admits machine (apply callee arguments machine)

end Law

/-! ## The induction -/

section Induction

variable {law : Law} {apply : Value → List Value → Eval Value} {scope : ScopeId}
  {trees : TreeClass}

theorem Law.Governs.meets_lookUp {ident : String} {machine : Machine}
    (hgoverns : law.Governs apply scope trees) (hholds : law.holds machine) :
    law.Meets law.admits machine (Eval.lookUp scope ident machine) := by
  cases hget : machine.store.get? scope ident with
  | some value =>
      rw [Eval.lookUp_of_some hget]
      exact ⟨hholds, law.allows_refl machine, hgoverns.lookUp hholds hget⟩
  | none =>
      rw [Eval.lookUp_of_none hget]
      exact ⟨hholds, law.allows_refl machine⟩

mutual

theorem Expr.eval_meets (hgoverns : law.Governs apply scope trees) : ∀ {e : Expr} {machine : Machine},
    trees.expr e → law.holds machine → law.Meets law.admits machine (e.eval apply scope machine)
  | .name ident, machine, _, hholds => by
      simp only [Expr.eval]
      exact hgoverns.meets_lookUp hholds
  | .int value, machine, _, hholds => by
      simp only [Expr.eval]
      exact Law.meets_pure hholds (law.admits_of_isPlain machine rfl)
  | .str value, machine, _, hholds => by
      simp only [Expr.eval]
      exact Law.meets_pure hholds (law.admits_of_isPlain machine rfl)
  | .bool value, machine, _, hholds => by
      simp only [Expr.eval]
      exact Law.meets_pure hholds (law.admits_of_isPlain machine rfl)
  | .unary op operand, machine, htree, hholds => by
      simp only [Expr.eval]
      refine (Expr.eval_meets hgoverns (trees.operand htree) hholds).bind ?_
      intro value middle hmiddle _ _
      exact Law.meets_ofExcept hmiddle Value.isPlain_of_applyPrefix
  | .binary op left right, machine, htree, hholds => by
      simp only [Expr.eval]
      refine (Expr.eval_meets hgoverns (trees.left htree) hholds).bind ?_
      intro leftValue middle hmiddle _ _
      refine (Expr.eval_meets hgoverns (trees.right htree) hmiddle).bind ?_
      intro rightValue last hlast _ _
      exact Law.meets_ofExcept hlast Value.isPlain_of_applyInfix
  | .cond condition consequence none, machine, htree, hholds => by
      simp only [Expr.eval]
      refine (Expr.eval_meets hgoverns (trees.condition htree) hholds).bind ?_
      intro value middle hmiddle _ _
      split
      · exact Block.eval_meets hgoverns (trees.consequence htree) hmiddle (law.admits_of_isPlain middle rfl)
      · exact Law.meets_pure hmiddle (law.admits_of_isPlain middle rfl)
  | .cond condition consequence (some alternative), machine, htree, hholds => by
      simp only [Expr.eval]
      refine (Expr.eval_meets hgoverns (trees.condition htree) hholds).bind ?_
      intro value middle hmiddle _ _
      split
      · exact Block.eval_meets hgoverns (trees.consequence htree) hmiddle (law.admits_of_isPlain middle rfl)
      · exact Block.eval_meets hgoverns (trees.alternative htree) hmiddle (law.admits_of_isPlain middle rfl)
  | .fn parameters body, machine, htree, hholds => by
      simp only [Expr.eval]
      exact hgoverns.newFunction htree hholds
  | .call callee arguments, machine, htree, hholds => by
      simp only [Expr.eval]
      refine (Expr.eval_meets hgoverns (trees.callee htree) hholds).bind ?_
      intro function middle hmiddle _ hfunction
      refine (Expr.evalAll_meets hgoverns (trees.arguments htree) hmiddle).bind ?_
      intro values last hlast hallows hvalues
      -- The arguments may have changed the machine since the callee was evaluated.
      exact hgoverns.apply hlast (law.admits_of_allows hallows hfunction) hvalues

theorem Expr.evalAll_meets (hgoverns : law.Governs apply scope trees) :
    ∀ {exprs : List Expr} {machine : Machine}, trees.exprs exprs → law.holds machine →
      law.Meets (fun after values => ∀ value ∈ values, law.admits after value) machine
        (Expr.evalAll apply scope exprs machine)
  | [], machine, _, hholds => by
      simp only [Expr.evalAll]
      refine Law.meets_pure hholds ?_
      intro value hvalue
      cases hvalue
  | expr :: exprs, machine, htree, hholds => by
      simp only [Expr.evalAll]
      refine (Expr.eval_meets hgoverns (trees.firstExpr htree) hholds).bind ?_
      intro first middle hmiddle _ hfirst
      refine (Expr.evalAll_meets hgoverns (trees.otherExprs htree) hmiddle).bind ?_
      intro others last hlast hallows hothers
      refine Law.meets_pure hlast ?_
      intro value hvalue
      rcases List.mem_cons.1 hvalue with rfl | hmem
      · exact law.admits_of_allows hallows hfirst
      · exact hothers value hmem

theorem Stmt.eval_meets (hgoverns : law.Governs apply scope trees) : ∀ {s : Stmt} {machine : Machine},
    trees.stmt s → law.holds machine → law.Meets law.admits machine (s.eval apply scope machine)
  | .bind ident value, machine, htree, hholds => by
      simp only [Stmt.eval]
      refine (Expr.eval_meets hgoverns (trees.bound htree) hholds).bind ?_
      intro value middle hmiddle _ hvalue
      refine (hgoverns.bindName htree hmiddle hvalue).bind ?_
      intro _ last hlast _ _
      exact Law.meets_pure hlast (law.admits_of_isPlain last rfl)
  | .ret none, machine, _, hholds => by
      simp only [Stmt.eval]
      exact ⟨hholds, law.allows_refl machine, law.admits_of_isPlain machine rfl⟩
  | .ret (some value), machine, htree, hholds => by
      simp only [Stmt.eval]
      refine (Expr.eval_meets hgoverns (trees.returned htree) hholds).bind ?_
      intro value middle hmiddle _ hvalue
      exact ⟨hmiddle, law.allows_refl middle, hvalue⟩
  | .expr value, machine, htree, hholds => by
      simp only [Stmt.eval]
      exact Expr.eval_meets hgoverns (trees.expression htree) hholds

theorem Block.eval_meets (hgoverns : law.Governs apply scope trees) :
    ∀ {statements : List Stmt} {last : Value} {machine : Machine}, trees.block statements →
      law.holds machine → law.admits machine last →
        law.Meets law.admits machine (Block.eval apply scope last statements machine)
  | [], last, machine, _, hholds, hlast => by
      simp only [Block.eval]
      exact Law.meets_pure hholds hlast
  | statement :: statements, last, machine, htree, hholds, _ => by
      simp only [Block.eval]
      refine (Stmt.eval_meets hgoverns (trees.firstStmt htree) hholds).bind ?_
      intro value middle hmiddle _ hvalue
      exact Block.eval_meets hgoverns (trees.otherStmts htree) hmiddle hvalue

end

/-- The body of a function starts with null as its last value. -/
theorem Law.Governs.meets_body (hgoverns : law.Governs apply scope trees) (machine : Machine)
    (body : Block) (htree : trees.block body) (hholds : law.holds machine) :
    law.Meets law.admits machine (Block.eval apply scope .null body machine) :=
  Block.eval_meets hgoverns htree hholds (law.admits_of_isPlain machine rfl)

theorem Fragment.eval_meets {fragment : Fragment} (hgoverns : law.Governs apply scope trees)
    (machine : Machine) (htree : trees.fragment fragment)
    (hholds : law.holds machine) :
    law.Meets law.admits machine (fragment.eval apply scope machine) := by
  cases fragment with
  | block statements => exact hgoverns.meets_body machine statements htree hholds
  | statement stmt => exact Stmt.eval_meets hgoverns htree hholds
  | expression expr => exact Expr.eval_meets hgoverns htree hholds

end Induction

end LetScript
