import LetScript.Proofs.Evaluation.Calls
import Mathlib.Data.List.Forall2

/-!
# Two evaluations in step

The one induction over pairs of evaluations of the same tree, on which the comparisons of two runs rest.

* `Value.Alike` — values that operators and conditions do not tell apart.
* `Coupling` — a relation between the machines, scopes and values of two runs.  It depends on a world, which
  grows as scopes are made, and says which failures of the first run excuse the second.
* `Coupling.Joins` — two results are coupled, or the second is excused.
* `Coupling.Keeps` — the operations on machines keep two runs coupled.
* `Expr.eval_joins`, `Coupling.call_joins`, `Fragment.eval_joins` — then evaluation does, calls included.
-/

namespace LetScript

/-! ## Values that are not told apart -/

/-- Two values are the same, or both are functions. -/
def Value.Alike (a b : Value) : Prop :=
  a = b ∨ ∃ f g : Function, a = .function f ∧ b = .function g

namespace Value.Alike

variable {a b c d : Value}

theorem of_eq (heq : a = b) : a.Alike b :=
  .inl heq

theorem isTruthy_eq (halike : a.Alike b) : a.isTruthy = b.isTruthy := by
  rcases halike with rfl | ⟨f, g, rfl, rfl⟩
  · rfl
  · rfl

theorem type_eq (halike : a.Alike b) : a.type = b.type := by
  rcases halike with rfl | ⟨f, g, rfl, rfl⟩
  · rfl
  · rfl

theorem applyPrefix_eq (halike : a.Alike b) (op : PrefixOp) : a.applyPrefix op = b.applyPrefix op := by
  rcases halike with rfl | ⟨f, g, rfl, rfl⟩
  · rfl
  · cases op <;> rfl

theorem applyInfix_eq (hleft : a.Alike b) (hright : c.Alike d) (op : InfixOp) :
    a.applyInfix op c = b.applyInfix op d := by
  rcases hleft with rfl | ⟨f, g, rfl, rfl⟩
  · rcases hright with rfl | ⟨f, g, rfl, rfl⟩
    · rfl
    · cases op <;> cases a <;> rfl
  · rcases hright with rfl | ⟨h, i, rfl, rfl⟩
    · cases op <;> cases c <;> rfl
    · cases op <;> rfl

end Value.Alike

/-! ## Couplings -/

/-- How the machines, scopes and values of two runs correspond in a world, and the failures of the first
run behind which nothing is asked of the second. -/
structure Coupling where
  World : Type
  Grows : World → World → Prop
  machines : World → Machine → Machine → Prop
  scopes : World → ScopeId → ScopeId → Prop
  values : World → Value → Value → Prop
  excuses : RuntimeError → Prop
  grows_refl : ∀ world, Grows world world
  grows_trans : ∀ {first second third}, Grows first second → Grows second third → Grows first third
  scopes_of_grows : ∀ {world grown here there}, Grows world grown → scopes world here there →
    scopes grown here there
  values_of_grows : ∀ {world grown a b}, Grows world grown → values world a b → values grown a b
  alike_of_values : ∀ {world a b}, values world a b → a.Alike b
  values_of_isPlain : ∀ world (value : Value), value.isPlain = true → values world value value

namespace Coupling

variable {α β : Type}

/-- Two results that follow coupled machines are coupled: both runs end alike, in a world that has grown.
Behind a failure that excuses it, the second run may end in any way. -/
inductive Joins (c : Coupling) (good : c.World → α → α → Prop) (world : c.World) :
    EStateM.Result Signal Machine α → EStateM.Result Signal Machine α → Prop
  | ok {grown a b first second} (hgrows : c.Grows world grown)
      (hmachines : c.machines grown first second) (hgood : good grown a b) :
      Joins c good world (.ok a first) (.ok b second)
  | ret {grown a b first second} (hgrows : c.Grows world grown)
      (hmachines : c.machines grown first second) (hvalues : c.values grown a b) :
      Joins c good world (.error (.ret a) first) (.error (.ret b) second)
  | error {grown error first second} (hgrows : c.Grows world grown)
      (hmachines : c.machines grown first second) :
      Joins c good world (.error (.error error) first) (.error (.error error) second)
  | excused {error first second} (hexcuses : c.excuses error) :
      Joins c good world (.error (.error error) first) second

variable {c : Coupling} {world grown : c.World} {first second : Machine}

theorem Joins.of_grows {good : c.World → α → α → Prop}
    {left right : EStateM.Result Signal Machine α} (hjoins : c.Joins good grown left right)
    (hgrows : c.Grows world grown) : c.Joins good world left right := by
  cases hjoins with
  | ok hmore hmachines hgood => exact .ok (c.grows_trans hgrows hmore) hmachines hgood
  | ret hmore hmachines hvalues => exact .ret (c.grows_trans hgrows hmore) hmachines hvalues
  | error hmore hmachines => exact .error (c.grows_trans hgrows hmore) hmachines
  | excused hexcuses => exact .excused hexcuses

/-- Steps that join, followed by steps that join whatever comes of the first ones. -/
theorem Joins.bind {good : c.World → α → α → Prop} {better : c.World → β → β → Prop}
    {x y : Eval α} {f g : α → Eval β} (hx : c.Joins good world (x first) (y second))
    (hf : ∀ {grown a b left right}, c.Grows world grown → c.machines grown left right →
      good grown a b → c.Joins better grown (f a left) (g b right)) :
    c.Joins better world ((x >>= f) first) ((y >>= g) second) := by
  generalize hleft : x first = left at hx
  generalize hright : y second = right at hx
  cases hx with
  | ok hgrows hmachines hgood =>
      rw [Eval.bind_of_ok hleft, Eval.bind_of_ok hright]
      exact (hf hgrows hmachines hgood).of_grows hgrows
  | ret hgrows hmachines hvalues =>
      rw [Eval.bind_of_error hleft, Eval.bind_of_error hright]
      exact .ret hgrows hmachines hvalues
  | error hgrows hmachines =>
      rw [Eval.bind_of_error hleft, Eval.bind_of_error hright]
      exact .error hgrows hmachines
  | excused hexcuses =>
      rw [Eval.bind_of_error hleft]
      exact .excused hexcuses

theorem joins_pure {good : c.World → α → α → Prop} {a b : α} (hmachines : c.machines world first second)
    (hgood : good world a b) :
    c.Joins good world ((pure a : Eval α) first) ((pure b : Eval α) second) :=
  .ok (c.grows_refl world) hmachines hgood

theorem joins_ofExcept {answer : Except RuntimeError Value} (hmachines : c.machines world first second)
    (hplain : ∀ {value}, answer = .ok value → value.isPlain = true) :
    c.Joins c.values world (Eval.ofExcept answer first) (Eval.ofExcept answer second) := by
  cases answer with
  | ok value =>
      exact .ok (c.grows_refl world) hmachines (c.values_of_isPlain world value (hplain rfl))
  | error error => exact .error (c.grows_refl world) hmachines

/-- The operations of evaluation keep two runs coupled. -/
structure Keeps (c : Coupling) : Prop where
  lookUp : ∀ {world first second here there ident}, c.machines world first second →
    c.scopes world here there →
      c.Joins c.values world (Eval.lookUp here ident first) (Eval.lookUp there ident second)
  bindName : ∀ {world first second here there ident a b}, c.machines world first second →
    c.scopes world here there → c.values world a b →
      c.Joins (fun _ _ _ => True) world (Eval.bindName here ident a first)
        (Eval.bindName there ident b second)
  newFunction : ∀ {world first second here there parameters body}, c.machines world first second →
    c.scopes world here there →
      c.Joins c.values world (Eval.newFunction parameters body here first)
        (Eval.newFunction parameters body there second)
  depth_eq : ∀ {world first second}, c.machines world first second → first.depth = second.depth
  literal_eq : ∀ {world} {f g : Function}, c.values world (.function f) (.function g) →
    f.parameters = g.parameters ∧ f.body = g.body
  enter : ∀ {world first second} {f g : Function} {arguments others}, c.machines world first second →
    c.values world (.function f) (.function g) → List.Forall₂ (c.values world) arguments others →
      ∃ grown, c.Grows world grown ∧
        c.machines grown (first.enter f arguments) (second.enter g others) ∧
        c.scopes grown first.store.scopes.size second.store.scopes.size
  leave : ∀ {world first second}, c.machines world first second →
    c.machines world first.leave second.leave

/-- Two ways to call functions keep two runs coupled. -/
def CallsJoin (c : Coupling) (apply other : Value → List Value → Eval Value) : Prop :=
  ∀ ⦃world first second callee callee' arguments arguments'⦄, c.machines world first second →
    c.values world callee callee' → List.Forall₂ (c.values world) arguments arguments' →
      c.Joins c.values world (apply callee arguments first) (other callee' arguments' second)

end Coupling

/-! ## The induction -/

section Induction

variable {c : Coupling} {apply other : Value → List Value → Eval Value}

mutual

theorem Expr.eval_joins (hkeeps : c.Keeps) (hcalls : c.CallsJoin apply other) : ∀ (e : Expr)
    {world : c.World} {first second : Machine} {here there : ScopeId},
    c.machines world first second → c.scopes world here there →
      c.Joins c.values world (e.eval apply here first) (e.eval other there second)
  | .name ident, world, first, second, here, there, hmachines, hscopes => by
      simp only [Expr.eval]
      exact hkeeps.lookUp hmachines hscopes
  | .int value, world, first, second, here, there, hmachines, _ => by
      simp only [Expr.eval]
      exact Coupling.joins_pure hmachines (c.values_of_isPlain world _ rfl)
  | .str value, world, first, second, here, there, hmachines, _ => by
      simp only [Expr.eval]
      exact Coupling.joins_pure hmachines (c.values_of_isPlain world _ rfl)
  | .bool value, world, first, second, here, there, hmachines, _ => by
      simp only [Expr.eval]
      exact Coupling.joins_pure hmachines (c.values_of_isPlain world _ rfl)
  | .unary op operand, world, first, second, here, there, hmachines, hscopes => by
      simp only [Expr.eval]
      refine (Expr.eval_joins hkeeps hcalls operand hmachines hscopes).bind ?_
      intro grown a b left right _ hmiddle hvalues
      rw [(c.alike_of_values hvalues).applyPrefix_eq]
      exact Coupling.joins_ofExcept hmiddle Value.isPlain_of_applyPrefix
  | .binary op leftExpr rightExpr, world, first, second, here, there, hmachines, hscopes => by
      simp only [Expr.eval]
      refine (Expr.eval_joins hkeeps hcalls leftExpr hmachines hscopes).bind ?_
      intro grown a b left right hgrows hmiddle hleft
      have hscopes := c.scopes_of_grows hgrows hscopes
      refine (Expr.eval_joins hkeeps hcalls rightExpr hmiddle hscopes).bind ?_
      intro last p q left right _ hlast hright
      rw [(c.alike_of_values hleft).applyInfix_eq (c.alike_of_values hright)]
      exact Coupling.joins_ofExcept hlast Value.isPlain_of_applyInfix
  | .cond condition consequence none, world, first, second, here, there, hmachines, hscopes => by
      simp only [Expr.eval]
      refine (Expr.eval_joins hkeeps hcalls condition hmachines hscopes).bind ?_
      intro grown a b left right hgrows hmiddle hvalues
      have hnull := c.values_of_isPlain grown .null rfl
      rw [(c.alike_of_values hvalues).isTruthy_eq]
      split
      · exact Block.eval_joins hkeeps hcalls consequence hmiddle (c.scopes_of_grows hgrows hscopes) hnull
      · exact Coupling.joins_pure hmiddle hnull
  | .cond condition consequence (some alternative), world, first, second, here, there, hmachines,
      hscopes => by
      simp only [Expr.eval]
      refine (Expr.eval_joins hkeeps hcalls condition hmachines hscopes).bind ?_
      intro grown a b left right hgrows hmiddle hvalues
      have hnull := c.values_of_isPlain grown .null rfl
      have hscopes := c.scopes_of_grows hgrows hscopes
      rw [(c.alike_of_values hvalues).isTruthy_eq]
      split
      · exact Block.eval_joins hkeeps hcalls consequence hmiddle hscopes hnull
      · exact Block.eval_joins hkeeps hcalls alternative hmiddle hscopes hnull
  | .fn parameters body, world, first, second, here, there, hmachines, hscopes => by
      simp only [Expr.eval]
      exact hkeeps.newFunction hmachines hscopes
  | .call callee arguments, world, first, second, here, there, hmachines, hscopes => by
      simp only [Expr.eval]
      refine (Expr.eval_joins hkeeps hcalls callee hmachines hscopes).bind ?_
      intro grown f g left right hgrows hmiddle hfunctions
      have hscopes := c.scopes_of_grows hgrows hscopes
      refine (Expr.evalAll_joins hkeeps hcalls arguments hmiddle hscopes).bind ?_
      intro last values others left right hmore hlast hvalues
      -- The callees were coupled before the arguments were evaluated, in a smaller world.
      exact hcalls hlast (c.values_of_grows hmore hfunctions) hvalues

theorem Expr.evalAll_joins (hkeeps : c.Keeps) (hcalls : c.CallsJoin apply other) :
    ∀ (exprs : List Expr) {world : c.World} {first second : Machine} {here there : ScopeId},
      c.machines world first second → c.scopes world here there →
        c.Joins (fun grown => List.Forall₂ (c.values grown)) world
          (Expr.evalAll apply here exprs first) (Expr.evalAll other there exprs second)
  | [], world, first, second, here, there, hmachines, _ => by
      simp only [Expr.evalAll]
      exact Coupling.joins_pure hmachines .nil
  | expr :: exprs, world, first, second, here, there, hmachines, hscopes => by
      simp only [Expr.evalAll]
      refine (Expr.eval_joins hkeeps hcalls expr hmachines hscopes).bind ?_
      intro grown a b left right hgrows hmiddle hvalue
      have hscopes := c.scopes_of_grows hgrows hscopes
      refine (Expr.evalAll_joins hkeeps hcalls exprs hmiddle hscopes).bind ?_
      intro last values others left right hmore hlast hothers
      exact Coupling.joins_pure hlast (.cons (c.values_of_grows hmore hvalue) hothers)

theorem Stmt.eval_joins (hkeeps : c.Keeps) (hcalls : c.CallsJoin apply other) : ∀ (s : Stmt)
    {world : c.World} {first second : Machine} {here there : ScopeId},
    c.machines world first second → c.scopes world here there →
      c.Joins c.values world (s.eval apply here first) (s.eval other there second)
  | .bind name value, world, first, second, here, there, hmachines, hscopes => by
      simp only [Stmt.eval]
      refine (Expr.eval_joins hkeeps hcalls value hmachines hscopes).bind ?_
      intro grown a b left right hgrows hmiddle hvalue
      refine (hkeeps.bindName hmiddle (c.scopes_of_grows hgrows hscopes) hvalue).bind ?_
      intro last _ _ left right _ hlast _
      exact Coupling.joins_pure hlast (c.values_of_isPlain last .null rfl)
  | .ret none, world, first, second, here, there, hmachines, _ => by
      simp only [Stmt.eval]
      exact .ret (c.grows_refl world) hmachines (c.values_of_isPlain world .null rfl)
  | .ret (some value), world, first, second, here, there, hmachines, hscopes => by
      simp only [Stmt.eval]
      refine (Expr.eval_joins hkeeps hcalls value hmachines hscopes).bind ?_
      intro grown a b left right _ hmiddle hvalue
      exact .ret (c.grows_refl grown) hmiddle hvalue
  | .expr value, world, first, second, here, there, hmachines, hscopes => by
      simp only [Stmt.eval]
      exact Expr.eval_joins hkeeps hcalls value hmachines hscopes

theorem Block.eval_joins (hkeeps : c.Keeps) (hcalls : c.CallsJoin apply other) :
    ∀ (statements : List Stmt) {world : c.World} {first second : Machine} {here there : ScopeId}
      {last last' : Value}, c.machines world first second → c.scopes world here there →
        c.values world last last' →
          c.Joins c.values world (Block.eval apply here last statements first)
            (Block.eval other there last' statements second)
  | [], world, first, second, here, there, last, last', hmachines, _, hlast => by
      simp only [Block.eval]
      exact Coupling.joins_pure hmachines hlast
  | statement :: statements, world, first, second, here, there, last, last', hmachines, hscopes, _ => by
      simp only [Block.eval]
      refine (Stmt.eval_joins hkeeps hcalls statement hmachines hscopes).bind ?_
      intro grown a b left right hgrows hmiddle hvalue
      exact Block.eval_joins hkeeps hcalls statements hmiddle (c.scopes_of_grows hgrows hscopes) hvalue

end

end Induction

/-! ## Calls -/

namespace Coupling

variable {c : Coupling} {world : c.World}

/-- A function is coupled only with functions of the same literal. -/
theorem Keeps.exists_function (hkeeps : c.Keeps) {f : Function} {callee : Value}
    (hvalues : c.values world (.function f) callee) :
    ∃ g : Function, callee = .function g ∧ f.parameters = g.parameters ∧ f.body = g.body := by
  rcases c.alike_of_values hvalues with rfl | ⟨_, g, _, rfl⟩
  · exact ⟨f, rfl, rfl, rfl⟩
  · exact ⟨g, rfl, hkeeps.literal_eq hvalues⟩

/-- What a call makes of the results of two bodies is coupled if they are. -/
theorem Joins.leave (hkeeps : c.Keeps) {left right : EStateM.Result Signal Machine Value}
    (hjoins : c.Joins c.values world left right) :
    c.Joins c.values world (Eval.leave left) (Eval.leave right) := by
  cases hjoins with
  | ok hgrows hmachines hgood => exact .ok hgrows (hkeeps.leave hmachines) hgood
  | ret hgrows hmachines hvalues => exact .ok hgrows (hkeeps.leave hmachines) hvalues
  | error hgrows hmachines => exact .error hgrows (hkeeps.leave hmachines)
  | excused hexcuses => exact .excused hexcuses

/-- The second run has the limit and the budget of the first one; or it has at least these, and is excused
when the first one is refused a call. -/
structure Outlasts (c : Coupling) (limit budget limit' budget' : Nat) : Prop where
  limit_le : limit ≤ limit'
  budget_le : budget ≤ budget'
  eq_or_excuses : limit = limit' ∧ budget = budget' ∨ c.excuses (.callDepthExceeded limit)

/-- The induction is on the budget: the bodies of functions have smaller ones. -/
theorem call_joins (hkeeps : c.Keeps) {limit limit' : Nat} (budget : Nat) :
    ∀ {budget' : Nat}, c.Outlasts limit budget limit' budget' →
      c.CallsJoin (Eval.call limit budget) (Eval.call limit' budget') := by
  induction budget using Nat.strongRecOn with
  | _ budget ih =>
      intro budget' houtlasts world first second callee callee' arguments arguments' hmachines hcallee
        harguments
      have hlength := harguments.length_eq
      cases Eval.call_cases limit budget callee arguments first with
      | notAFunction hother hcall =>
          rcases c.alike_of_values hcallee with rfl | ⟨f, g, rfl, rfl⟩
          · rw [hcall, Eval.call_of_notAFunction hother]
            exact .error (c.grows_refl world) hmachines
          · exact absurd rfl (hother f)
      | @wrongCount f hfunction hcount hcall =>
          subst hfunction
          obtain ⟨g, rfl, hparameters, -⟩ := hkeeps.exists_function hcallee
          have hcount' : g.parameters.length ≠ arguments'.length := by
            rwa [← hparameters, ← hlength]
          rw [hcall, Eval.call_of_wrongCount hcount', ← hparameters, ← hlength]
          exact .error (c.grows_refl world) hmachines
      | @refused f hfunction hcount hspent hcall =>
          subst hfunction
          -- The second run is refused at the same call, or it may have outlasted the first one.
          rcases houtlasts.eq_or_excuses with ⟨rfl, rfl⟩ | hexcuses
          · obtain ⟨g, rfl, hparameters, -⟩ := hkeeps.exists_function hcallee
            have hcount' : g.parameters.length = arguments'.length := by
              rwa [← hparameters, ← hlength]
            rw [hkeeps.depth_eq hmachines] at hspent
            rw [hcall, Eval.call_of_refused hcount' hspent]
            exact .error (c.grows_refl world) hmachines
          · rw [hcall]
            exact .excused hexcuses
      | @entered f rest hfunction hcount hbudget hdepth hcall =>
          subst hfunction
          subst hbudget
          obtain ⟨g, rfl, hparameters, hbody⟩ := hkeeps.exists_function hcallee
          have hcount' : g.parameters.length = arguments'.length := by
            rwa [← hparameters, ← hlength]
          obtain ⟨hlimit, hbudget, hexcuses⟩ := houtlasts
          -- What is enough for the first run is enough for the second one, here and within the body.
          obtain ⟨rest', rfl⟩ : ∃ rest', budget' = rest' + 1 := ⟨budget' - 1, by omega⟩
          have hdepth' : second.depth < limit' := by
            rw [← hkeeps.depth_eq hmachines]
            exact Nat.lt_of_lt_of_le hdepth hlimit
          have hrest : c.Outlasts limit rest limit' rest' :=
            ⟨hlimit, by omega, hexcuses.imp_left fun heq => ⟨heq.1, by omega⟩⟩
          obtain ⟨grown, hgrows, hentered, hscopes⟩ := hkeeps.enter hmachines hcallee harguments
          have hjoins := Block.eval_joins hkeeps (ih rest (Nat.lt_succ_self _) hrest) f.body hentered
            hscopes (c.values_of_isPlain grown .null rfl)
          rw [hcall, Eval.call_of_entered hcount' hdepth', ← hbody]
          exact (hjoins.leave hkeeps).of_grows hgrows

end Coupling

theorem Fragment.eval_joins {c : Coupling} (hkeeps : c.Keeps) {limit budget limit' budget' : Nat}
    (houtlasts : c.Outlasts limit budget limit' budget') (fragment : Fragment) {world : c.World}
    {first second : Machine} {here there : ScopeId} (hmachines : c.machines world first second)
    (hscopes : c.scopes world here there) :
    c.Joins c.values world (fragment.eval (Eval.call limit budget) here first)
      (fragment.eval (Eval.call limit' budget') there second) := by
  have hcalls := Coupling.call_joins hkeeps budget houtlasts
  cases fragment with
  | block statements =>
      exact Block.eval_joins hkeeps hcalls statements hmachines hscopes (c.values_of_isPlain world .null rfl)
  | statement stmt => exact Stmt.eval_joins hkeeps hcalls stmt hmachines hscopes
  | expression expr => exact Expr.eval_joins hkeeps hcalls expr hmachines hscopes

end LetScript
