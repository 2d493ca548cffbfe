import LetScript.Proofs.Evaluation.Spelling
import LetScript.Proofs.Tree.Image

/-!
# Printed functions read back

A function has a printer of its own.  It agrees with that of trees, and as long as only what was read from
texts is evaluated, what it prints is a text that a script can hold.

* `Function.text_eq` — a function prints as its literal does.
* `Function.ReadsBack` — the text of a function is read as its literal, and nothing else.
* `Fragment.IsRead`, `Fragment.isRead_iff` — the parts of programs that were read from texts; they are the
  trees that a script can write.
* `Value.IsRead`, `Session.ScriptHistory` — what a host does with a session if it evaluates only such parts.
* `Session.HoldsSpellable`, `Session.ScriptHistory.holdsSpellable` — the functions that scopes hold, and those
  that the host was given, can be written.
* `Session.functions_read_back` — so every function reads back, wherever it is.
-/

namespace LetScript

/-! ## The two printers -/

/-- With a comma before each name but the first, names stand with commas between them. -/
theorem Text.commaSeparated_cons (name : String) (names : List String) :
    commaSeparated (name :: names) = name ++ String.join (names.map (", " ++ ·)) := by
  induction names generalizing name with
  | nil => simp [commaSeparated]
  | cons second names ih =>
      rw [commaSeparated, ih, List.map_cons, String.join_cons, String.append_assoc, String.append_assoc]
      exact List.cons_ne_nil second names

theorem Function.text_eq (f : Function) : f.text = f.literal.text := by
  have hnames : String.join (f.parameters.mapIdx fun place name => if 0 < place then ", " ++ name else name) =
      Text.commaSeparated f.parameters := by
    cases f.parameters with
    | nil => rfl
    | cons name names =>
        have hmore : names.mapIdx (fun _ name => ", " ++ name) = names.map (", " ++ ·) :=
          List.ext_getElem (by simp) (by simp)
        rw [Text.commaSeparated_cons, List.mapIdx_cons, String.join_cons, ← hmore]
        rfl
  rw [text, hnames, literal, Expr.text]
  rfl

/-- A function prints as a literal with its parameters and its body, and this is the whole program that is read
from its text. -/
structure Function.ReadsBack (f : Function) : Prop where
  text_eq : (Value.function f).text = (Expr.fn f.parameters f.body).text
  ofText_text : Parsed.ofText (Value.function f).text = ⟨⟨[.expr (.fn f.parameters f.body)]⟩, []⟩

theorem Value.IsSpellable.readsBack {f : Function} (hspellable : (Value.function f).IsSpellable) :
    f.ReadsBack := by
  have htext : (Value.function f).text = (Expr.fn f.parameters f.body).text := f.text_eq
  refine ⟨htext, ?_⟩
  have hwellFormed : (Program.mk [.expr f.literal]).isWellFormed = true := by
    rw [Program.isWellFormed, Block.isSpellable, Stmt.isSpellable, hspellable]
    rfl
  rw [htext]
  exact Program.ofText_text hwellFormed

/-! ## Parts of programs that were read -/

/-- A part of a program that was read from a text, from any of its tokens on and with any errors. -/
def Fragment.IsRead (fragment : Fragment) : Prop :=
  ∃ (text : String) (count : Nat) (part : Part) (index : Nat),
    (Reader.ofCursor ((Cursor.ofText text).take count).2).program.1.part? part index = some fragment

theorem Block.isSpellable_of_getElem? {literal : Int64 → Bool} {statements : Block} {index : Nat} {s : Stmt}
    (hblock : Block.isSpellable literal statements = true) (hs : statements[index]? = some s) :
    s.isSpellable literal = true := by
  induction statements generalizing index with
  | nil => cases hs
  | cons first others ih =>
      obtain ⟨hfirst, hothers⟩ := Bool.and_eq_true_iff.1 hblock
      cases index with
      | zero =>
          cases hs
          exact hfirst
      | succ index => exact ih hothers hs

theorem Stmt.isSpellable_of_expr? {literal : Int64 → Bool} {s : Stmt} {e : Expr}
    (hs : s.isSpellable literal = true) (hexpr : s.expr? = some e) : e.isSpellable literal = true := by
  cases s with
  | bind name value =>
      cases hexpr
      exact (Bool.and_eq_true_iff.1 hs).2
  | ret value =>
      cases hexpr
      exact hs
  | expr value =>
      cases hexpr
      exact hs

theorem Program.spellable_of_part? {program : Program} {part : Part} {index : Nat} {fragment : Fragment}
    (hprogram : program.isWellFormed = true) (hpart : program.part? part index = some fragment) :
    TreeClass.spellable.fragment fragment := by
  have hexpr {e : Expr} (he : program.statements[index]?.bind Stmt.expr? = some e) :
      TreeClass.spellable.expr e := by
    obtain ⟨s, hs, hvalue⟩ := Option.bind_eq_some_iff.1 he
    exact Stmt.isSpellable_of_expr? (Block.isSpellable_of_getElem? hprogram hs) hvalue
  cases part with
  | program =>
      cases hpart
      exact hprogram
  | statement =>
      obtain ⟨s, hs, rfl⟩ := Option.map_eq_some_iff.1 hpart
      exact Block.isSpellable_of_getElem? hprogram hs
  | expression =>
      obtain ⟨e, he, rfl⟩ := Option.map_eq_some_iff.1 hpart
      exact hexpr he
  | block =>
      simp only [part?] at hpart
      split at hpart
      · next parameters body he =>
          cases hpart
          exact (Bool.and_eq_true_iff.1 (hexpr he)).2
      · next condition consequence alternative he =>
          cases hpart
          exact TreeClass.spellable.consequence (hexpr he)
      · cases hpart
  | alternative =>
      simp only [part?] at hpart
      split at hpart
      · next condition consequence alternative he =>
          cases hpart
          exact TreeClass.spellable.alternative (hexpr he)
      · cases hpart

/-- Every part of a well-formed program is read, for the program is read from its own text. -/
theorem Program.isRead_of_part? {program : Program} {fragment : Fragment}
    (hprogram : program.isWellFormed = true) (part : Part) (index : Nat)
    (hpart : program.part? part index = some fragment) : fragment.IsRead := by
  refine ⟨program.text, 0, part, index, ?_⟩
  show (Parsed.ofText program.text).program.part? part index = some fragment
  rw [Program.ofText_text hprogram]
  exact hpart

/-- What is read is what a script can write, so the parts of what is read are read as well. -/
theorem Fragment.isRead_iff {fragment : Fragment} :
    fragment.IsRead ↔ TreeClass.spellable.fragment fragment := by
  constructor
  · rintro ⟨text, count, part, index, hpart⟩
    exact Program.spellable_of_part? (Reader.program_isWellFormed _) hpart
  · intro hfragment
    have hsingle {s : Stmt} (hs : TreeClass.spellable.stmt s) : (Program.mk [s]).isWellFormed = true :=
      Bool.and_eq_true_iff.2 ⟨hs, rfl⟩
    cases fragment with
    | block statements =>
        have hprogram : (Program.mk statements).isWellFormed = true := hfragment
        exact Program.isRead_of_part? hprogram .program 0 rfl
    | statement s => exact Program.isRead_of_part? (hsingle hfragment) .statement 0 rfl
    | expression e =>
        have hs : TreeClass.spellable.stmt (.expr e) := hfragment
        exact Program.isRead_of_part? (hsingle hs) .expression 0 rfl

/-! ## Sessions -/

/-- A value of a host's own: if it is a function, its literal was read. -/
def Value.IsRead : Value → Prop
  | .function f => (Fragment.expression f.literal).IsRead
  | _ => True

theorem Value.IsRead.isSpellable {value : Value} (hread : value.IsRead) : value.IsSpellable := by
  cases value with
  | function f => exact Fragment.isRead_iff.1 hread
  | _ => trivial

/-- A session and the flows of its evaluations, the last one first, if nothing but parts of programs that were
read is evaluated, and a host makes functions of its own of nothing else. -/
inductive Session.ScriptHistory : Session → List Flow → Prop
  | start : ScriptHistory .start []
  /-- An act that adds no flow is no evaluation. -/
  | change {session next flows} (hhistory : ScriptHistory session flows)
      (hact : session.Act Value.IsRead flows next flows) : ScriptHistory next flows
  | evaluate {session flows} {scope : ScopeId} {fragment : Fragment} (hhistory : ScriptHistory session flows)
      (hread : fragment.IsRead) :
      ScriptHistory (session.evaluate scope fragment).2 ((session.evaluate scope fragment).1 :: flows)
  | evaluateFresh {session flows} {scope : ScopeId} {fragment : Fragment}
      (hhistory : ScriptHistory session flows) (hread : fragment.IsRead) :
      ScriptHistory (session.evaluateFresh scope fragment).2
        ((session.evaluateFresh scope fragment).1 :: flows)

namespace Session

/-- A script can write the functions that scopes hold, and those that the host was given. -/
structure HoldsSpellable (session : Session) (flows : List Flow) : Prop where
  holds : ∀ value, session.store.Holds value → value.IsSpellable
  given : ∀ value, Flow.Give flows value → value.IsSpellable

variable {session next : Session} {flows : List Flow}

theorem HoldsSpellable.change (hsession : session.HoldsSpellable flows)
    (hact : session.Act Value.IsRead flows next flows) :
    next.HoldsSpellable flows := by
  obtain ⟨hholds, hgiven⟩ := hsession
  refine ⟨?_, hgiven⟩
  cases hact with
  | addScope _ => exact fun value hvalue => hholds value hvalue.of_enclose
  | set hbound =>
      intro value hvalue
      rcases hvalue.of_bind with rfl | hold
      · exact hbound.elim Value.IsRead.isSpellable (hgiven value)
      · exact hholds value hold
  | clear => exact fun value hvalue => hholds value hvalue.of_clear
  | copy hcopy =>
      obtain ⟨found, hget, rfl⟩ := Session.exists_of_copy hcopy
      intro value hvalue
      rcases hvalue.of_bind with rfl | hold
      · exact hholds value (Store.holds_of_get? hget)
      · exact hholds value hold
  | limitDepth => exact hholds

theorem HoldsSpellable.evaluated (hsession : session.HoldsSpellable flows) {flow : Flow}
    (hrun : (∀ value, next.store.Holds value → value.IsSpellable) ∧
      ∀ value, flow.carried? = some value → value.IsSpellable) :
    next.HoldsSpellable (flow :: flows) := by
  refine ⟨hrun.1, ?_⟩
  rintro value ⟨other, hother, hcarried⟩
  rcases List.mem_cons.1 hother with rfl | hmem
  · exact hrun.2 value hcarried
  · exact hsession.given value ⟨other, hmem, hcarried⟩

theorem ScriptHistory.holdsSpellable (hhistory : session.ScriptHistory flows) :
    session.HoldsSpellable flows := by
  induction hhistory with
  | start =>
      refine ⟨?_, ?_⟩
      · intro value hholds
        exact absurd hholds.of_enclose Store.not_holds_empty
      · rintro value ⟨flow, hflow, -⟩
        cases hflow
  | change _ hact ih => exact ih.change hact
  | @evaluate session flows scope fragment _ hread ih =>
      exact ih.evaluated (session.evaluator.run_spellable scope ih.holds (Fragment.isRead_iff.1 hread))
  | @evaluateFresh session flows scope fragment _ hread ih =>
      exact ih.evaluated (Evaluator.run_spellable {} scope ih.holds (Fragment.isRead_iff.1 hread))

/-- As long as nothing but parts of programs that were read is evaluated, every function reads back: those that
scopes hold, those that the host was given, and in the course of an evaluation those that scopes hold
meanwhile and that its tasks end with. -/
theorem functions_read_back (hhistory : session.ScriptHistory flows) :
    (∀ f, session.store.Holds (.function f) → f.ReadsBack) ∧
      (∀ f, Flow.Give flows (.function f) → f.ReadsBack) ∧
      ∀ (evaluator : Evaluator) (scope : ScopeId) (fragment : Fragment), fragment.IsRead →
        ∀ (opened : Nat) (moment : Moment),
          Moment.During evaluator.limit (evaluator.start session.store scope fragment) opened moment →
            (∀ f, moment.machine.store.Holds (.function f) → f.ReadsBack) ∧
            ∀ (flow : Flow) (f : Function), moment.flow? evaluator.limit = some flow →
              flow.carried? = some (.function f) → f.ReadsBack := by
  obtain ⟨hholds, hgiven⟩ := hhistory.holdsSpellable
  refine ⟨fun f hf => (hholds _ hf).readsBack, fun f hf => (hgiven _ hf).readsBack, ?_⟩
  intro evaluator scope fragment hread opened moment hduring
  have hstart : (evaluator.start session.store scope fragment).IsSpellable :=
    ⟨hholds, Fragment.isSpellable_task (Fragment.isRead_iff.1 hread) scope⟩
  have hmoment := hduring.isSpellable hstart
  refine ⟨fun f hf => (hmoment.1 _ hf).readsBack, ?_⟩
  intro flow f hflow hcarried
  exact (hmoment.carried hflow hcarried).readsBack

/-- A script makes a function that makes functions, and ends with one of these. -/
theorem made_function_reads_back :
    let script := "let adder = fn(x) \x7b fn(y) \x7b x + y \x7d \x7d; adder(2)"
    let fragment : Fragment := .block (Parsed.ofText script).program.statements
    let f : Function := ⟨1, ["y"], [.expr (.binary .plus (.name "x") (.name "y"))], 1⟩
    (Session.start.evaluate 0 fragment).2.ScriptHistory [.value (.function f)] ∧ f.ReadsBack ∧
      (Value.function f).text = "fn(y) \x7b (x + y) \x7d" := by
  intro script fragment f
  have hread : fragment.IsRead := ⟨script, 0, .program, 0, rfl⟩
  have hflow : (Session.start.evaluate 0 fragment).1 = .value (.function f) := by decide +kernel
  have hhistory : (Session.start.evaluate 0 fragment).2.ScriptHistory [(Session.start.evaluate 0 fragment).1] :=
    .evaluate .start hread
  rw [hflow] at hhistory
  obtain ⟨-, hgiven, -⟩ := functions_read_back hhistory
  exact ⟨hhistory, hgiven f ⟨_, List.mem_cons_self, rfl⟩, by decide +kernel⟩

end Session

end LetScript
