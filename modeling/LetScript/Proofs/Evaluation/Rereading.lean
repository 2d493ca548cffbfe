import LetScript.Proofs.Evaluation.Matching
import LetScript.Proofs.Evaluation.Printing
import LetScript.Proofs.Evaluation.Respelling

/-!
# Texts keep the meaning of programs

What is read of the text of a program need not be the program, for a literal with a sign is read as an operation.
Yet both end alike.

* `Function.Rereads`, `Value.Rereads`, `Store.Rereads` — what a run gives and leaves, compared with what the run of
  the program behind the text does: the body of a function there is what is read of the text of the body here.
* `Value.rereads_respelled`, `Store.rereads_respelled` — respelled values compare so, if a script can write them.
* `Evaluator.run_rereads` — so do the runs of a fragment and of the respelled one.
* `Program.text_keeps_meaning` — the program behind the text ends as the program does.
-/

namespace LetScript

/-- Two functions made alike, the second one with what is read of the text of the first. -/
structure Function.Rereads (f g : Function) : Prop where
  id_eq : f.id = g.id
  scope_eq : f.scope = g.scope
  parameters_eq : f.parameters = g.parameters
  reads_body : Parsed.ofText (Program.mk f.body).text = ⟨⟨g.body⟩, []⟩
  reads_text : Parsed.ofText (Value.function f).text = ⟨⟨[.expr g.literal]⟩, []⟩

/-- The values are functions made alike, or they are the same. -/
inductive Value.Rereads : Value → Value → Prop
  | function {f g : Function} (hrereads : f.Rereads g) : Rereads (.function f) (.function g)
  | other {value : Value} (hother : value.type ≠ .function) : Rereads value value

/-- The scopes bind the same names in the same order, and stand within the same scope. -/
structure Scope.Rereads (s t : Scope) : Prop where
  outer_eq : s.outer = t.outer
  bindings : List.Forall₂ (fun a b => a.1 = b.1 ∧ a.2.Rereads b.2) s.bindings t.bindings

/-- Scopes with the same number correspond, and as many functions were made. -/
structure Store.Rereads (store other : Store) : Prop where
  functions_eq : store.functions = other.functions
  scopes : ∀ id : ScopeId, Option.Rel Scope.Rereads store.scopes[id]? other.scopes[id]?

/-! ## Respelled values -/

theorem Function.rereads_respelled {f : Function} (hspellable : (Value.function f.respelled).IsSpellable) :
    f.Rereads f.respelled := by
  -- Nothing but the integers decides whether a tree can be written once it is respelled.
  have hliteral : f.literal.isSpellable (· ≠ Int64.minValue) = true := by
    rw [← Expr.isSpellable_unsigned]
    exact hspellable
  have hbody : Block.isSpellable (· ≠ Int64.minValue) f.body = true := (Bool.and_eq_true_iff.1 hliteral).2
  have hprogram : Block.isSpellable (· ≠ Int64.minValue) (Program.mk [.expr f.literal]).statements = true := by
    rw [Block.isSpellable, Stmt.isSpellable, hliteral]
    rfl
  refine ⟨rfl, rfl, rfl, Program.ofText_text_respelled hbody, ?_⟩
  have htext : (Value.function f).text = (Program.mk [.expr f.literal]).text := f.text_eq
  rw [htext]
  exact Program.ofText_text_respelled hprogram

theorem Value.rereads_respelled {value : Value} (hspellable : value.respelled.IsSpellable) :
    value.Rereads value.respelled := by
  cases value with
  | function f => exact .function (Function.rereads_respelled hspellable)
  | _ => exact .other nofun

theorem Store.rereads_respelled {store : Store}
    (hspellable : ∀ value, store.respelled.Holds value → value.IsSpellable) : store.Rereads store.respelled := by
  refine ⟨rfl, ?_⟩
  intro id
  have hscopes : store.respelled.scopes[id]? = store.scopes[id]?.map Scope.respelled := Array.getElem?_map
  cases hs : store.scopes[id]? with
  | none =>
      rw [hscopes, hs]
      exact .none
  | some s =>
      rw [hs] at hscopes
      rw [hscopes]
      refine .some ⟨rfl, ?_⟩
      show List.Forall₂ _ s.bindings (s.bindings.map _)
      rw [List.forall₂_map_right_iff, List.forall₂_same]
      rintro ⟨name, value⟩ hbinding
      have hbound : (name, value.respelled) ∈ s.respelled.bindings := List.mem_map_of_mem hbinding
      exact ⟨rfl, Value.rereads_respelled (hspellable _ ⟨id, s.respelled, name, hscopes, hbound⟩)⟩

theorem Flow.fits_respelled {flow : Flow}
    (hspellable : ∀ value, flow.respelled.carried? = some value → value.IsSpellable) :
    flow.Fits Value.Rereads flow.respelled := by
  cases flow with
  | value v => exact .value (Value.rereads_respelled (hspellable _ rfl))
  | ret v => exact .ret (Value.rereads_respelled (hspellable _ rfl))
  | error e => exact .error e

/-! ## Programs -/

/-- The run of a fragment and that of the respelled one end alike, if a script can write what is respelled. -/
theorem Evaluator.run_rereads (evaluator : Evaluator) {store : Store} (scope : ScopeId) {fragment : Fragment}
    (hstore : ∀ value, store.respelled.Holds value → value.IsSpellable)
    (hfragment : TreeClass.spellable.fragment fragment.respelled) :
    let first := evaluator.run store scope fragment
    let second := evaluator.run store.respelled scope fragment.respelled
    first.1.Fits Value.Rereads second.1 ∧ first.2.1 = second.2.1 ∧ first.2.2.Rereads second.2.2 := by
  have hspellable := evaluator.run_spellable scope hstore hfragment
  have hrun := evaluator.run_respelled store scope fragment
  rw [hrun] at hspellable
  intro first second
  have hsecond : second = (first.1.respelled, first.2.1, first.2.2.respelled) := hrun
  rw [hsecond]
  exact ⟨Flow.fits_respelled hspellable.2, rfl, Store.rereads_respelled hspellable.1⟩

/-- The text of a program is read without errors if it holds no literal that has no opposite, as the program with
each sign as an operation.  Under every limit both end alike: with the same error, or with values that are the same
but for the bodies of functions, of which the second is what is read of the text of the first.  The scopes that
they leave compare in the same way. -/
theorem Program.text_keeps_meaning (program : Program)
    (hspellable : Block.isSpellable (· ≠ Int64.minValue) program.statements = true) :
    let reread := Parsed.ofText program.text
    reread.errors = [] ∧ reread.program = program.respelled ∧
      ∀ limit : Nat,
        let (scope, store) := ({} : Store).enclose none
        let first := Evaluator.run { limit } store scope (.block program.statements)
        let second := Evaluator.run { limit } store scope (.block reread.program.statements)
        first.1.Fits Value.Rereads second.1 ∧ first.2.1 = second.2.1 ∧ first.2.2.Rereads second.2.2 := by
  have hread := Program.ofText_text_respelled hspellable
  have hwellFormed : program.respelled.isWellFormed = true := by
    rw [Program.isWellFormed_respelled]
    exact hspellable
  refine ⟨by rw [hread], by rw [hread], ?_⟩
  intro limit
  have hnothing : ∀ value, (({} : Store).enclose none).2.respelled.Holds value → value.IsSpellable := by
    intro value hholds
    rw [Store.respelled_start] at hholds
    exact absurd hholds.of_enclose Store.not_holds_empty
  have hends := @Evaluator.run_rereads { limit } _ (({} : Store).enclose none).1
    (.block program.statements) hnothing hwellFormed
  rw [Store.respelled_start] at hends
  rw [hread]
  exact hends

/-- Literals with a sign in a function, and at the head of two calls. -/
def Program.signed : Program :=
  ⟨[.bind "f" (.fn ["x"] [.expr (.binary .plus (.int (-3)) (.name "x"))]),
    .expr (.call (.call (.int (-5)) [.call (.name "f") [.int 1]]) [.int 2])]⟩

/-- The sign at the head of the calls is read as that of their value.  There is none, so both runs fail alike. -/
theorem Program.signed_text_keeps_meaning :
    let reread := Parsed.ofText signed.text
    let store := (({} : Store).enclose none).2
    Block.isSpellable (· ≠ Int64.minValue) signed.statements = true ∧ reread.errors = [] ∧
      reread.program =
        ⟨[.bind "f" (.fn ["x"] [.expr (.binary .plus (.unary .minus (.int 3)) (.name "x"))]),
          .expr (.unary .minus (.call (.call (.int 5) [.call (.name "f") [.int 1]]) [.int 2]))]⟩ ∧
      (Evaluator.run { limit := 1 } store 0 (.block signed.statements)).1 = .error (.notAFunction .integer) ∧
      (Evaluator.run { limit := 1 } store 0 (.block reread.program.statements)).1 =
        .error (.notAFunction .integer) := by
  intro reread store
  have hspellable : Block.isSpellable (· ≠ Int64.minValue) signed.statements = true := by decide
  obtain ⟨herrors, hprogram, hends⟩ := Program.text_keeps_meaning signed hspellable
  have hfirst : (Evaluator.run { limit := 1 } store 0 (.block signed.statements)).1 =
      .error (.notAFunction .integer) := by
    decide +kernel
  have hfits : (Evaluator.run { limit := 1 } store 0 (.block signed.statements)).1.Fits Value.Rereads
      (Evaluator.run { limit := 1 } store 0 (.block reread.program.statements)).1 := (hends 1).1
  rw [hfirst] at hfits
  refine ⟨hspellable, herrors, hprogram.trans rfl, hfirst, ?_⟩
  generalize (Evaluator.run { limit := 1 } store 0 (.block reread.program.statements)).1 = second at hfits
  cases hfits with
  | error error => rfl

end LetScript
