import LetScript.Proofs.Evaluation.Coupling
import LetScript.Proofs.Evaluation.Moments

/-!
# Evaluation under two limits

Two runs that start alike and differ only in their limits do the same, until the run under the lower limit
is refused a call.

* `Coupling.identity` — machines, scopes and values are the same, except behind a failure that names the
  lower limit.
* `Fragment.eval_eq_or_refused` — under the higher limit the result is the same, or the lower limit was met.
* `Evaluator.limit_is_transparent` — so a limit that is not met does not show, and one that is met is met
  under every lower limit too.
-/

namespace LetScript

/-- Everything is the same in both runs, unless the first one meets its limit. -/
def Coupling.identity (limit : Nat) : Coupling where
  World := Unit
  Grows _ _ := True
  machines _ first second := first = second
  scopes _ here there := here = there
  values _ a b := a = b
  excuses error := error = .callDepthExceeded limit
  grows_refl _ := trivial
  grows_trans _ _ := trivial
  scopes_of_grows _ hscopes := hscopes
  values_of_grows _ hvalues := hvalues
  alike_of_values hvalues := .inl hvalues
  values_of_isPlain _ _ _ := rfl

section Identity

variable {limit : Nat} {α : Type}

theorem Coupling.joins_identity {good : Unit → α → α → Prop} (hgood : ∀ a, good () a a)
    (result : EStateM.Result Signal Machine α) :
    (Coupling.identity limit).Joins good () result result := by
  have hgrows := (Coupling.identity limit).grows_refl ()
  cases result with
  | ok a after => exact .ok hgrows rfl (hgood a)
  | error signal after =>
      cases signal with
      | ret value => exact .ret hgrows rfl rfl
      | error error => exact .error hgrows rfl

theorem Coupling.keeps_identity (limit : Nat) : (Coupling.identity limit).Keeps where
  lookUp := by
    rintro _ first _ here _ ident rfl rfl
    exact Coupling.joins_identity (fun _ => rfl) _
  bindName := by
    rintro _ first _ here _ ident a _ rfl rfl rfl
    exact Coupling.joins_identity (fun _ => trivial) _
  newFunction := by
    rintro _ first _ here _ parameters body rfl rfl
    exact Coupling.joins_identity (fun _ => rfl) _
  depth_eq := by
    rintro _ first _ rfl
    rfl
  literal_eq := by
    rintro _ f g hfunctions
    cases hfunctions
    exact ⟨rfl, rfl⟩
  enter := by
    rintro _ first _ f g arguments others rfl hfunctions harguments
    cases hfunctions
    have hsame : arguments = others := List.forall₂_eq_eq_eq ▸ harguments
    subst hsame
    exact ⟨(), trivial, rfl, rfl⟩
  leave := by
    rintro _ first _ rfl
    rfl

/-- Coupled results are the same, or the first run has met its limit. -/
theorem Coupling.Joins.eq_or_refused {good : Unit → α → α → Prop} (hgood : ∀ {a b}, good () a b → a = b)
    {left right : EStateM.Result Signal Machine α}
    (hjoins : (Coupling.identity limit).Joins good () left right) :
    right = left ∨ ∃ after, left = .error (.error (.callDepthExceeded limit)) after := by
  cases hjoins with
  | ok _ hmachines hvalues =>
      cases hgood hvalues
      cases hmachines
      exact .inl rfl
  | ret _ hmachines hvalues =>
      cases hvalues
      cases hmachines
      exact .inl rfl
  | error _ hmachines =>
      cases hmachines
      exact .inl rfl
  | @excused error after _ hexcuses =>
      obtain rfl : error = .callDepthExceeded limit := hexcuses
      exact .inr ⟨after, rfl⟩

end Identity

/-- Under a higher limit, and with no smaller budget, the result is the same unless the lower limit was
met. -/
theorem Fragment.eval_eq_or_refused {limit higher budget larger : Nat} (hlimit : limit ≤ higher)
    (hbudget : budget ≤ larger) (fragment : Fragment) (scope : ScopeId) (machine : Machine) :
    fragment.eval (Eval.call higher larger) scope machine =
        fragment.eval (Eval.call limit budget) scope machine ∨
      ∃ after, fragment.eval (Eval.call limit budget) scope machine =
        .error (.error (.callDepthExceeded limit)) after := by
  have houtlasts : (Coupling.identity limit).Outlasts limit budget higher larger :=
    ⟨hlimit, hbudget, .inr rfl⟩
  have hjoins : (Coupling.identity limit).Joins (fun _ a b => a = b) ()
      (fragment.eval (Eval.call limit budget) scope machine)
      (fragment.eval (Eval.call higher larger) scope machine) :=
    Fragment.eval_joins (Coupling.keeps_identity limit) houtlasts fragment rfl rfl
  exact hjoins.eq_or_refused fun hsame => hsame

/-- A run that does not fail for its limit goes the same way under every higher limit, to the same flow and
the same store.  A run that fails for its limit fails for every lower one too. -/
theorem Evaluator.limit_is_transparent {limit higher : Nat} (hlimit : limit ≤ higher) (depth : Nat)
    (store : Store) (scope : ScopeId) (fragment : Fragment) :
    let low := Evaluator.run ⟨limit, depth⟩ store scope fragment
    let high := Evaluator.run ⟨higher, depth⟩ store scope fragment
    (low.1 ≠ .error (.callDepthExceeded limit) → high.1 = low.1 ∧ high.2.2 = low.2.2) ∧
      (high.1 = .error (.callDepthExceeded higher) → low.1 = .error (.callDepthExceeded limit)) := by
  intro low high
  have hbudget : limit - depth ≤ higher - depth := Nat.sub_le_sub_right hlimit depth
  have hsame : high.1 = low.1 ∧ high.2.2 = low.2.2 ∨ low.1 = .error (.callDepthExceeded limit) := by
    rcases Fragment.eval_eq_or_refused hlimit hbudget fragment scope ⟨store, depth⟩ with
      hequal | ⟨after, hrefused⟩
    · refine .inl ⟨?_, ?_⟩
      · simp only [high, low, Evaluator.run, hequal]
      · simp only [high, low, Evaluator.run, hequal]
    · refine .inr ?_
      simp only [low, Evaluator.run, hrefused]
      rfl
  refine ⟨?_, ?_⟩
  · intro hmet
    exact hsame.resolve_right hmet
  · intro hhigh
    rcases hsame with ⟨hflow, -⟩ | hlow
    · -- A failure under the lower limit names that limit, so here the two limits are the same.
      have hlow : low.1 = .error (.callDepthExceeded higher) := hflow.symm.trans hhigh
      obtain ⟨hnamed, -⟩ := Evaluator.comesToRefusal hlow
      rw [hlow, hnamed]
    · exact hlow

/-- A function that calls itself three times has four calls open at most: a limit of four is not met, and
limits of three and two are. -/
theorem Evaluator.countdown_under_limits :
    let next : Expr := .call (.name "down") [.binary .minus (.name "n") (.int 1)]
    let body : Expr := .cond (.binary .eq (.name "n") (.int 0)) [.expr (.str "done")] (some [.expr next])
    let countdown : Fragment :=
      .block [.bind "down" (.fn ["n"] [.expr body]), .expr (.call (.name "down") [.int 3])]
    let run (limit : Nat) := Evaluator.run ⟨limit, 0⟩ ⟨#[⟨[], none⟩], 0⟩ 0 countdown
    (run 4).1 ≠ .error (.callDepthExceeded 4) ∧ (run 4).1 = .value (.str "done") ∧
      (run 9).1 = (run 4).1 ∧ (run 9).2.2 = (run 4).2.2 ∧
      (run 3).1 = .error (.callDepthExceeded 3) ∧ (run 2).1 = .error (.callDepthExceeded 2) := by
  intro next body countdown run
  have hunmet : (run 4).1 ≠ .error (.callDepthExceeded 4) := by decide +kernel
  have hmet : (run 3).1 = .error (.callDepthExceeded 3) := by decide +kernel
  have hhigher := (Evaluator.limit_is_transparent (by decide : 4 ≤ 9) 0 ⟨#[⟨[], none⟩], 0⟩ 0
    countdown).1 hunmet
  have hlower := (Evaluator.limit_is_transparent (by decide : 2 ≤ 3) 0 ⟨#[⟨[], none⟩], 0⟩ 0
    countdown).2 hmet
  exact ⟨hunmet, by decide +kernel, hhigher.1, hhigher.2, hmet, hlower⟩

end LetScript
