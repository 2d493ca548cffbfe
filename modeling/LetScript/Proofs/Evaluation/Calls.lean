import LetScript.Proofs.Evaluation.Laws

/-!
# Calls

* `Machine.enter`, `Eval.leave` — the machine in which a body is evaluated, and what a call makes of its
  result.
* `Eval.call_of_notAFunction`, `Eval.call_of_wrongCount`, `Eval.call_of_refused`, `Eval.call_of_entered`
  — the branches of a call as equations.
* `Call` — the four things that a call can do; `Eval.call_cases` says that it does one of them.
* `Eval.call_induction` — from the calls in a body to the call of it.
* `Law.Meets.leave` — from a law that the body obeys in its own scope to the law of the caller.
-/

namespace LetScript

/-- The machine in which the body of a function is evaluated: a new scope with the parameters bound, and
one more open call. -/
def Machine.enter (machine : Machine) (function : Function) (arguments : List Value) : Machine :=
  ⟨(machine.store.enclose (some function.scope)).2.bindAll machine.store.scopes.size
    function.parameters arguments, machine.depth + 1⟩

/-- The machine with one call closed. -/
def Machine.leave (machine : Machine) : Machine :=
  { machine with depth := machine.depth - 1 }

/-- The result of a call, from that of the body: a return ends here. -/
def Eval.leave : EStateM.Result Signal Machine Value → EStateM.Result Signal Machine Value
  | .ok value after => .ok value after.leave
  | .error (.ret value) after => .ok value after.leave
  | .error (.error error) after => .error (.error error) after.leave

theorem Eval.inBody_apply (body : Eval Value) (machine : Machine) :
    Eval.inBody body machine = Eval.leave (body { machine with depth := machine.depth + 1 }) := by
  unfold Eval.inBody
  cases body { machine with depth := machine.depth + 1 } with
  | ok value after => rfl
  | error signal after => cases signal <;> rfl

/-! ## The branches of a call -/

section Branches

variable {limit budget : Nat} {callee : Value} {function : Function} {arguments : List Value}
  {machine : Machine}

theorem Eval.call_of_notAFunction (hcallee : ∀ function, callee ≠ .function function) :
    Eval.call limit budget callee arguments machine =
      .error (.error (.notAFunction callee.type)) machine := by
  cases callee with
  | function function => exact absurd rfl (hcallee function)
  | _ =>
      rw [Eval.call.eq_def]
      rfl

theorem Eval.call_of_wrongCount (hcount : function.parameters.length ≠ arguments.length) :
    Eval.call limit budget (.function function) arguments machine =
      .error (.error (.wrongArgumentCount function.parameters.length arguments.length)) machine := by
  rw [Eval.call.eq_def]
  show (if _ then _ else _ : Eval Value) machine = _
  rw [if_pos hcount]
  rfl

/-- At the limit a call is refused, and with no budget left it is too. -/
theorem Eval.call_of_refused (hcount : function.parameters.length = arguments.length)
    (hspent : limit ≤ machine.depth ∨ budget = 0) :
    Eval.call limit budget (.function function) arguments machine =
      .error (.error (.callDepthExceeded limit)) machine := by
  cases budget with
  | zero =>
      rw [Eval.call, if_neg (Decidable.not_not.2 hcount)]
      rfl
  | succ budget =>
      have hdepth : limit ≤ machine.depth := by
        rcases hspent with hdepth | hzero
        · exact hdepth
        · cases hzero
      rw [Eval.call, if_neg (Decidable.not_not.2 hcount)]
      show (if limit ≤ machine.depth then _ else _ : Eval Value) machine = _
      rw [if_pos hdepth]
      rfl

/-- Below the limit the body is evaluated in a new scope, with one call less in the budget. -/
theorem Eval.call_of_entered (hcount : function.parameters.length = arguments.length)
    (hdepth : machine.depth < limit) :
    Eval.call limit (budget + 1) (.function function) arguments machine =
      Eval.leave (Block.eval (Eval.call limit budget) machine.store.scopes.size .null function.body
        (machine.enter function arguments)) := by
  rw [Eval.call, if_neg (Decidable.not_not.2 hcount)]
  show (if limit ≤ machine.depth then _ else _ : Eval Value) machine = _
  rw [if_neg (Nat.not_le.2 hdepth)]
  exact Eval.inBody_apply _ _

end Branches

/-- All that the call of a value can do. -/
inductive Call (limit budget : Nat) (callee : Value) (arguments : List Value) (machine : Machine) : Prop
  | notAFunction (hcallee : ∀ function, callee ≠ .function function)
      (hcall : Eval.call limit budget callee arguments machine =
        .error (.error (.notAFunction callee.type)) machine)
  | wrongCount {function : Function} (hcallee : callee = .function function)
      (hcount : function.parameters.length ≠ arguments.length)
      (hcall : Eval.call limit budget callee arguments machine =
        .error (.error (.wrongArgumentCount function.parameters.length arguments.length)) machine)
  | refused {function : Function} (hcallee : callee = .function function)
      (hcount : function.parameters.length = arguments.length)
      (hspent : limit ≤ machine.depth ∨ budget = 0)
      (hcall : Eval.call limit budget callee arguments machine =
        .error (.error (.callDepthExceeded limit)) machine)
  | entered {function : Function} {rest : Nat} (hcallee : callee = .function function)
      (hcount : function.parameters.length = arguments.length) (hbudget : budget = rest + 1)
      (hdepth : machine.depth < limit)
      (hcall : Eval.call limit budget callee arguments machine =
        Eval.leave (Block.eval (Eval.call limit rest) machine.store.scopes.size .null function.body
          (machine.enter function arguments)))

theorem Eval.call_cases (limit budget : Nat) (callee : Value) (arguments : List Value)
    (machine : Machine) : Call limit budget callee arguments machine := by
  by_cases hfunction : ∃ function, callee = .function function
  · obtain ⟨function, rfl⟩ := hfunction
    by_cases hcount : function.parameters.length = arguments.length
    · by_cases hdepth : limit ≤ machine.depth
      · exact .refused rfl hcount (.inl hdepth) (Eval.call_of_refused hcount (.inl hdepth))
      · cases budget with
        | zero => exact .refused rfl hcount (.inr rfl) (Eval.call_of_refused hcount (.inr rfl))
        | succ rest =>
            have hbelow : machine.depth < limit := Nat.lt_of_not_le hdepth
            exact .entered rfl hcount rfl hbelow (Eval.call_of_entered hcount hbelow)
    · exact .wrongCount rfl hcount (Eval.call_of_wrongCount hcount)
  · have hother : ∀ function, callee ≠ .function function :=
      fun function heq => hfunction ⟨function, heq⟩
    exact .notAFunction hother (Eval.call_of_notAFunction hother)

/-- What holds of every call that is refused, and of the call of a body if it holds of the calls in that
body, holds of every call.  The induction is on the budget. -/
theorem Eval.call_induction {limit : Nat}
    {motive : Value → List Value → Machine → EStateM.Result Signal Machine Value → Prop}
    (hrefused : ∀ callee arguments machine error,
      motive callee arguments machine (.error (.error error) machine))
    (hentered : ∀ (apply : Value → List Value → Eval Value) (function : Function)
      (arguments : List Value) (machine : Machine),
      function.parameters.length = arguments.length → machine.depth < limit →
      (∀ callee arguments machine, motive callee arguments machine (apply callee arguments machine)) →
        motive (.function function) arguments machine
          (Eval.leave (Block.eval apply machine.store.scopes.size .null function.body
            (machine.enter function arguments))))
    (budget : Nat) (callee : Value) (arguments : List Value) (machine : Machine) :
    motive callee arguments machine (Eval.call limit budget callee arguments machine) := by
  induction budget using Nat.strongRecOn generalizing callee arguments machine with
  | _ budget ih =>
      cases Eval.call_cases limit budget callee arguments machine with
      | notAFunction hcallee hcall | wrongCount hcallee hcount hcall
      | refused hcallee hcount hspent hcall =>
          rw [hcall]
          exact hrefused callee arguments machine _
      | @entered function rest hcallee hcount hbudget hdepth hcall =>
          subst hcallee
          rw [hcall]
          exact hentered _ function arguments machine hcount hdepth (ih rest (by omega))

/-- A body that obeys one law makes its call obey another, if the two agree on what the body leaves. -/
theorem Law.Meets.leave {inner outer : Law} {entered before : Machine}
    {result : EStateM.Result Signal Machine Value}
    (hmeets : inner.Meets inner.admits entered result)
    (hleave : ∀ after, inner.holds after → inner.allows entered after →
      outer.holds after.leave ∧ outer.allows before after.leave ∧
        ∀ value, inner.admits after value → outer.admits after.leave value) :
    outer.Meets outer.admits before (Eval.leave result) := by
  cases result with
  | ok value after =>
      obtain ⟨hholds, hallows, hadmits⟩ := hmeets
      obtain ⟨houter, hchange, hvalues⟩ := hleave after hholds hallows
      exact ⟨houter, hchange, hvalues value hadmits⟩
  | error signal after =>
      cases signal with
      | ret value =>
          obtain ⟨hholds, hallows, hadmits⟩ := hmeets
          obtain ⟨houter, hchange, hvalues⟩ := hleave after hholds hallows
          exact ⟨houter, hchange, hvalues value hadmits⟩
      | error error =>
          obtain ⟨hholds, hallows⟩ := hmeets
          obtain ⟨houter, hchange, -⟩ := hleave after hholds hallows
          exact ⟨houter, hchange⟩

end LetScript
