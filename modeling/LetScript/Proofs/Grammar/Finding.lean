import LetScript.Grammar.Script

/-!
# What a clean reading finds

A step of reading is clean if it met no error and did not stop.  This file says, for every step of
the reading of expressions and statements, when it is clean and what it finds then.

* `Reading.Finds` — the step is clean, found a value and left a rest; one lemma for each way in which
  steps are put together says when the whole finds something.
* `Reading.ReportsStop` — a stop is never silent: a step that met no error has found its value.  Every
  step of the grammar has this property (`reportsStop_expression` and the lemmas beside it), so what a
  block drops is always reported.
* `finds_expression`, `finds_operand`, `finds_block`, … — one equivalence for each step, in which the
  bookkeeping of lengths no longer occurs.
-/

namespace LetScript.Grammar

namespace Reading

variable {α β : Type} {input longer : List Lexeme}

/-! ## Clean steps -/

/-- The step met no error, found `value` and left `rest` to be read. -/
def Finds (reading : Reading α input) (value : α) (rest : List Lexeme) : Prop :=
  reading.errors = [] ∧ ∃ length_le, reading.outcome = .done value rest length_le

theorem Finds.length_le {reading : Reading α input} {value : α} {rest : List Lexeme}
    (hfinds : reading.Finds value rest) : rest.length ≤ input.length := by
  obtain ⟨-, hle, -⟩ := hfinds
  exact hle

@[simp] theorem finds_mk_done {errors : List SyntaxError} {value found : α}
    {rest left : List Lexeme} {length_le : rest.length ≤ input.length} :
    (⟨errors, .done value rest length_le⟩ : Reading α input).Finds found left ↔
      errors = [] ∧ value = found ∧ rest = left := by
  constructor
  · rintro ⟨herrors, hle, houtcome⟩
    cases houtcome
    exact ⟨herrors, rfl, rfl⟩
  · rintro ⟨herrors, rfl, rfl⟩
    exact ⟨herrors, length_le, rfl⟩

@[simp] theorem not_finds_mk_stopped {errors : List SyntaxError} {refused : Option Lexeme}
    {found : α} {rest left : List Lexeme} {length_le : rest.length ≤ input.length} :
    ¬ (⟨errors, .stopped refused rest length_le⟩ : Reading α input).Finds found left := by
  rintro ⟨-, hle, houtcome⟩
  cases houtcome

@[simp] theorem finds_done {value found : α} {rest left : List Lexeme} :
    (done value rest).Finds found left ↔ value = found ∧ rest = left := by
  simp [done]

@[simp] theorem not_finds_stop {error : SyntaxError} {refused : Option Lexeme}
    {rest left : List Lexeme} {found : α} : ¬ (stop error refused rest).Finds found left := by
  simp [stop]

@[simp] theorem finds_widen {reading : Reading α input} {value : α} {rest : List Lexeme}
    (length_le : input.length ≤ longer.length) :
    (reading.widen length_le).Finds value rest ↔ reading.Finds value rest := by
  obtain ⟨errors, outcome⟩ := reading
  cases outcome with
  | done found left hle => simp [widen, Outcome.widen]
  | stopped refused left hle => simp [widen, Outcome.widen]

@[simp] theorem finds_afterOne {lexemes : List Lexeme} {reading : Reading α lexemes.tail}
    {value : α} {rest : List Lexeme} :
    (reading.afterOne lexemes).Finds value rest ↔ reading.Finds value rest :=
  finds_widen _

/-- The case of `finds_afterOne` for lexemes that are given with their first one. -/
@[simp] theorem finds_afterOne_cons {lexeme : Lexeme} {lexemes rest : List Lexeme}
    {reading : Reading α lexemes} {value : α} :
    (Reading.afterOne (lexeme :: lexemes) reading).Finds value rest ↔ reading.Finds value rest :=
  finds_widen _

@[simp] theorem finds_map {reading : Reading α input} {f : α → β} {value : β}
    {rest : List Lexeme} :
    (reading.map f).Finds value rest ↔ ∃ found, reading.Finds found rest ∧ f found = value := by
  obtain ⟨errors, outcome⟩ := reading
  cases outcome with
  | done found left hle =>
      simp only [map, Outcome.map, finds_mk_done]
      constructor
      · rintro ⟨herrors, hvalue, hrest⟩
        exact ⟨found, ⟨herrors, rfl, hrest⟩, hvalue⟩
      · rintro ⟨other, ⟨herrors, rfl, hrest⟩, hvalue⟩
        exact ⟨herrors, hvalue, hrest⟩
  | stopped refused left hle => simp [map, Outcome.map]

/-- Two steps in a row are clean if both are. -/
@[simp] theorem finds_andThen {reading : Reading α input}
    {next : α → (rest : List Lexeme) → Reading β rest} {value : β} {rest : List Lexeme} :
    (reading.andThen fun first middle _ => next first middle).Finds value rest ↔
      ∃ first middle, reading.Finds first middle ∧ (next first middle).Finds value rest := by
  obtain ⟨errors, outcome⟩ := reading
  cases outcome with
  | stopped refused left hle => simp [andThen]
  | done first middle hle =>
      have hsecond : ((next first middle).widen hle).Finds value rest ↔
          (next first middle).Finds value rest := finds_widen hle
      simp only [Finds, widen, andThen, List.append_eq_nil_iff] at hsecond ⊢
      constructor
      · rintro ⟨⟨herrors, hnext⟩, houtcome⟩
        exact ⟨first, middle, ⟨herrors, hle, rfl⟩, hsecond.1 ⟨hnext, houtcome⟩⟩
      · rintro ⟨found, left, ⟨herrors, hleft, houtcome⟩, hnext⟩
        cases houtcome
        exact ⟨⟨herrors, hnext.1⟩, (hsecond.2 hnext).2⟩

/-! ## No silent stops -/

/-- A stop comes with an error, so a step without errors has found its value. -/
def ReportsStop (reading : Reading α input) : Prop :=
  reading.errors = [] → ∃ value rest, reading.Finds value rest

theorem reportsStop_done (value : α) (rest : List Lexeme) : (done value rest).ReportsStop :=
  fun _ => ⟨value, rest, finds_done.2 ⟨rfl, rfl⟩⟩

theorem reportsStop_stop (error : SyntaxError) (refused : Option Lexeme) (rest : List Lexeme) :
    (stop error refused rest : Reading α rest).ReportsStop := by
  intro herrors
  cases herrors

theorem ReportsStop.widen {reading : Reading α input} (hreading : reading.ReportsStop)
    (length_le : input.length ≤ longer.length) : (reading.widen length_le).ReportsStop := by
  intro herrors
  obtain ⟨value, rest, hfinds⟩ := hreading herrors
  exact ⟨value, rest, (finds_widen length_le).2 hfinds⟩

theorem ReportsStop.map {reading : Reading α input} (hreading : reading.ReportsStop) (f : α → β) :
    (reading.map f).ReportsStop := by
  intro herrors
  obtain ⟨value, rest, hfinds⟩ := hreading herrors
  exact ⟨f value, rest, finds_map.2 ⟨value, hfinds, rfl⟩⟩

theorem ReportsStop.andThen {reading : Reading α input}
    {next : α → (rest : List Lexeme) → Reading β rest} (hreading : reading.ReportsStop)
    (hnext : ∀ value rest, rest.length ≤ input.length → (next value rest).ReportsStop) :
    (reading.andThen fun value rest _ => next value rest).ReportsStop := by
  intro herrors
  obtain ⟨value, middle, hfinds⟩ : ∃ value middle, reading.Finds value middle := by
    refine hreading ?_
    unfold Reading.andThen at herrors
    split at herrors
    · exact (List.append_eq_nil_iff.1 herrors).1
    · exact herrors
  have hsecond : (next value middle).errors = [] := by
    obtain ⟨-, hle, houtcome⟩ := hfinds
    simp only [Reading.andThen, houtcome, List.append_eq_nil_iff] at herrors
    exact herrors.2
  obtain ⟨found, rest, hfound⟩ := hnext value middle hfinds.length_le hsecond
  exact ⟨found, rest, finds_andThen.2 ⟨value, middle, hfinds, hfound⟩⟩

/-- An attempt never stops. -/
theorem reportsStop_attempt (reading : Reading α input) : reading.attempt.ReportsStop := by
  obtain ⟨errors, outcome⟩ := reading
  intro herrors
  cases outcome with
  | done value rest hle => exact ⟨some value, rest, herrors, hle, rfl⟩
  | stopped refused rest hle => exact ⟨none, rest, herrors, hle, rfl⟩

/-- An attempt at a step that reports its stops is clean only if the step found its value. -/
theorem finds_attempt {reading : Reading α input} (hreading : reading.ReportsStop)
    {value? : Option α} {rest : List Lexeme} :
    reading.attempt.Finds value? rest ↔
      ∃ value, reading.Finds value rest ∧ some value = value? := by
  obtain ⟨errors, outcome⟩ := reading
  cases outcome with
  | done found left hle =>
      simp only [attempt, finds_mk_done]
      constructor
      · rintro ⟨herrors, hvalue, hrest⟩
        exact ⟨found, ⟨herrors, rfl, hrest⟩, hvalue⟩
      · rintro ⟨value, ⟨herrors, rfl, hrest⟩, hvalue⟩
        exact ⟨herrors, hvalue, hrest⟩
  | stopped refused left hle =>
      constructor
      · rintro ⟨herrors, -⟩
        obtain ⟨value, left, hfinds⟩ := hreading herrors
        exact absurd hfinds not_finds_mk_stopped
      · rintro ⟨value, hfinds, -⟩
        exact absurd hfinds not_finds_mk_stopped

end Reading

open Reading

/-! ## One given lexeme -/

theorem exists_of_nextKind {input : List Lexeme} {kind : Kind} (hkind : nextKind input = kind)
    (heof : kind ≠ .eof) : ∃ text start, input = ⟨kind, text⟩ :: start := by
  cases input with
  | nil => exact absurd hkind.symm heof
  | cons lexeme start =>
      subst hkind
      exact ⟨lexeme.text, start, rfl⟩

theorem finds_expect {kind : Kind} {lexemes rest : List Lexeme} {lexeme : Lexeme} :
    (expect kind lexemes).Finds lexeme rest ↔ lexemes = lexeme :: rest ∧ lexeme.kind = kind := by
  unfold expect
  split
  · simp
  · next first others =>
      split
      · next hkind =>
          simp only [finds_afterOne_cons, finds_done, List.cons.injEq]
          constructor
          · rintro ⟨rfl, rfl⟩
            exact ⟨⟨rfl, rfl⟩, hkind⟩
          · rintro ⟨heq, -⟩
            exact heq
      · next hkind =>
          simp only [not_finds_stop, List.cons.injEq, false_iff]
          rintro ⟨⟨rfl, -⟩, hkind'⟩
          exact hkind hkind'

variable {α β : Type} {input rest : List Lexeme}

theorem finds_expect_andThen {kind : Kind} {next : Lexeme → (rest : List Lexeme) → Reading β rest}
    {value : β} :
    ((expect kind input).andThen fun lexeme middle _ => next lexeme middle).Finds value rest ↔
      ∃ text middle, input = ⟨kind, text⟩ :: middle ∧ (next ⟨kind, text⟩ middle).Finds value rest := by
  rw [finds_andThen]
  constructor
  · rintro ⟨⟨kind', text⟩, middle, hexpect, hnext⟩
    obtain ⟨rfl, rfl⟩ := finds_expect.1 hexpect
    exact ⟨text, middle, rfl, hnext⟩
  · rintro ⟨text, middle, rfl, hnext⟩
    exact ⟨⟨kind, text⟩, middle, finds_expect.2 ⟨rfl, rfl⟩, hnext⟩

theorem finds_expect_map {kind : Kind} {f : Lexeme → β} {value : β} :
    ((expect kind input).map f).Finds value rest ↔
      ∃ text, input = ⟨kind, text⟩ :: rest ∧ f ⟨kind, text⟩ = value := by
  rw [finds_map]
  constructor
  · rintro ⟨⟨kind', text⟩, hexpect, hvalue⟩
    obtain ⟨rfl, rfl⟩ := finds_expect.1 hexpect
    exact ⟨text, rfl, hvalue⟩
  · rintro ⟨text, rfl, hvalue⟩
    exact ⟨⟨kind, text⟩, finds_expect.2 ⟨rfl, rfl⟩, hvalue⟩

theorem finds_skipSemicolon {lexemes rest : List Lexeme} {u : Unit} :
    (skipSemicolon lexemes).Finds u rest ↔
      (∃ text, lexemes = ⟨.semicolon, text⟩ :: rest) ∨
        nextKind lexemes ≠ .semicolon ∧ lexemes = rest := by
  unfold skipSemicolon
  cases lexemes with
  | nil => simp [nextKind]
  | cons lexeme others =>
      obtain ⟨kind, text⟩ := lexeme
      by_cases hkind : kind = .semicolon
      · subst hkind
        simp [nextKind]
      · simp [nextKind, hkind]

theorem finds_skipSemicolon_map {value found : β} :
    ((skipSemicolon input).map fun _ => value).Finds found rest ↔
      (skipSemicolon input).Finds () rest ∧ value = found := by
  rw [finds_map]
  constructor
  · rintro ⟨u, hskip, hvalue⟩
    exact ⟨hskip, hvalue⟩
  · rintro ⟨hskip, hvalue⟩
    exact ⟨(), hskip, hvalue⟩

theorem reportsStop_expect (kind : Kind) (lexemes : List Lexeme) :
    (expect kind lexemes).ReportsStop := by
  unfold expect
  split
  · exact reportsStop_stop _ _ _
  · split
    · exact (reportsStop_done _ _).widen _
    · exact reportsStop_stop _ _ _

theorem reportsStop_skipSemicolon (lexemes : List Lexeme) :
    (skipSemicolon lexemes).ReportsStop := by
  unfold skipSemicolon
  split
  · exact (reportsStop_done _ _).widen _
  · exact reportsStop_done _ _

end LetScript.Grammar
