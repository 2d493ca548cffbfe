import LetScript.Proofs.Json.RoundTrip
import LetScript.Tree.Encoding
import LetScript.Tree.Equality

/-!
# Reading a tree back from its JSON form

* `Json.nesting` — how deep arrays and objects are nested in a value.
* `Json.within` — a result that is there if some levels of nesting are left; results in a row need the
  largest of their levels.
* `Expr.ofJson?_toJson`, `Stmt.ofJson?_toJson`, `Block.ofJson?_toJson` — the JSON form of a tree is read as the
  tree, and this takes just as many levels as the form is nested.
* `Program.decoding_undoes_encoding` — the same from the texts of a whole program, compact and pretty, so
  programs with one text are one program.
-/

namespace LetScript

namespace Json

mutual

/-- How deep arrays and objects are nested. -/
def nesting : Json → Nat
  | null | bool _ | int _ | str _ | other => 0
  | arr items => itemNesting items + 1
  | obj fields => fieldNesting fields + 1

def itemNesting : List Json → Nat
  | [] => 0
  | item :: items => max item.nesting (itemNesting items)

def fieldNesting : List (String × Json) → Nat
  | [] => 0
  | (_, value) :: fields => max value.nesting (fieldNesting fields)

end

@[simp] theorem nesting_tagged (tag : String) (content : Json) :
    (tagged tag content).nesting = content.nesting + 1 := by
  simp [tagged, nesting, fieldNesting]

theorem nesting_record (tag : String) (fields : List (String × Json)) :
    (tagged tag (.obj fields)).nesting = fieldNesting fields + 2 := by
  rw [nesting_tagged, nesting]

@[simp] theorem nesting_ofName (name : String) : (ofName name).nesting = 1 := by
  simp [ofName, nesting, fieldNesting]

@[simp] theorem nesting_ofBlock (statements : List Json) :
    (ofBlock statements).nesting = itemNesting statements + 2 := by
  simp [ofBlock, nesting, fieldNesting]

/-! ## Results that need levels -/

/-- A result that is there if as many levels are left as it needs. -/
def within {α : Type} (levels needed : Nat) (result : α) : Option α :=
  if needed ≤ levels then some result else none

section Within

variable {α β : Type} {levels needed : Nat}

theorem within_of_le (result : α) (hle : needed ≤ levels) : within levels needed result = some result :=
  if_pos hle

theorem within_of_lt (result : α) (hlt : levels < needed) : within levels needed result = none :=
  if_neg (by omega)

theorem within_add (extra : Nat) (result : α) :
    within (levels + extra) (needed + extra) result = within levels needed result := by
  simp only [within, Nat.add_le_add_iff_right]

theorem within_bind_some (result : α) (f : α → β) :
    (within levels needed result).bind (fun result => some (f result)) =
      within levels needed (f result) := by
  by_cases hle : needed ≤ levels
  · rw [within_of_le _ hle, within_of_le _ hle, Option.bind_some]
  · rw [within_of_lt _ (by omega), within_of_lt _ (by omega), Option.bind_none]

/-- Two results in a row need the larger of their levels. -/
theorem within_bind_within {needed' : Nat} (result : α) (f : α → β) :
    (within levels needed result).bind (fun result => within levels needed' (f result)) =
      within levels (max needed needed') (f result) := by
  by_cases hle : needed ≤ levels
  · rw [within_of_le _ hle, Option.bind_some]
    simp only [within, Nat.max_le, hle, true_and]
  · rw [within_of_lt _ (by omega), within_of_lt _ (by omega), Option.bind_none]

theorem within_map (result : α) (f : α → β) :
    (within levels needed result).map f = within levels needed (f result) := by
  rw [Option.map_eq_bind]
  exact within_bind_some result f

/-- A reader that spends a level on an object needs one level more than what is in the object. -/
theorem eq_within_one {read : Nat → Option α} {result : α} (hzero : read 0 = none)
    (hmore : ∀ levels, read (levels + 1) = within levels needed result) :
    ∀ levels, read levels = within levels (needed + 1) result := by
  intro levels
  match levels with
  | 0 => rw [hzero, within_of_lt _ (by omega)]
  | levels + 1 => rw [hmore, within_add]

/-- A case whose content is a record takes two levels. -/
theorem eq_within_two {read : Nat → Option α} {result : α} (hzero : read 0 = none) (hone : read 1 = none)
    (hmore : ∀ levels, read (levels + 2) = within levels needed result) :
    ∀ levels, read levels = within levels (needed + 2) result := by
  intro levels
  match levels with
  | 0 => rw [hzero, within_of_lt _ (by omega)]
  | 1 => rw [hone, within_of_lt _ (by omega)]
  | levels + 2 => rw [hmore, within_add]

end Within

/-! ## The parts of trees -/

theorem toName?_ofName (levels : Nat) (name : String) :
    (ofName name).toName? levels = within levels 1 name := by
  cases levels with
  | zero => rfl
  | succ levels => exact (within_of_le name (by omega)).symm

theorem mapM_toName?_ofName (levels : Nat) (names : List String) :
    (names.map ofName).mapM (toName? levels) =
      within levels (itemNesting (names.map ofName)) names := by
  induction names with
  | nil => rfl
  | cons name names ih =>
      rw [List.map_cons, List.mapM_cons, ih, toName?_ofName, itemNesting, nesting_ofName]
      show (within levels 1 name).bind (fun name => (within levels _ names).bind fun names =>
        some (name :: names)) = _
      simp only [within_bind_some, within_bind_within]

theorem toInt64?_toInt (value : Int64) : (Json.int value.toInt).toInt64? = some value := by
  have hle : -0x8000000000000000 ≤ value.toInt := Int64.le_toInt value
  have hlt : value.toInt < 0x8000000000000000 := Int64.toInt_lt value
  rw [toInt64?, if_pos ⟨hle, hlt⟩, Int64.ofInt_toInt]

end Json

open Json (within within_add within_map within_bind_some within_bind_within)

mutual

/-- The JSON form of an expression is read as the expression, within the levels of its nesting. -/
theorem Expr.ofJson?_toJson : ∀ (e : Expr) (levels : Nat),
    Expr.ofJson? levels e.toJson = within levels e.toJson.nesting e
  | .name ident => by
      simp only [Expr.toJson, Json.nesting_tagged, Json.nesting_ofName]
      refine Json.eq_within_one rfl fun levels => ?_
      show ((Json.ofName ident).toName? levels).map Expr.name = _
      rw [Json.toName?_ofName, within_map]
  | .int value => by
      simp only [Expr.toJson, Json.nesting_tagged]
      refine Json.eq_within_one rfl fun levels => ?_
      show ((Json.int value.toInt).toInt64?).map Expr.int = _
      rw [Json.toInt64?_toInt]
      exact (Json.within_of_le _ (Nat.zero_le _)).symm
  | .str value => by
      simp only [Expr.toJson, Json.nesting_tagged]
      refine Json.eq_within_one rfl fun levels => ?_
      exact (Json.within_of_le _ (Nat.zero_le _)).symm
  | .bool value => by
      simp only [Expr.toJson, Json.nesting_tagged]
      refine Json.eq_within_one rfl fun levels => ?_
      exact (Json.within_of_le _ (Nat.zero_le _)).symm
  | .unary op operand => by
      simp only [Expr.toJson, Json.nesting_record]
      refine Json.eq_within_two rfl rfl fun levels => ?_
      show (PrefixOp.ofName? op.name).bind (fun op =>
        (Expr.ofJson? levels operand.toJson).bind fun operand => some (Expr.unary op operand)) = _
      rw [PrefixOp.ofName?_name, Expr.ofJson?_toJson operand levels]
      simp only [Option.bind_some, within_bind_some, Json.nesting, Json.fieldNesting, Nat.zero_max,
        Nat.max_zero]
  | .binary op left right => by
      simp only [Expr.toJson, Json.nesting_record]
      refine Json.eq_within_two rfl rfl fun levels => ?_
      show (InfixOp.ofName? op.name).bind (fun op =>
        (Expr.ofJson? levels left.toJson).bind fun left =>
          (Expr.ofJson? levels right.toJson).bind fun right => some (Expr.binary op left right)) = _
      rw [InfixOp.ofName?_name, Expr.ofJson?_toJson left levels, Expr.ofJson?_toJson right levels]
      simp only [Option.bind_some, within_bind_some, within_bind_within, Json.nesting, Json.fieldNesting,
        Nat.zero_max, Nat.max_zero]
  | .cond condition consequence none => by
      simp only [Expr.toJson, Json.nesting_record]
      refine Json.eq_within_two rfl rfl fun levels => ?_
      show (Expr.ofJson? levels condition.toJson).bind (fun condition =>
        (Block.ofJson? levels (Block.toJson consequence)).bind fun consequence =>
          some (Expr.cond condition consequence none)) = _
      rw [Expr.ofJson?_toJson condition levels, Block.ofJson?_toJson consequence levels]
      simp only [within_bind_some, within_bind_within, Json.nesting, Json.fieldNesting, Nat.max_zero,
        Block.toJson]
  | .cond condition consequence (some alternative) => by
      simp only [Expr.toJson, Json.nesting_record]
      refine Json.eq_within_two rfl rfl fun levels => ?_
      show (Expr.ofJson? levels condition.toJson).bind (fun condition =>
        (Block.ofJson? levels (Block.toJson consequence)).bind fun consequence =>
          (Block.ofJson? levels (Block.toJson alternative)).bind fun alternative =>
            some (Expr.cond condition consequence (some alternative))) = _
      rw [Expr.ofJson?_toJson condition levels, Block.ofJson?_toJson consequence levels,
        Block.ofJson?_toJson alternative levels]
      simp only [within_bind_some, within_bind_within, Json.fieldNesting, Nat.max_zero, Block.toJson]
  | .fn parameters body => by
      simp only [Expr.toJson, Json.nesting_record]
      refine Json.eq_within_two rfl rfl fun levels => ?_
      simp only [Json.nesting, Json.fieldNesting, Nat.max_zero]
      match levels with
      | 0 => exact (Json.within_of_lt _ (by omega)).symm
      | levels + 1 =>
          show ((parameters.map Json.ofName).mapM (Json.toName? levels)).bind (fun parameters =>
            (Block.ofJson? (levels + 1) (Block.toJson body)).bind fun body =>
              some (Expr.fn parameters body)) = _
          -- The names stand in an array, so they have a level less than the body.
          rw [Json.mapM_toName?_ofName, Block.ofJson?_toJson body (levels + 1), ← within_add 1 parameters]
          simp only [within_bind_some, within_bind_within, Block.toJson]
  | .call callee arguments => by
      simp only [Expr.toJson, Json.nesting_record]
      refine Json.eq_within_two rfl rfl fun levels => ?_
      simp only [Json.nesting, Json.fieldNesting, Nat.max_zero]
      match levels with
      | 0 => exact (Json.within_of_lt _ (by omega)).symm
      | levels + 1 =>
          show (Expr.ofJson? (levels + 1) callee.toJson).bind (fun callee =>
            ((Expr.listToJson arguments).mapM (Expr.ofJson? levels)).bind fun arguments =>
              some (Expr.call callee arguments)) = _
          rw [Expr.ofJson?_toJson callee (levels + 1), Expr.mapM_ofJson?_listToJson arguments levels,
            ← within_add 1 arguments]
          simp only [within_bind_some, within_bind_within]

theorem Stmt.ofJson?_toJson : ∀ (s : Stmt) (levels : Nat),
    Stmt.ofJson? levels s.toJson = within levels s.toJson.nesting s
  | .bind name value => by
      simp only [Stmt.toJson, Json.nesting_record]
      refine Json.eq_within_two rfl rfl fun levels => ?_
      show ((Json.ofName name).toName? levels).bind (fun name =>
        (Expr.ofJson? levels value.toJson).bind fun value => some (Stmt.bind name value)) = _
      rw [Json.toName?_ofName, Expr.ofJson?_toJson value levels]
      simp only [within_bind_some, within_bind_within, Json.fieldNesting, Json.nesting_ofName,
        Nat.max_zero]
  | .ret none => by
      simp only [Stmt.toJson, Json.nesting_record]
      refine Json.eq_within_two rfl rfl fun levels => ?_
      exact (Json.within_of_le _ (Nat.zero_le _)).symm
  | .ret (some value) => by
      simp only [Stmt.toJson, Json.nesting_record]
      refine Json.eq_within_two rfl rfl fun levels => ?_
      -- The form of an expression is never `null`, which would stand for no value.
      have hread : Stmt.ofJson? (levels + 2) (.tagged "Return" (.obj [("value", value.toJson)])) =
          (Expr.ofJson? levels value.toJson).bind fun value => some (Stmt.ret (some value)) := by
        cases value with
        | cond condition consequence alternative => cases alternative <;> rfl
        | _ => rfl
      rw [hread, Expr.ofJson?_toJson value levels]
      simp only [within_bind_some, Json.fieldNesting, Nat.max_zero]
  | .expr value => by
      simp only [Stmt.toJson, Json.nesting_tagged]
      refine Json.eq_within_one rfl fun levels => ?_
      have hread : Stmt.ofJson? (levels + 1) (.tagged "Expression" value.toJson) =
          (Expr.ofJson? levels value.toJson).map Stmt.expr := by
        cases levels <;> rfl
      rw [hread, Expr.ofJson?_toJson value levels, within_map]

theorem Block.ofJson?_toJson : ∀ (statements : Block) (levels : Nat),
    Block.ofJson? levels (Block.toJson statements) =
      within levels (Block.toJson statements).nesting statements
  | statements => by
      simp only [Block.toJson, Json.nesting_ofBlock]
      refine Json.eq_within_two rfl rfl fun levels => ?_
      exact Block.mapM_ofJson?_listToJson statements levels

theorem Block.mapM_ofJson?_listToJson : ∀ (statements : List Stmt) (levels : Nat),
    (Block.listToJson statements).mapM (Stmt.ofJson? levels) =
      within levels (Json.itemNesting (Block.listToJson statements)) statements
  | [], _ => rfl
  | statement :: statements, levels => by
      rw [Block.listToJson, List.mapM_cons, Stmt.ofJson?_toJson statement levels,
        Block.mapM_ofJson?_listToJson statements levels, Json.itemNesting]
      show (within levels _ statement).bind (fun statement => (within levels _ statements).bind
        fun statements => some (statement :: statements)) = _
      simp only [within_bind_some, within_bind_within]

theorem Expr.mapM_ofJson?_listToJson : ∀ (exprs : List Expr) (levels : Nat),
    (Expr.listToJson exprs).mapM (Expr.ofJson? levels) =
      within levels (Json.itemNesting (Expr.listToJson exprs)) exprs
  | [], _ => rfl
  | expr :: exprs, levels => by
      rw [Expr.listToJson, List.mapM_cons, Expr.ofJson?_toJson expr levels,
        Expr.mapM_ofJson?_listToJson exprs levels, Json.itemNesting]
      show (within levels _ expr).bind (fun expr => (within levels _ exprs).bind
        fun exprs => some (expr :: exprs)) = _
      simp only [within_bind_some, within_bind_within]

end

/-! ## Texts -/

namespace Json

@[simp] theorem isWritten_tagged (tag : String) (content : Json) :
    (tagged tag content).isWritten = content.isWritten := by
  simp [tagged, isWritten, fieldsWritten]

@[simp] theorem isWritten_ofName (name : String) : (ofName name).isWritten = true := by
  simp [ofName, isWritten, fieldsWritten]

@[simp] theorem isWritten_ofBlock (statements : List Json) :
    (ofBlock statements).isWritten = areWritten statements := by
  simp [ofBlock, isWritten, fieldsWritten]

theorem areWritten_map_ofName (names : List String) : areWritten (names.map ofName) = true := by
  induction names with
  | nil => rfl
  | cons name names ih => rw [List.map_cons, areWritten, isWritten_ofName, ih, Bool.and_self]

end Json

mutual

/-- The text of the JSON form of an expression says all of it. -/
theorem Expr.isWritten_toJson : ∀ e : Expr, e.toJson.isWritten = true
  | .name ident => by simp [Expr.toJson]
  | .int value => by simp [Expr.toJson, Json.isWritten]
  | .str value => by simp [Expr.toJson, Json.isWritten]
  | .bool value => by simp [Expr.toJson, Json.isWritten]
  | .unary op operand => by
      simp [Expr.toJson, Json.isWritten, Json.fieldsWritten, operand.isWritten_toJson]
  | .binary op left right => by
      simp [Expr.toJson, Json.isWritten, Json.fieldsWritten, left.isWritten_toJson, right.isWritten_toJson]
  | .cond condition consequence none => by
      simp [Expr.toJson, Json.isWritten, Json.fieldsWritten, condition.isWritten_toJson,
        Block.areWritten_listToJson consequence]
  | .cond condition consequence (some alternative) => by
      simp [Expr.toJson, Json.isWritten, Json.fieldsWritten, condition.isWritten_toJson,
        Block.areWritten_listToJson consequence, Block.areWritten_listToJson alternative]
  | .fn parameters body => by
      simp [Expr.toJson, Json.isWritten, Json.fieldsWritten, Json.areWritten_map_ofName,
        Block.areWritten_listToJson body]
  | .call callee arguments => by
      simp [Expr.toJson, Json.isWritten, Json.fieldsWritten, callee.isWritten_toJson,
        Expr.areWritten_listToJson arguments]

theorem Stmt.isWritten_toJson : ∀ s : Stmt, s.toJson.isWritten = true
  | .bind name value => by
      simp [Stmt.toJson, Json.isWritten, Json.fieldsWritten, value.isWritten_toJson]
  | .ret none => by simp [Stmt.toJson, Json.isWritten, Json.fieldsWritten]
  | .ret (some value) => by
      simp [Stmt.toJson, Json.isWritten, Json.fieldsWritten, value.isWritten_toJson]
  | .expr value => by simp [Stmt.toJson, value.isWritten_toJson]

theorem Block.areWritten_listToJson : ∀ statements : List Stmt,
    Json.areWritten (Block.listToJson statements) = true
  | [] => rfl
  | statement :: statements => by
      rw [Block.listToJson, Json.areWritten, statement.isWritten_toJson,
        Block.areWritten_listToJson statements, Bool.and_self]

theorem Expr.areWritten_listToJson : ∀ exprs : List Expr,
    Json.areWritten (Expr.listToJson exprs) = true
  | [] => rfl
  | expr :: exprs => by
      rw [Expr.listToJson, Json.areWritten, expr.isWritten_toJson, Expr.areWritten_listToJson exprs,
        Bool.and_self]

end

theorem Program.isWritten_toJson (program : Program) : program.toJson.isWritten = true := by
  rw [Program.toJson, Block.toJson, Json.isWritten_ofBlock, Block.areWritten_listToJson]

/-- The program that a text gives to a reader with some levels of nesting. -/
def Program.ofJsonText? (levels : Nat) (text : String) : Option Program :=
  ((Json.ofText? text).bind (Block.ofJson? levels)).map Program.mk

theorem Program.ofJsonText?_nestingLimit (text : String) :
    Program.ofJsonText? Json.nestingLimit text = (Json.ofText? text).bind Program.ofJson? := by
  cases hvalue : Json.ofText? text with
  | none => rw [Program.ofJsonText?, hvalue, Option.bind_none, Option.bind_none, Option.map_none]
  | some value => rw [Program.ofJsonText?, hvalue, Option.bind_some, Option.bind_some, Program.ofJson?]

/-- A text that is read as the JSON form of a program is read as the program, within the levels of its
nesting. -/
theorem Program.ofJsonText?_eq {text : String} {program : Program}
    (htext : Json.ofText? text = some program.toJson) (levels : Nat) :
    Program.ofJsonText? levels text = within levels program.toJson.nesting program := by
  rw [Program.ofJsonText?, htext, Option.bind_some]
  show (Block.ofJson? levels (Block.toJson program.statements)).map Program.mk = _
  rw [Block.ofJson?_toJson, within_map]
  rfl

theorem Program.ofJsonText?_compact (program : Program) (levels : Nat) :
    Program.ofJsonText? levels program.toJson.compact = within levels program.toJson.nesting program :=
  Program.ofJsonText?_eq (Json.ofText?_compact program.isWritten_toJson) levels

theorem Program.ofJsonText?_pretty (program : Program) (levels : Nat) :
    Program.ofJsonText? levels program.toJson.pretty = within levels program.toJson.nesting program :=
  Program.ofJsonText?_eq (Json.ofText?_pretty program.isWritten_toJson) levels

/-- What enough levels read from one text of two programs is either of them. -/
theorem Program.eq_of_ofJsonText? {text : String} {program other : Program}
    (hprogram : ∀ levels,
      Program.ofJsonText? levels text = within levels program.toJson.nesting program)
    (hother : ∀ levels, Program.ofJsonText? levels text = within levels other.toJson.nesting other) :
    program = other := by
  have hsame := (hprogram (max program.toJson.nesting other.toJson.nesting)).symm.trans (hother _)
  rw [Json.within_of_le _ (Nat.le_max_left _ _), Json.within_of_le _ (Nat.le_max_right _ _)] at hsame
  exact Option.some.inj hsame

/-- Both JSON texts of a program are read as that program when the texts are nested no deeper than
`Json.nestingLimit`, and a reader with any other number of levels reads them as deep as its levels go.
Programs with one text, however deep it is nested, are one program. -/
theorem Program.decoding_undoes_encoding :
    (∀ program : Program,
      let read := if program.toJson.nesting ≤ Json.nestingLimit then some program else none
      (Json.ofText? program.toJson.compact).bind Program.ofJson? = read ∧
        (Json.ofText? program.toJson.pretty).bind Program.ofJson? = read) ∧
    (∀ (program : Program) (levels : Nat),
      let read := if program.toJson.nesting ≤ levels then some program else none
      Program.ofJsonText? levels program.toJson.compact = read ∧
        Program.ofJsonText? levels program.toJson.pretty = read) ∧
    Function.Injective (fun program : Program => program.toJson.compact) ∧
    Function.Injective (fun program : Program => program.toJson.pretty) := by
  refine ⟨?_, ?_, ?_, ?_⟩
  · intro program read
    rw [← Program.ofJsonText?_nestingLimit, ← Program.ofJsonText?_nestingLimit]
    exact ⟨Program.ofJsonText?_compact program _, Program.ofJsonText?_pretty program _⟩
  · intro program levels read
    exact ⟨Program.ofJsonText?_compact program levels, Program.ofJsonText?_pretty program levels⟩
  · intro program other hsame
    have htext : program.toJson.compact = other.toJson.compact := hsame
    refine Program.eq_of_ofJsonText? (Program.ofJsonText?_compact program) ?_
    rw [htext]
    exact Program.ofJsonText?_compact other
  · intro program other hsame
    have htext : program.toJson.pretty = other.toJson.pretty := hsame
    refine Program.eq_of_ofJsonText? (Program.ofJsonText?_pretty program) ?_
    rw [htext]
    exact Program.ofJsonText?_pretty other

/-- No script can write this program, but its JSON text gives it back. -/
example :
    let program : Program := ⟨[.bind "let" (.str "\"\\\n"), .ret (some (.int (-5)))]⟩
    (Json.ofText? program.toJson.compact).bind Program.ofJson? = some program := by
  intro program
  decide +kernel

end LetScript
