import LetScript.Proofs.Json.Symbols

/-!
# Reading back a written JSON value

* `Json.isWritten` — a value that its text says completely: it holds no number and no string that no text
  here writes.
* `Json.run?_symbols` — the symbols of such a value are read as the value, inside any open arrays and objects
  and in front of any symbols.
* `Json.ofText?_compact`, `Json.ofText?_pretty` — so both texts of the value are read as the value.
-/

namespace LetScript.Json

mutual

/-- Nothing in the value is lost when its text is written. -/
def isWritten : Json → Bool
  | null | bool _ | int _ | str _ => true
  | arr items => areWritten items
  | obj fields => fieldsWritten fields
  | other => false

def areWritten : List Json → Bool
  | [] => true
  | item :: items => item.isWritten && areWritten items

def fieldsWritten : List (String × Json) → Bool
  | [] => true
  | (_, value) :: fields => value.isWritten && fieldsWritten fields

end

theorem run?_cons {stage stage' : Stage} {frames frames' : List Frame} {symbol : Symbol}
    (hstep : step? stage frames symbol = some (stage', frames')) (symbols : List Symbol) :
    run? stage frames (symbol :: symbols) = run? stage' frames' symbols := by
  rw [run?, hstep]

/-- The fields that were read, names and all. -/
def readFields (fields : List (String × Json)) : List (Option String × Json) :=
  fields.map fun (name, value) => (some name, value)

theorem readFields_concat (fields : List (String × Json)) (name : String) (value : Json) :
    readFields (fields ++ [(name, value)]) = readFields fields ++ [(some name, value)] := by
  rw [readFields, List.map_append]
  rfl

theorem ofFields_readFields (fields : List (String × Json)) : ofFields (readFields fields) = .obj fields := by
  have hnames : (readFields fields).mapM (fun field => field.1.map (·, field.2)) = some fields := by
    induction fields with
    | nil => rfl
    | cons field fields ih =>
        rw [readFields, List.map_cons, List.mapM_cons]
        rw [readFields] at ih
        rw [ih]
        rfl
  unfold ofFields
  split
  · next others hothers =>
      cases hothers.symm.trans hnames
      rfl
  · next hnone => cases hnone.symm.trans hnames

/-- A value may start at this stage. -/
def Stage.IsStart (stage : Stage) : Prop :=
  stage = .value ∨ stage = .firstItem

theorem Stage.IsStart.step?_eq {stage : Stage} (hstart : stage.IsStart) {symbol : Symbol}
    (hsymbol : symbol ≠ .closeArr) (frames : List Frame) :
    step? stage frames symbol = start? frames symbol := by
  rcases hstart with rfl | rfl
  · cases symbol <;> rfl
  · cases frames with
    | nil => cases symbol <;> rfl
    | cons frame frames =>
        cases symbol with
        | closeArr => exact absurd rfl hsymbol
        | _ => cases frame <;> rfl

/-- A name and its colon are read before the value of a field. -/
theorem run?_name {stage : Stage} (hstage : stage = .name ∨ stage = .firstName)
    (before : List (Option String × Json)) (name : Option String) (frames : List Frame)
    (symbols : List Symbol) :
    run? stage (.obj before :: frames) (.text name :: .colon :: symbols) =
      run? .value (.field before name :: frames) symbols := by
  have hname : step? stage (.obj before :: frames) (.text name) =
      some (.colon name, .obj before :: frames) := by
    rcases hstage with rfl | rfl <;> rfl
  rw [run?_cons hname]
  rfl

mutual

/-- The symbols of a value are read as the value. -/
theorem run?_symbols : ∀ {value : Json}, value.isWritten = true → ∀ {stage : Stage}, stage.IsStart →
    ∀ (frames : List Frame) (rest : List Symbol),
      run? stage frames (value.symbols ++ rest) = run? (.behind value) frames rest
  | null, _, stage, hstart, frames, rest => by
      rw [symbols]
      exact run?_cons (hstart.step?_eq (by simp) frames) rest
  | bool value, _, stage, hstart, frames, rest => by
      rw [symbols]
      exact run?_cons (hstart.step?_eq (by simp) frames) rest
  | int value, _, stage, hstart, frames, rest => by
      rw [symbols]
      exact run?_cons (hstart.step?_eq (by simp) frames) rest
  | str value, _, stage, hstart, frames, rest => by
      rw [symbols]
      exact run?_cons (hstart.step?_eq (by simp) frames) rest
  | arr [], _, stage, hstart, frames, rest => by
      rw [symbols, itemSymbols]
      show run? stage frames (.openArr :: .closeArr :: rest) = _
      rw [run?_cons (hstart.step?_eq (by simp) frames)]
      rfl
  | arr (item :: items), hwritten, stage, hstart, frames, rest => by
      -- The first item is read at a stage of its own, at which the array could also end.
      rw [isWritten] at hwritten
      rw [symbols, List.cons_append, List.append_assoc, run?_cons (hstart.step?_eq (by simp) frames)]
      exact run?_itemSymbols hwritten (List.cons_ne_nil _ _) (.inr rfl) [] frames rest
  | obj [], _, stage, hstart, frames, rest => by
      rw [symbols, fieldSymbols]
      show run? stage frames (.openObj :: .closeObj :: rest) = _
      rw [run?_cons (hstart.step?_eq (by simp) frames)]
      rfl
  | obj (field :: fields), hwritten, stage, hstart, frames, rest => by
      rw [isWritten] at hwritten
      rw [symbols, List.cons_append, List.append_assoc, run?_cons (hstart.step?_eq (by simp) frames)]
      have hfields := run?_fieldSymbols hwritten (List.cons_ne_nil _ _) (.inr rfl) [] frames rest
      rwa [List.nil_append] at hfields
  | other, hwritten, _, _, _, _ => by
      rw [isWritten] at hwritten
      cases hwritten

/-- The symbols of items are read behind those that were read before, up to the end of the array. -/
theorem run?_itemSymbols : ∀ {items : List Json}, areWritten items = true → items ≠ [] →
    ∀ {stage : Stage}, stage.IsStart → ∀ (before : List Json) (frames : List Frame) (rest : List Symbol),
      run? stage (.arr before.reverse :: frames) (itemSymbols items ++ .closeArr :: rest) =
        run? (.behind (.arr (before ++ items))) frames rest
  | [], _, hsome, _, _, _, _, _ => absurd rfl hsome
  -- A frame holds its items in reverse, and the end of the array turns them around.
  | [item], hwritten, _, stage, hstart, before, frames, rest => by
      rw [areWritten, Bool.and_eq_true] at hwritten
      rw [itemSymbols, run?_symbols hwritten.1 hstart]
      show run? (.behind (.arr (item :: before.reverse).reverse)) frames rest = _
      rw [List.reverse_cons, List.reverse_reverse]
  | item :: second :: items, hwritten, _, stage, hstart, before, frames, rest => by
      rw [areWritten, Bool.and_eq_true] at hwritten
      rw [itemSymbols, List.append_assoc, run?_symbols hwritten.1 hstart]
      · have hothers := run?_itemSymbols hwritten.2 (List.cons_ne_nil _ _) (.inl rfl)
          (before ++ [item]) frames rest
        rw [List.reverse_append, List.append_assoc] at hothers
        exact hothers
      · intro hnil
        cases hnil

/-- The symbols of fields are read behind those that were read before, up to the end of the object. -/
theorem run?_fieldSymbols : ∀ {fields : List (String × Json)}, fieldsWritten fields = true →
    fields ≠ [] → ∀ {stage : Stage}, stage = .name ∨ stage = .firstName →
      ∀ (before : List (String × Json)) (frames : List Frame) (rest : List Symbol),
        run? stage (.obj (readFields before).reverse :: frames)
            (fieldSymbols fields ++ .closeObj :: rest) =
          run? (.behind (.obj (before ++ fields))) frames rest
  | [], _, hsome, _, _, _, _, _ => absurd rfl hsome
  | [(name, value)], hwritten, _, stage, hstage, before, frames, rest => by
      rw [fieldsWritten, Bool.and_eq_true] at hwritten
      rw [fieldSymbols, List.cons_append, List.cons_append, run?_name hstage,
        run?_symbols hwritten.1 (.inl rfl)]
      show run? (.behind (ofFields ((some name, value) :: (readFields before).reverse).reverse)) frames
        rest = _
      rw [List.reverse_cons, List.reverse_reverse]
      rw [← readFields_concat, ofFields_readFields]
  | (name, value) :: second :: fields, hwritten, _, stage, hstage, before, frames, rest => by
      rw [fieldsWritten, Bool.and_eq_true] at hwritten
      rw [fieldSymbols, List.cons_append, List.cons_append, List.append_assoc, run?_name hstage,
        run?_symbols hwritten.1 (.inl rfl)]
      · have hothers := run?_fieldSymbols hwritten.2 (List.cons_ne_nil _ _) (.inl rfl)
          (before ++ [(name, value)]) frames rest
        rw [readFields_concat, List.reverse_append, List.append_assoc] at hothers
        exact hothers
      · intro hnil
        cases hnil

end

/-- A text of the symbols of a written value is read as the value. -/
theorem Spells.ofText?_eq {text : String} {value : Json} (hspells : Spells text value.symbols)
    (hwritten : value.isWritten = true) : ofText? text = some value := by
  rw [ofText?, hspells.ofChars?_eq]
  have hrun := run?_symbols hwritten (.inl rfl) [] []
  rw [List.append_nil] at hrun
  exact hrun

theorem ofText?_compact {value : Json} (hwritten : value.isWritten = true) :
    ofText? value.compact = some value :=
  (compact_spells value).ofText?_eq hwritten

theorem ofText?_pretty {value : Json} (hwritten : value.isWritten = true) :
    ofText? value.pretty = some value :=
  (pretty_spells value).ofText?_eq hwritten

end LetScript.Json
