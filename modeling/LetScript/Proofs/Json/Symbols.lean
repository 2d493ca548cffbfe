import LetScript.Proofs.Json.Scalars

/-!
# The symbols of a written JSON value

* `Json.symbols` — the symbols of a value, with its commas and colons; blanks are none.
* `Json.Spells` — a text falls into symbols, in front of any text that does not go on with a number.
* `Json.compact_spells`, `Json.pretty_spells` — the text of a value falls into its symbols, whether it stands on
  one line or on many.
-/

namespace LetScript.Json

mutual

/-- The symbols of a value. -/
def symbols : Json → List Symbol
  | null => [.scalar .null]
  | bool value => [.scalar (.bool value)]
  | int value => [.scalar (.int value)]
  | str value => [.text (some value)]
  | arr items => .openArr :: (itemSymbols items ++ [.closeArr])
  | obj fields => .openObj :: (fieldSymbols fields ++ [.closeObj])
  | other => [.scalar .null]

/-- The symbols of values with commas between them. -/
def itemSymbols : List Json → List Symbol
  | [] => []
  | [item] => item.symbols
  | item :: items => item.symbols ++ .comma :: itemSymbols items

/-- The symbols of fields with commas between them. -/
def fieldSymbols : List (String × Json) → List Symbol
  | [] => []
  | [(name, value)] => .text (some name) :: .colon :: value.symbols
  | (name, value) :: fields =>
      .text (some name) :: .colon :: (value.symbols ++ .comma :: fieldSymbols fields)

end

/-! ## The symbols of a text, one by one -/

/-- A text falls into the symbols. -/
def Reads (cs : List Char) (ws : List Symbol) : Prop :=
  Symbol.ofChars? cs = some ws

theorem reads_nil : Reads [] [] := by
  rw [Reads, Symbol.ofChars?]

theorem reads_blank {c : Char} {cs : List Char} {ws : List Symbol} (hblank : isBlank c = true)
    (hreads : Reads cs ws) : Reads (c :: cs) ws := by
  rw [Reads, Symbol.ofChars?, if_pos hblank]
  exact hreads

theorem reads_first {c : Char} {cs rest : List Char} {symbol : Symbol} {ws : List Symbol}
    (hblank : isBlank c = false) (hfirst : Symbol.first? c cs = some (symbol, rest))
    (hreads : Reads rest ws) : Reads (c :: cs) (symbol :: ws) := by
  rw [Reads, Symbol.ofChars?, if_neg (by rw [hblank]; decide)]
  split
  · next hnone =>
      rw [hfirst] at hnone
      cases hnone
  · next symbol' behind hsome =>
      rw [hfirst] at hsome
      cases hsome
      rw [hreads]
      rfl

/-- The text falls into the symbols, in front of any text that does not go on with a number. -/
def Spells (text : String) (us : List Symbol) : Prop :=
  ∀ ⦃rest : List Char⦄ ⦃ws : List Symbol⦄, StartsOutside isNumberPart rest → Reads rest ws →
    Reads (text.toList ++ rest) (us ++ ws)

/-! ## Scalars -/

theorem spells_quote (text : String) : Spells (quote text) [.text (some text)] := by
  intro rest ws _ hreads
  obtain ⟨pieces, hpieces, hjoin⟩ := pieces?_flatMap_escape text.toList rest
  have hfirst : Symbol.first? '"' (text.toList.flatMap escape ++ '"' :: rest) =
      some (.text (some text), rest) := by
    show (pieces? _).map _ = _
    rw [hpieces]
    show some (Symbol.text ((joinPieces? pieces).map .ofList), rest) = _
    rw [hjoin]
    simp
  simpa [quote] using reads_first rfl hfirst hreads

/-- A digit or a minus sign starts a number. -/
theorem Symbol.first?_number {c : Char} (cs : List Char) (hstart : c.isDigit = true ∨ c = '-') :
    first? c cs = (number? (c :: cs.takeWhile isNumberPart)).map fun value =>
      (scalar value, cs.dropWhile isNumberPart) := by
  unfold first?
  split
  all_goals first
    | rfl
    | exact absurd hstart (by decide)

theorem isBlank_of_number {c : Char} (hstart : c.isDigit = true ∨ c = '-') : isBlank c = false := by
  rw [isBlank, Bool.or_eq_false_iff, Bool.or_eq_false_iff, Bool.or_eq_false_iff]
  refine ⟨⟨⟨?_, ?_⟩, ?_⟩, ?_⟩
  all_goals
    rw [beq_eq_false_iff_ne]
    rintro rfl
    exact absurd hstart (by decide)

theorem spells_int (value : Int) : Spells (toString value) [.scalar (.int value)] := by
  intro rest ws houtside hreads
  obtain ⟨c, cs, htext, hstart⟩ := exists_toList_toString value
  have hpart : cs.all isNumberPart = true := by
    have hall := toList_toString_isNumberPart value
    rw [htext, List.all_cons, Bool.and_eq_true] at hall
    exact hall.2
  have hfirst : Symbol.first? c (cs ++ rest) = some (.scalar (.int value), rest) := by
    rw [Symbol.first?_number _ hstart, takeWhile_append_of_startsOutside hpart houtside,
      dropWhile_append_of_startsOutside hpart houtside, ← htext, number?_toList]
    rfl
  rw [htext]
  exact reads_first (isBlank_of_number hstart) hfirst hreads

theorem spells_null : Spells "null" [.scalar .null] := by
  intro rest ws _ hreads
  exact reads_first rfl rfl hreads

theorem spells_bool (value : Bool) : Spells (compact (.bool value)) [.scalar (.bool value)] := by
  intro rest ws _ hreads
  cases value with
  | false => exact reads_first rfl rfl hreads
  | true => exact reads_first rfl rfl hreads

theorem reads_lineStart (depth : Nat) {cs : List Char} {ws : List Symbol} (hreads : Reads cs ws) :
    Reads ((lineStart depth).toList ++ cs) ws := by
  have hspaces : ∀ count, Reads (List.replicate count ' ' ++ cs) ws := by
    intro count
    induction count with
    | zero => exact hreads
    | succ count ih => exact reads_blank rfl ih
  rw [lineStart, String.toList_ofList]
  exact reads_blank rfl (hspaces _)

/-- A number ends at the start of a line. -/
theorem startsOutside_lineStart (depth : Nat) (cs : List Char) :
    StartsOutside isNumberPart ((lineStart depth).toList ++ cs) := by
  rw [lineStart, String.toList_ofList]
  exact startsOutside_cons.2 rfl

/-! ## Values -/

mutual

theorem compact_spells : ∀ value : Json, Spells value.compact value.symbols
  | null => by
      simp only [compact, symbols]
      exact spells_null
  | bool value => by
      simp only [symbols]
      exact spells_bool value
  | int value => by
      simp only [compact, symbols]
      exact spells_int value
  | str value => by
      simp only [compact, symbols]
      exact spells_quote value
  | arr items => by
      intro rest ws _ hreads
      simp only [compact, symbols, String.toList_append, List.append_assoc, List.cons_append]
      -- From the back, since a text is read in front of one of which the symbols are known.
      have hclosing : Reads (']' :: rest) (.closeArr :: ws) := reads_first rfl rfl hreads
      have hitems := compactItems_spells items (startsOutside_cons.2 rfl) hclosing
      exact reads_first rfl rfl hitems
  | obj fields => by
      intro rest ws _ hreads
      simp only [compact, symbols, String.toList_append, List.append_assoc, List.cons_append]
      have hclosing : Reads ('\x7d' :: rest) (.closeObj :: ws) := reads_first rfl rfl hreads
      have hfields := compactFields_spells fields (startsOutside_cons.2 rfl) hclosing
      exact reads_first rfl rfl hfields
  | other => by
      simp only [compact, symbols]
      exact spells_null

theorem compactItems_spells : ∀ items : List Json, Spells (compactItems items) (itemSymbols items)
  | [] => by
      intro rest ws _ hreads
      simpa [compactItems, itemSymbols] using hreads
  | [item] => by
      simp only [compactItems, itemSymbols]
      exact compact_spells item
  | item :: second :: items => by
      intro rest ws houtside hreads
      simp only [compactItems, itemSymbols, String.toList_append, List.append_assoc, List.cons_append]
      have hothers := compactItems_spells (second :: items) houtside hreads
      have hcomma : Reads (',' :: _) (.comma :: _) := reads_first rfl rfl hothers
      exact compact_spells item (startsOutside_cons.2 rfl) hcomma

theorem compactFields_spells : ∀ fields : List (String × Json),
    Spells (compactFields fields) (fieldSymbols fields)
  | [] => by
      intro rest ws _ hreads
      simpa [compactFields, fieldSymbols] using hreads
  | [(name, value)] => by
      intro rest ws houtside hreads
      simp only [compactFields, fieldSymbols, String.toList_append, List.append_assoc, List.cons_append]
      have hvalue := compact_spells value houtside hreads
      have hcolon : Reads (':' :: _) (.colon :: _) := reads_first rfl rfl hvalue
      exact spells_quote name (startsOutside_cons.2 rfl) hcolon
  | (name, value) :: second :: fields => by
      intro rest ws houtside hreads
      simp only [compactFields, fieldSymbols, String.toList_append, List.append_assoc, List.cons_append]
      have hothers := compactFields_spells (second :: fields) houtside hreads
      have hcomma : Reads (',' :: _) (.comma :: _) := reads_first rfl rfl hothers
      have hvalue := compact_spells value (startsOutside_cons.2 rfl) hcomma
      have hcolon : Reads (':' :: _) (.colon :: _) := reads_first rfl rfl hvalue
      exact spells_quote name (startsOutside_cons.2 rfl) hcolon

end

mutual

theorem prettyAt_spells : ∀ (depth : Nat) (value : Json), Spells (value.prettyAt depth) value.symbols
  | depth, null => by
      simp only [prettyAt, symbols]
      exact spells_null
  | depth, bool value => by
      have htext : prettyAt depth (.bool value) = compact (.bool value) := by cases value <;> rfl
      rw [htext, symbols]
      exact spells_bool value
  | depth, int value => by
      simp only [prettyAt, symbols]
      exact spells_int value
  | depth, str value => by
      simp only [prettyAt, symbols]
      exact spells_quote value
  | depth, arr [] => by
      intro rest ws _ hreads
      simp only [prettyAt, symbols, itemSymbols, List.nil_append, List.cons_append]
      have hclosing : Reads (']' :: rest) (.closeArr :: ws) := reads_first rfl rfl hreads
      exact reads_first rfl rfl hclosing
  | depth, arr (item :: items) => by
      intro rest ws _ hreads
      simp only [prettyAt, symbols, String.toList_append, List.append_assoc, List.cons_append]
      have hclosing : Reads (']' :: rest) (.closeArr :: ws) := reads_first rfl rfl hreads
      have hitems := prettyItems_spells (depth + 1) (item :: items) (startsOutside_lineStart depth _)
        (reads_lineStart depth hclosing)
      exact reads_first rfl rfl hitems
  | depth, obj [] => by
      intro rest ws _ hreads
      simp only [prettyAt, symbols, fieldSymbols, List.nil_append, List.cons_append]
      have hclosing : Reads ('\x7d' :: rest) (.closeObj :: ws) := reads_first rfl rfl hreads
      exact reads_first rfl rfl hclosing
  | depth, obj (field :: fields) => by
      intro rest ws _ hreads
      simp only [prettyAt, symbols, String.toList_append, List.append_assoc, List.cons_append]
      have hclosing : Reads ('\x7d' :: rest) (.closeObj :: ws) := reads_first rfl rfl hreads
      have hfields := prettyFields_spells (depth + 1) (field :: fields) (startsOutside_lineStart depth _)
        (reads_lineStart depth hclosing)
      exact reads_first rfl rfl hfields
  | depth, other => by
      simp only [prettyAt, symbols]
      exact spells_null

theorem prettyItems_spells : ∀ (depth : Nat) (items : List Json),
    Spells (prettyItems depth items) (itemSymbols items)
  | depth, [] => by
      intro rest ws _ hreads
      simpa [prettyItems, itemSymbols] using hreads
  | depth, [item] => by
      intro rest ws houtside hreads
      simp only [prettyItems, itemSymbols, String.toList_append, List.append_assoc]
      exact reads_lineStart depth (prettyAt_spells depth item houtside hreads)
  | depth, item :: second :: items => by
      intro rest ws houtside hreads
      simp only [prettyItems, itemSymbols, String.toList_append, List.append_assoc, List.cons_append]
      have hothers := prettyItems_spells depth (second :: items) houtside hreads
      have hcomma : Reads (',' :: _) (.comma :: _) := reads_first rfl rfl hothers
      exact reads_lineStart depth (prettyAt_spells depth item (startsOutside_cons.2 rfl) hcomma)

theorem prettyFields_spells : ∀ (depth : Nat) (fields : List (String × Json)),
    Spells (prettyFields depth fields) (fieldSymbols fields)
  | depth, [] => by
      intro rest ws _ hreads
      simpa [prettyFields, fieldSymbols] using hreads
  | depth, [(name, value)] => by
      intro rest ws houtside hreads
      simp only [prettyFields, fieldSymbols, String.toList_append, List.append_assoc, List.cons_append]
      have hvalue := prettyAt_spells depth value houtside hreads
      have hcolon : Reads (':' :: ' ' :: _) (.colon :: _) :=
        reads_first rfl rfl (reads_blank rfl hvalue)
      exact reads_lineStart depth (spells_quote name (startsOutside_cons.2 rfl) hcolon)
  | depth, (name, value) :: second :: fields => by
      intro rest ws houtside hreads
      simp only [prettyFields, fieldSymbols, String.toList_append, List.append_assoc, List.cons_append]
      have hothers := prettyFields_spells depth (second :: fields) houtside hreads
      have hcomma : Reads (',' :: _) (.comma :: _) := reads_first rfl rfl hothers
      have hvalue := prettyAt_spells depth value (startsOutside_cons.2 rfl) hcomma
      have hcolon : Reads (':' :: ' ' :: _) (.colon :: _) :=
        reads_first rfl rfl (reads_blank rfl hvalue)
      exact reads_lineStart depth (spells_quote name (startsOutside_cons.2 rfl) hcolon)

end

theorem pretty_spells (value : Json) : Spells value.pretty value.symbols :=
  prettyAt_spells 0 value

/-- A text alone falls into its symbols. -/
theorem Spells.ofChars?_eq {text : String} {us : List Symbol} (hspells : Spells text us) :
    Symbol.ofChars? text.toList = some us := by
  have hreads := hspells (startsOutside_nil _) reads_nil
  rwa [List.append_nil, List.append_nil] at hreads

end LetScript.Json
