import LetScript.Proofs.Evaluation.Coupling
import LetScript.Proofs.Evaluation.Scopes

/-!
# Evaluation in stores that match

Scopes and functions are numbered as they are made, but nothing that an evaluation does depends on the
numbers: where a part of one store has the form of a part of another one, it does the same in both.

* `Value.Like`, `Scope.Like` — equality up to the numbers of scopes and functions.
* `Matching` — scopes of two stores that correspond; `Matching.grow` adds scopes that are made in step.
* `Matching.Holds` — corresponding scopes are alike, and the correspondence is one to one.
* `Comparison`, `Matching.Fits` — the same with values compared in another way, which may also keep track of the
  functions that are made.  Likeness is the comparison that forgets all numbers.
* `Matching.Fits.get?`, `Matching.Fits.bind`, `Matching.Fits.enclose`, … — every operation of a store keeps
  this; `Matching.Holds.bind` and the lemmas beside it are the case of likeness.
* `Coupling.comparing`, `Evaluator.run_fits`, `Evaluator.run_matches` — so does evaluation, and it ends alike.
-/

namespace LetScript

/-! ## Equality up to numbers -/

/-- Two values are the same, or functions with the same literal made in scopes that correspond. -/
inductive Value.Like (same : ScopeId → ScopeId → Prop) : Value → Value → Prop
  | plain {value : Value} (hplain : value.type ≠ .function) : Like same value value
  | function {f g : Function} (hparameters : f.parameters = g.parameters) (hbody : f.body = g.body)
      (hscope : same f.scope g.scope) : Like same (.function f) (.function g)

/-- The same names are bound in two scopes, to values that are alike, and what surrounds the two
corresponds.  As in every store, that is older. -/
structure Scope.Like (same : ScopeId → ScopeId → Prop) (here there : ScopeId) (s t : Scope) : Prop where
  lookup : ∀ name, Option.Rel (Value.Like same) (s.bindings.lookup name) (t.bindings.lookup name)
  outer : Option.Rel same s.outer t.outer
  outer_lt : ∀ outer ∈ s.outer, outer < here
  outer_lt' : ∀ outer ∈ t.outer, outer < there

/-- Scopes of two stores that correspond, and the sizes of the two stores. -/
@[ext]
structure Matching where
  same : ScopeId → ScopeId → Prop
  left : Nat
  right : Nat

/-- The matching behind new scopes, as many in one store as in the other. -/
def Matching.grow (w : Matching) (count : Nat) : Matching where
  same a b := w.same a b ∨ ∃ i : Nat, i < count ∧ a = w.left + i ∧ b = w.right + i
  left := w.left + count
  right := w.right + count

/-- Corresponding scopes are alike, and no scope corresponds to two. -/
structure Matching.Holds (w : Matching) (store other : Store) : Prop where
  size_eq : store.scopes.size = w.left
  size_eq' : other.scopes.size = w.right
  one_to_one : ∀ {a b a' b' : ScopeId}, w.same a b → w.same a' b' → (a = a' ↔ b = b')
  like : ∀ {a b : ScopeId}, w.same a b →
    ∃ s t, store.scopes[a]? = some s ∧ other.scopes[b]? = some t ∧ s.Like w.same a b t

/-- A way to compare the values of two runs: which two count as equal, given the scopes that correspond, and how
many functions two stores have made that are compared. -/
structure Comparison where
  values : (ScopeId → ScopeId → Prop) → Value → Value → Prop
  counts : Nat → Nat → Prop
  mono : ∀ {same more : ScopeId → ScopeId → Prop} {a b}, (∀ {here there}, same here there → more here there) →
    values same a b → values more a b
  alike : ∀ {same a b}, values same a b → a.Alike b
  of_isPlain : ∀ {same} {value : Value}, value.isPlain = true → values same value value
  function : ∀ {same f g}, values same (.function f) (.function g) →
    f.parameters = g.parameters ∧ f.body = g.body ∧ same f.scope g.scope
  newFunction : ∀ {same : ScopeId → ScopeId → Prop} {count count' parameters body here there}, counts count count' →
    same here there → values same (.function ⟨count, parameters, body, here⟩)
      (.function ⟨count', parameters, body, there⟩) ∧ counts (count + 1) (count' + 1)

/-- The same names are bound in two scopes, to values that are compared by `values`, and what surrounds the two
corresponds. -/
structure Scope.Fits (values : Value → Value → Prop) (same : ScopeId → ScopeId → Prop) (here there : ScopeId)
    (s t : Scope) : Prop where
  lookup : ∀ name, Option.Rel values (s.bindings.lookup name) (t.bindings.lookup name)
  outer : Option.Rel same s.outer t.outer
  outer_lt : ∀ outer ∈ s.outer, outer < here
  outer_lt' : ∀ outer ∈ t.outer, outer < there

/-- Corresponding scopes fit under a comparison, and no scope corresponds to two. -/
structure Matching.Fits (w : Matching) (c : Comparison) (store other : Store) : Prop where
  size_eq : store.scopes.size = w.left
  size_eq' : other.scopes.size = w.right
  one_to_one : ∀ {a b a' b' : ScopeId}, w.same a b → w.same a' b' → (a = a' ↔ b = b')
  counts : c.counts store.functions other.functions
  fits : ∀ {a b : ScopeId}, w.same a b → ∃ s t, store.scopes[a]? = some s ∧ other.scopes[b]? = some t ∧
    s.Fits (c.values w.same) w.same a b t

section Likeness

variable {same more : ScopeId → ScopeId → Prop}

theorem Value.Like.mono {a b : Value} (hlike : a.Like same b)
    (hmore : ∀ {here there}, same here there → more here there) : a.Like more b := by
  cases hlike with
  | plain hplain => exact .plain hplain
  | function hparameters hbody hscope => exact .function hparameters hbody (hmore hscope)

theorem Value.like_self {value : Value}
    (hfunction : ∀ f : Function, value = .function f → same f.scope f.scope) :
    value.Like same value := by
  cases value with
  | function f => exact .function rfl rfl (hfunction f rfl)
  | _ => exact .plain fun htype => nomatch htype

theorem Value.like_of_isPlain {value : Value} (hplain : value.isPlain = true) :
    value.Like same value := by
  refine like_self ?_
  rintro f rfl
  cases hplain

theorem Value.Like.alike {a b : Value} (hlike : a.Like same b) : a.Alike b := by
  cases hlike with
  | plain => exact .inl rfl
  | @function f g => exact .inr ⟨f, g, rfl, rfl⟩

/-- Values that are alike are printed alike. -/
theorem Value.Like.text_eq {a b : Value} (hlike : a.Like same b) : a.text = b.text := by
  cases hlike with
  | plain => rfl
  | @function f g hparameters hbody => simp only [text, Function.text, hparameters, hbody]

theorem optionRel_imp {α β : Type} {r r' : α → β → Prop} {a : Option α} {b : Option β}
    (hrel : Option.Rel r a b) (himp : ∀ {x y}, r x y → r' x y) : Option.Rel r' a b := by
  cases hrel with
  | some hr => exact .some (himp hr)
  | none => exact .none

theorem optionRel_self {α : Type} {r : α → α → Prop} {found : Option α} (hfound : ∀ x ∈ found, r x x) :
    Option.Rel r found found := by
  cases found with
  | none => exact .none
  | some x => exact .some (hfound x rfl)

theorem Scope.Fits.mono {values wider : Value → Value → Prop} {here there : ScopeId} {s t : Scope}
    (hfits : s.Fits values same here there t) (hvalues : ∀ {a b}, values a b → wider a b)
    (hmore : ∀ {here there}, same here there → more here there) : s.Fits wider more here there t where
  lookup name := optionRel_imp (hfits.lookup name) hvalues
  outer := optionRel_imp hfits.outer hmore
  outer_lt := hfits.outer_lt
  outer_lt' := hfits.outer_lt'

theorem Scope.fits_self {values : Value → Value → Prop} {here : ScopeId} {s : Scope}
    (hvalues : ∀ {name value}, s.bindings.lookup name = some value → values value value)
    (houter : ∀ outer ∈ s.outer, same outer outer) (hlt : ∀ outer ∈ s.outer, outer < here) :
    s.Fits values same here here s where
  lookup _ := optionRel_self fun _ hvalue => hvalues hvalue
  outer := optionRel_self houter
  outer_lt := hlt
  outer_lt' := hlt

theorem Scope.like_iff_fits {here there : ScopeId} {s t : Scope} :
    s.Like same here there t ↔ s.Fits (Value.Like same) same here there t :=
  ⟨fun hlike => ⟨hlike.lookup, hlike.outer, hlike.outer_lt, hlike.outer_lt'⟩,
    fun hfits => ⟨hfits.lookup, hfits.outer, hfits.outer_lt, hfits.outer_lt'⟩⟩

end Likeness

/-- The comparison that forgets the numbers of scopes and functions. -/
def Comparison.likeness : Comparison where
  values := Value.Like
  counts _ _ := True
  mono hmore hlike := hlike.mono hmore
  alike hlike := hlike.alike
  of_isPlain := Value.like_of_isPlain
  function := by
    intro same f g hlike
    cases hlike with
    | plain hplain => exact absurd rfl hplain
    | function hparameters hbody hscope => exact ⟨hparameters, hbody, hscope⟩
  newFunction _ hsame := ⟨.function rfl rfl hsame, trivial⟩

theorem Matching.holds_iff_fits {w : Matching} {store other : Store} :
    w.Holds store other ↔ w.Fits .likeness store other := by
  constructor
  · intro hholds
    refine ⟨hholds.size_eq, hholds.size_eq', hholds.one_to_one, trivial, ?_⟩
    intro a b hsame
    obtain ⟨s, t, hs, ht, hlike⟩ := hholds.like hsame
    exact ⟨s, t, hs, ht, Scope.like_iff_fits.1 hlike⟩
  · intro hfits
    refine ⟨hfits.size_eq, hfits.size_eq', hfits.one_to_one, ?_⟩
    intro a b hsame
    obtain ⟨s, t, hs, ht, hlike⟩ := hfits.fits hsame
    exact ⟨s, t, hs, ht, Scope.like_iff_fits.2 hlike⟩

/-! ## Operations of stores -/

namespace Matching

variable {w : Matching} {store other : Store} {here there : ScopeId} {name : String}

theorem same_grow {count : Nat} (hsame : w.same here there) : (w.grow count).same here there :=
  .inl hsame

theorem grow_zero (w : Matching) : w.grow 0 = w := by
  ext a b
  · simp [grow]
  · rfl
  · rfl

theorem grow_grow (w : Matching) (first second : Nat) :
    (w.grow first).grow second = w.grow (first + second) := by
  ext a b
  · simp only [grow]
    constructor
    · rintro ((hsame | ⟨i, hi, rfl, rfl⟩) | ⟨i, hi, rfl, rfl⟩)
      · exact .inl hsame
      · exact .inr ⟨i, by omega, rfl, rfl⟩
      · exact .inr ⟨first + i, by omega, Nat.add_assoc .., Nat.add_assoc ..⟩
    · rintro (hsame | ⟨i, hi, rfl, rfl⟩)
      · exact .inl (.inl hsame)
      · by_cases hfirst : i < first
        · exact .inl (.inr ⟨i, hfirst, rfl, rfl⟩)
        · obtain ⟨rest, rfl⟩ := Nat.exists_eq_add_of_le (Nat.le_of_not_lt hfirst)
          exact .inr ⟨rest, by omega, (Nat.add_assoc ..).symm, (Nat.add_assoc ..).symm⟩
  · exact Nat.add_assoc ..
  · exact Nat.add_assoc ..

theorem exists_offset {first count id : Nat} :
    (∃ i, i < count ∧ id = first + i) ↔ first ≤ id ∧ id < first + count := by
  constructor
  · rintro ⟨i, hi, rfl⟩
    exact ⟨Nat.le_add_right _ _, Nat.add_lt_add_left hi _⟩
  · rintro ⟨hle, hlt⟩
    obtain ⟨i, rfl⟩ := Nat.exists_eq_add_of_le hle
    exact ⟨i, Nat.lt_of_add_lt_add_left hlt, rfl⟩

/-- The scopes on one side that correspond to any, and those on the other side. -/
theorem exists_same_grow (w : Matching) (count : Nat) (a : ScopeId) :
    (∃ b, (w.grow count).same a b) ↔ (∃ b, w.same a b) ∨ w.left ≤ a ∧ a < w.left + count := by
  constructor
  · rintro ⟨b, hsame | ⟨i, hi, ha, -⟩⟩
    · exact .inl ⟨b, hsame⟩
    · exact .inr (exists_offset.1 ⟨i, hi, ha⟩)
  · rintro (⟨b, hsame⟩ | hnew)
    · exact ⟨b, .inl hsame⟩
    · obtain ⟨i, hi, ha⟩ := exists_offset.2 hnew
      exact ⟨w.right + i, .inr ⟨i, hi, ha, rfl⟩⟩

theorem exists_same_grow' (w : Matching) (count : Nat) (b : ScopeId) :
    (∃ a, (w.grow count).same a b) ↔ (∃ a, w.same a b) ∨ w.right ≤ b ∧ b < w.right + count := by
  constructor
  · rintro ⟨a, hsame | ⟨i, hi, -, hb⟩⟩
    · exact .inl ⟨a, hsame⟩
    · exact .inr (exists_offset.1 ⟨i, hi, hb⟩)
  · rintro (⟨a, hsame⟩ | hnew)
    · exact ⟨a, .inl hsame⟩
    · obtain ⟨i, hi, hb⟩ := exists_offset.2 hnew
      exact ⟨w.left + i, .inr ⟨i, hi, rfl, hb⟩⟩

section Fits

variable {c : Comparison}

theorem Fits.lt_left (hfits : w.Fits c store other) (hsame : w.same here there) : here < w.left := by
  obtain ⟨s, t, hs, -, -⟩ := hfits.fits hsame
  exact hfits.size_eq ▸ Store.lt_size_of_getElem? hs

theorem Fits.lt_right (hfits : w.Fits c store other) (hsame : w.same here there) : there < w.right := by
  obtain ⟨s, t, -, ht, -⟩ := hfits.fits hsame
  exact hfits.size_eq' ▸ Store.lt_size_of_getElem? ht

theorem Fits.outer_lt_left (hfits : w.Fits c store other) {outer outer' : Option ScopeId}
    (houter : Option.Rel w.same outer outer') : ∀ id ∈ outer, id < w.left := by
  rintro id ⟨⟩
  cases houter with
  | some hsame => exact hfits.lt_left hsame

theorem Fits.outer_lt_right (hfits : w.Fits c store other) {outer outer' : Option ScopeId}
    (houter : Option.Rel w.same outer outer') : ∀ id ∈ outer', id < w.right := by
  rintro id ⟨⟩
  cases houter with
  | some hsame => exact hfits.lt_right hsame

/-- Names have values that compare. -/
theorem Fits.get? (hfits : w.Fits c store other) (hsame : w.same here there) (name : String) :
    Option.Rel (c.values w.same) (store.get? here name) (other.get? there name) := by
  induction here using Nat.strongRecOn generalizing there with
  | _ here ih =>
      obtain ⟨s, t, hs, ht, hst⟩ := hfits.fits hsame
      obtain ⟨hlookup, houter, hlt, hlt'⟩ := hst
      specialize hlookup name
      rw [Store.get?, Store.get?, hs, ht]
      dsimp only
      generalize s.bindings.lookup name = found, t.bindings.lookup name = found' at hlookup
      generalize s.outer = outer, t.outer = outer' at houter hlt hlt'
      cases hlookup with
      | some hvalue => exact .some hvalue
      | none =>
          -- Neither scope binds the name, so both searches go on outward, and to older scopes.
          cases houter with
          | none => exact .none
          | @some outer outer' houter =>
              simp only [if_pos (hlt outer rfl), if_pos (hlt' outer' rfl)]
              exact ih outer (hlt outer rfl) houter

/-- Two corresponding scopes change alike. -/
theorem Fits.modify (hfits : w.Fits c store other) (hsame : w.same here there) {f g : Scope → Scope}
    (hchange : ∀ {s t}, s.Fits (c.values w.same) w.same here there t →
      (f s).Fits (c.values w.same) w.same here there (g t)) :
    w.Fits c { store with scopes := store.scopes.modify here f }
      { other with scopes := other.scopes.modify there g } where
  size_eq := by simpa using hfits.size_eq
  size_eq' := by simpa using hfits.size_eq'
  one_to_one := hfits.one_to_one
  counts := hfits.counts
  fits := by
    intro a b hmatch
    obtain ⟨s, t, hs, ht, hst⟩ := hfits.fits hmatch
    -- No scope corresponds to two, so `there` is changed for `here` and for no other scope.
    by_cases ha : a = here
    · have hb : b = there := (hfits.one_to_one hmatch hsame).1 ha
      subst ha
      subst hb
      refine ⟨f s, g t, ?_, ?_, hchange hst⟩
      · simp [Array.getElem?_modify, hs]
      · simp [Array.getElem?_modify, ht]
    · have hb : b ≠ there := fun hb => ha ((hfits.one_to_one hmatch hsame).2 hb)
      refine ⟨s, t, ?_, ?_, hst⟩
      · simpa [Array.getElem?_modify, Ne.symm ha] using hs
      · simpa [Array.getElem?_modify, Ne.symm hb] using ht

theorem Fits.bind (hfits : w.Fits c store other) (hsame : w.same here there) (name : String)
    {value value' : Value} (hvalue : c.values w.same value value') :
    w.Fits c (store.bind here name value) (other.bind there name value') := by
  refine hfits.modify hsame ?_
  intro s t hst
  refine ⟨?_, hst.outer, hst.outer_lt, hst.outer_lt'⟩
  intro key
  rw [Bindings.lookup_insert, Bindings.lookup_insert]
  split
  · exact .some hvalue
  · exact hst.lookup key

theorem Fits.bindAll {values values' : List Value} (hfits : w.Fits c store other)
    (hsame : w.same here there) (names : List String) (hvalues : List.Forall₂ (c.values w.same) values values') :
    w.Fits c (store.bindAll here names values) (other.bindAll there names values') := by
  induction names generalizing store other values values' with
  | nil => exact hfits
  | cons name names ih =>
      cases hvalues with
      | nil => exact hfits
      | cons hvalue hvalues => exact ih (hfits.bind hsame name hvalue) hvalues

theorem Fits.clear (hfits : w.Fits c store other) (hsame : w.same here there) :
    w.Fits c (store.clear here) (other.clear there) := by
  refine hfits.modify hsame ?_
  intro s t hst
  exact ⟨fun _ => .none, hst.outer, hst.outer_lt, hst.outer_lt'⟩

theorem same_last (w : Matching) : (w.grow 1).same w.left w.right :=
  .inr ⟨0, Nat.zero_lt_one, rfl, rfl⟩

theorem eq_last {a b : ScopeId} (hnew : ∃ i : Nat, i < 1 ∧ a = w.left + i ∧ b = w.right + i) :
    a = w.left ∧ b = w.right := by
  obtain ⟨i, hi, rfl, rfl⟩ := hnew
  obtain rfl : i = 0 := Nat.lt_one_iff.1 hi
  exact ⟨rfl, rfl⟩

/-- New scopes within corresponding ones, or both within none, correspond. -/
theorem Fits.enclose (hfits : w.Fits c store other) {outer outer' : Option ScopeId}
    (houter : Option.Rel w.same outer outer') :
    (w.grow 1).Fits c (store.enclose outer).2 (other.enclose outer').2 where
  size_eq := by rw [Store.size_enclose, hfits.size_eq, grow]
  size_eq' := by rw [Store.size_enclose, hfits.size_eq', grow]
  one_to_one := by
    -- An old scope is never a new one: its number is below the size of its store.
    rintro a b a' b' (hsame | hnew) (hsame' | hnew')
    · exact hfits.one_to_one hsame hsame'
    · obtain ⟨rfl, rfl⟩ := eq_last hnew'
      exact iff_of_false (Nat.ne_of_lt (hfits.lt_left hsame)) (Nat.ne_of_lt (hfits.lt_right hsame))
    · obtain ⟨rfl, rfl⟩ := eq_last hnew
      exact iff_of_false (Nat.ne_of_gt (hfits.lt_left hsame')) (Nat.ne_of_gt (hfits.lt_right hsame'))
    · obtain ⟨rfl, rfl⟩ := eq_last hnew
      obtain ⟨rfl, rfl⟩ := eq_last hnew'
      exact iff_of_true rfl rfl
  counts := hfits.counts
  fits := by
    rintro a b (hsame | hnew)
    · obtain ⟨s, t, hs, ht, hst⟩ := hfits.fits hsame
      refine ⟨s, t, ?_, ?_, hst.mono (c.mono same_grow) same_grow⟩
      · rw [Store.getElem?_enclose_of_lt _ (Store.lt_size_of_getElem? hs), hs]
      · rw [Store.getElem?_enclose_of_lt _ (Store.lt_size_of_getElem? ht), ht]
    · obtain ⟨rfl, rfl⟩ := eq_last hnew
      refine ⟨⟨[], outer⟩, ⟨[], outer'⟩, ?_, ?_, ?_⟩
      · rw [Store.getElem?_enclose, if_pos hfits.size_eq.symm]
      · rw [Store.getElem?_enclose, if_pos hfits.size_eq'.symm]
      · exact ⟨fun _ => .none, optionRel_imp houter same_grow, hfits.outer_lt_left houter, hfits.outer_lt_right houter⟩

/-- The stores have made one function more each. -/
theorem Fits.newFunction (hfits : w.Fits c store other)
    (hcounts : c.counts (store.functions + 1) (other.functions + 1)) :
    w.Fits c { store with functions := store.functions + 1 } { other with functions := other.functions + 1 } where
  size_eq := hfits.size_eq
  size_eq' := hfits.size_eq'
  one_to_one := hfits.one_to_one
  counts := hcounts
  fits := hfits.fits

end Fits

theorem Holds.get? (hholds : w.Holds store other) (hsame : w.same here there) (name : String) :
    Option.Rel (Value.Like w.same) (store.get? here name) (other.get? there name) :=
  (holds_iff_fits.1 hholds).get? hsame name

theorem Holds.bind (hholds : w.Holds store other) (hsame : w.same here there) (name : String)
    {value value' : Value} (hvalue : value.Like w.same value') :
    w.Holds (store.bind here name value) (other.bind there name value') :=
  holds_iff_fits.2 ((holds_iff_fits.1 hholds).bind hsame name hvalue)

theorem Holds.clear (hholds : w.Holds store other) (hsame : w.same here there) :
    w.Holds (store.clear here) (other.clear there) :=
  holds_iff_fits.2 ((holds_iff_fits.1 hholds).clear hsame)

theorem Holds.enclose (hholds : w.Holds store other) {outer outer' : Option ScopeId}
    (houter : Option.Rel w.same outer outer') :
    (w.grow 1).Holds (store.enclose outer).2 (other.enclose outer').2 :=
  holds_iff_fits.2 ((holds_iff_fits.1 hholds).enclose houter)

end Matching

/-! ## Evaluation -/

/-- Both stores fit, as many calls are open in both runs, and values compare. -/
def Coupling.comparing (c : Comparison) : Coupling where
  World := Matching
  Grows w grown := ∃ count, grown = w.grow count
  machines w first second := w.Fits c first.store second.store ∧ first.depth = second.depth
  scopes w := w.same
  values w := c.values w.same
  excuses _ := False
  grows_refl w := ⟨0, w.grow_zero.symm⟩
  grows_trans := by
    rintro w _ _ ⟨first, rfl⟩ ⟨second, rfl⟩
    exact ⟨first + second, w.grow_grow first second⟩
  scopes_of_grows := by
    rintro w _ here there ⟨count, rfl⟩ hsame
    exact Matching.same_grow hsame
  values_of_grows := by
    rintro w _ a b ⟨count, rfl⟩ hvalue
    exact c.mono Matching.same_grow hvalue
  alike_of_values hvalue := c.alike hvalue
  values_of_isPlain _ _ := c.of_isPlain

theorem Coupling.keeps_comparing (c : Comparison) : (Coupling.comparing c).Keeps where
  lookUp := by
    intro w first second here there ident hmachines hsame
    have hget := hmachines.1.get? hsame ident
    generalize hfirst : first.store.get? here ident = found at hget
    generalize hsecond : second.store.get? there ident = found' at hget
    have hgrows := (Coupling.comparing c).grows_refl w
    cases hget with
    | some hvalue =>
        rw [Eval.lookUp_of_some hfirst, Eval.lookUp_of_some hsecond]
        exact .ok hgrows hmachines hvalue
    | none =>
        rw [Eval.lookUp_of_none hfirst, Eval.lookUp_of_none hsecond]
        exact .error hgrows hmachines
  bindName := by
    intro w first second here there ident a b hmachines hsame hvalue
    have hgrows := (Coupling.comparing c).grows_refl w
    exact .ok hgrows ⟨hmachines.1.bind hsame ident hvalue, hmachines.2⟩ trivial
  newFunction := by
    intro w first second here there parameters body hmachines hsame
    obtain ⟨hvalue, hcounts⟩ := c.newFunction hmachines.1.counts hsame
    have hgrows := (Coupling.comparing c).grows_refl w
    exact .ok hgrows ⟨hmachines.1.newFunction hcounts, hmachines.2⟩ hvalue
  depth_eq hmachines := hmachines.2
  literal_eq hvalue := ⟨(c.function hvalue).1, (c.function hvalue).2.1⟩
  enter := by
    intro w first second f g arguments others hmachines hvalue harguments
    obtain ⟨hfits, hdepth⟩ := hmachines
    obtain ⟨hparameters, -, hscope⟩ := c.function hvalue
    have hnew : (w.grow 1).same first.store.scopes.size second.store.scopes.size := by
      rw [hfits.size_eq, hfits.size_eq']
      exact w.same_last
    have hvalues : List.Forall₂ (c.values (w.grow 1).same) arguments others :=
      harguments.imp fun a b hvalue => c.mono Matching.same_grow hvalue
    refine ⟨w.grow 1, ⟨1, rfl⟩, ⟨?_, congrArg (· + 1) hdepth⟩, hnew⟩
    unfold Machine.enter
    rw [hparameters]
    exact (hfits.enclose (.some hscope)).bindAll hnew g.parameters hvalues
  leave hmachines := ⟨hmachines.1, congrArg (· - 1) hmachines.2⟩

/-- Two runs end in the same way, with values that compare if with any. -/
inductive Flow.Fits (values : Value → Value → Prop) : Flow → Flow → Prop
  | value {a b : Value} (hvalue : values a b) : Fits values (.value a) (.value b)
  | ret {a b : Value} (hvalue : values a b) : Fits values (.ret a) (.ret b)
  | error (error : RuntimeError) : Fits values (.error error) (.error error)

theorem Flow.Fits.mono {values wider : Value → Value → Prop} {a b : Flow} (hfits : a.Fits values b)
    (hwider : ∀ {a b}, values a b → wider a b) : a.Fits wider b := by
  cases hfits with
  | value hvalue => exact .value (hwider hvalue)
  | ret hvalue => exact .ret (hwider hvalue)
  | error error => exact .error error

/-- In corresponding scopes evaluation does the same, whatever way of comparing values it starts from. -/
theorem Evaluator.run_fits (evaluator : Evaluator) (fragment : Fragment) {c : Comparison} {w : Matching}
    {store other : Store} {here there : ScopeId} (hfits : w.Fits c store other) (hsame : w.same here there) :
    ∃ count, (w.grow count).Fits c (evaluator.run store here fragment).2.2
        (evaluator.run other there fragment).2.2 ∧
      (evaluator.run store here fragment).1.Fits (c.values (w.grow count).same)
        (evaluator.run other there fragment).1 := by
  have houtlasts : (Coupling.comparing c).Outlasts evaluator.limit (evaluator.limit - evaluator.depth)
      evaluator.limit (evaluator.limit - evaluator.depth) :=
    ⟨Nat.le_refl _, Nat.le_refl _, .inl ⟨rfl, rfl⟩⟩
  have hmachines : (Coupling.comparing c).machines w ⟨store, evaluator.depth⟩ ⟨other, evaluator.depth⟩ :=
    ⟨hfits, rfl⟩
  have hjoins := Fragment.eval_joins (Coupling.keeps_comparing c) houtlasts fragment hmachines hsame
  simp only [run]
  generalize fragment.eval _ here _ = left at hjoins
  generalize fragment.eval _ there _ = right at hjoins
  cases hjoins with
  | ok hgrows hafter hvalue =>
      obtain ⟨count, rfl⟩ := hgrows
      exact ⟨count, hafter.1, .value hvalue⟩
  | ret hgrows hafter hvalue =>
      obtain ⟨count, rfl⟩ := hgrows
      exact ⟨count, hafter.1, .ret hvalue⟩
  | error hgrows hafter =>
      obtain ⟨count, rfl⟩ := hgrows
      exact ⟨count, hafter.1, .error _⟩
  | excused hexcuses => exact hexcuses.elim

/-- Two runs end alike. -/
inductive Flow.Like (same : ScopeId → ScopeId → Prop) : Flow → Flow → Prop
  | value {a b : Value} (hvalue : a.Like same b) : Like same (.value a) (.value b)
  | ret {a b : Value} (hvalue : a.Like same b) : Like same (.ret a) (.ret b)
  | error (error : RuntimeError) : Like same (.error error) (.error error)

theorem Flow.like_iff_fits {same : ScopeId → ScopeId → Prop} {a b : Flow} :
    a.Like same b ↔ a.Fits (Value.Like same) b := by
  constructor
  · intro hlike
    cases hlike with
    | value hvalue => exact .value hvalue
    | ret hvalue => exact .ret hvalue
    | error error => exact .error error
  · intro hfits
    cases hfits with
    | value hvalue => exact .value hvalue
    | ret hvalue => exact .ret hvalue
    | error error => exact .error error

/-- In corresponding scopes evaluation does the same, up to the numbers of what it makes. -/
theorem Evaluator.run_matches (evaluator : Evaluator) (fragment : Fragment) {w : Matching}
    {store other : Store} {here there : ScopeId} (hholds : w.Holds store other)
    (hsame : w.same here there) :
    ∃ count, (w.grow count).Holds (evaluator.run store here fragment).2.2
        (evaluator.run other there fragment).2.2 ∧
      (evaluator.run store here fragment).1.Like (w.grow count).same
        (evaluator.run other there fragment).1 := by
  obtain ⟨count, hafter, hflow⟩ := evaluator.run_fits fragment (Matching.holds_iff_fits.1 hholds) hsame
  exact ⟨count, Matching.holds_iff_fits.2 hafter, Flow.like_iff_fits.2 hflow⟩

end LetScript
