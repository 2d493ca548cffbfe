import LetScript.Grammar.Script
import LetScript.Proofs.Token.Positions
import Mathlib.Data.Stream.Init
import Mathlib.Logic.Function.Iterate

/-!
# Tokens on demand

A cursor gives its tokens one at a time, all at once, or in a loop that ends with them, and a parser asks for them
with two in hand.  What they are given is one row of tokens, and a cursor is no more than a place in it.

* `Cursor.stream` — the tokens, and the end token for ever; `Cursor.stream_eq_cons` — its first token is the next
  one.
* `Cursor.take_fst`, `Cursor.stream_take`, `Cursor.next_take` — calls of `next` take it apart.
* `Cursor.drain`, `Cursor.items` — the loops over `next` that keep the end token, and that stop before it.
* `Window` — the two tokens that a parser has in hand; `Window.ofCursor_take` — it moves along with the cursor.
* `Demand`, `Turn.serve` — what is asked of a cursor, and of the copies that are made of it on the way;
  `Demand.counted` — the answer that is told by the number of tokens given; `Turn.serve_map` — the same turns,
  served from two kinds of state.
* `Cursor.on_demand_as_at_once` — all this of the tokens of a text.
-/

namespace LetScript

namespace Cursor

/-! ## One token after the other -/

/-- The tokens of the text, and the end token for ever behind them. -/
def stream (cursor : Cursor) : Stream' Token :=
  cursor.allTokens ++ₛ Stream'.const cursor.endToken

theorem endToken_eq {cursor other : Cursor} (hfinish : other.finish = cursor.finish) :
    other.endToken = cursor.endToken := by
  rw [endToken, hfinish, endToken]

/-- A call of `next` gives the first token, and leaves the others. -/
theorem stream_eq_cons (cursor : Cursor) : cursor.stream = Stream'.cons cursor.next.1 cursor.next.2.stream := by
  cases hnext : cursor.next? with
  | none =>
      have hend : cursor.finish.stream = Stream'.const cursor.endToken := by
        rw [stream, allTokens, tokens_of_next?_none rfl]
        exact (Stream'.const_eq _).symm
      rw [next_of_next?_none hnext, hend, stream, allTokens, tokens_of_next?_none hnext]
      rfl
  | some answer =>
      obtain ⟨token, after⟩ := answer
      have hend := endToken_eq (finish_of_next? hnext)
      rw [next_of_next?_some hnext, stream, allTokens, tokens_of_next?_some hnext, ← hend]
      rfl

theorem take_fst (cursor : Cursor) (count : Nat) : (cursor.take count).1 = cursor.stream.take count := by
  induction count generalizing cursor with
  | zero => rfl
  | succ count ih =>
      rw [stream_eq_cons, Stream'.take_succ, Stream'.head_cons, Stream'.tail_cons, ← ih]
      rfl

theorem stream_take (cursor : Cursor) (count : Nat) :
    (cursor.take count).2.stream = cursor.stream.drop count := by
  induction count generalizing cursor with
  | zero => rfl
  | succ count ih =>
      rw [stream_eq_cons cursor, Stream'.drop_succ, Stream'.tail_cons, ← ih]
      rfl

/-- The call behind some others gives the token of that number. -/
theorem next_take (cursor : Cursor) (count : Nat) :
    (cursor.take count).2.next = (cursor.stream.get count, (cursor.take (count + 1)).2) := by
  have hfirst : (cursor.take count).2.next.1 = cursor.stream.get count := by
    rw [← Stream'.head_drop, ← stream_take, stream_eq_cons (cursor.take count).2, Stream'.head_cons]
  have hbehind : (cursor.take count).2.next.2 = (cursor.take (count + 1)).2 := by
    rw [take_add]
    rfl
  rw [← hfirst, ← hbehind]

/-! ## Loops over the tokens -/

theorem kind_ne_eof_of_next? {cursor after : Cursor} {token : Token} (hnext : cursor.next? = some (token, after)) :
    token.kind ≠ .eof := by
  have hmem : token.toLexeme ∈ cursor.lexemes := by
    rw [lexemes, tokens_of_next?_some hnext]
    exact List.mem_cons_self
  intro hkind
  have hshape := cursor.lexemes_haveShape _ hmem
  rw [Lexeme.HasShape, hkind] at hshape
  exact hshape

/-- A token other than the end token shortens what is left to read. -/
theorem next_rest_length {cursor : Cursor} (hkind : cursor.next.1.kind ≠ .eof) :
    cursor.next.2.rest.length < cursor.rest.length := by
  cases hnext : cursor.next? with
  | none =>
      rw [next_of_next?_none hnext] at hkind
      exact absurd rfl hkind
  | some answer =>
      rw [next_of_next?_some hnext]
      exact next?_rest_length hnext

/-- The tokens up to the first end token, each asked for by itself, and the cursor that they leave. -/
def drain (cursor : Cursor) : List Token × Cursor :=
  if _hkind : cursor.next.1.kind = .eof then ([cursor.next.1], cursor.next.2)
  else
    let (tokens, last) := cursor.next.2.drain
    (cursor.next.1 :: tokens, last)
termination_by cursor.rest.length
decreasing_by exact next_rest_length _hkind

/-- The next token, unless that is the end token. -/
def item? (cursor : Cursor) : Option Token × Cursor :=
  (if cursor.next.1.kind = .eof then none else some cursor.next.1, cursor.next.2)

theorem item?_rest_length {cursor : Cursor} {token : Token} (hitem : cursor.item?.1 = some token) :
    cursor.item?.2.rest.length < cursor.rest.length := by
  unfold item? at hitem
  split at hitem
  · cases hitem
  · next hkind => exact next_rest_length hkind

/-- The tokens that are given until none is, and the cursor that they leave. -/
def items (cursor : Cursor) : List Token × Cursor :=
  match _hitem : cursor.item?.1 with
  | none => ([], cursor.item?.2)
  | some token =>
      let (tokens, last) := cursor.item?.2.items
      (token :: tokens, last)
termination_by cursor.rest.length
decreasing_by exact item?_rest_length _hitem

theorem drain_eq (cursor : Cursor) : cursor.drain = (cursor.allTokens, cursor.finish) := by
  induction cursor using Cursor.tokens.induct with
  | case1 cursor hnext =>
      rw [drain, next_of_next?_none hnext, allTokens, tokens_of_next?_none hnext]
      rfl
  | case2 cursor token after hnext ih =>
      have hfinish := finish_of_next? hnext
      rw [drain, next_of_next?_some hnext, dif_neg (kind_ne_eof_of_next? hnext), ih, hfinish, allTokens, allTokens,
        tokens_of_next?_some hnext, endToken_eq hfinish]
      rfl

theorem items_eq (cursor : Cursor) : cursor.items = (cursor.tokens, cursor.finish) := by
  induction cursor using Cursor.tokens.induct with
  | case1 cursor hnext =>
      have hitem : cursor.item? = (none, cursor.finish) := by rw [item?, next_of_next?_none hnext]; rfl
      rw [items, hitem, tokens_of_next?_none hnext]
  | case2 cursor token after hnext ih =>
      have hitem : cursor.item? = (some token, after) := by
        rw [item?, next_of_next?_some hnext, if_neg (kind_ne_eof_of_next? hnext)]
      rw [items, hitem]
      simp only [ih, finish_of_next? hnext, tokens_of_next?_some hnext]

/-- What the loops find in a cursor that has given some of its tokens. -/
theorem loops_take (cursor : Cursor) (count : Nat) :
    (cursor.take count).2.drain = (cursor.tokens.drop count ++ [cursor.endToken], cursor.finish) ∧
      (cursor.take count).2.items = (cursor.tokens.drop count, cursor.finish) := by
  obtain ⟨htokens, hfinish⟩ := tokens_take cursor count
  refine ⟨?_, ?_⟩
  · rw [drain_eq, allTokens, htokens, hfinish, endToken_eq hfinish]
  · rw [items_eq, htokens, hfinish]

end Cursor

/-! ## Two tokens in hand -/

/-- The token that a parser is at, the one behind it, and the cursor from which the others come. -/
structure Window where
  current : Token
  ahead : Token
  cursor : Cursor

namespace Window

/-- The window on the first two tokens of a cursor. -/
def ofCursor (cursor : Cursor) : Window :=
  ⟨cursor.next.1, cursor.next.2.next.1, cursor.next.2.next.2⟩

/-- The window one token further on. -/
def advance (window : Window) : Window :=
  ⟨window.ahead, window.cursor.next.1, window.cursor.next.2⟩

theorem ofCursor_eq (start : Cursor) (given : Nat) :
    ofCursor (start.take given).2 =
      ⟨start.stream.get given, start.stream.get (given + 1), (start.take (given + 2)).2⟩ := by
  rw [ofCursor, Cursor.next_take, Cursor.next_take]

/-- A window on a cursor that has given tokens is one that has moved past them. -/
theorem ofCursor_take (cursor : Cursor) (count : Nat) :
    ofCursor (cursor.take count).2 = advance^[count] (ofCursor cursor) := by
  induction count with
  | zero => rfl
  | succ count ih =>
      rw [Function.iterate_succ_apply', ← ih, Cursor.take_add]
      rfl

/-- A bound on the tokens that can still come up, the end token not counted. -/
def bound (window : Window) : Nat :=
  if window.current.kind = .eof then 0
  else if window.ahead.kind = .eof then 1
  else window.cursor.rest.length + 2

theorem bound_advance_lt {window : Window} (hcurrent : window.current.kind ≠ .eof) :
    window.advance.bound < window.bound := by
  show (if window.ahead.kind = .eof then 0 else if window.cursor.next.1.kind = .eof then 1
    else window.cursor.next.2.rest.length + 2) < window.bound
  rw [bound, if_neg hcurrent]
  by_cases hahead : window.ahead.kind = .eof
  · rw [if_pos hahead, if_pos hahead]
    exact Nat.zero_lt_one
  · rw [if_neg hahead, if_neg hahead]
    split
    · omega
    · next hkind =>
        have hshorter := Cursor.next_rest_length hkind
        omega

/-- The lexemes that come up in the window, up to the end token. -/
def lexemes (window : Window) : List Lexeme :=
  if _hcurrent : window.current.kind = .eof then []
  else window.current.toLexeme :: window.advance.lexemes
termination_by window.bound
decreasing_by exact bound_advance_lt _hcurrent

theorem lexemes_ofCursor (cursor : Cursor) : (ofCursor cursor).lexemes = cursor.lexemes := by
  induction cursor using Cursor.tokens.induct with
  | case1 cursor hnext =>
      have hkind : (ofCursor cursor).current.kind = .eof := by
        rw [ofCursor, Cursor.next_of_next?_none hnext]
        rfl
      rw [lexemes, dif_pos hkind, Cursor.lexemes, Cursor.tokens_of_next?_none hnext, List.map_nil]
  | case2 cursor token after hnext ih =>
      have hstep := Cursor.next_of_next?_some hnext
      have hcurrent : (ofCursor cursor).current = token := by rw [ofCursor, hstep]
      have hadvance : (ofCursor cursor).advance = ofCursor after := by
        show ofCursor cursor.next.2 = ofCursor after
        rw [hstep]
      rw [lexemes, hcurrent, dif_neg (Cursor.kind_ne_eof_of_next? hnext), hadvance, ih, Cursor.lexemes,
        Cursor.lexemes, Cursor.tokens_of_next?_some hnext, List.map_cons]

end Window

/-! ## Copies -/

/-- What can be asked of a cursor. -/
inductive Demand where
  /-- The next token. -/
  | next
  /-- All tokens that are left, the end token last. -/
  | drain
  /-- The tokens that are left, one by one until no other is given. -/
  | items

namespace Demand

/-- The tokens that answer a demand, and the cursor that it leaves. -/
def answer : Demand → Cursor → List Token × Cursor
  | next, cursor => ([cursor.next.1], cursor.next.2)
  | drain, cursor => cursor.drain
  | items, cursor => cursor.items

/-- The tokens that answer a demand on a cursor that was at the start of the text, told by the number of tokens
that it has given, and the number behind the answer. -/
def counted (start : Cursor) : Demand → Nat → List Token × Nat
  | next, given => ([start.stream.get given], given + 1)
  | drain, given => (start.tokens.drop given ++ [start.endToken], start.tokens.length + 1)
  | items, given => (start.tokens.drop given, start.tokens.length + 1)

/-- A cursor is no more than the number of tokens that it has given. -/
theorem answer_take (start : Cursor) (demand : Demand) (given : Nat) :
    demand.answer (start.take given).2 =
      ((demand.counted start given).1, (start.take (demand.counted start given).2).2) := by
  have hend : (start.take (start.tokens.length + 1)).2 = start.finish := by rw [Cursor.take_length_tokens]
  obtain ⟨hdrain, hitems⟩ := start.loops_take given
  cases demand with
  | next => rw [answer, Cursor.next_take, counted]
  | drain => rw [answer, hdrain, counted, hend]
  | items => rw [answer, hitems, counted, hend]

end Demand

/-- A demand on what is at a place, or a copy of it, which is put behind all others. -/
inductive Turn where
  | ask (place : Nat) (demand : Demand)
  | copy (place : Nat)

namespace Turn

/-- The answers to turns, one behind the other.  No token is given for a copy, and none by a place that is empty. -/
def serve {α : Type} (answer : Demand → α → List Token × α) : List α → List Turn → List (List Token)
  | _, [] => []
  | states, .ask place demand :: turns =>
      match states[place]? with
      | none => [] :: serve answer states turns
      | some state =>
          let (tokens, after) := answer demand state
          tokens :: serve answer (states.set place after) turns
  | states, .copy place :: turns => [] :: serve answer (states ++ states[place]?.toList) turns

/-- States that answer alike are served alike. -/
theorem serve_map {α β : Type} {answer : Demand → α → List Token × α} {told : Demand → β → List Token × β}
    {f : β → α} (hanswer : ∀ demand state, answer demand (f state) =
      ((told demand state).1, f (told demand state).2)) (states : List β) (turns : List Turn) :
    serve answer (states.map f) turns = serve told states turns := by
  induction turns generalizing states with
  | nil => rfl
  | cons turn turns ih =>
      cases turn with
      | ask place demand =>
          rw [serve, serve, List.getElem?_map]
          cases hstate : states[place]? with
          | none => exact congrArg _ (ih states)
          | some state =>
              simp only [Option.map_some, hanswer, ← List.map_set, ih]
      | copy place =>
          have hcopy : (states.map f)[place]?.toList = states[place]?.toList.map f := by
            rw [List.getElem?_map]
            cases states[place]? <;> rfl
          rw [serve, serve, hcopy, ← List.map_append, ih]

/-- Cursors on one text, and all the copies that are made of them, answer as their numbers of given tokens tell. -/
theorem serve_take (start : Cursor) (given : List Nat) (turns : List Turn) :
    serve Demand.answer (given.map fun count => (start.take count).2) turns =
      serve (Demand.counted start) given turns :=
  serve_map (Demand.answer_take start) given turns

end Turn

namespace Cursor

/-- Tokens asked for one by one are those of the whole text, and behind them the end token comes again and again,
at its place.  When some have been given, the loops give the others, and so do the loops over a copy, which takes
nothing from the cursor that it was made of; whatever cursors and copies are asked in turn, each goes on from the
number of tokens that it has given.  A parser that starts there comes upon the same tokens with two in hand, and
what it reads is told by their kinds and texts. -/
theorem on_demand_as_at_once (text : String) (count : Nat) :
    let start := ofText text
    let after := (start.take count).2
    let others := start.tokens.drop count
    let final := start.endToken
    start.drain = (start.tokens ++ [final], start.finish) ∧
      (start.take count).1 = (start.drain.1 ++ₛ Stream'.const final).take count ∧
      after.drain = (others ++ [final], start.finish) ∧
      after.items = (others, start.finish) ∧
      Turn.serve Demand.answer [after] [.copy 0, .ask 1 .drain, .ask 0 .drain] =
        [[], others ++ [final], others ++ [final]] ∧
      (∀ turns, Turn.serve Demand.answer [start] turns = Turn.serve (Demand.counted start) [0] turns) ∧
      (∀ more, (Window.advance^[more] (Window.ofCursor after)).current = start.stream.get (count + more) ∧
        (Window.advance^[more] (Window.ofCursor after)).ahead = start.stream.get (count + more + 1)) ∧
      Reader.ofCursor after = ⟨(Window.ofCursor after).lexemes, []⟩ ∧
      (Reader.ofCursor after).program =
        ((Parsed.ofLexemes (others.map Token.toLexeme)).program,
          ⟨[], (Parsed.ofLexemes (others.map Token.toLexeme)).errors⟩) := by
  intro start after others final
  obtain ⟨hdrain, hitems⟩ := start.loops_take count
  refine ⟨start.drain_eq, ?answers, hdrain, hitems, ?copy, ?turns, ?window, ?reader, ?program⟩
  case answers =>
    rw [drain_eq]
    exact start.take_fst count
  case copy =>
    -- All that the original and its copy are asked is told by one number each, and both start from `count`.
    exact Turn.serve_take start [count] [.copy 0, .ask 1 .drain, .ask 0 .drain]
  case turns => exact Turn.serve_take start [0]
  case window =>
    intro more
    have hmoved : (after.take more).2 = (start.take (count + more)).2 := by rw [take_add]
    rw [← Window.ofCursor_take, hmoved, Window.ofCursor_eq]
    exact ⟨rfl, rfl⟩
  case reader => rw [Window.lexemes_ofCursor, Reader.ofCursor]
  case program =>
    have hlexemes : after.lexemes = others.map Token.toLexeme := by
      rw [lexemes_take, lexemes, List.map_drop]
    rw [Reader.program, Reader.ofCursor, hlexemes]
    rfl

/-- The copy is read to its end, and the cursor that it was made of goes on behind the first token. -/
example :
    (Turn.serve Demand.answer [ofText "a 1\n"]
      [.ask 0 .next, .copy 0, .ask 1 .drain, .ask 1 .next, .ask 0 .items, .ask 0 .next]).map
        (·.map fun token => (token.text, token.position.line, token.position.column)) =
      [[("a", 1, 1)], [], [("1", 1, 3), ("", 2, 1)], [("", 2, 1)], [("1", 1, 3)], [("", 2, 1)]] := by
  decide +kernel

end Cursor

end LetScript
