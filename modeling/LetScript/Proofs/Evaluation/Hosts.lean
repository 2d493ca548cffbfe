import LetScript.Proofs.Evaluation.Clients
import LetScript.Proofs.Evaluation.WellFormed
import Mathlib.Logic.Function.Basic

/-!
# Hosts that share a store

Several hosts use one store and one evaluator in turn.  If no scope of one leads into the scopes of another,
none of them can tell that it is not alone.

* `Shared` — a store and an evaluator, and what each host has been given of them.
* `Shared.serve` — the requests of all hosts, in any order; `ofHost` — those of one.
* `Shared.Splits` — every scope has an owner, and nothing leads from one owner to another.
* `Shared.Mirrored` — each host has a client of its own, alone with a store, that does what the host does.
* `Shared.Mirrored.perform`, `Shared.Mirrored.serve` — one request preserves this, and so do all.
* `Shared.hosts_do_not_interfere` — each host is told what it would be told alone, finds the same in its
  scopes, and the hosts stay apart.
-/

namespace LetScript

/-- A store and an evaluator that hosts share, and the scopes and values that each has been given. -/
structure Shared (Host : Type) where
  store : Store
  evaluator : Evaluator
  scopes : Host → Array ScopeId
  values : Host → Array Value

/-- The items of one host. -/
def ofHost {Host α : Type} [DecidableEq Host] (host : Host) (items : List (Host × α)) : List α :=
  items.filterMap fun item => if item.1 = host then some item.2 else none

namespace Shared

variable {Host : Type} [DecidableEq Host]

/-- A host as the client that it is while it has its turn. -/
def client (shared : Shared Host) (host : Host) : Client :=
  ⟨⟨shared.store, shared.evaluator, shared.scopes host⟩, shared.values host⟩

/-- The shared state behind a turn of one host. -/
def afterTurn (shared : Shared Host) (host : Host) (client : Client) : Shared Host where
  store := client.session.store
  evaluator := client.session.evaluator
  scopes := Function.update shared.scopes host client.session.scopes
  values := Function.update shared.values host client.values

/-- Performs a request of one host. -/
def perform (shared : Shared Host) (host : Host) (request : Request) : Answer × Shared Host :=
  let (answer, client) := (shared.client host).perform request
  (answer, shared.afterTurn host client)

/-- Performs requests of all hosts, one after another. -/
def serve (shared : Shared Host) : List (Host × Request) → List (Host × Answer) × Shared Host
  | [] => ([], shared)
  | (host, request) :: requests =>
      let (answer, next) := shared.perform host request
      let (answers, last) := next.serve requests
      ((host, answer) :: answers, last)

/-- Every scope has an owner.  Outer scopes and the scopes of bound functions have the owner of the scope
from which they are reached, and a host has been given nothing but what leads to its own scopes. -/
structure Splits (shared : Shared Host) (owner : ScopeId → Host) : Prop where
  outer : ∀ {id : ScopeId} {s : Scope} {outer : ScopeId}, shared.store.scopes[id]? = some s →
    s.outer = some outer → owner outer = owner id
  captured : ∀ {id : ScopeId} {s : Scope} {name : String} {f : Function},
    shared.store.scopes[id]? = some s → s.bindings.lookup name = some (.function f) →
      owner f.scope = owner id
  scopes : ∀ {host : Host} {scope : ScopeId}, scope ∈ shared.scopes host →
    scope < shared.store.scopes.size ∧ owner scope = host
  values : ∀ {host : Host} {f : Function}, .function f ∈ shared.values host →
    f.scope < shared.store.scopes.size ∧ owner f.scope = host

omit [DecidableEq Host] in
/-- Every host has a client of its own, alone with a store, that does what the host does.  The scopes that
correspond are all those of the host on one side; on the other side they are all that the client has, of
the first `size` scopes only those that were the host's. -/
structure Mirrored (size : Nat) (shared : Shared Host) (alone : Host → Client) (owner : ScopeId → Host)
    (same : Host → ScopeId → ScopeId → Prop) : Prop where
  mirrors : ∀ host, (shared.client host).Mirrors
    ⟨same host, shared.store.scopes.size, (alone host).session.store.scopes.size⟩ (alone host)
  owned : ∀ host a, (∃ b, same host a b) ↔ a < shared.store.scopes.size ∧ owner a = host
  reached : ∀ host b, (∃ a, same host a b) ↔
    b < (alone host).session.store.scopes.size ∧ (b < size → owner b = host)
  size_le : size ≤ shared.store.scopes.size
  size_le' : ∀ host, size ≤ (alone host).session.store.scopes.size

/-! ## One request -/

variable {size : Nat} {shared : Shared Host} {alone : Host → Client} {owner : ScopeId → Host}
  {same : Host → ScopeId → ScopeId → Prop}

omit [DecidableEq Host] in
/-- A host has been given only scopes of its own. -/
theorem Mirrored.owner_eq (hmirrored : Mirrored size shared alone owner same) {host : Host}
    {scope : ScopeId} (hscope : scope ∈ shared.scopes host) :
    scope < shared.store.scopes.size ∧ owner scope = host := by
  have hall := (hmirrored.mirrors host).scopes
  exact (hmirrored.owned host scope).1 (exists_of_forall₂ hall (Array.mem_toList_iff.2 hscope))

theorem client_afterTurn_self (shared : Shared Host) (host : Host) (client : Client) :
    (shared.afterTurn host client).client host = client := by
  simp only [Shared.client, afterTurn, Function.update_self]

theorem client_afterTurn_of_ne (shared : Shared Host) {host other : Host} (hother : other ≠ host)
    (client : Client) : (shared.afterTurn host client).client other =
      ⟨⟨client.session.store, client.session.evaluator, shared.scopes other⟩, shared.values other⟩ := by
  simp only [Shared.client, afterTurn, Function.update_of_ne hother]

/-- What one host does to its own scopes, no other host notices. -/
theorem Mirrored.bystander (hmirrored : Mirrored size shared alone owner same) {host other : Host}
    (hother : other ≠ host) {client : Client} (halone : (shared.client host).LeavesAlone client) :
    ((shared.afterTurn host client).client other).Mirrors
      ⟨same other, client.session.store.scopes.size, (alone other).session.store.scopes.size⟩
      (alone other) := by
  obtain ⟨hstore, hevaluator, hscopes, hvalues⟩ := hmirrored.mirrors other
  rw [shared.client_afterTurn_of_ne hother]
  refine ⟨⟨rfl, rfl, hstore.one_to_one, ?_⟩, halone.evaluator_eq.trans hevaluator, hscopes, hvalues⟩
  intro a b hsame
  obtain ⟨s, t, hs, ht, hst⟩ := hstore.like hsame
  refine ⟨s, t, halone.keeps a s ?_ hs, ht, hst⟩
  intro hscope
  have howner : owner a = other := ((hmirrored.owned other a).1 ⟨b, hsame⟩).2
  exact hother (howner.symm.trans (hmirrored.owner_eq hscope).2)

/-- The owners of scopes when those from `count` on are new and all of one host. -/
def extend (owner : ScopeId → Host) (count : Nat) (host : Host) (id : ScopeId) : Host :=
  if id < count then owner id else host

section Extend

omit [DecidableEq Host]

variable {host other : Host} {count more : Nat} {id : ScopeId}

theorem extend_of_lt (hid : id < count) : extend owner count host id = owner id :=
  if_pos hid

theorem extend_of_le (hid : count ≤ id) : extend owner count host id = host :=
  if_neg (Nat.not_lt.2 hid)

/-- The host has its old scopes and the new ones. -/
theorem owned_extend_self : id < count + more ∧ extend owner count host id = host ↔
    (id < count ∧ owner id = host) ∨ count ≤ id ∧ id < count + more := by
  rcases Nat.lt_or_ge id count with hlt | hge
  · have hmore : id < count + more := Nat.lt_add_right more hlt
    simp [extend_of_lt hlt, hlt, hmore, Nat.not_le.2 hlt]
  · simp [extend_of_le hge, hge, Nat.not_lt.2 hge]

/-- Any other host has its old scopes. -/
theorem owned_extend_of_ne (hother : other ≠ host) :
    id < count + more ∧ extend owner count host id = other ↔ id < count ∧ owner id = other := by
  rcases Nat.lt_or_ge id count with hlt | hge
  · have hmore : id < count + more := Nat.lt_add_right more hlt
    simp [extend_of_lt hlt, hlt, hmore]
  · simp [extend_of_le hge, Nat.not_lt.2 hge, Ne.symm hother]

/-- Which of the first scopes were a host's does not change. -/
theorem extend_eq_iff (hsize : size ≤ count) :
    (id < size → extend owner count host id = other) ↔ (id < size → owner id = other) := by
  refine forall_congr' ?_
  intro hid
  rw [extend_of_lt (Nat.lt_of_lt_of_le hid hsize)]

/-- Scopes that are new to a client, too, are none of the first ones. -/
theorem reached_grow {made : Nat} (hmade : size ≤ made) :
    id < made + more ∧ (id < size → owner id = host) ↔
      (id < made ∧ (id < size → owner id = host)) ∨ made ≤ id ∧ id < made + more := by
  rcases Nat.lt_or_ge id made with hlt | hge
  · have hmore : id < made + more := Nat.lt_add_right more hlt
    simp [hlt, hmore, Nat.not_le.2 hlt]
  · have hsize : ¬ id < size := Nat.not_lt.2 (Nat.le_trans hmade hge)
    simp [hge, hsize, Nat.not_lt.2 hge]

end Extend

/-- A turn of one host that its client takes in step: no other host notices, and the scopes that are made
are the host's. -/
theorem Mirrored.afterTurn (hmirrored : Mirrored size shared alone owner same) {host : Host}
    {client last : Client} {count : Nat}
    (hnext : client.Mirrors (Matching.grow ⟨same host, shared.store.scopes.size,
      (alone host).session.store.scopes.size⟩ count) last)
    (halone : (shared.client host).LeavesAlone client) :
    Mirrored size (shared.afterTurn host client) (Function.update alone host last)
      (extend owner shared.store.scopes.size host)
      (Function.update same host (Matching.grow ⟨same host, shared.store.scopes.size,
        (alone host).session.store.scopes.size⟩ count).same) := by
  have hsize : client.session.store.scopes.size = shared.store.scopes.size + count := hnext.store.size_eq
  have hsize' : last.session.store.scopes.size = (alone host).session.store.scopes.size + count :=
    hnext.store.size_eq'
  refine ⟨?_, ?_, ?_, ?_, ?_⟩
  · intro other
    -- What the host has made corresponds to what its client has made; any other host is where it was.
    by_cases hother : other = host
    · subst hother
      show ((shared.afterTurn other client).client other).Mirrors
        ⟨_, client.session.store.scopes.size, _⟩ _
      rw [shared.client_afterTurn_self, Function.update_self, Function.update_self, hsize, hsize']
      exact hnext
    · rw [Function.update_of_ne hother, Function.update_of_ne hother]
      exact hmirrored.bystander hother halone
  · intro other a
    show _ ↔ a < client.session.store.scopes.size ∧ _
    rw [hsize]
    by_cases hother : other = host
    · subst hother
      rw [Function.update_self, Matching.exists_same_grow, owned_extend_self, ← hmirrored.owned other a]
    · rw [Function.update_of_ne hother, owned_extend_of_ne hother, ← hmirrored.owned other a]
  · intro other b
    rw [extend_eq_iff hmirrored.size_le]
    by_cases hother : other = host
    · subst hother
      rw [Function.update_self, Function.update_self, Matching.exists_same_grow', hsize',
        reached_grow (hmirrored.size_le' other), ← hmirrored.reached other b]
    · rw [Function.update_of_ne hother, Function.update_of_ne hother, ← hmirrored.reached other b]
  · show size ≤ client.session.store.scopes.size
    rw [hsize]
    exact Nat.le_add_right_of_le hmirrored.size_le
  · intro other
    by_cases hother : other = host
    · subst hother
      rw [Function.update_self, hsize']
      exact Nat.le_add_right_of_le (hmirrored.size_le' other)
    · rw [Function.update_of_ne hother]
      exact hmirrored.size_le' other

/-- One request: the host is told the same as its client, and the two go on from there. -/
theorem Mirrored.perform (hmirrored : Mirrored size shared alone owner same) (host : Host)
    (request : Request) :
    (shared.perform host request).1 = ((alone host).perform request).1 ∧
      ∃ same', Mirrored size (shared.perform host request).2
        (Function.update alone host ((alone host).perform request).2)
        (extend owner shared.store.scopes.size host) same' ∧
      ∀ other a b, same other a b → same' other a b := by
  obtain ⟨hanswer, count, hnext⟩ := (hmirrored.mirrors host).perform request
  have halone := (shared.client host).perform_leavesAlone request
  refine ⟨hanswer, _, hmirrored.afterTurn hnext halone, ?_⟩
  intro other a b hsame
  by_cases hother : other = host
  · subst hother
    rw [Function.update_self]
    exact .inl hsame
  · rw [Function.update_of_ne hother]
    exact hsame

/-! ## Any number of requests -/

omit [DecidableEq Host] in
theorem client_serve_cons (client : Client) (request : Request) (requests : List Request) :
    client.serve (request :: requests) =
      ((client.perform request).1 :: ((client.perform request).2.serve requests).1,
        ((client.perform request).2.serve requests).2) :=
  rfl

theorem serve_cons (shared : Shared Host) (host : Host) (request : Request)
    (requests : List (Host × Request)) :
    shared.serve ((host, request) :: requests) =
      ((host, (shared.perform host request).1) :: ((shared.perform host request).2.serve requests).1,
        ((shared.perform host request).2.serve requests).2) :=
  rfl

section Items

variable {α : Type} (host : Host) (item : α) (items : List (Host × α))

theorem ofHost_cons_self : ofHost host ((host, item) :: items) = item :: ofHost host items := by
  simp [ofHost]

theorem ofHost_cons_of_ne {other : Host} (hother : other ≠ host) :
    ofHost other ((host, item) :: items) = ofHost other items := by
  simp [ofHost, Ne.symm hother]

end Items

/-- Only the client of the host that asks goes on. -/
theorem serve_ofHost_cons (alone : Host → Client) (host other : Host) (request : Request)
    (requests : List (Host × Request)) :
    ((alone other).serve (ofHost other ((host, request) :: requests))).2 =
      ((Function.update alone host ((alone host).perform request).2 other).serve
        (ofHost other requests)).2 := by
  by_cases hother : other = host
  · subst hother
    rw [ofHost_cons_self, client_serve_cons, Function.update_self]
  · rw [ofHost_cons_of_ne _ _ _ hother, Function.update_of_ne hother]

/-- Only that client is told something. -/
theorem answers_ofHost_cons (alone : Host → Client) (host : Host) (request : Request)
    {requests : List (Host × Request)} {answers : List (Host × Answer)} {other : Host}
    (hanswers : ofHost other answers =
      ((Function.update alone host ((alone host).perform request).2 other).serve
        (ofHost other requests)).1) :
    ofHost other ((host, ((alone host).perform request).1) :: answers) =
      ((alone other).serve (ofHost other ((host, request) :: requests))).1 := by
  by_cases hother : other = host
  · subst hother
    rw [Function.update_self] at hanswers
    rw [ofHost_cons_self, ofHost_cons_self, client_serve_cons, hanswers]
  · rw [Function.update_of_ne hother] at hanswers
    rw [ofHost_cons_of_ne _ _ _ hother, ofHost_cons_of_ne _ _ _ hother, hanswers]

/-- Any number of requests of all hosts, in any order.  The induction is on the requests. -/
theorem Mirrored.serve (requests : List (Host × Request)) :
    ∀ {shared : Shared Host} {alone : Host → Client} {owner : ScopeId → Host}
      {same : Host → ScopeId → ScopeId → Prop}, Mirrored size shared alone owner same →
      (∀ host, ofHost host (shared.serve requests).1 =
        ((alone host).serve (ofHost host requests)).1) ∧
      ∃ owner' same', Mirrored size (shared.serve requests).2
        (fun host => ((alone host).serve (ofHost host requests)).2) owner' same' ∧
        (∀ id, id < size → owner' id = owner id) ∧
        ∀ host a b, same host a b → same' host a b := by
  induction requests with
  | nil =>
      intro shared alone owner same hmirrored
      exact ⟨fun _ => rfl, owner, same, hmirrored, fun _ _ => rfl, fun _ _ _ hsame => hsame⟩
  | cons item requests ih =>
      intro shared alone owner same hmirrored
      obtain ⟨host, request⟩ := item
      obtain ⟨hanswer, same₁, hnext, hsame₁⟩ := hmirrored.perform host request
      obtain ⟨hanswers, owner', same', hlast, howner', hsame'⟩ := ih hnext
      rw [serve_cons]
      refine ⟨?_, owner', same', ?_, ?_, ?_⟩
      · intro other
        rw [hanswer]
        exact answers_ofHost_cons alone host request (hanswers other)
      · simp only [serve_ofHost_cons alone host]
        exact hlast
      · intro id hid
        rw [howner' id hid, extend_of_lt (Nat.lt_of_lt_of_le hid hmirrored.size_le)]
      · intro other a b hab
        exact hsame' other a b (hsame₁ other a b hab)

/-! ## From the start to the end -/

section Ends

omit [DecidableEq Host]

/-- At the start each host is its own client, and its scopes correspond to themselves. -/
theorem Splits.mirrored (hsplits : shared.Splits owner) (hstore : shared.store.WellFormed) :
    Mirrored shared.store.scopes.size shared shared.client owner
      (fun host a b => a = b ∧ a < shared.store.scopes.size ∧ owner a = host) where
  mirrors host := by
    refine ⟨⟨rfl, rfl, ?_, ?_⟩, rfl, ?_, ?_⟩
    · rintro a _ a' _ ⟨rfl, -, -⟩ ⟨rfl, -, -⟩
      exact Iff.rfl
    · rintro a _ ⟨rfl, hlt, howner⟩
      have hs : shared.store.scopes[a]? = some shared.store.scopes[a] := Array.getElem?_eq_getElem hlt
      have houter : ∀ outer ∈ shared.store.scopes[a].outer, outer < a := fun outer houter => hstore.outer_lt hs houter
      refine ⟨_, _, hs, hs, Scope.like_iff_fits.2 (Scope.fits_self ?_ ?_ houter)⟩
      · intro name value hvalue
        refine Value.like_self ?_
        rintro f rfl
        exact ⟨rfl, hstore.knows hs (Store.mem_of_lookup hvalue), (hsplits.captured hs hvalue).trans howner⟩
      · intro outer hmem
        exact ⟨rfl, Nat.lt_trans (houter outer hmem) hlt, (hsplits.outer hs hmem).trans howner⟩
    · refine List.forall₂_same.2 ?_
      intro scope hscope
      exact ⟨rfl, hsplits.scopes (Array.mem_toList_iff.1 hscope)⟩
    · refine List.forall₂_same.2 ?_
      intro value hvalue
      refine Value.like_self ?_
      rintro f rfl
      exact ⟨rfl, hsplits.values (Array.mem_toList_iff.1 hvalue)⟩
  owned := by
    intro host a
    constructor
    · rintro ⟨b, rfl, hlt, howner⟩
      exact ⟨hlt, howner⟩
    · rintro ⟨hlt, howner⟩
      exact ⟨a, rfl, hlt, howner⟩
  reached := by
    intro host b
    constructor
    · rintro ⟨a, rfl, hlt, howner⟩
      exact ⟨hlt, fun _ => howner⟩
    · rintro ⟨hlt, howner⟩
      exact ⟨b, rfl, hlt, howner hlt⟩
  size_le := Nat.le_refl _
  size_le' _ := Nat.le_refl _

/-- What corresponds to a scope of a client is not led out of. -/
theorem Mirrored.splits (hmirrored : Mirrored size shared alone owner same) : shared.Splits owner where
  outer := by
    intro id s outer hs houter
    obtain ⟨b, hsame⟩ := (hmirrored.owned (owner id) id).2 ⟨Store.lt_size_of_getElem? hs, rfl⟩
    obtain ⟨s', t, hs', -, hlike⟩ := (hmirrored.mirrors (owner id)).store.like hsame
    obtain rfl : s' = s := Option.some.inj (hs'.symm.trans hs)
    have hrel := hlike.outer
    rw [houter] at hrel
    generalize t.outer = outer' at hrel
    cases hrel with
    | @some _ outer' hsame' => exact ((hmirrored.owned (owner id) outer).1 ⟨outer', hsame'⟩).2
  captured := by
    intro id s name f hs hlookup
    obtain ⟨b, hsame⟩ := (hmirrored.owned (owner id) id).2 ⟨Store.lt_size_of_getElem? hs, rfl⟩
    obtain ⟨s', t, hs', -, hlike⟩ := (hmirrored.mirrors (owner id)).store.like hsame
    obtain rfl : s' = s := Option.some.inj (hs'.symm.trans hs)
    have hrel := hlike.lookup name
    rw [hlookup] at hrel
    generalize t.bindings.lookup name = found at hrel
    cases hrel with
    | some hvalue =>
        cases hvalue with
        | plain hplain => exact absurd rfl hplain
        | function _ _ hscope => exact ((hmirrored.owned (owner id) f.scope).1 ⟨_, hscope⟩).2
  scopes := hmirrored.owner_eq
  values := by
    intro host f hvalue
    obtain ⟨other, hlike⟩ := exists_of_forall₂ (hmirrored.mirrors host).values (Array.mem_toList_iff.2 hvalue)
    cases hlike with
    | plain hplain => exact absurd rfl hplain
    | function _ _ hscope => exact (hmirrored.owned host f.scope).1 ⟨_, hscope⟩

end Ends

/-- Hosts whose scopes do not lead to one another do not interfere, in whatever order they ask.  Each is
told what it would be told alone; its scopes in the end correspond one to one to those that it would have
alone, with the same names bound to values that are alike; and no scope of one leads to another one's. -/
theorem hosts_do_not_interfere (hstore : shared.store.WellFormed) (hsplits : shared.Splits owner)
    (requests : List (Host × Request)) :
    let answers := (shared.serve requests).1
    let after := (shared.serve requests).2
    ∃ owner' : ScopeId → Host,
      (∀ id, id < shared.store.scopes.size → owner' id = owner id) ∧ after.Splits owner' ∧
      ∀ host,
        let own := (shared.client host).serve (ofHost host requests)
        ofHost host answers = own.1 ∧
        ∃ same : ScopeId → ScopeId → Prop,
          (after.client host).Mirrors
            ⟨same, after.store.scopes.size, own.2.session.store.scopes.size⟩ own.2 ∧
          (∀ a, (∃ b, same a b) ↔ a < after.store.scopes.size ∧ owner' a = host) ∧
          (∀ b, (∃ a, same a b) ↔ b < own.2.session.store.scopes.size ∧
            (b < shared.store.scopes.size → owner b = host)) ∧
          ∀ id, id < shared.store.scopes.size → owner id = host → same id id := by
  intro answers after
  obtain ⟨hanswers, owner', same, hmirrored, howner, hsame⟩ :=
    Mirrored.serve requests (hsplits.mirrored hstore)
  refine ⟨owner', howner, hmirrored.splits, ?_⟩
  intro host own
  refine ⟨hanswers host, same host, hmirrored.mirrors host, hmirrored.owned host, ?_, ?_⟩
  · intro b
    refine (hmirrored.reached host b).trans (and_congr_right fun _ => forall_congr' fun hb => ?_)
    rw [howner b hb]
  · intro id hid howned
    exact hsame host id id ⟨rfl, hid, howned⟩

/-- Two hosts with a scope each.  One makes a function that keeps an argument `x`, and looks into the scope
where it is kept; the other one has an `x` of its own, and is told of that. -/
theorem interleaved_hosts_are_told_their_own :
    let kept : Fragment := .block [.bind "keep" (.fn ["x"] [.expr (.fn [] [.expr (.name "x")])]),
      .expr (.call (.name "keep") [.int 1])]
    let bound : Fragment := .block [.bind "x" (.str "two"), .expr (.name "x")]
    let store := (({} : Store).enclose none).2
    let shared : Shared Bool := ⟨(store.enclose none).2, {}, fun host => #[host.toNat], fun _ => #[]⟩
    let requests : List (Bool × Request) := [(false, .evaluate 0 kept), (true, .evaluate 0 bound),
      (false, .adopt 0), (true, .copy (0, "x") (0, "y")), (true, .get 0 "y"), (false, .get 1 "x"),
      (true, .binds 0 "keep")]
    let owner : ScopeId → Bool := fun id => id == 1
    shared.store.WellFormed ∧ shared.Splits owner ∧
      (∃ owner', (shared.serve requests).2.Splits owner') ∧
      ofHost false (shared.serve requests).1 =
        [.value ⟨.function, "fn() \x7b x \x7d", true⟩, .scope 1, .value ⟨.integer, "1", true⟩] ∧
      ofHost true (shared.serve requests).1 =
        [.value ⟨.string, "two", true⟩, .done, .value ⟨.string, "two", true⟩, .bound false] := by
  intro kept bound store shared requests owner
  have hfirst : store.WellFormed := Store.wellFormed_empty.enclose nofun
  have hstore : shared.store.WellFormed := hfirst.enclose nofun
  have hempty : ∀ {id : ScopeId} {s : Scope}, shared.store.scopes[id]? = some s → s = ⟨[], none⟩ := by
    intro id s hs
    have hmem : s ∈ [⟨[], none⟩, ⟨[], none⟩] := Array.mem_toList_iff.2 (Array.mem_of_getElem? hs)
    simpa using hmem
  have hsplits : shared.Splits owner := by
    refine ⟨?_, ?_, ?_, ?_⟩
    · rintro id s outer hs houter
      obtain rfl := hempty hs
      cases houter
    · intro id s name f hs hlookup
      obtain rfl := hempty hs
      cases hlookup
    · intro host scope hscope
      obtain rfl : scope = host.toNat := Array.mem_singleton.1 hscope
      cases host with
      | false => decide
      | true => decide
    · intro host f hvalue
      exact absurd hvalue (Array.not_mem_empty _)
  obtain ⟨owner', -, hafter, hhosts⟩ := hosts_do_not_interfere hstore hsplits requests
  refine ⟨hstore, hsplits, ⟨owner', hafter⟩, ?_, ?_⟩
  · refine (hhosts false).1.trans ?_
    decide +kernel
  · refine (hhosts true).1.trans ?_
    decide +kernel

end Shared

end LetScript
