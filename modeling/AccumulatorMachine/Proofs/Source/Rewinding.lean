import AccumulatorMachine.Proofs.Source.Cursor

/-!
# Rewinding

What is done with a token stream, operation by operation, and that a failed attempt undoes it.

A client of a stream calls its operations one after another. Which one it calls next may depend on
all answers that it has got, and it need not stop when an operation fails. An attempt runs a whole
other client, so attempts can be made inside attempts. A run of a client comes with the list of all
calls that were made in it, however deep, and with the tokens that were consumed by those outermost
ones that have succeeded.

`attempt` puts the stream back by remembering it. In a run an attempt remembers no more than a
position. If its client fails, the stream is moved by the difference between that position and the
one it has got to, and it is a fault if there is no such position. That this fault never occurs, and
that the stream is the remembered one then, rests on one fact: a run never changes the tokens of a
stream. All else that holds of runs is read off what a single operation does.

## Main definitions

* `TokenStream.Client`: What is done with a stream.
* `TokenStream.Run`: A run of a client, with its calls and the tokens it has consumed.
* `TokenStream.Client.SeekFree`, `TokenStream.Run.SeekFree`: There are no moves but by reading.
* `TokenStream.settle`: The end of an attempt.
* `TokenStream.Client.run`: The run of a client on a stream.
* `TokenStream.Client.reader`: The reader that does what a client does.
* `TokenStream.Run.Leads`: What a run keeps.

## Theorems

* `TokenStream.settle_attempt`: An attempt can always be undone.
* `TokenStream.Query.passes`: What a single operation does.
* `TokenStream.Client.behaves`: Every run keeps the tokens and ends like the reader.
* `TokenStream.Client.rewinds_exactly`: Streams rewind exactly.
-/

namespace AccumulatorMachine

namespace TokenStream

/-! ## Clients and runs -/

/-- An operation that reads from a stream and never has to be undone. -/
inductive Query (T : Type) where
  | peek
  | next
  | eat (wanted : T)
  | rest
  | expectEnd

/-- What the operation answers if it does not fail. -/
def Query.Answer {T : Type} : Query T → Type
  | peek => Option (T × Span)
  | next => T × Span
  | eat _ => Bool
  | rest => List (T × Span)
  | expectEnd => Unit

/-- What is done with a stream, as a tree of all that may happen. An operation that answers or fails
    comes with what is done after each of its answers and errors. -/
inductive Client (T : Type) : Type → Type 1 where
  /-- Nothing more is done, and the client has a result or has failed. -/
  | done {α : Type} (result : Except ParseError α) : Client T α
  | query {α : Type} (q : Query T) (go : Except ParseError q.Answer → Client T α) : Client T α
  | seek {α : Type} (amount : Int) (go : Client T α) : Client T α
  | take {α : Type} (expected : T) (go : Except ParseError Span → Client T α) : Client T α
  /-- Another client is run, and if it fails, the stream is put back. -/
  | attempt {α β : Type} (body : Client T β) (go : Except ParseError β → Client T α) : Client T α

/-- The client makes no moves of its own, whatever answers it gets. -/
def Client.SeekFree {T α : Type} : Client T α → Prop
  | done _ => True
  | query _ go => ∀ answer, (go answer).SeekFree
  | seek _ _ => False
  | take _ go => ∀ answer, (go answer).SeekFree
  | attempt body go => body.SeekFree ∧ ∀ answer, (go answer).SeekFree

/-- The operations of a stream. -/
inductive Operation where
  | peek
  | next
  | eat
  | rest
  | expectEnd
  | seek
  | take
  | attempt
  deriving DecidableEq

/-- A call of an operation. -/
structure Call where
  operation : Operation
  /-- Whether the operation has not failed. `eat` has failed if it has found no such token. -/
  succeeded : Bool
  /-- The position of the stream before the call. -/
  start : Nat
  /-- The position of the stream after the call. -/
  stop : Nat
  deriving DecidableEq

/-- The run of a client. -/
structure Run (T α : Type) where
  result : Except ParseError α
  /-- The stream afterwards. -/
  stream : TokenStream T
  /-- All calls, also those in attempts, in the order in which they have ended. -/
  calls : List Call
  /-- The tokens that the client's own calls have consumed. -/
  consumed : List (T × Span)

/-- A move that leads out of the tokens. -/
inductive SeekFault where
  /-- The client has made it. -/
  | client
  /-- It would have undone an attempt. -/
  | rewind
  deriving DecidableEq

variable {T α β : Type}

namespace Run

/-- One run after another. -/
def followedBy (first : Run T β) (second : Run T α) : Run T α where
  result := second.result
  stream := second.stream
  calls := first.calls ++ second.calls
  consumed := first.consumed ++ second.consumed

/-- The stream was moved by reading and by undoing attempts only. -/
def SeekFree (run : Run T α) : Prop := ∀ call ∈ run.calls, call.operation ≠ .seek

end Run

/-- The move of a stream as a run of its own. -/
def moved (s s' : TokenStream T) : Run T Unit :=
  ⟨.ok (), s', [⟨.seek, true, s.position, s'.position⟩], []⟩

/-- The end of an attempt that has started on `s`, by what was run in it. If that has failed, the
    stream is moved back by as many tokens as it has moved ahead, and nothing was consumed. -/
def settle (operation : Operation) (s : TokenStream T) (inner : Run T β) :
    Except SeekFault (Run T β) :=
  match inner.result with
  | .ok a =>
    let call : Call := ⟨operation, true, s.position, inner.stream.position⟩
    .ok ⟨.ok a, inner.stream, inner.calls ++ [call], inner.consumed⟩
  | .error e =>
    match inner.stream.seek? (s.position - inner.stream.position) with
    | some s' =>
      let call : Call := ⟨operation, false, s.position, s'.position⟩
      .ok ⟨.error e, s', inner.calls ++ [call], []⟩
    | none => .error .rewind

namespace Query

/-- The operation without its arguments. -/
def operation : Query T → Operation
  | peek => .peek
  | next => .next
  | eat _ => .eat
  | rest => .rest
  | expectEnd => .expectEnd

/-- Whether an answer is one of success. -/
def succeeded : (q : Query T) → Except ParseError q.Answer → Bool
  | eat _, .ok found => found
  | _, .ok _ => true
  | _, .error _ => false

/-- The tokens that were consumed according to an answer. `eat` does not tell the token it has
    eaten, which is the next one of the stream before. -/
def consumed (s : TokenStream T) : (q : Query T) → Except ParseError q.Answer → List (T × Span)
  | next, .ok token => [token]
  | eat _, .ok true => s.peek.toList
  | rest, .ok tokens => tokens
  | _, _ => []

/-- The reader of the operation. -/
def reader [DecidableEq T] : (q : Query T) → Reader T q.Answer
  | peek => do return (← get).peek
  | next => TokenStream.next
  | eat wanted => TokenStream.eat wanted
  | rest => TokenStream.rest
  | expectEnd => TokenStream.expectEnd

/-- The operation as a run of its own. -/
def call [DecidableEq T] (q : Query T) (s : TokenStream T) : Run T q.Answer :=
  let (answer, s') := q.reader.runOn s
  ⟨answer, s', [⟨q.operation, q.succeeded answer, s.position, s'.position⟩], q.consumed s answer⟩

end Query

/-- What is run in an attempt to take a token. The next one is read and compared. -/
def matching [DecidableEq T] (expected : T) (s : TokenStream T) : Run T Span :=
  let read := Query.next.call s
  { read with
    result := read.result >>= fun (token, span) =>
      if token = expected then .ok span else .error (.unexpected span) }

namespace Client

variable [DecidableEq T]

/-- The run of a client on a stream. -/
def run {α : Type} : Client T α → TokenStream T → Except SeekFault (Run T α)
  | done result, s => .ok ⟨result, s, [], []⟩
  | query q go, s =>
    let first := q.call s
    first.followedBy <$> (go first.result).run first.stream
  | seek amount go, s =>
    match s.seek? amount with
    | some s' => (moved s s').followedBy <$> go.run s'
    | none => .error .client
  | take expected go, s => do
    let first ← settle .take s (matching expected s)
    first.followedBy <$> (go first.result).run first.stream
  | attempt body go, s => do
    -- The whole stream is at hand here, but the end of the attempt asks only for its position.
    let inner ← body.run s
    let first ← settle .attempt s inner
    first.followedBy <$> (go first.result).run first.stream

/-- Reads, and goes on after the result or the error. -/
def answered {α β : Type} (x : Reader T β) (go : Except ParseError β → Reader T α) : Reader T α :=
  fun s => (go (x.runOn s).1).runOn (x.runOn s).2

/-- The reader that does what a client does. It does not move out of the tokens. -/
def reader {α : Type} : Client T α → Reader T α
  | done result => fun s => (result, s)
  | query q go => answered q.reader fun answer => (go answer).reader
  | seek amount go => fun s => go.reader.runOn ((s.seek? amount).getD s)
  | take expected go => answered (TokenStream.take expected) fun answer => (go answer).reader
  | attempt body go => answered (TokenStream.attempt body.reader) fun answer => (go answer).reader

end Client

/-! ## What runs keep -/

/-- What is known of a call on a stream of `size` tokens. It stays among them, and it leaves the
    stream where it was if it has failed or has only had a look. -/
structure Call.Sound (size : Nat) (call : Call) : Prop where
  start_le : call.start ≤ size
  stop_le : call.stop ≤ size
  back : call.succeeded = false → call.stop = call.start
  still : call.operation = .peek ∨ call.operation = .expectEnd → call.stop = call.start

/-- What is known of a run that has started on a stream. The tokens are the same as before, and
    unless the stream was moved, those between the two positions are the consumed ones. -/
structure Run.Leads (s : TokenStream T) (run : Run T α) : Prop where
  tokens : run.stream.tokens = s.tokens
  stop : run.stream.stop = s.stop
  calls : ∀ call ∈ run.calls, call.Sound s.tokens.length
  passes : run.SeekFree → s.Passes run.consumed run.stream

theorem position_le_of_tokens {s s' : TokenStream T} (h : s'.tokens = s.tokens) :
    s'.position ≤ s.tokens.length :=
  h ▸ s'.position_le

theorem Run.seekFree_followedBy {first : Run T β} {second : Run T α} :
    (first.followedBy second).SeekFree ↔ first.SeekFree ∧ second.SeekFree :=
  List.forall_mem_append

theorem Run.Leads.followedBy {s : TokenStream T} {first : Run T β} {second : Run T α}
    (h : first.Leads s) (h' : second.Leads first.stream) : (first.followedBy second).Leads s where
  tokens := h'.tokens.trans h.tokens
  stop := h'.stop.trans h.stop
  calls := List.forall_mem_append.mpr ⟨h.calls, h.tokens ▸ h'.calls⟩
  passes := by
    intro hfree
    have hboth := Run.seekFree_followedBy.mp hfree
    exact (h.passes hboth.1).trans (h'.passes hboth.2)

theorem leads_moved {s s' : TokenStream T} {amount : Int} (h : s.seek? amount = some s') :
    (moved s s').Leads s := by
  obtain ⟨htokens, hstop, -⟩ := seek?_eq_some_iff.mp h
  exact {
    tokens := htokens
    stop := hstop
    calls := List.forall_mem_singleton.mpr
      ⟨s.position_le, position_le_of_tokens htokens, nofun, by simp⟩
    passes := fun hfree => absurd rfl (hfree _ (List.mem_singleton_self _)) }

/-- An attempt can always be undone, whatever was run in it, and it ends like a reader that
    remembers the stream. -/
theorem settle_attempt (operation : Operation) (hoperation : operation ∈ [.take, .attempt])
    {s : TokenStream T} {inner : Run T β} (h : inner.Leads s) {x : Reader T β}
    (hx : x.runOn s = (inner.result, inner.stream)) :
    ∃ first, settle operation s inner = .ok first ∧ first.Leads s ∧
      (first.SeekFree ↔ inner.SeekFree) ∧
      (attempt x).runOn s = (first.result, first.stream) := by
  have hlooks : ¬ (operation = .peek ∨ operation = .expectEnd) := by
    rintro (rfl | rfl) <;> simp at hoperation
  have hmoves : operation ≠ .seek := by
    rintro rfl
    simp at hoperation
  -- The call of the attempt itself comes behind those that were made in it.
  have hfree : ∀ (call : Call), call.operation = operation →
      ((∀ other ∈ inner.calls ++ [call], other.operation ≠ .seek) ↔ inner.SeekFree) := by
    intro call hcall
    rw [List.forall_mem_append, List.forall_mem_singleton, hcall]
    exact and_iff_left hmoves
  have hcalls : ∀ {call : Call}, call.Sound s.tokens.length →
      ∀ other ∈ inner.calls ++ [call], other.Sound s.tokens.length :=
    fun hcall => List.forall_mem_append.mpr ⟨h.calls, List.forall_mem_singleton.mpr hcall⟩
  obtain ⟨result, stream, calls, consumed⟩ := inner
  cases result with
  | ok a =>
    refine ⟨_, rfl, ⟨h.tokens, h.stop, hcalls ?_, ?_⟩, hfree _ rfl, attempt_ok hx⟩
    · exact ⟨s.position_le, position_le_of_tokens h.tokens, nofun, fun hlook => absurd hlook hlooks⟩
    · exact fun hstill => h.passes ((hfree _ rfl).mp hstill)
  | error e =>
    have hback : stream.seek? (s.position - stream.position) = some s :=
      seek?_back h.tokens h.stop
    refine ⟨⟨.error e, s, calls ++ [⟨operation, false, s.position, s.position⟩], []⟩, ?_,
      ⟨rfl, rfl, hcalls ?_, fun _ => .refl s⟩, hfree _ rfl, attempt_error hx⟩
    · rw [settle]
      simp only [hback]
    · exact ⟨s.position_le, s.position_le, fun _ => rfl, fun _ => rfl⟩

/-! ## Single operations -/

theorem runOn_eat_cons [DecidableEq T] (wanted : T) (before after : List (T × Span))
    (token : T × Span) (stop : Nat) : (eat wanted).runOn ⟨before, token :: after, stop⟩
      = if token.1 = wanted then (.ok true, ⟨token :: before, after, stop⟩)
        else (.ok false, ⟨before, token :: after, stop⟩) := by
  change (ite (token.1 = wanted) _ _ : Reader T Bool).runOn _ = _
  split <;> rfl

namespace Query

theorem consumed_of_failed {s : TokenStream T} {q : Query T} {answer : Except ParseError q.Answer}
    (h : q.succeeded answer = false) : q.consumed s answer = [] := by
  cases q with
  | eat wanted =>
    rcases answer with _ | _ | _
    · rfl
    · rfl
    · cases h
  | peek | next | rest | expectEnd =>
    cases answer with
    | error e => rfl
    | ok a => cases h

theorem consumed_of_looks {s : TokenStream T} {q : Query T}
    (h : q.operation = .peek ∨ q.operation = .expectEnd) (answer : Except ParseError q.Answer) :
    q.consumed s answer = [] := by
  cases q with
  | peek | expectEnd => rfl
  | next | eat | rest => simp [operation] at h

theorem operation_ne_seek (q : Query T) : q.operation ≠ .seek := by
  intro h
  cases q <;> cases h

variable [DecidableEq T]

/-- An operation passes over the tokens that it has consumed. -/
theorem passes (q : Query T) (s : TokenStream T) :
    s.Passes (q.consumed s (q.reader.runOn s).1) (q.reader.runOn s).2 := by
  obtain ⟨before, after, stop⟩ := s
  cases q with
  | peek => exact .refl _
  | next =>
    cases after with
    | nil => exact .refl _
    | cons token after => exact ⟨rfl, rfl, rfl⟩
  | eat wanted =>
    cases after with
    | nil => exact .refl _
    | cons token after =>
      have hrun := runOn_eat_cons wanted before after token stop
      change Passes _ (consumed _ (eat wanted) ((TokenStream.eat wanted).runOn _).1)
        ((TokenStream.eat wanted).runOn _).2
      rw [hrun]
      by_cases h : token.1 = wanted
      · rw [if_pos h]
        exact ⟨rfl, rfl, rfl⟩
      · rw [if_neg h]
        exact .refl _
  | rest => exact ⟨rfl, (List.append_nil after).symm, rfl⟩
  | expectEnd =>
    cases after with
    | nil => exact .refl _
    | cons token after => exact .refl _

theorem leads_call (q : Query T) (s : TokenStream T) : (q.call s).Leads s := by
  have hpasses := q.passes s
  have hstays : q.consumed s (q.reader.runOn s).1 = [] → (q.reader.runOn s).2 = s :=
    fun h => (h ▸ hpasses).eq_of_nil
  refine ⟨hpasses.tokens_eq, hpasses.stop, List.forall_mem_singleton.mpr ?_, fun _ => hpasses⟩
  exact {
    start_le := s.position_le
    stop_le := position_le_of_tokens hpasses.tokens_eq
    back := fun h => congrArg position (hstays (consumed_of_failed h))
    still := fun h => congrArg position (hstays (consumed_of_looks h _)) }

theorem seekFree_call (q : Query T) (s : TokenStream T) : (q.call s).SeekFree :=
  List.forall_mem_singleton.mpr q.operation_ne_seek

end Query

variable [DecidableEq T]

theorem leads_matching (expected : T) (s : TokenStream T) : (matching expected s).Leads s :=
  let h := Query.next.leads_call s
  ⟨h.tokens, h.stop, h.calls, h.passes⟩

/-- To take a token is an attempt to read a matching one. -/
theorem take_eq_attempt (expected : T) (s : TokenStream T) : ∃ x : Reader T Span,
    TokenStream.take expected = attempt x ∧
      x.runOn s = ((matching expected s).result, (matching expected s).stream) := by
  refine ⟨_, rfl, ?_⟩
  obtain ⟨before, _ | ⟨token, after⟩, stop⟩ := s
  · rfl
  · change (ite (token.1 = expected) _ _ : Reader T Span).runOn _
      = (ite (token.1 = expected) _ _, ⟨token :: before, after, stop⟩)
    split <;> rfl

/-! ## Runs -/

namespace Client

/-- A run of the client keeps the tokens and ends like its reader. If there is none, the client has
    made a move that leads out of the tokens. -/
def Behaves (c : Client T α) (s : TokenStream T) : Prop :=
  (c.run s = .error .client ∧ ¬ c.SeekFree) ∨
    ∃ run, c.run s = .ok run ∧ run.Leads s ∧ (c.SeekFree → run.SeekFree) ∧
      c.reader.runOn s = (run.result, run.stream)

/-- A client whose first operation is known goes on like any other client. -/
theorem behaves_of_first {c : Client T α} {s : TokenStream T} {first : Run T β}
    (go : Except ParseError β → Client T α) (hfirst : first.Leads s)
    (hfree : c.SeekFree → first.SeekFree ∧ (go first.result).SeekFree)
    (hrun : c.run s = first.followedBy <$> (go first.result).run first.stream)
    (hreader : c.reader.runOn s = (go first.result).reader.runOn first.stream)
    (hgo : (go first.result).Behaves first.stream) : c.Behaves s := by
  rcases hgo with ⟨hfault, hmoves⟩ | ⟨second, hsecond, hleads, hstill, hends⟩
  · rw [hfault] at hrun
    exact Or.inl ⟨hrun, fun h => hmoves (hfree h).2⟩
  · rw [hsecond] at hrun
    refine Or.inr ⟨_, hrun, hfirst.followedBy hleads, fun h => ?_, hreader.trans hends⟩
    exact Run.seekFree_followedBy.mpr ⟨(hfree h).1, hstill (hfree h).2⟩

/-- Every run keeps the tokens and ends like the reader. -/
theorem behaves (c : Client T α) (s : TokenStream T) : c.Behaves s := by
  -- The first operation keeps the tokens. The rest is a client that starts where it has led to.
  induction c generalizing s with
  | done result =>
    exact Or.inr ⟨_, rfl, ⟨rfl, rfl, List.forall_mem_nil _, fun _ => .refl s⟩,
      fun _ => List.forall_mem_nil _, rfl⟩
  | query q go ih =>
    exact behaves_of_first go (q.leads_call s) (fun h => ⟨q.seekFree_call s, h _⟩) rfl rfl (ih _ _)
  | seek amount go ih =>
    cases hseek : s.seek? amount with
    | none =>
      refine Or.inl ⟨?_, id⟩
      rw [run, hseek]
    | some s' =>
      refine behaves_of_first (fun _ => go) (leads_moved hseek) nofun ?_ ?_ (ih s')
      · rw [run, hseek]
        rfl
      · change go.reader.runOn ((s.seek? amount).getD s) = _
        rw [hseek]
        rfl
  | take expected go ih =>
    obtain ⟨x, htake, hx⟩ := take_eq_attempt expected s
    obtain ⟨first, hfirst, hleads, hfree, hends⟩ :=
      settle_attempt .take (by simp) (leads_matching expected s) hx
    refine behaves_of_first go hleads (fun h => ⟨?_, h _⟩) ?_ ?_ (ih _ _)
    · exact hfree.mpr (Query.next.seekFree_call s)
    · rw [run, hfirst]
      rfl
    · change (go ((TokenStream.take expected).runOn s).1).reader.runOn _ = _
      rw [htake, hends]
  | attempt body go ihbody ihgo =>
    rcases ihbody s with ⟨hfault, hmoves⟩ | ⟨inner, hinner, hbody, hstill, hx⟩
    · refine Or.inl ⟨?_, fun h => hmoves h.1⟩
      rw [run, hfault]
      rfl
    · -- The run of the body has kept the tokens, so the attempt can be undone.
      obtain ⟨first, hfirst, hleads, hfree, hends⟩ :=
        settle_attempt .attempt (by simp) hbody hx
      refine behaves_of_first go hleads (fun h => ⟨?_, h.2 _⟩) ?_ ?_ (ihgo _ _)
      · exact hfree.mpr (hstill h.1)
      · rw [run, hinner]
        change settle .attempt s inner >>= _ = _
        rw [hfirst]
        rfl
      · change (go ((TokenStream.attempt body.reader).runOn s).1).reader.runOn _ = _
        rw [hends]

/-- Streams rewind exactly. An attempt never has to be undone by a move that leads out of the
    tokens, and a run ends like a reader that remembers where its attempts have started. All calls
    of a run stay among the tokens, and one that has failed, or was only a look, leaves the stream
    where it was. A client that makes no moves of its own always has a run, and what it has consumed
    is the front of the tokens. -/
theorem rewinds_exactly (c : Client T α) (tokens : List (T × Span)) (stop : Nat) :
    c.run (ofTokens tokens stop) ≠ .error .rewind ∧
    (∀ run, c.run (ofTokens tokens stop) = .ok run →
      c.reader.runOn (ofTokens tokens stop) = (run.result, run.stream) ∧
      run.stream.tokens = tokens ∧ run.stream.position ≤ tokens.length ∧
      (∀ call ∈ run.calls, call.Sound tokens.length) ∧
      (run.SeekFree → run.consumed = tokens.take run.stream.position)) ∧
    (c.SeekFree → ∃ run, c.run (ofTokens tokens stop) = .ok run ∧ run.SeekFree) := by
  rcases c.behaves (ofTokens tokens stop) with ⟨hfault, hmoves⟩ | ⟨run, hrun, hleads, hfree, hends⟩
  · rw [hfault]
    exact ⟨nofun, nofun, fun h => absurd h hmoves⟩
  · rw [hrun]
    refine ⟨nofun, fun run' hrun' => ?_, fun h => ⟨run, rfl, hfree h⟩⟩
    cases hrun'
    exact ⟨hends, hleads.tokens, position_le_of_tokens hleads.tokens, hleads.calls,
      fun hstill => (hleads.passes hstill).eq_take⟩

/-- An attempt at two tokens of which the second one is not there, and then the two that are. -/
def secondTry : Client Char Unit :=
  attempt
    (take 'a' fun _ => take 'c' fun span => done span)
    fun _ => take 'a' fun _ => query (.eat 'c') fun _ => query (.eat 'b') fun _ =>
      query .next fun token => done (token.map fun _ => ())

/-- What the failed attempt has read is consumed once, by the calls after it. -/
theorem secondTry_rewinds :
    secondTry.SeekFree ∧
    ∃ run, secondTry.run (ofTokens [('a', ⟨0, 1⟩), ('b', ⟨1, 2⟩)] 2) = .ok run ∧ run.SeekFree ∧
      run.calls = [⟨.next, true, 0, 1⟩, ⟨.take, true, 0, 1⟩, ⟨.next, true, 1, 2⟩,
        ⟨.take, false, 1, 1⟩, ⟨.attempt, false, 0, 0⟩, ⟨.next, true, 0, 1⟩, ⟨.take, true, 0, 1⟩,
        ⟨.eat, false, 1, 1⟩, ⟨.eat, true, 1, 2⟩, ⟨.next, false, 2, 2⟩] ∧
      (∀ call ∈ run.calls, call.Sound 2) ∧
      run.consumed = [('a', ⟨0, 1⟩), ('b', ⟨1, 2⟩)].take run.stream.position := by
  have h := secondTry.rewinds_exactly [('a', ⟨0, 1⟩), ('b', ⟨1, 2⟩)] 2
  have hfree : secondTry.SeekFree := ⟨fun _ _ => trivial, fun _ _ _ _ _ => trivial⟩
  obtain ⟨run, hrun, hstill⟩ := h.2.2 hfree
  obtain ⟨-, -, -, hsound, hconsumed⟩ := h.2.1 run hrun
  have hcalls := congrArg (Except.map Run.calls) hrun
  exact ⟨hfree, run, hrun, hstill, Except.ok.inj (hcalls.symm.trans (by rfl)), hsound,
    hconsumed hstill⟩

/-- An attempt may move in both directions before it fails. -/
example :
    let failure : Except ParseError Unit := .error (.atEnd 2)
    let client : Client Char Unit := attempt (seek 2 (seek (-1) (done failure))) done
    (client.run (ofTokens [('a', ⟨0, 1⟩), ('b', ⟨1, 2⟩)] 2)).map Run.calls
      = .ok [⟨.seek, true, 0, 2⟩, ⟨.seek, true, 2, 1⟩, ⟨.attempt, false, 0, 0⟩] :=
  rfl

end Client

end TokenStream

end AccumulatorMachine
