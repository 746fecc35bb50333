import AccumulatorMachine.Source.ParseError

/-!
# Token Streams

A list of tokens with a position in it, and readers that move along.

The stream is cut at its position: the tokens before it, the nearest first, and the tokens
after it. A reader can fail, and it leaves the stream where it was when it failed, because
what comes next may depend on that. `attempt` is the operation that does not: it puts the stream
back if its reader fails.

A stream does not know what its tokens are, only how to compare them.

## Main definitions

* `TokenStream`: Tokens with a position and the offset of their end.
* `TokenStream.Reader`: A computation that reads from a stream and may fail.
* `TokenStream.next`, `TokenStream.take`, `TokenStream.eat`, `TokenStream.rest`: Reading tokens.
* `TokenStream.attempt`: Reading that is undone if it fails.
* `TokenStream.seek?`: Moving the position by a number of tokens.

## Theorems

* `TokenStream.next_cons`, `TokenStream.next_nil`: Reading one token.
* `TokenStream.attempt_ok`, `TokenStream.attempt_error`: A failed attempt leaves no trace.
-/

namespace AccumulatorMachine

/-- Tokens with their spans, cut at the position of the stream. -/
structure TokenStream (T : Type) where
  /-- The tokens before the position, the nearest one first. -/
  before : List (T × Span)
  /-- The tokens after the position. -/
  after : List (T × Span)
  /-- The offset that an error at the end of the stream is reported at. -/
  stop : Nat
  deriving Repr

namespace TokenStream

variable {T : Type}

/-- A stream at its first token. -/
def ofTokens (tokens : List (T × Span)) (stop : Nat) : TokenStream T := ⟨[], tokens, stop⟩

/-- All tokens in order, whatever the position. -/
def tokens (s : TokenStream T) : List (T × Span) := s.before.reverse ++ s.after

/-- The number of tokens before the position. -/
def position (s : TokenStream T) : Nat := s.before.length

/-- Whether no tokens are left. -/
def isEmpty (s : TokenStream T) : Bool := s.after.isEmpty

/-- The next token. -/
def peek (s : TokenStream T) : Option (T × Span) := s.after.head?

/-- The stream with its position moved by a number of tokens, which may be negative. There is
    no position before the first token or after the last. -/
def seek? (s : TokenStream T) (amount : Int) : Option (TokenStream T) :=
  -- Positions count the tokens before them, so there is one more of them than of tokens.
  let target := s.position + amount
  if 0 ≤ target ∧ target ≤ s.tokens.length then
    some ⟨(s.tokens.take target.toNat).reverse, s.tokens.drop target.toNat, s.stop⟩
  else none

/-- A computation that reads from a stream and may fail. -/
abbrev Reader (T : Type) : Type → Type := ExceptT ParseError (StateM (TokenStream T))

/-- The result of a reader on a stream, and the stream it leaves. -/
def Reader.runOn {α : Type} (reader : Reader T α) (s : TokenStream T) :
    Except ParseError α × TokenStream T :=
  reader.run.run s

/-- Reads the next token. -/
def next : Reader T (T × Span) := do
  let s ← get
  match s.after with
  | [] => throw (.atEnd s.stop)
  | token :: after =>
    set (⟨token :: s.before, after, s.stop⟩ : TokenStream T)
    return token

/-- Reads all tokens that are left. -/
def rest : Reader T (List (T × Span)) := do
  let s ← get
  set (⟨s.after.reverse ++ s.before, [], s.stop⟩ : TokenStream T)
  return s.after

/-- Runs a reader and puts the stream back if the reader fails. -/
def attempt {α : Type} (reader : Reader T α) : Reader T α := fun s =>
  match reader.runOn s with
  | (.ok a, s') => (.ok a, s')
  | (.error e, _) => (.error e, s)

/-- Runs a reader in a context that its error will mention. -/
def inContext {α : Type} (context : ParseError.Context) (reader : Reader T α) : Reader T α :=
  fun s => match reader.runOn s with
  | (.ok a, s') => (.ok a, s')
  | (.error e, s') => (.error (e.within context), s')

/-- Reads a token if it is the expected one. -/
def take [DecidableEq T] (expected : T) : Reader T Span :=
  attempt do
    let (token, span) ← next
    if token = expected then return span else throw (.unexpected span)

/-- Reads the next token if it is the given one, and tells whether it was. -/
def eat [DecidableEq T] (wanted : T) : Reader T Bool := do
  let s ← get
  match s.after with
  | token :: after =>
    if token.1 = wanted then
      set (⟨token :: s.before, after, s.stop⟩ : TokenStream T)
      return true
    else return false
  | [] => return false

/-- Fails if tokens are left. -/
def expectEnd : Reader T Unit := do
  match (← get).peek with
  | none => return ()
  | some (_, span) => throw (.ofCause .trailingInput span)

@[simp] theorem next_cons (before after : List (T × Span)) (token : T × Span) (stop : Nat) :
    (next : Reader T _).runOn ⟨before, token :: after, stop⟩
      = (.ok token, ⟨token :: before, after, stop⟩) := rfl

@[simp] theorem next_nil (before : List (T × Span)) (stop : Nat) :
    (next : Reader T _).runOn ⟨before, [], stop⟩ = (.error (.atEnd stop), ⟨before, [], stop⟩) := rfl

theorem attempt_ok {α : Type} {reader : Reader T α} {s s' : TokenStream T} {a : α}
    (h : reader.runOn s = (.ok a, s')) : (attempt reader).runOn s = (.ok a, s') := by
  change (match reader.runOn s with | (.ok a, s') => _ | (.error e, _) => _) = _
  rw [h]

theorem attempt_error {α : Type} {reader : Reader T α} {s s' : TokenStream T} {e : ParseError}
    (h : reader.runOn s = (.error e, s')) : (attempt reader).runOn s = (.error e, s) := by
  change (match reader.runOn s with | (.ok a, s') => _ | (.error e, _) => _) = _
  rw [h]

end TokenStream

end AccumulatorMachine
