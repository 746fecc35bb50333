import AccumulatorMachine.Proofs.Compilation
import AccumulatorMachine.Proofs.Lowering.Refusal
import AccumulatorMachine.Proofs.Source.Extents

/-!
# Spans

Every span that comes out of the compilation of a source text can be cut out of it.

Where a text is cut, the functions of this library cannot fail: an offset inside of a character cuts
in front of it, and one that is too large cuts at the end. So they have nothing to say about whether
an offset is a good one. Here `Text.cut?` is a cut that may fail, and the functions that cut a
source text at the ends of spans have counterparts that fail if it does. For every span of a text
the counterparts have a result, and it is that of the functions.

That all spans are spans of the source text is known for those of tokens and statements. The
compilation adds no spans of its own. It passes on that of a statement or of a part of one.

## Main definitions

* `Text.cut?`: The two sides of a cut, if the text can be cut.
* `Position.ofOffset?`, `Span.lineSpan?`, `ParseError.verbose?`, `CompileError.verbose?`: What is
  told about a span, if the source text can be cut there.
* `Program.Concerns`: The statement that an error is about.
* `SpansPlaced`: What holds of all spans of a source text.

## Theorems

* `Span.PointsInto.lineSpan?_eq`: The lines and columns of a span.
* `Program.compile_error_concerns`: The span of a compile error lies in the statement it is about.
* `Program.spans_placed`: Spans always point into the source.
-/

namespace AccumulatorMachine

/-! ## Cutting a text -/

namespace Text

/-- The two sides of a cut at a byte offset, unless the offset splits a character or is behind the
    end. -/
def cut? : Nat → List Char → Option (List Char × List Char)
  | 0, text => some ([], text)
  | _ + 1, [] => none
  | offset + 1, c :: text =>
    if c.utf8Size ≤ offset + 1 then
      (cut? (offset + 1 - c.utf8Size) text).map fun (front, back) => (c :: front, back)
    else none

theorem cut?_append (first second : List Char) :
    cut? (byteLength first) (first ++ second) = some (first, second) := by
  induction first with
  | nil => rw [byteLength_nil, cut?, List.nil_append]
  | cons c first ih =>
    obtain ⟨n, hn⟩ : ∃ n, c.utf8Size + byteLength first = n + 1 :=
      Nat.exists_eq_add_one.mpr (Nat.add_pos_left c.utf8Size_pos _)
    have hrest : n + 1 - c.utf8Size = byteLength first := by omega
    rw [byteLength_cons, List.cons_append, hn, cut?, if_pos (by omega), hrest, ih]
    rfl

theorem cut?_of_isBoundary {offset : Nat} {text : List Char} (h : IsBoundary text offset) :
    cut? offset text = some (takeBytes offset text, dropBytes offset text) := by
  rcases h with ⟨first, second, rfl, rfl⟩
  rw [cut?_append, takeBytes_append, dropBytes_append]

end Text

/-- The position of a byte offset, if the text can be cut there. -/
def Position.ofOffset? (source : List Char) (offset : Nat) : Option Position :=
  (Text.cut? offset source).map fun (front, _) => front.foldl advance start

/-- The span as a range of positions, if the text can be cut at both ends of it. An end behind the
    text stands for the end of the text. -/
def Span.lineSpan? (span : Span) (source : List Char) : Option LineSpan := do
  let start ← Position.ofOffset? source (min span.start (Text.byteLength source))
  let stop ← Position.ofOffset? source (min span.stop (Text.byteLength source))
  return ⟨start, stop⟩

/-- The message of a parse error with a line and a column, if the text can be cut where the error
    starts and its line where it is too long. -/
def ParseError.verbose? (e : ParseError) (source : List Char) : Option String := do
  let start := min e.span.start (Text.byteLength source)
  let position ← Position.ofOffset? source start
  let (_, rest) ← Text.cut? start source
  let line := Text.firstLine rest
  let (shown, _) ← Text.cut? (Text.byteLength (line.take excerptLength)) line
  return "at " ++ position.render ++ ": " ++ e.description ++ ", at '" ++ String.ofList shown ++ "'"

/-- The message of a compile error with a line and a column, if the text can be cut where the error
    starts. -/
def CompileError.verbose? (e : CompileError) (source : List Char) : Option String :=
  match e.span with
  | some span => do
    let position ← Position.ofOffset? source (min span.start (Text.byteLength source))
    return "at " ++ position.render ++ ": " ++ e.cause.message
  | none => some e.cause.message

theorem Position.ofOffset?_of_isBoundary {source : List Char} {offset : Nat}
    (h : Text.IsBoundary source offset) :
    ofOffset? source offset = some (ofOffset source offset) := by
  rw [ofOffset?, Text.cut?_of_isBoundary h]
  rfl

namespace Span.PointsInto

variable {span : Span} {source : List Char}

theorem min_start (h : span.PointsInto source) :
    min span.start (Text.byteLength source) = span.start :=
  Nat.min_eq_left h.start.le_byteLength

theorem lineSpan?_eq (h : span.PointsInto source) :
    span.lineSpan? source = some (span.lineSpan source) := by
  rw [lineSpan?, h.min_start, Nat.min_eq_left h.bounded, Position.ofOffset?_of_isBoundary h.start,
    Position.ofOffset?_of_isBoundary h.stop]
  rfl

end Span.PointsInto

theorem ParseError.verbose?_eq {e : ParseError} {source : List Char}
    (h : e.span.PointsInto source) : e.verbose? source = some (e.verbose source) := by
  have hshown := fun line : List Char =>
    Text.cut?_append (line.take excerptLength) (line.drop excerptLength)
  simp only [List.take_append_drop] at hshown
  simp only [verbose?, h.min_start, Position.ofOffset?_of_isBoundary h.start,
    Text.cut?_of_isBoundary h.start, hshown, Option.bind_eq_bind, Option.bind_some]
  rfl

theorem CompileError.verbose?_eq {e : CompileError} {source : List Char}
    (h : ∀ place, e.span = some place → place.PointsInto source) :
    e.verbose? source = some (e.verbose source) := by
  obtain ⟨cause, span⟩ := e
  cases span with
  | none => rfl
  | some place =>
    have hplace := h place rfl
    simp only [verbose?, hplace.min_start, Position.ofOffset?_of_isBoundary hplace.start,
      Option.bind_eq_bind, Option.bind_some]
    rfl

/-! ## Programs -/

namespace Statement

/-- What a statement mentions lies in it. -/
theorem LiesIn.mentions {s : Statement} {source : List Char} {outer place : Span}
    (h : s.LiesIn source outer) (hplace : s.Mentions place) :
    place.PointsInto source ∧ place.Inside s.span := by
  cases hplace with
  | whole => exact ⟨h.pointsInto, Nat.le_refl _, Nat.le_refl _⟩
  | expression hform => exact ⟨(h.expression _ _ hform).1, (h.expression _ _ hform).2.1⟩
  | part hform hpart =>
    rcases h.expression _ _ hform with ⟨-, hinside, hparts⟩
    exact ⟨(hparts _ hpart).1, (hparts _ hpart).2.trans hinside⟩

end Statement

namespace Block

/-- The findings about a statement are at its span. -/
theorem span_of_mem_diagnostics {block : Block} {d : Diagnostic} (h : d ∈ block.diagnostics) :
    d.span = block.span := by
  rw [diagnostics, List.mem_append] at h
  rcases h with h | h
  · rcases List.mem_map.mp h with ⟨_, -, rfl⟩
    rfl
  · split at h
    · rw [List.mem_singleton.mp h]
    · cases h

end Block

namespace Lowering

/-- The blocks of a program have the spans of its statements. -/
theorem statements_spans {pairs : LoopPairs} {index : Nat} {opened : List Nat}
    {ss : List Statement} {blocks : List Block} {table table' : SymbolTable}
    (h : (statements pairs index opened ss).run table = .ok (blocks, table')) :
    blocks.map Block.span = ss.map Statement.span := by
  induction ss generalizing index opened table blocks with
  | nil =>
    cases h
    rfl
  | cons s rest ih =>
    rcases statements_cons_ok h with ⟨block, opened', mid, blocks', rfl, hfirst, hrest⟩
    rw [List.map_cons, List.map_cons, (statement_ok hfirst).span_eq, ih hrest]

/-- What is wrong with a statement has a place in it. -/
theorem Refuses.mentions {s : Statement} {table : SymbolTable} {e : CompileError}
    (h : Refuses s table e) : ∃ cause place, e = .atSpan cause place ∧ s.Mentions place := by
  rcases h with ⟨name, place, table', huses, -, rfl⟩ | ⟨cause, place, rfl, hplace, -⟩
  · exact ⟨_, place, rfl, huses.mentions⟩
  · exact ⟨cause, place, rfl, hplace⟩

end Lowering

namespace Program

/-- The statement at an index is what an error is about. It starts or ends a loop that cannot be
    paired, or it is the first one that is not lowered. -/
def Concerns (program : Program) (dataBase : Int) (e : CompileError) (k : Nat) (s : Statement) :
    Prop :=
  program.statements[k]? = some s ∧
    ((LoopPairs.ofStatements? program.statements = .error e ∧ e.span = some s.span) ∨
      ∃ pairs blocks table opened, LoopPairs.ofStatements? program.statements = .ok pairs ∧
        (Lowering.statements pairs 0 [] (program.statements.take k)).run (.empty dataBase)
          = .ok (blocks, table) ∧
        (Lowering.statement pairs k opened s).run table = .error e)

variable {program : Program} {dataBase : Int} {source : List Char}

/-- The place of an error is one that the statement it is about mentions. -/
theorem compile_error_concerns {e : CompileError} (h : program.compile dataBase = .error e)
    {place : Span} (hplace : e.span = some place) :
    ∃ k s, program.Concerns dataBase e k s ∧ s.Mentions place := by
  rcases compile_error h with hpairs | ⟨pairs, k, s, blocks, table, opened, hpairs, hs, hbefore,
    hfails⟩ | ⟨address, length, rfl⟩
  · rcases LoopPairs.ofStatements?_error hpairs with ⟨k, s, cause, hs, rfl, -⟩
    cases hplace
    exact ⟨k, s, ⟨hs, Or.inl ⟨hpairs, rfl⟩⟩, .whole⟩
  · rcases (Lowering.statement_fails pairs k opened s table e hfails).mentions with
      ⟨cause, place, rfl, hmentions⟩
    cases hplace
    exact ⟨k, s, ⟨hs, Or.inr ⟨pairs, blocks, table, opened, hpairs, hbefore, hfails⟩⟩, hmentions⟩
  · cases hplace

/-- The block at an index has the span of the statement there. -/
theorem compile_span {compiled : Compiled} (h : program.compile dataBase = .ok compiled)
    {block : Block} (hblock : block ∈ compiled.blocks) :
    ∃ (k : Nat) (s : Statement), program.statements[k]? = some s ∧
      compiled.blocks[k]? = some block ∧ block.span = s.span := by
  rcases compile_ok h with ⟨pairs, -, hlowering, -⟩
  rcases List.mem_iff_getElem?.mp hblock with ⟨k, hk⟩
  have hspans := congrArg (·[k]?) (Lowering.statements_spans hlowering)
  simp only [List.getElem?_map, hk, Option.map_some] at hspans
  rcases Option.map_eq_some_iff.mp hspans.symm with ⟨s, hs, hspan⟩
  exact ⟨k, s, hs, hk, hspan.symm⟩

theorem parse?_forall₂ (h : parse? source = .ok program) :
    List.Forall₂ (fun segment s => Statement.parse? segment.2 segment.1 = .ok s)
      (segments source) program.statements := by
  rcases Outcome.bind_ok h with ⟨statements, hstatements, hpure⟩
  cases hpure
  exact Outcome.mapM_ok hstatements

theorem parse?_first_error {e : ParseError} (h : parse? source = .error e) :
    ∃ (k : Nat) (segment : Nat × List Char), (segments source)[k]? = some segment ∧
      Statement.parse? segment.2 segment.1 = .error e ∧
      ∀ earlier ∈ (segments source).take k, ∃ s, Statement.parse? earlier.2 earlier.1 = .ok s := by
  rcases Outcome.bind_error h with hmap | ⟨statements, -, hpure⟩
  · exact Outcome.mapM_error hmap
  · cases hpure

/-- Statements stand one behind the other, as their segments do. -/
theorem statements_in_order {pieces : List (Nat × List Char)} {ss : List Statement}
    (h : List.Forall₂ (fun segment s => s.span.Inside (segmentSpan segment)) pieces ss)
    (horder : pieces.Pairwise fun first second =>
      (segmentSpan first).stop < (segmentSpan second).start) :
    ss.Pairwise fun first second => first.span.stop < second.span.start := by
  induction h with
  | nil => exact .nil
  | @cons segment s rest others hinside hrest ih =>
    rcases List.pairwise_cons.mp horder with ⟨hfirst, hlater⟩
    refine .cons (fun other hother => ?_) (ih hlater)
    rcases Outcome.exists_of_mem hrest hother with ⟨segment', hsegment', hinside'⟩
    have := hfirst segment' hsegment'
    have := hinside.2
    have := hinside'.1
    omega

end Program

/-- All spans that come up when a source text is compiled are spans of the text, and it can be cut
    wherever one of them says so. -/
structure SpansPlaced (source : List Char) (dataBase : Int) : Prop where
  /-- Tokens, which stand in their segments. A segment can be cut behind each of its tokens. -/
  tokens : ∀ segment ∈ Program.segments source, ∀ token ∈ Token.scan segment.1 segment.2,
    token.2.PointsInto source ∧ token.2.Inside (Program.segmentSpan segment) ∧
      (Text.cut? (token.2.stop - segment.1) segment.2).map Prod.snd
        = some (Text.dropBytes (token.2.stop - segment.1) segment.2)
  /-- The parse error of the first segment that has one. -/
  parseError : ∀ e, Program.parse? source = .error e →
    e.span.PointsInto source ∧ e.verbose? source = some (e.verbose source) ∧
    ∃ (k : Nat) (segment : Nat × List Char), (Program.segments source)[k]? = some segment ∧
      Statement.parse? segment.2 segment.1 = .error e ∧
      (∀ earlier ∈ (Program.segments source).take k,
        ∃ s, Statement.parse? earlier.2 earlier.1 = .ok s) ∧
      e.span.Inside (Program.segmentSpan segment)
  /-- Statements with their expressions and the parts of these. -/
  statements : ∀ program, Program.parse? source = .ok program →
    List.Forall₂ (fun segment s => Statement.parse? segment.2 segment.1 = .ok s ∧
      s.LiesIn source (Program.segmentSpan segment)) (Program.segments source) program.statements ∧
    program.statements.Pairwise fun first second => first.span.stop < second.span.start
  /-- Compile errors. -/
  compileError : ∀ program e, Program.parse? source = .ok program →
    program.compile dataBase = .error e → e.verbose? source = some (e.verbose source) ∧
      ∀ place, e.span = some place → place.PointsInto source ∧
        ∃ k s, program.Concerns dataBase e k s ∧ place.Inside s.span
  /-- Diagnostics, which are at the spans of their statements. -/
  diagnostics : ∀ program compiled, Program.parse? source = .ok program →
    program.compile dataBase = .ok compiled → ∀ d ∈ compiled.diagnostics,
      d.span.PointsInto source ∧ ∃ (k : Nat) (s : Statement) (block : Block),
        program.statements[k]? = some s ∧ compiled.blocks[k]? = some block ∧
        d ∈ block.diagnostics ∧ d.span = s.span
  /-- The source map, which has the spans of statements. -/
  sourceMap : ∀ program compiled, Program.parse? source = .ok program →
    program.compile dataBase = .ok compiled → ∀ place ∈ compiled.sourceMap,
      place.PointsInto source ∧ ∃ s ∈ program.statements, place = s.span
  /-- The lines and columns of spans. -/
  positions : ∀ span : Span, span.PointsInto source →
    Position.ofOffset? source span.start = some (.ofOffset source span.start) ∧
      Position.ofOffset? source span.stop = some (.ofOffset source span.stop) ∧
      span.lineSpan? source = some (span.lineSpan source)

namespace Program

variable {program : Program} {dataBase : Int} {source : List Char}

theorem parse?_liesIn (h : parse? source = .ok program) :
    List.Forall₂ (fun segment s => Statement.parse? segment.2 segment.1 = .ok s ∧
      s.LiesIn source (segmentSpan segment)) (segments source) program.statements := by
  have hmem := (List.forall₂_and_left (segments source) program.statements).mpr
    ⟨fun _ hsegment => hsegment, parse?_forall₂ h⟩
  exact hmem.imp fun _ _ hs => ⟨hs.2, Statement.parse?_liesIn hs.1 hs.2⟩

/-- The statements of a program lie in its source text. -/
theorem liesIn_of_mem (h : parse? source = .ok program) {s : Statement}
    (hs : s ∈ program.statements) : ∃ outer, s.LiesIn source outer := by
  rcases Outcome.exists_of_mem (parse?_liesIn h) hs with ⟨segment, -, -, hlies⟩
  exact ⟨_, hlies⟩

/-- Spans always point into the source. -/
theorem spans_placed (source : List Char) (dataBase : Int) : SpansPlaced source dataBase where
  tokens := by
    intro segment hsegment token htoken
    rcases Token.covers_of_mem_scan htoken with ⟨word, hcovers, -⟩
    -- A token ends where a character ends, so the text can be cut there.
    have hboundary : Text.IsBoundary segment.2 (token.2.stop - segment.1) := by
      rcases hcovers with ⟨front, back, htext, -, hstop⟩
      refine ⟨front ++ word, back, htext, ?_⟩
      rw [hstop, Text.byteLength_append]
      omega
    refine ⟨Statement.covers_source hsegment hcovers, hcovers.inside, ?_⟩
    rw [Text.cut?_of_isBoundary hboundary]
    rfl
  parseError := by
    intro e h
    rcases parse?_first_error h with ⟨k, segment, hsegment, hparse, hbefore⟩
    rcases Statement.parse?_error_inside (List.mem_of_getElem? hsegment) hparse with
      ⟨hpoints, hinside⟩
    exact ⟨hpoints, ParseError.verbose?_eq hpoints, k, segment, hsegment, hparse, hbefore, hinside⟩
  statements := by
    intro program h
    refine ⟨parse?_liesIn h, statements_in_order ?_ (segments_in_order source)⟩
    exact (parse?_liesIn h).imp fun _ _ hs => hs.2.inside
  compileError := by
    intro program e h hcompile
    -- An error with a place mentions a statement, and the statement lies in the source.
    have hplaced : ∀ place, e.span = some place → place.PointsInto source ∧
        ∃ k s, program.Concerns dataBase e k s ∧ place.Inside s.span := by
      intro place hplace
      rcases compile_error_concerns hcompile hplace with ⟨k, s, hconcerns, hmentions⟩
      rcases liesIn_of_mem h (List.mem_of_getElem? hconcerns.1) with ⟨outer, hlies⟩
      rcases hlies.mentions hmentions with ⟨hpoints, hinside⟩
      exact ⟨hpoints, k, s, hconcerns, hinside⟩
    exact ⟨CompileError.verbose?_eq fun place hplace => (hplaced place hplace).1, hplaced⟩
  diagnostics := by
    intro program compiled h hcompile d hd
    rcases List.mem_flatMap.mp hd with ⟨block, hblock, hd⟩
    rcases compile_span hcompile hblock with ⟨k, s, hs, hk, hspan⟩
    rw [Block.span_of_mem_diagnostics hd, hspan]
    rcases liesIn_of_mem h (List.mem_of_getElem? hs) with ⟨outer, hlies⟩
    exact ⟨hlies.pointsInto, k, s, block, hs, hk, hd, rfl⟩
  sourceMap := by
    intro program compiled h hcompile place hplace
    rcases List.mem_flatMap.mp hplace with ⟨block, hblock, hplace⟩
    rcases compile_span hcompile hblock with ⟨k, s, hs, -, hspan⟩
    rw [(List.mem_replicate.mp hplace).2, hspan]
    rcases liesIn_of_mem h (List.mem_of_getElem? hs) with ⟨outer, hlies⟩
    exact ⟨hlies.pointsInto, s, List.mem_of_getElem? hs, rfl⟩
  positions := by
    intro span h
    exact ⟨Position.ofOffset?_of_isBoundary h.start, Position.ofOffset?_of_isBoundary h.stop,
      h.lineSpan?_eq⟩

end Program

end AccumulatorMachine
