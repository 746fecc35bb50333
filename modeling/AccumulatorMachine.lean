import AccumulatorMachine.CommandLine
import AccumulatorMachine.Compiled
import AccumulatorMachine.Decimal
import AccumulatorMachine.Image
import AccumulatorMachine.Image.Lines
import AccumulatorMachine.Image.Record
import AccumulatorMachine.Instruction
import AccumulatorMachine.Json.Lexeme
import AccumulatorMachine.Json.Numeral
import AccumulatorMachine.Json.Problem
import AccumulatorMachine.Json.Reader
import AccumulatorMachine.Json.StringLiteral
import AccumulatorMachine.Json.Value
import AccumulatorMachine.Lowering.Basic
import AccumulatorMachine.Lowering.Error
import AccumulatorMachine.Lowering.Expression
import AccumulatorMachine.Lowering.Loops
import AccumulatorMachine.Lowering.Statement
import AccumulatorMachine.Machine.Arithmetic
import AccumulatorMachine.Machine.Control
import AccumulatorMachine.Machine.DataPath
import AccumulatorMachine.Machine.Event
import AccumulatorMachine.Machine.Fault
import AccumulatorMachine.Machine.Memory
import AccumulatorMachine.Machine.Microprogram
import AccumulatorMachine.Main
import AccumulatorMachine.Source.ParseError
import AccumulatorMachine.Source.Program
import AccumulatorMachine.Source.Statement
import AccumulatorMachine.Source.Statement.Grammar
import AccumulatorMachine.Source.Token
import AccumulatorMachine.Source.Token.Scan
import AccumulatorMachine.Source.TokenStream
import AccumulatorMachine.SymbolTable
import AccumulatorMachine.Text.Blank
import AccumulatorMachine.Text.Distance
import AccumulatorMachine.Text.Position
import AccumulatorMachine.Text.Quoted
import AccumulatorMachine.Text.Span
import AccumulatorMachine.Text.Unprintable
import AccumulatorMachine.Word
import AccumulatorMachine.Proofs.Allocation
import AccumulatorMachine.Proofs.Countdown
import AccumulatorMachine.Proofs.SymbolTable
import AccumulatorMachine.Proofs.Consistency
import AccumulatorMachine.Proofs.Machine.Arithmetic
import AccumulatorMachine.Proofs.Machine.Action
import AccumulatorMachine.Proofs.Machine.Effect
import AccumulatorMachine.Proofs.Outcome
import AccumulatorMachine.Proofs.Machine.Failure
import AccumulatorMachine.Proofs.Machine.Fragment
import AccumulatorMachine.Proofs.Machine.Placement
import AccumulatorMachine.Proofs.Lowering.Inversion
import AccumulatorMachine.Proofs.Lowering.Blocks
import AccumulatorMachine.Proofs.Compilation
import AccumulatorMachine.Proofs.CodeSegment
import AccumulatorMachine.Proofs.EndOfCode
import AccumulatorMachine.Proofs.Lowering.Countdown
import AccumulatorMachine.Proofs.Lowering.Loops
import AccumulatorMachine.Proofs.Structured.Condition
import AccumulatorMachine.Proofs.Structured.Interpreter
import AccumulatorMachine.Proofs.Structured.Simulation
import AccumulatorMachine.Proofs.Structured.Diagnostics
import AccumulatorMachine.Proofs.Formula
import AccumulatorMachine.Proofs.Lowering.Formula
import AccumulatorMachine.Proofs.StraightLine.Run
import AccumulatorMachine.Proofs.StraightLine.Interpreter
import AccumulatorMachine.Proofs.StraightLine.Matching
import AccumulatorMachine.Proofs.StraightLine.Simulation
import AccumulatorMachine.Proofs.Machine.History
import AccumulatorMachine.Proofs.Machine.InstructionSet
import AccumulatorMachine.Proofs.Image.RoundTrip
import AccumulatorMachine.Proofs.Lowering.Acceptance
import AccumulatorMachine.Proofs.LoopFree
import AccumulatorMachine.Proofs.Lowering.Tables
import AccumulatorMachine.Proofs.Source.Spelling
import AccumulatorMachine.Proofs.Source.Shift
import AccumulatorMachine.Proofs.Source.Composition
import AccumulatorMachine.Proofs.Strings.Printing
import AccumulatorMachine.Proofs.Strings.Declared
import AccumulatorMachine.Proofs.Strings.Output
import AccumulatorMachine.Proofs.Machine.TickLimit
import AccumulatorMachine.Proofs.Machine.Interruption
import AccumulatorMachine.Proofs.Machine.Events
import AccumulatorMachine.Proofs.Lowering.Numbers
import AccumulatorMachine.Proofs.Image.Layout
import AccumulatorMachine.Proofs.Source.Places
import AccumulatorMachine.Proofs.Source.Language
import AccumulatorMachine.Proofs.Source.Grammar
import AccumulatorMachine.Proofs.Source.Acceptance
import AccumulatorMachine.Proofs.Source.Readers
import AccumulatorMachine.Proofs.Source.Extents
import AccumulatorMachine.Proofs.Lowering.Refusal
import AccumulatorMachine.Proofs.Spans
import AccumulatorMachine.Proofs.Lowering.Scope
import AccumulatorMachine.Proofs.Names
import AccumulatorMachine.Proofs.Lowering.Postorder
import AccumulatorMachine.Proofs.StraightLine.Placed
import AccumulatorMachine.Proofs.StraightLine.Value
import AccumulatorMachine.Proofs.Lowering.Nesting
import AccumulatorMachine.Proofs.Structured.Offsets
import AccumulatorMachine.Proofs.Lowering.Relocation
import AccumulatorMachine.Proofs.Relocation
import AccumulatorMachine.Proofs.Machine.Timing
import AccumulatorMachine.Proofs.Strings.Cells
import AccumulatorMachine.Proofs.Strings.Echo
import AccumulatorMachine.Proofs.Structured.Heads
import AccumulatorMachine.Proofs.Lowering.Pairing
import AccumulatorMachine.Proofs.Source.Lexemes
import AccumulatorMachine.Proofs.Source.Printed
import AccumulatorMachine.Proofs.Source.Stages
import AccumulatorMachine.Proofs.Source.Tracking
import AccumulatorMachine.Proofs.Source.Viability
import AccumulatorMachine.Proofs.Lowering.Sizes
import AccumulatorMachine.Proofs.Findings
import AccumulatorMachine.Proofs.RefusedCalls
import AccumulatorMachine.Proofs.Source.Positions
import AccumulatorMachine.Proofs.SourceMap
import AccumulatorMachine.Proofs.Source.Columns
import AccumulatorMachine.Proofs.Source.Rewinding
import AccumulatorMachine.Proofs.Json.Layout
import AccumulatorMachine.Proofs.Json.Cut
import AccumulatorMachine.Proofs.Image.Records
import AccumulatorMachine.Proofs.Image.Files
import AccumulatorMachine.Proofs.Image.Truncation
import AccumulatorMachine.Proofs.Machine.Transfers
import AccumulatorMachine.Proofs.IntegerInput
import AccumulatorMachine.Proofs.Lowering.Calls
import AccumulatorMachine.Proofs.Text.Distance
import AccumulatorMachine.Proofs.Suggestions
