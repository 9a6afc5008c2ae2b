import Stencil.Text.Letter
import Stencil.Text.Identifier
import Stencil.Text.Casing
import Stencil.Text.Position
import Stencil.Text.Blank
import Stencil.Text.Slice
import Stencil.Text.Search
import Stencil.Text.Escape
import Stencil.Number.Binary
import Stencil.Number.Rounding
import Stencil.Number.Decimal
import Stencil.Number.Read
import Stencil.Json.Value
import Stencil.Json.Printer
import Stencil.Json.Outline
import Stencil.Json.Reader
import Stencil.Hash.Sha256
import Stencil.Path
import Stencil.Script.Tree
import Stencil.Script.Token
import Stencil.Script.Word
import Stencil.Script.Parse
import Stencil.Script.Target
import Stencil.Script.Grammar.Rule
import Stencil.Script.Grammar.Modifier
import Stencil.Script.Grammar.Binding
import Stencil.Script.Grammar.Type
import Stencil.Script.Grammar.Class
import Stencil.Script.Grammar.Primary
import Stencil.Script.Grammar.Operator
import Stencil.Script.Grammar.Assignment
import Stencil.Script.Grammar.Declaration
import Stencil.Script.Grammar.Exchange
import Stencil.Script.Grammar.Statement
import Stencil.Script.Grammar
import Stencil.Script.Value
import Stencil.Script.Heap
import Stencil.Script.Comparison
import Stencil.Script.Scope
import Stencil.Script.Machine
import Stencil.Script.Property
import Stencil.Script.Operation
import Stencil.Script.Evaluate.Task
import Stencil.Script.Evaluate.Pattern
import Stencil.Script.Evaluate.Expression
import Stencil.Script.Evaluate.Call
import Stencil.Script.Evaluate.Statement
import Stencil.Script.Run
import Stencil.Template.Span
import Stencil.Template.Quoting
import Stencil.Template.Syntax
import Stencil.Template.Scan
import Stencil.Template.Tree
import Stencil.Include.Argument
import Stencil.Options
import Stencil.Files
import Stencil.Include.Error
import Stencil.Document
import Stencil.Document.OfTree
import Stencil.Program.SourceMap
import Stencil.Program.Weave
import Stencil.Program
import Stencil.Compile.Error
import Stencil.Cache
import Stencil.Compile.Job
import Stencil.Compile.World
import Stencil.Compile
import Stencil.Engine.Error
import Stencil.Engine
import Stencil.Proofs.Template.Copied
import Stencil.Proofs.Cache
import Stencil.Proofs.Compile.Cycle
import Stencil.Proofs.Compile.Expansion
import Stencil.Proofs.Compile.Job
import Stencil.Proofs.Compile.World
import Stencil.Proofs.Compile.Search
import Stencil.Proofs.Compile.Refusal
import Stencil.Proofs.Compile.Making
import Stencil.Proofs.Compile.Filling
import Stencil.Proofs.Compile.Contract
import Stencil.Proofs.Compile.Found
import Stencil.Proofs.Compile.Appearance
import Stencil.Proofs.Concurrent.Agreement
import Stencil.Proofs.Concurrent.Tenure
import Stencil.Proofs.Engine.Cycle
import Stencil.Proofs.Engine.Virtual
import Stencil.Proofs.Concurrent.SingleFlight
import Stencil.Proofs.Compile.Freshness
import Stencil.Proofs.Engine.Revalidate
import Stencil.Proofs.Engine.Invalidate
import Stencil.Proofs.Engine.Retry
import Stencil.Proofs.Template.Default
import Stencil.Proofs.Script.Literal
import Stencil.Proofs.Script.Reading
import Stencil.Proofs.Script.Operand
import Stencil.Proofs.Script.Phrase
import Stencil.Proofs.Script.Sentence
import Stencil.Proofs.Script.Embedding
import Stencil.Proofs.Script.Globals
import Stencil.Proofs.Script.Writing
import Stencil.Proofs.Script.Finalizer
import Stencil.Proofs.Script.Lockstep
import Stencil.Proofs.Script.Interruption
import Stencil.Proofs.Script.Timeout
import Stencil.Proofs.Template.Plain
import Stencil.Proofs.Engine.PlainText
import Stencil.Proofs.Template.Placement
import Stencil.Proofs.Program.Gaps
import Stencil.Proofs.Program.Placing
import Stencil.Proofs.Compile.Unresolved
import Stencil.Proofs.Engine.Failures
import Stencil.Proofs.Template.Outline
import Stencil.Proofs.Program.Code
import Stencil.Proofs.Script.Inversion
import Stencil.Proofs.Script.Parenthesis
import Stencil.Proofs.Engine.Alone
import Stencil.Proofs.Template.Inline
import Stencil.Proofs.Engine.InlineWrite
import Stencil.Proofs.Template.Directive
import Stencil.Proofs.Compile.Numbering
import Stencil.Proofs.Engine.Recovery
import Stencil.Proofs.Engine.Trace
import Stencil.Proofs.Engine.Weaving
import Stencil.Proofs.Script.Depth
import Stencil.Proofs.Template.Roundtrip
import Stencil.Proofs.Template.Lossless
import Stencil.Proofs.Template.Building
import Stencil.Proofs.Template.Nesting
import Stencil.Proofs.Template.Offsets
import Stencil.Proofs.Template.Partition
import Stencil.Proofs.Template.Balanced
import Stencil.Proofs.Template.Arguments
import Stencil.Proofs.Template.ArgumentRanges
import Stencil.Proofs.Script.WellRead
import Stencil.Proofs.Include.Static
import Stencil.Proofs.Include.Agreement
import Stencil.Proofs.Include.Joining
import Stencil.Proofs.Script.Chain
import Stencil.Proofs.Script.Lasting
import Stencil.Proofs.Script.LastingRun
import Stencil.Proofs.Script.Hoisting
import Stencil.Proofs.Script.Completion
import Stencil.Proofs.Script.Expiry
import Stencil.Proofs.Engine.TimeLimit
import Stencil.Proofs.Text.Beside
import Stencil.Proofs.Program.Lookup
import Stencil.Proofs.Compile.Naming
import Stencil.Proofs.Engine.Lookup
import Stencil.Proofs.Script.Tally
import Stencil.Proofs.Script.Nested
import Stencil.Proofs.Script.Overtime
import Stencil.Proofs.Template.Granularity
import Stencil.Proofs.Program.Inverse
import Stencil.Proofs.Compile.Register
import Stencil.Proofs.Program.Distinct
import Stencil.Proofs.Concurrent.Register
import Stencil.Proofs.Engine.Views
import Stencil.Proofs.Template.Behind
import Stencil.Proofs.Script.Quotes
import Stencil.Proofs.Template.Region
import Stencil.Proofs.Number.Value
import Stencil.Proofs.Number.Whole
import Stencil.Proofs.Script.WholeText
import Stencil.Proofs.Script.Slice
import Stencil.Proofs.Text.Search
import Stencil.Proofs.Script.Offsets
import Stencil.Proofs.Script.StringLength
import Stencil.Proofs.Script.Equality
import Stencil.Proofs.Script.Data
import Stencil.Proofs.Text.LineIndex
import Stencil.Proofs.Include.Key
import Stencil.Proofs.Template.Written
import Stencil.Proofs.Engine.Refused
import Stencil.Proofs.Script.Assignment
