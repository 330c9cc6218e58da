import ExprLang.Action
import ExprLang.BeanProperty
import ExprLang.Bindings
import ExprLang.Builtin.Argument
import ExprLang.Builtin.Collection
import ExprLang.Builtin.Number
import ExprLang.Builtin.Table
import ExprLang.Builtin.Text
import ExprLang.Cache
import ExprLang.Context
import ExprLang.Evaluation.BeanResolver
import ExprLang.Evaluation.Capture
import ExprLang.Evaluation.Expression
import ExprLang.Evaluation.Resolution
import ExprLang.Evaluation.Step
import ExprLang.Evaluation.Task
import ExprLang.Factory
import ExprLang.Fault
import ExprLang.Form
import ExprLang.Form.Json
import ExprLang.Heap
import ExprLang.HostCode
import ExprLang.HostCode.Accessor
import ExprLang.Imports
import ExprLang.Inspect.Class
import ExprLang.Inspect.Expression
import ExprLang.Inspect.Value
import ExprLang.Instant
import ExprLang.Json
import ExprLang.Json.Reader
import ExprLang.Lexer
import ExprLang.Lineage
import ExprLang.Main
import ExprLang.Method
import ExprLang.Node
import ExprLang.Node.Json
import ExprLang.Node.Parser
import ExprLang.Number.Binary
import ExprLang.Number.Decimal
import ExprLang.Number.FloatText
import ExprLang.Number.IntegerText
import ExprLang.Number.Power
import ExprLang.Number.SignedBytes
import ExprLang.Overload
import ExprLang.Proofs.Action
import ExprLang.Proofs.BeanProperty.Order
import ExprLang.Proofs.BeanProperty.Writer
import ExprLang.Proofs.Bindings
import ExprLang.Proofs.Builtin.Blind
import ExprLang.Proofs.Builtin.Collections
import ExprLang.Proofs.Builtin.Conforming
import ExprLang.Proofs.Builtin.Table
import ExprLang.Proofs.Builtin.Text
import ExprLang.Proofs.Cache
import ExprLang.Proofs.Declared
import ExprLang.Proofs.Evaluation.Arguments
import ExprLang.Proofs.Evaluation.Brackets
import ExprLang.Proofs.Evaluation.Breaches
import ExprLang.Proofs.Evaluation.Calling
import ExprLang.Proofs.Evaluation.Capture
import ExprLang.Proofs.Evaluation.CheckedCalls
import ExprLang.Proofs.Evaluation.Conforming
import ExprLang.Proofs.Evaluation.Description
import ExprLang.Proofs.Evaluation.Discipline
import ExprLang.Proofs.Evaluation.Frame
import ExprLang.Proofs.Evaluation.Integers
import ExprLang.Proofs.Evaluation.Lambdas
import ExprLang.Proofs.Evaluation.Lockstep
import ExprLang.Proofs.Evaluation.Operation
import ExprLang.Proofs.Evaluation.Prediction
import ExprLang.Proofs.Evaluation.ReadBack
import ExprLang.Proofs.Evaluation.Repetition
import ExprLang.Proofs.Evaluation.Rerun
import ExprLang.Proofs.Evaluation.Respect
import ExprLang.Proofs.Evaluation.Selection
import ExprLang.Proofs.Evaluation.Session
import ExprLang.Proofs.Evaluation.Sight
import ExprLang.Proofs.Evaluation.Simulation
import ExprLang.Proofs.Evaluation.Snapshot
import ExprLang.Proofs.Evaluation.Steady
import ExprLang.Proofs.Evaluation.Storing
import ExprLang.Proofs.Evaluation.Target
import ExprLang.Proofs.Evaluation.Tracked
import ExprLang.Proofs.Evaluation.TrackedRun
import ExprLang.Proofs.Evaluation.Uses
import ExprLang.Proofs.Evaluation.Variables
import ExprLang.Proofs.Factory
import ExprLang.Proofs.Fault
import ExprLang.Proofs.Form.Json
import ExprLang.Proofs.Form.Literal
import ExprLang.Proofs.Form.Method
import ExprLang.Proofs.Form.Restored
import ExprLang.Proofs.Form.TypeNames
import ExprLang.Proofs.Heap.Building
import ExprLang.Proofs.Heap.Change
import ExprLang.Proofs.Heap.Equality
import ExprLang.Proofs.Heap.Finite
import ExprLang.Proofs.Heap.Grounded
import ExprLang.Proofs.Heap.Inside
import ExprLang.Proofs.Heap.Members
import ExprLang.Proofs.Heap.Puts
import ExprLang.Proofs.Heap.Tidy
import ExprLang.Proofs.Json.Text
import ExprLang.Proofs.Lexer.Balanced
import ExprLang.Proofs.Lexer.Quoted
import ExprLang.Proofs.Lexer.Segment
import ExprLang.Proofs.Lexer.Unfold
import ExprLang.Proofs.Lexer.Written
import ExprLang.Proofs.Lineage.Assignable
import ExprLang.Proofs.Lineage.Stores
import ExprLang.Proofs.Lineage.Subclassing
import ExprLang.Proofs.Lineage.Walk
import ExprLang.Proofs.Method.Defaults
import ExprLang.Proofs.Method.Table
import ExprLang.Proofs.Number.Digits
import ExprLang.Proofs.Number.FloatText
import ExprLang.Proofs.Number.Rounding
import ExprLang.Proofs.Number.ShortestDigits
import ExprLang.Proofs.Overload.Contenders
import ExprLang.Proofs.Overload.Laws
import ExprLang.Proofs.Overload.Order
import ExprLang.Proofs.Parser.Depth
import ExprLang.Proofs.Parser.Enclosed
import ExprLang.Proofs.Parser.Header
import ExprLang.Proofs.Parser.Inside
import ExprLang.Proofs.Parser.Lookahead
import ExprLang.Proofs.Parser.Names
import ExprLang.Proofs.Parser.Print
import ExprLang.Proofs.Parser.Reads
import ExprLang.Proofs.Parser.Refusal
import ExprLang.Proofs.Parser.RoundTrip
import ExprLang.Proofs.Parser.Shape
import ExprLang.Proofs.Parser.Spacing
import ExprLang.Proofs.Parser.StringLiteral
import ExprLang.Proofs.Parser.Termination
import ExprLang.Proofs.Parser.WellFormed
import ExprLang.Proofs.Parser.Whitespace
import ExprLang.Proofs.Resolution.Asking
import ExprLang.Proofs.Resolution.Chain
import ExprLang.Proofs.Resolution.Claimed
import ExprLang.Proofs.Resolution.Collections
import ExprLang.Proofs.Resolution.Lockstep
import ExprLang.Proofs.Resolution.Simulation
import ExprLang.Proofs.Resolution.Standard
import ExprLang.Proofs.Resolution.Storing
import ExprLang.Proofs.Resolution.Tracked
import ExprLang.Proofs.Resolution.Writing
import ExprLang.Proofs.Shell.BareLine
import ExprLang.Proofs.Shell.Misplaced
import ExprLang.Proofs.Template
import ExprLang.Proofs.Transparency
import ExprLang.Proofs.Value.Alike
import ExprLang.Proofs.Value.Arithmetic
import ExprLang.Proofs.Value.Atom
import ExprLang.Proofs.Value.Bare
import ExprLang.Proofs.Value.Conversion
import ExprLang.Proofs.Value.Narrowing
import ExprLang.Proofs.Value.Order
import ExprLang.Proofs.Value.Settled
import ExprLang.Settings
import ExprLang.Shell.CommandLine
import ExprLang.Shell.Dialogue
import ExprLang.Shell.Session
import ExprLang.Span
import ExprLang.SyntaxError
import ExprLang.Template
import ExprLang.Text.CaseTable
import ExprLang.Text.Casing
import ExprLang.Text.CharClass
import ExprLang.Text.Letter
import ExprLang.Text.Quoted
import ExprLang.Text.Search
import ExprLang.Token
import ExprLang.Token.Listing
import ExprLang.TypeRef
import ExprLang.Value
import ExprLang.Value.Arithmetic
import ExprLang.Value.Coercion
import ExprLang.Value.Comparison
