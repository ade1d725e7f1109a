import LogStream.Datum.Basic
import LogStream.Datum.Display
import LogStream.Datum.Percent
import LogStream.Fault
import LogStream.Filter.Access
import LogStream.Filter.Apply
import LogStream.Filter.Builtin
import LogStream.Filter.Checker
import LogStream.Filter.CompileError
import LogStream.Filter.Convert
import LogStream.Filter.Dyn
import LogStream.Filter.EvalError
import LogStream.Filter.Evaluator
import LogStream.Filter.Expr
import LogStream.Filter.Format
import LogStream.Filter.Lists
import LogStream.Filter.Literal
import LogStream.Filter.Math
import LogStream.Filter.Parser
import LogStream.Filter.Program
import LogStream.Filter.Strings
import LogStream.Filter.Token
import LogStream.Filter.Ty
import LogStream.Handler.Basic
import LogStream.Handler.Bridge
import LogStream.Handler.Logger
import LogStream.Handler.Merge
import LogStream.Json.Lines
import LogStream.Json.Printer
import LogStream.Json.Reader
import LogStream.Number.Basic
import LogStream.Number.Decimal
import LogStream.Number.Double
import LogStream.Proofs.Datum.Mapping
import LogStream.Proofs.Filter.Absorption
import LogStream.Proofs.Filter.Application
import LogStream.Proofs.Filter.Compilation
import LogStream.Proofs.Filter.Concatenation
import LogStream.Proofs.Filter.Conversions.Accessors
import LogStream.Proofs.Filter.Conversions.Base64
import LogStream.Proofs.Filter.Conversions.Durations
import LogStream.Proofs.Filter.Conversions.Numerals
import LogStream.Proofs.Filter.Conversions.Timestamps
import LogStream.Proofs.Filter.Equality
import LogStream.Proofs.Filter.Faults.Programs
import LogStream.Proofs.Filter.Grammar
import LogStream.Proofs.Filter.Integers.Arithmetic
import LogStream.Proofs.Filter.Integers.Programs
import LogStream.Proofs.Filter.Integers.Shifts
import LogStream.Proofs.Filter.Lists.Flattening
import LogStream.Proofs.Filter.Lists.Sets
import LogStream.Proofs.Filter.Lists.Sorting
import LogStream.Proofs.Filter.Literals
import LogStream.Proofs.Filter.Maps.Keys
import LogStream.Proofs.Filter.Maps.Operations
import LogStream.Proofs.Filter.Maps.Records
import LogStream.Proofs.Filter.Order
import LogStream.Proofs.Filter.Parser.Exactness
import LogStream.Proofs.Filter.Paths
import LogStream.Proofs.Filter.Scoping.Lexical
import LogStream.Proofs.Filter.Strings.Cutting
import LogStream.Proofs.Filter.Strings.Searching
import LogStream.Proofs.Filter.Templates.Filling
import LogStream.Proofs.Filter.Templates.Pieces
import LogStream.Proofs.Filter.Tiling
import LogStream.Proofs.Filter.Typing.Safety
import LogStream.Proofs.Filter.Walks
import LogStream.Proofs.Handler.Acceptance
import LogStream.Proofs.Handler.Atomic
import LogStream.Proofs.Handler.Lineage
import LogStream.Proofs.Handler.Merge
import LogStream.Proofs.Handler.Relay
import LogStream.Proofs.Handler.Session
import LogStream.Proofs.Handler.Splicing
import LogStream.Proofs.Handler.Writing
import LogStream.Proofs.Json.Ascii
import LogStream.Proofs.Json.Lines
import LogStream.Proofs.Json.Objects
import LogStream.Proofs.Json.Payloads
import LogStream.Proofs.Json.Reading
import LogStream.Proofs.Number.Digits
import LogStream.Proofs.Number.Reading
import LogStream.Proofs.Number.Rounding
import LogStream.Proofs.Number.Sign
import LogStream.Proofs.Outcome
import LogStream.Proofs.Reader.Agreement
import LogStream.Proofs.Reader.Buffering
import LogStream.Proofs.Reader.Cancellation
import LogStream.Proofs.Reader.Chunks
import LogStream.Proofs.Reader.Contents
import LogStream.Proofs.Reader.Selection
import LogStream.Proofs.Reader.Splitting
import LogStream.Proofs.Regex.Linear
import LogStream.Proofs.Regex.Refusal
import LogStream.Proofs.Regex.Scan
import LogStream.Proofs.Text.Cutting
import LogStream.Proofs.Text.Numeral
import LogStream.Proofs.Text.Runs
import LogStream.Proofs.Text.Utf8
import LogStream.Proofs.Time.Calendar
import LogStream.Proofs.Time.Days
import LogStream.Proofs.Time.Iso
import LogStream.Proofs.Time.Rounded
import LogStream.Proofs.Time.Seconds
import LogStream.Proofs.Time.Spelling
import LogStream.Proofs.Time.Zones
import LogStream.Proofs.Value.Chains
import LogStream.Proofs.Value.Unfolding
import LogStream.Proofs.Wire.Depth
import LogStream.Proofs.Wire.Field
import LogStream.Proofs.Wire.Fill
import LogStream.Proofs.Wire.Image
import LogStream.Proofs.Wire.Member
import LogStream.Proofs.Wire.Message
import LogStream.Proofs.Wire.Record
import LogStream.Proofs.Wire.Repeated
import LogStream.Proofs.Wire.Stable
import LogStream.Reader.Basic
import LogStream.Reader.Select
import LogStream.Record.Basic
import LogStream.Record.Level
import LogStream.Record.Notice
import LogStream.Regex.Dialect
import LogStream.Regex.Matcher
import LogStream.Regex.Parser
import LogStream.Regex.Pattern
import LogStream.Regex.Search
import LogStream.Regex.Single
import LogStream.Text.Base64
import LogStream.Text.Basic
import LogStream.Text.Case
import LogStream.Text.Classes
import LogStream.Text.Identifier
import LogStream.Text.Numeral
import LogStream.Text.Quoted
import LogStream.Text.Search
import LogStream.Text.Utf16
import LogStream.Text.Utf8
import LogStream.Time.Basic
import LogStream.Time.Calendar
import LogStream.Time.DurationText
import LogStream.Time.Iso
import LogStream.Time.Zone
import LogStream.Value.Basic
import LogStream.Value.Resolve
import LogStream.Wire.Decode
import LogStream.Wire.Encode
import LogStream.Wire.Field
import LogStream.Wire.Frame
import LogStream.Wire.Message
import LogStream.Wire.Pool
import LogStream.Wire.Varint
