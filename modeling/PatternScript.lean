import PatternScript.Command.Arguments
import PatternScript.Command.Run
import PatternScript.Config.Layer
import PatternScript.Config.Reading
import PatternScript.Edits
import PatternScript.Emission
import PatternScript.Json
import PatternScript.Json.Reading
import PatternScript.Json.Text
import PatternScript.Language
import PatternScript.Main
import PatternScript.Notation.Leaf
import PatternScript.Notation.Token
import PatternScript.Number.Binary64
import PatternScript.Number.Layout
import PatternScript.Number.Reading
import PatternScript.Number.Shortest
import PatternScript.Proofs.Config.Merging
import PatternScript.Proofs.Config.Registering
import PatternScript.Proofs.Edits.Blocks
import PatternScript.Proofs.Edits.Finishing
import PatternScript.Proofs.Edits.Order
import PatternScript.Proofs.Edits.Splitting
import PatternScript.Proofs.Edits.Trace
import PatternScript.Proofs.Edits.Verdicts
import PatternScript.Proofs.Notation.Enclosing
import PatternScript.Proofs.Notation.Leaves
import PatternScript.Proofs.Notation.Lexing
import PatternScript.Proofs.Notation.Quoting
import PatternScript.Proofs.Notation.Reported
import PatternScript.Proofs.Notation.Scanning
import PatternScript.Proofs.Notation.Sequences
import PatternScript.Proofs.Notation.Standing
import PatternScript.Proofs.Notation.Words
import PatternScript.Proofs.Number.Literals
import PatternScript.Proofs.Registry.Bindings
import PatternScript.Proofs.Script.Closed
import PatternScript.Proofs.Script.Expressions
import PatternScript.Proofs.Script.Faults
import PatternScript.Proofs.Script.Outline
import PatternScript.Proofs.Script.Placing
import PatternScript.Proofs.Script.Programs
import PatternScript.Proofs.Script.Strings
import PatternScript.Proofs.Script.Visits
import PatternScript.Proofs.Script.Walk
import PatternScript.Proofs.Script.WellFormed
import PatternScript.Proofs.Source.Coordinates
import PatternScript.Proofs.Source.Encoding
import PatternScript.Proofs.Source.Offsets
import PatternScript.Proofs.Source.Slices
import PatternScript.Proofs.Text.Quoted
import PatternScript.Proofs.Transpile.Addresses
import PatternScript.Proofs.Transpile.Agreement
import PatternScript.Proofs.Transpile.Anchors
import PatternScript.Proofs.Transpile.Carrying
import PatternScript.Proofs.Transpile.Choices
import PatternScript.Proofs.Transpile.Counting
import PatternScript.Proofs.Transpile.Endings
import PatternScript.Proofs.Transpile.Findings
import PatternScript.Proofs.Transpile.Identifiers
import PatternScript.Proofs.Transpile.Layout
import PatternScript.Proofs.Transpile.LineEnds
import PatternScript.Proofs.Transpile.Locations
import PatternScript.Proofs.Transpile.Nesting
import PatternScript.Proofs.Transpile.Offers
import PatternScript.Proofs.Transpile.Recorded
import PatternScript.Proofs.Transpile.Registering
import PatternScript.Proofs.Transpile.Rendering
import PatternScript.Proofs.Transpile.Rephrasing
import PatternScript.Proofs.Transpile.Returning
import PatternScript.Proofs.Transpile.Rewriting
import PatternScript.Proofs.Transpile.Selection
import PatternScript.Proofs.Transpile.Spelling
import PatternScript.Proofs.Transpile.Splicing
import PatternScript.Proofs.Transpile.Tracking
import PatternScript.Proofs.Transpile.Weaving
import PatternScript.Proofs.Wire.Records
import PatternScript.Proofs.Wire.Results
import PatternScript.Registry
import PatternScript.Registry.Shown
import PatternScript.Report
import PatternScript.Report.Lines
import PatternScript.Rule
import PatternScript.Script.Character
import PatternScript.Script.Cursor
import PatternScript.Script.Grammar.Expression
import PatternScript.Script.Grammar.Goal
import PatternScript.Script.Grammar.Markup
import PatternScript.Script.Grammar.Member
import PatternScript.Script.Grammar.Statement
import PatternScript.Script.Input
import PatternScript.Script.Kind
import PatternScript.Script.Literal
import PatternScript.Script.Node
import PatternScript.Script.Parse
import PatternScript.Script.Pattern
import PatternScript.Script.Semicolon
import PatternScript.Shape
import PatternScript.Source.Bytes
import PatternScript.Source.Location
import PatternScript.Source.Offsets
import PatternScript.Source.SourceText
import PatternScript.Source.Span
import PatternScript.Text.Blank
import PatternScript.Text.CodeRanges
import PatternScript.Text.GraphemeExtend
import PatternScript.Text.Printable
import PatternScript.Text.Quoted
import PatternScript.Text.Shown
import PatternScript.Text.Width
import PatternScript.Toml.Document
import PatternScript.Toml.Reader
import PatternScript.Toml.Scalar
import PatternScript.Toml.Table
import PatternScript.Transpile
import PatternScript.Transpile.Ending
import PatternScript.Transpile.Options
import PatternScript.Transpile.Outcome
import PatternScript.Transpile.Pass
import PatternScript.Transpile.Reading
import PatternScript.Widget.Descriptor
import PatternScript.Widget.Native
import PatternScript.Wire.Decoding
import PatternScript.Wire.Options
import PatternScript.Wire.Result
