import Mgol.Automaton.Basic
import Mgol.Automaton.Lexicon
import Mgol.CommandLine.Command
import Mgol.CommandLine.Help
import Mgol.CommandLine.Options
import Mgol.CommandLine.Paths
import Mgol.CommandLine.Run
import Mgol.Compiler.Basic
import Mgol.Compiler.Error
import Mgol.Compiler.Info
import Mgol.Compiler.Output
import Mgol.Compiler.SourceFile
import Mgol.Disk.Basic
import Mgol.Disk.Device
import Mgol.Disk.Error
import Mgol.Format.JsonReader
import Mgol.Format.JsonText
import Mgol.Format.Toml.Reader
import Mgol.Format.Toml.Scalar
import Mgol.Format.Toml.Value
import Mgol.Grammar.Action
import Mgol.Grammar.Category
import Mgol.Grammar.Collection
import Mgol.Grammar.Directory
import Mgol.Grammar.Error
import Mgol.Grammar.First
import Mgol.Grammar.Grid
import Mgol.Grammar.Item
import Mgol.Grammar.Mgol
import Mgol.Grammar.Rule
import Mgol.Grammar.RuleJson
import Mgol.Grammar.Slr
import Mgol.Grammar.SymbolSet
import Mgol.Grammar.Tables
import Mgol.Limits
import Mgol.Logging
import Mgol.Main
import Mgol.Parser.Basic
import Mgol.Parser.Error
import Mgol.Parser.Recovery
import Mgol.Parser.State
import Mgol.Parser.Step
import Mgol.Printout
import Mgol.Proofs.Automaton.Deterministic
import Mgol.Proofs.Automaton.Languages
import Mgol.Proofs.Compiler.Code
import Mgol.Proofs.Compiler.Constants
import Mgol.Proofs.Compiler.Gates
import Mgol.Proofs.Grammar.Check
import Mgol.Proofs.Grammar.Checked
import Mgol.Proofs.Grammar.Collection
import Mgol.Proofs.Grammar.Derivation
import Mgol.Proofs.Grammar.First
import Mgol.Proofs.Grammar.Grid
import Mgol.Proofs.Grammar.Item
import Mgol.Proofs.Grammar.Slr
import Mgol.Proofs.Meaning.Ast
import Mgol.Proofs.Meaning.Body
import Mgol.Proofs.Meaning.Compiler
import Mgol.Proofs.Meaning.Draft
import Mgol.Proofs.Meaning.Legible
import Mgol.Proofs.Meaning.Machine
import Mgol.Proofs.Meaning.Parse
import Mgol.Proofs.Meaning.Phrase
import Mgol.Proofs.Meaning.Reduction
import Mgol.Proofs.Meaning.Translation
import Mgol.Proofs.Parser.Accounting
import Mgol.Proofs.Parser.Alignment
import Mgol.Proofs.Parser.Checked
import Mgol.Proofs.Parser.Cycles
import Mgol.Proofs.Parser.Driver
import Mgol.Proofs.Parser.Invariant
import Mgol.Proofs.Parser.Language
import Mgol.Proofs.Parser.Layout
import Mgol.Proofs.Parser.MgolTables
import Mgol.Proofs.Parser.Moves
import Mgol.Proofs.Parser.Stacks
import Mgol.Proofs.Parser.Termination
import Mgol.Proofs.Parser.Yield
import Mgol.Proofs.Scanner.Ahead
import Mgol.Proofs.Scanner.Coverage
import Mgol.Proofs.Scanner.History
import Mgol.Proofs.Scanner.Lexemes
import Mgol.Proofs.Scanner.Pieces
import Mgol.Proofs.Scanner.Places
import Mgol.Proofs.Scanner.Progress
import Mgol.Proofs.Scanner.Reference
import Mgol.Proofs.Scanner.Resumption
import Mgol.Proofs.Scanner.Scan
import Mgol.Proofs.Scanner.Sight
import Mgol.Proofs.Scanner.Spelling
import Mgol.Proofs.Scanner.Twins
import Mgol.Proofs.Semantics.Alike
import Mgol.Proofs.Semantics.Tally
import Mgol.Proofs.Semantics.Tame
import Mgol.Proofs.Target.Typing
import Mgol.Proofs.Text.Utf8
import Mgol.Proofs.Typing.Account
import Mgol.Proofs.Typing.Faults
import Mgol.Proofs.Typing.Kinds
import Mgol.Proofs.Typing.Lines
import Mgol.Proofs.Typing.Parse
import Mgol.Proofs.Typing.Reduction
import Mgol.Proofs.Typing.Survey
import Mgol.Registry
import Mgol.Report.Code
import Mgol.Report.Collector
import Mgol.Report.Diagnostic
import Mgol.Report.Event
import Mgol.Report.Journal
import Mgol.Report.Sink
import Mgol.Report.Timestamp
import Mgol.Scanner.Basic
import Mgol.Scanner.Error
import Mgol.Scanner.Metrics
import Mgol.Scanner.Run
import Mgol.Semantics.Actions
import Mgol.Semantics.Context
import Mgol.Semantics.Error
import Mgol.Semantics.Executor
import Mgol.Session
import Mgol.Settings.FromToml
import Mgol.Settings.Preferences
import Mgol.Source.Input
import Mgol.Source.Lines
import Mgol.Source.Path
import Mgol.Source.Position
import Mgol.Stack
import Mgol.Target.Buffer
import Mgol.Target.Literal
import Mgol.Target.Statement
import Mgol.Text.Blank
import Mgol.Text.Combining
import Mgol.Text.Decimal
import Mgol.Text.Escaped
import Mgol.Text.LossyUtf8
import Mgol.Text.Padded
import Mgol.Text.Printable
import Mgol.Text.Ranges
import Mgol.Text.Split
import Mgol.Token.Basic
import Mgol.Token.Keyword
import Mgol.Proofs.Parser.Checked
import Mgol.Proofs.Parser.Cycles
import Mgol.Proofs.Grammar.TableText
import Mgol.Proofs.Format.Json
import Mgol.Proofs.Grammar.RuleText
import Mgol.Proofs.Disk.Files
import Mgol.Proofs.Grammar.Reload
import Mgol.Proofs.Grammar.RoundTrip
import Mgol.Proofs.Parser.Recovery
import Mgol.Proofs.Parser.Reports
import Mgol.Proofs.Grammar.Follow
import Mgol.Proofs.Grammar.Conflicts
import Mgol.Proofs.Semantics.Types
import Mgol.Proofs.Parser.Declarations
import Mgol.Proofs.Parser.Blocks
import Mgol.Proofs.Parser.Spans
import Mgol.Proofs.Scanner.Pushback
import Mgol.Proofs.Scanner.Positions
import Mgol.Proofs.Semantics.Values
import Mgol.Proofs.Parser.Capacity
import Mgol.Proofs.Parser.Literals
import Mgol.Proofs.Target.Literals
import Mgol.Proofs.Target.Tokens
import Mgol.Proofs.Target.Reading
import Mgol.Proofs.Target.WellTyped
import Mgol.Proofs.Semantics.DeclarationList
import Mgol.Proofs.Typing.Redeclarations
import Mgol.Proofs.Automaton.Ambiguity
import Mgol.Proofs.Grammar.Fixpoints
import Mgol.Proofs.Grammar.Canonical
import Mgol.Proofs.Scanner.Carets
import Mgol.Proofs.Text.Recoding
import Mgol.Proofs.Scanner.Listing
