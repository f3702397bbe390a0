import EventPolicy.Calendar
import EventPolicy.Compiler.Basic
import EventPolicy.Compiler.Build
import EventPolicy.Compiler.Callers
import EventPolicy.Config.Basic
import EventPolicy.Dialect
import EventPolicy.Entries
import EventPolicy.EventKind
import EventPolicy.FileTree
import EventPolicy.Host
import EventPolicy.Json.Reader
import EventPolicy.Json.Writer
import EventPolicy.Logging
import EventPolicy.Notice
import EventPolicy.Number.Binary64
import EventPolicy.Number.Digits
import EventPolicy.Number.Numeral
import EventPolicy.Number.Shortest
import EventPolicy.Path
import EventPolicy.Policy
import EventPolicy.Redaction
import EventPolicy.Scope.Basic
import EventPolicy.Scope.Validation
import EventPolicy.Scope.ValueSet
import EventPolicy.Settings.Store
import EventPolicy.Settings.Variables
import EventPolicy.Source.Basic
import EventPolicy.Source.Properties
import EventPolicy.Source.Unvalidated
import EventPolicy.Startup
import EventPolicy.Table.Flatten
import EventPolicy.Table.Merge
import EventPolicy.Text.Blank
import EventPolicy.Text.LetterCase
import EventPolicy.Text.LowerTable
import EventPolicy.Text.Printable
import EventPolicy.Text.Quoted
import EventPolicy.Text.Ranges
import EventPolicy.Text.Segment
import EventPolicy.Text.Word
import EventPolicy.Text.WordChar
import EventPolicy.Toml.Draft
import EventPolicy.Toml.Lexeme
import EventPolicy.Toml.Reader
import EventPolicy.Toml.Scalar
import EventPolicy.Validation
import EventPolicy.Value
import EventPolicy.Value.Description
import EventPolicy.Value.Fault
import EventPolicy.Vocabulary
import EventPolicy.Wildcard
import EventPolicy.Proofs.Compiler.Build
import EventPolicy.Proofs.Compiler.Completion
import EventPolicy.Proofs.Compiler.Interleaving
import EventPolicy.Proofs.Compiler.Runs
import EventPolicy.Proofs.Compiler.SharedBuild
import EventPolicy.Proofs.Entries
import EventPolicy.Proofs.Host
import EventPolicy.Proofs.Redaction.OptionValues
import EventPolicy.Proofs.Redaction.Options
import EventPolicy.Proofs.Redaction.Record
import EventPolicy.Proofs.Redaction.Replacement
import EventPolicy.Proofs.Redaction.Run
import EventPolicy.Proofs.Redaction.SecondPass
import EventPolicy.Proofs.Redaction.Settled
import EventPolicy.Proofs.Redaction.Userinfo
import EventPolicy.Proofs.Table.DocumentOrder
import EventPolicy.Proofs.Table.Flatten
import EventPolicy.Proofs.Table.Layers
import EventPolicy.Proofs.Dialect.Grammar
import EventPolicy.Proofs.Dialect.Outcome
import EventPolicy.Proofs.Compiler.Lenient
import EventPolicy.Proofs.Source.Agreement
import EventPolicy.Proofs.Table.Spelling
import EventPolicy.Proofs.Source.FileOrder
import EventPolicy.Proofs.Source.PatternLists
import EventPolicy.Proofs.Compiler.Rules
import EventPolicy.Proofs.Compiler.Shape
import EventPolicy.Proofs.Source.Memory
import EventPolicy.Proofs.Wildcard.Expression
import EventPolicy.Proofs.Wildcard.Pieces
import EventPolicy.Proofs.Json.Reader
import EventPolicy.Proofs.Settings.Runs
import EventPolicy.Proofs.Settings.Variables
import EventPolicy.Proofs.Table.Lookup
import EventPolicy.Proofs.Settings.Layering
import EventPolicy.Proofs.Dialect.Recognition
import EventPolicy.Proofs.Compiler.Notices
import EventPolicy.Proofs.Dialect.EventWord
import EventPolicy.Proofs.Scope.Pruning
import EventPolicy.Proofs.Source.Reload
import EventPolicy.Proofs.Redaction.Form
import EventPolicy.Proofs.Scope.FirstOccurrences
import EventPolicy.Proofs.Scope.ListedValues
