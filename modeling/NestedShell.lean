import NestedShell.AliasTable
import NestedShell.Automaton
import NestedShell.Builtins
import NestedShell.Command
import NestedShell.CommandLine
import NestedShell.Completion.History
import NestedShell.Completion.LineAssistant
import NestedShell.Completion.Suggestion
import NestedShell.Completion.WordList
import NestedShell.Console
import NestedShell.Dispatch
import NestedShell.Environment
import NestedShell.Fault
import NestedShell.Level
import NestedShell.LineSource
import NestedShell.Log
import NestedShell.Main
import NestedShell.Number.Integer
import NestedShell.Number.Seconds
import NestedShell.Playground
import NestedShell.Scripted
import NestedShell.Session
import NestedShell.Shell
import NestedShell.StartupFile
import NestedShell.Statement.Quoting
import NestedShell.Statement.Reader
import NestedShell.Statement.Split
import NestedShell.Template.Code
import NestedShell.Template.Expander
import NestedShell.Text.Blank
import NestedShell.Text.Cut
import NestedShell.Text.Dedent
import NestedShell.Text.Escaped
import NestedShell.Text.Offset
import NestedShell.Text.Printable
import NestedShell.Theme
import NestedShell.Usage.Arguments
import NestedShell.Usage.Grammar
import NestedShell.Usage.Help
import NestedShell.Usage.Line
import NestedShell.Usage.Pattern
import NestedShell.World
import NestedShell.Proofs.Usage.Results
import NestedShell.Proofs.Usage.Language
import NestedShell.Proofs.Statement.Reading
import NestedShell.Proofs.Statement.Written
import NestedShell.Proofs.Shell.Levels
import NestedShell.Proofs.Session.Acts
import NestedShell.Proofs.Session.Isolation
import NestedShell.Proofs.Session.Lines
import NestedShell.Proofs.Statement.Pieces
import NestedShell.Proofs.Statement.Outline
import NestedShell.Proofs.Template.Memory
import NestedShell.Proofs.Template.Segments
import NestedShell.Proofs.Shell.Builtins
import NestedShell.Proofs.Session.Morphism
import NestedShell.Proofs.Session.Watch
import NestedShell.Proofs.Session.Teardown
import NestedShell.Proofs.Text.Cut
import NestedShell.Proofs.Usage.Derivation
import NestedShell.Proofs.Usage.Spelling
import NestedShell.Proofs.Usage.Printing
import NestedShell.Proofs.Statement.Interleaving
import NestedShell.Proofs.Statement.Faults
import NestedShell.Proofs.Template.Calls
import NestedShell.Proofs.Template.Flavors
import NestedShell.Proofs.Statement.Closed
import NestedShell.Proofs.Statement.Complete
import NestedShell.Proofs.Usage.Words
import NestedShell.Proofs.Usage.Names
import NestedShell.Proofs.Usage.Split
import NestedShell.Proofs.Usage.Captures
import NestedShell.Proofs.Usage.Options
import NestedShell.Proofs.AliasTable.Described
import NestedShell.Proofs.AliasTable.Expansion
import NestedShell.Proofs.Session.Ready
import NestedShell.Proofs.Session.Comments
import NestedShell.Proofs.Session.EndOfInput
import NestedShell.Proofs.Session.Turns
import NestedShell.Proofs.Session.LastStatus
import NestedShell.Proofs.Console.Calls
import NestedShell.Proofs.Shell.Through
import NestedShell.Proofs.Shell.Noted
import NestedShell.Proofs.Shell.Sinks
import NestedShell.Proofs.Session.Sinks
import NestedShell.Proofs.Usage.Kinds
import NestedShell.Proofs.Shell.Calls
import NestedShell.Proofs.Shell.Footprint
import NestedShell.Proofs.Session.Aborts
import NestedShell.Proofs.Statement.Variables
import NestedShell.Proofs.Template.Parts
import NestedShell.Proofs.Completion.Distance
import NestedShell.Proofs.Completion.Suggestion
import NestedShell.Proofs.Template.Literal
import NestedShell.Proofs.Console.Codes
import NestedShell.Proofs.Text.Lines
import NestedShell.Proofs.StartupFile.Directives
import NestedShell.Proofs.StartupFile.Content
import NestedShell.Proofs.Text.Offset
import NestedShell.Proofs.Text.Runs
import NestedShell.Proofs.Fault.Caret
import NestedShell.Proofs.Completion.Replacements
import NestedShell.Proofs.Completion.WordList
import NestedShell.Proofs.Completion.References
import NestedShell.Proofs.Statement.References
import NestedShell.Proofs.Session.Snapshots
import NestedShell.Proofs.Automaton.Rules
import NestedShell.Proofs.Automaton.Loops
import NestedShell.Proofs.AliasTable.Edits
import NestedShell.Proofs.Session.EveryLevel
import NestedShell.Proofs.Session.Tables
import NestedShell.Proofs.Fault.Window
import NestedShell.Proofs.Session.Places
