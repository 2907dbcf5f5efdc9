import EsFront.Collections.Interner
import EsFront.Collections.MultiMap
import EsFront.Collections.NameTable
import EsFront.Collections.OrderedMap
import EsFront.CommandLine.Arguments
import EsFront.CommandLine.Run
import EsFront.Comments.Directive
import EsFront.Comments.Index
import EsFront.Config.Basic
import EsFront.Config.Read
import EsFront.Diagnostic.Basic
import EsFront.Diagnostic.Message
import EsFront.Estree.Error
import EsFront.Estree.Export
import EsFront.Estree.Import
import EsFront.Estree.Importer
import EsFront.Estree.Raw
import EsFront.Json.Basic
import EsFront.Json.Print
import EsFront.Json.Quoted
import EsFront.Json.Read
import EsFront.Json.Token
import EsFront.Main
import EsFront.Number.Decimal
import EsFront.Number.Double
import EsFront.Number.Rounding
import EsFront.Pipeline.Backend
import EsFront.Pipeline.Batch
import EsFront.Pipeline.Compile
import EsFront.Print.Layout
import EsFront.Print.Piece
import EsFront.Print.Precedence
import EsFront.Print.Printer
import EsFront.Print.Program
import EsFront.Proofs.Collections.MultiMap
import EsFront.Proofs.Collections.OrderedMap
import EsFront.Proofs.Comments.Adjacency
import EsFront.Proofs.Comments.Claim
import EsFront.Proofs.Comments.Directive
import EsFront.Proofs.Comments.Leftover
import EsFront.Proofs.Comments.Order
import EsFront.Proofs.Comments.Partition
import EsFront.Proofs.Comments.Reading
import EsFront.Proofs.Comments.SortKey
import EsFront.Proofs.Comments.Tags
import EsFront.Proofs.Config.Layers
import EsFront.Proofs.Diagnostic.Message
import EsFront.Proofs.Estree.Acceptance
import EsFront.Proofs.Estree.Grammar
import EsFront.Proofs.Estree.Imported
import EsFront.Proofs.Estree.Importer
import EsFront.Proofs.Estree.Lockstep
import EsFront.Proofs.Estree.Members
import EsFront.Proofs.Estree.NormalForm
import EsFront.Proofs.Estree.ReadBack
import EsFront.Proofs.Estree.Renumber
import EsFront.Proofs.Estree.RoundTrip
import EsFront.Proofs.Estree.Step
import EsFront.Proofs.Estree.WellFormed
import EsFront.Proofs.Json.Quoted
import EsFront.Proofs.Number.Display
import EsFront.Proofs.Number.Rounding
import EsFront.Proofs.Pipeline.Text
import EsFront.Proofs.Pipeline.Together
import EsFront.Proofs.Print.Appends
import EsFront.Proofs.Print.Braces
import EsFront.Proofs.Print.Brackets
import EsFront.Proofs.Print.Comments
import EsFront.Proofs.Print.Dangling
import EsFront.Proofs.Print.Expression
import EsFront.Proofs.Print.Fold
import EsFront.Proofs.Print.Opening
import EsFront.Proofs.Print.Plain
import EsFront.Proofs.Print.Printer
import EsFront.Proofs.Print.Reader
import EsFront.Proofs.Print.Reading
import EsFront.Proofs.Print.Reads
import EsFront.Proofs.Print.Rendition
import EsFront.Proofs.Print.Signs
import EsFront.Proofs.Print.Statement
import EsFront.Proofs.Print.StatementReader
import EsFront.Proofs.Print.Text
import EsFront.Proofs.Print.Unique
import EsFront.Proofs.Print.Written
import EsFront.Proofs.Scope.Accounts
import EsFront.Proofs.Scope.Coherence
import EsFront.Proofs.Scope.Conflict
import EsFront.Proofs.Scope.Coupling
import EsFront.Proofs.Scope.Discipline
import EsFront.Proofs.Scope.Events
import EsFront.Proofs.Scope.Globals
import EsFront.Proofs.Scope.Growth
import EsFront.Proofs.Scope.Handles
import EsFront.Proofs.Scope.Hooks
import EsFront.Proofs.Scope.Justified
import EsFront.Proofs.Scope.Lists
import EsFront.Proofs.Scope.Marks
import EsFront.Proofs.Scope.Moments
import EsFront.Proofs.Scope.Occurrences
import EsFront.Proofs.Scope.Outermost
import EsFront.Proofs.Scope.Outline
import EsFront.Proofs.Scope.Parallel
import EsFront.Proofs.Scope.Places
import EsFront.Proofs.Scope.Register
import EsFront.Proofs.Scope.Resolve
import EsFront.Proofs.Scope.Shadowing
import EsFront.Proofs.Scope.Silenced
import EsFront.Proofs.Scope.Step
import EsFront.Proofs.Scope.Verdict
import EsFront.Proofs.Syntax.Calls
import EsFront.Proofs.Syntax.Children
import EsFront.Proofs.Syntax.Data
import EsFront.Proofs.Syntax.Marking
import EsFront.Proofs.Syntax.Preorder
import EsFront.Proofs.Syntax.Replacement
import EsFront.Proofs.Syntax.Walked
import EsFront.Proofs.Text.Runs
import EsFront.Scope.Chain
import EsFront.Scope.Declaration
import EsFront.Scope.Event
import EsFront.Scope.Hooks
import EsFront.Scope.Parallel
import EsFront.Scope.Resolution
import EsFront.Scope.Resolver
import EsFront.Scope.Tree
import EsFront.Shell.Arithmetic
import EsFront.Shell.Builtin
import EsFront.Shell.Command
import EsFront.Shell.Execute
import EsFront.Shell.Expand
import EsFront.Shell.Machine
import EsFront.Shell.Pattern
import EsFront.Shell.Program
import EsFront.Shell.Run
import EsFront.Shell.Signal
import EsFront.Shell.Token
import EsFront.Shell.Tool.Basic
import EsFront.Shell.Tool.Copy
import EsFront.Shell.Tool.Describe
import EsFront.Shell.Tool.Print
import EsFront.Shell.Tool.Test
import EsFront.Shell.Word
import EsFront.Source.Location
import EsFront.Syntax.Comment
import EsFront.Syntax.Form
import EsFront.Syntax.Kind
import EsFront.Syntax.Node
import EsFront.Syntax.Operator
import EsFront.Syntax.Walk
import EsFront.Text.Blank
import EsFront.Text.Utf8
import EsFront.Workspace.Basic
import EsFront.Workspace.Content
import EsFront.Workspace.Process
