import ValueClass.Command.Args
import ValueClass.Command.Basic
import ValueClass.Command.Console
import ValueClass.Command.Footprint
import ValueClass.Command.Log
import ValueClass.Command.Run
import ValueClass.Dart.ClassDecl
import ValueClass.Dart.Codec
import ValueClass.Dart.Field
import ValueClass.Dart.Header
import ValueClass.Dart.Imports
import ValueClass.Dart.Libraries
import ValueClass.Dart.Line
import ValueClass.Dart.Scan
import ValueClass.Dart.TypeExpr
import ValueClass.Edit.Basic
import ValueClass.Edit.Plan
import ValueClass.Generate
import ValueClass.Infer.Classes
import ValueClass.Infer.Files
import ValueClass.Infer.Sketch
import ValueClass.Infer.Timestamp
import ValueClass.Interview
import ValueClass.Json.Basic
import ValueClass.Json.Display
import ValueClass.Json.Read
import ValueClass.Json.Write
import ValueClass.Main
import ValueClass.Member.Constructor
import ValueClass.Member.Draft
import ValueClass.Member.Methods
import ValueClass.Member.Parameters
import ValueClass.Member.Span
import ValueClass.Member.Write
import ValueClass.Name.Dart
import ValueClass.Name.Policy
import ValueClass.Name.Stem
import ValueClass.Name.Words
import ValueClass.Number.Binary64
import ValueClass.Number.Shortest
import ValueClass.Proofs.Command.Delivered
import ValueClass.Proofs.Command.Edited
import ValueClass.Proofs.Command.Effect
import ValueClass.Proofs.Command.Rows
import ValueClass.Proofs.Command.Steps
import ValueClass.Proofs.Dart.Body
import ValueClass.Proofs.Dart.CodecPair
import ValueClass.Proofs.Dart.Comment
import ValueClass.Proofs.Dart.Continuation
import ValueClass.Proofs.Dart.Declaration
import ValueClass.Proofs.Dart.Expression
import ValueClass.Proofs.Dart.HeaderKept
import ValueClass.Proofs.Dart.HeaderLine
import ValueClass.Proofs.Dart.HeaderSections
import ValueClass.Proofs.Dart.HeaderText
import ValueClass.Proofs.Dart.Held
import ValueClass.Proofs.Dart.ImportBlock
import ValueClass.Proofs.Dart.ImportLayout
import ValueClass.Proofs.Dart.ImportReading
import ValueClass.Proofs.Dart.ImportRewrite
import ValueClass.Proofs.Dart.ImportStatement
import ValueClass.Proofs.Dart.ImportText
import ValueClass.Proofs.Dart.LibraryBlock
import ValueClass.Proofs.Dart.Lower
import ValueClass.Proofs.Dart.OneLine
import ValueClass.Proofs.Dart.Placement
import ValueClass.Proofs.Dart.Reading
import ValueClass.Proofs.Dart.SetLevels
import ValueClass.Proofs.Dart.StringLiteral
import ValueClass.Proofs.Dart.TypeText
import ValueClass.Proofs.Dart.Weight
import ValueClass.Proofs.Edit.Body
import ValueClass.Proofs.Edit.InPlace
import ValueClass.Proofs.Edit.Lower
import ValueClass.Proofs.Edit.Plan
import ValueClass.Proofs.Edit.Splice
import ValueClass.Proofs.Fresh.Basic
import ValueClass.Proofs.Fresh.ClassHeader
import ValueClass.Proofs.Fresh.Constructor
import ValueClass.Proofs.Fresh.Equality
import ValueClass.Proofs.Fresh.FieldLine
import ValueClass.Proofs.Fresh.FieldLook
import ValueClass.Proofs.Fresh.Grown
import ValueClass.Proofs.Fresh.Growth
import ValueClass.Proofs.Fresh.Methods
import ValueClass.Proofs.Fresh.Names
import ValueClass.Proofs.Fresh.Page
import ValueClass.Proofs.Fresh.Relayout
import ValueClass.Proofs.Fresh.Rows
import ValueClass.Proofs.Fresh.Session
import ValueClass.Proofs.Fresh.Settled
import ValueClass.Proofs.Fresh.Shape
import ValueClass.Proofs.Fresh.Sheet
import ValueClass.Proofs.Fresh.ShortMethods
import ValueClass.Proofs.Fresh.Shown
import ValueClass.Proofs.Fresh.Stage
import ValueClass.Proofs.Fresh.Stands
import ValueClass.Proofs.Fresh.Stepwise
import ValueClass.Proofs.Generate.ByPosition
import ValueClass.Proofs.Generate.Declined
import ValueClass.Proofs.Generate.Frame
import ValueClass.Proofs.Generate.HeaderKept
import ValueClass.Proofs.Generate.InPlace
import ValueClass.Proofs.Generate.Insertion
import ValueClass.Proofs.Generate.NewConstructor
import ValueClass.Proofs.Generate.Review
import ValueClass.Proofs.Generate.Run
import ValueClass.Proofs.Generate.Segment
import ValueClass.Proofs.Generate.Separate
import ValueClass.Proofs.Generate.Statement
import ValueClass.Proofs.Generate.Uncovered
import ValueClass.Proofs.Infer.CrossImports
import ValueClass.Proofs.Infer.FileImports
import ValueClass.Proofs.Infer.FileNames
import ValueClass.Proofs.Infer.History
import ValueClass.Proofs.Infer.Inferred
import ValueClass.Proofs.Infer.Layouts
import ValueClass.Proofs.Infer.MapKeys
import ValueClass.Proofs.Infer.MemberLines
import ValueClass.Proofs.Infer.NestedCodec
import ValueClass.Proofs.Infer.Opening
import ValueClass.Proofs.Infer.PreOrder
import ValueClass.Proofs.Infer.Rescan
import ValueClass.Proofs.Infer.TidyForm
import ValueClass.Proofs.Json.Members
import ValueClass.Proofs.Member.Apart
import ValueClass.Proofs.Member.Bound
import ValueClass.Proofs.Member.Call
import ValueClass.Proofs.Member.Calm
import ValueClass.Proofs.Member.Counting
import ValueClass.Proofs.Member.CtorText
import ValueClass.Proofs.Member.FieldParam
import ValueClass.Proofs.Member.Formal
import ValueClass.Proofs.Member.Kept
import ValueClass.Proofs.Member.Layout
import ValueClass.Proofs.Member.Lead
import ValueClass.Proofs.Member.Look
import ValueClass.Proofs.Member.NamedStyle
import ValueClass.Proofs.Member.Nested
import ValueClass.Proofs.Member.ParamList
import ValueClass.Proofs.Member.ParamText
import ValueClass.Proofs.Member.Pending
import ValueClass.Proofs.Member.Positional
import ValueClass.Proofs.Member.Rewritten
import ValueClass.Proofs.Member.Search
import ValueClass.Proofs.Member.Segment
import ValueClass.Proofs.Member.Signature
import ValueClass.Proofs.Member.Taken
import ValueClass.Proofs.Member.Written
import ValueClass.Proofs.Name.Accepted
import ValueClass.Proofs.Settings.Filing
import ValueClass.Proofs.Settings.Precedence
import ValueClass.Proofs.Text.Ink
import ValueClass.Proofs.Text.Joined
import ValueClass.Proofs.Text.Lines
import ValueClass.Proofs.Text.Listed
import ValueClass.Proofs.Text.Pieces
import ValueClass.Proofs.Text.Reindented
import ValueClass.Proofs.Text.Trim
import ValueClass.Proofs.Workspace.Directories
import ValueClass.Proofs.Workspace.Laid
import ValueClass.Proofs.Workspace.Tree
import ValueClass.Proofs.Workspace.Utf8
import ValueClass.Proofs.Workspace.WriteFiles
import ValueClass.Settings.Basic
import ValueClass.Settings.Check
import ValueClass.Settings.Setting
import ValueClass.Style
import ValueClass.Text.Basic
import ValueClass.Text.Blank
import ValueClass.Text.Case
import ValueClass.Text.CaseTable
import ValueClass.Text.Digit
import ValueClass.Text.Layout
import ValueClass.Text.Nesting
import ValueClass.Text.Order
import ValueClass.Text.Printable
import ValueClass.Text.Quoted
import ValueClass.Text.Ranges
import ValueClass.Text.Word
import ValueClass.Workspace.FileTree
import ValueClass.Workspace.Load
import ValueClass.Workspace.Path
import ValueClass.Workspace.SettingsFile
import ValueClass.Workspace.Url
import ValueClass.Workspace.Utf8
import ValueClass.Workspace.WriteFiles
