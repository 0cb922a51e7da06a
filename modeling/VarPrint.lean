import VarPrint.Text.Bytes
import VarPrint.Text.Rune
import VarPrint.Text.Blank
import VarPrint.Text.Width
import VarPrint.Number.Numeral
import VarPrint.Number.Magnitude
import VarPrint.Position
import VarPrint.Token.Basic
import VarPrint.Token.Scan
import VarPrint.Token.Table
import VarPrint.Problem
import VarPrint.Program.Basic
import VarPrint.Program.Render
import VarPrint.Program.Escape
import VarPrint.Program.Parse
import VarPrint.Program.Scope
import VarPrint.Program.Draft
import VarPrint.Program.Outline
import VarPrint.Tree.Basic
import VarPrint.Tree.Canvas
import VarPrint.Tree.Drawing
import VarPrint.Java.Name
import VarPrint.Java.Statement
import VarPrint.Java.ClassFile
import VarPrint.Files.Path
import VarPrint.Compile
import VarPrint.Text.Printable
import VarPrint.Text.Quoted
import VarPrint.Toml.Rule
import VarPrint.Toml.Basic
import VarPrint.Toml.Moment
import VarPrint.Toml.Grammar
import VarPrint.Toml.Document
import VarPrint.Files.Tree
import VarPrint.Files.Task
import VarPrint.Config.Basic
import VarPrint.Config.Load
import VarPrint.Log
import VarPrint.Compiler
import VarPrint.CommandLine.Flags
import VarPrint.CommandLine.Help
import VarPrint.CommandLine.Run
import VarPrint.Main
import VarPrint.Proofs.Outcome
import VarPrint.Proofs.Text.Byte
import VarPrint.Proofs.Text.Blank
import VarPrint.Proofs.Token.Shape
import VarPrint.Proofs.Token.Recognize
import VarPrint.Proofs.Token.Spelling
import VarPrint.Proofs.Number.Numeral
import VarPrint.Proofs.Program.Grammar
import VarPrint.Proofs.Program.WellFormed
import VarPrint.Proofs.Program.Layout
import VarPrint.Proofs.Program.RoundTrip
import VarPrint.Proofs.Program.Scope
import VarPrint.Proofs.Program.Meaning
import VarPrint.Proofs.Java.Reader
import VarPrint.Proofs.Java.Translation
import VarPrint.Proofs.Java.Typing
import VarPrint.Proofs.Java.Execution
import VarPrint.Proofs.Text.Rune
import VarPrint.Proofs.Token.Pattern
import VarPrint.Proofs.Token.Matching
import VarPrint.Proofs.Token.Closing
import VarPrint.Proofs.Token.Lexical
import VarPrint.Proofs.Token.Tiling
import VarPrint.Proofs.Program.Scoping
import VarPrint.Proofs.Program.Escape
import VarPrint.Proofs.Java.Literal
import VarPrint.Proofs.Text.Boundary
import VarPrint.Proofs.Position
import VarPrint.Proofs.Token.Joining
import VarPrint.Proofs.Program.Places
import VarPrint.Proofs.Program.Blame
import VarPrint.Proofs.Program.Session
import VarPrint.Proofs.Program.Pieces
import VarPrint.Proofs.Program.Extension
import VarPrint.Proofs.Program.Totality
import VarPrint.Proofs.Token.Position
import VarPrint.Proofs.Program.Alike
import VarPrint.Proofs.Java.Lines
import VarPrint.Proofs.Files.Path
import VarPrint.Proofs.Files.Tree
import VarPrint.Proofs.Files.Writing
import VarPrint.Proofs.Compiler
import VarPrint.Proofs.Program.Earliest
import VarPrint.Proofs.Program.Location
import VarPrint.Proofs.Java.WholeNumber
import VarPrint.Proofs.Number.Binary64
import VarPrint.Proofs.Number.Decimal
import VarPrint.Proofs.Confinement
import VarPrint.Proofs.Program.Empty
import VarPrint.Proofs.Program.Refusal
import VarPrint.Proofs.Java.ClassFile
import VarPrint.Proofs.Text.Run
import VarPrint.Proofs.Java.ClassName
import VarPrint.Proofs.ChosenName
import VarPrint.Proofs.Text.Encoding
import VarPrint.Proofs.Program.Encoding
import VarPrint.Proofs.Program.Outline
import VarPrint.Proofs.Program.Resuming
import VarPrint.Proofs.Text.Quoted
import VarPrint.Proofs.Toml.Rule
import VarPrint.Proofs.Toml.Value
import VarPrint.Proofs.Toml.Settings
import VarPrint.Proofs.Toml.Document
import VarPrint.Proofs.Config.RoundTrip
import VarPrint.Proofs.Config.Layers
import VarPrint.Proofs.CommandLine.Settings
