import CalcShell.Bytes
import CalcShell.Calc.Arithmetic
import CalcShell.Calc.Error
import CalcShell.Calc.Evaluate
import CalcShell.Calc.Evaluator
import CalcShell.Calc.Functions
import CalcShell.Calc.Grammar
import CalcShell.Calc.Machine
import CalcShell.Calc.Names
import CalcShell.Calc.Token
import CalcShell.Calc.Tree
import CalcShell.Calc.Value
import CalcShell.Completion.Context
import CalcShell.Completion.Engine
import CalcShell.Completion.MatchCursor
import CalcShell.Completion.Modules
import CalcShell.Completion.Paths
import CalcShell.Completion.Signature
import CalcShell.Completion.Symbols
import CalcShell.Editing.History
import CalcShell.Editing.Line
import CalcShell.Environment
import CalcShell.Evaluation
import CalcShell.Evaluation.Echo
import CalcShell.Files.Tree
import CalcShell.Keyboard.Action
import CalcShell.Keyboard.Binding
import CalcShell.Keyboard.Decode
import CalcShell.Keyboard.Key
import CalcShell.Main
import CalcShell.Number.Read
import CalcShell.Number.Real
import CalcShell.Number.Rounding
import CalcShell.Number.Written
import CalcShell.Popup.Layout
import CalcShell.Program.Help
import CalcShell.Program.Options
import CalcShell.Program.Shell
import CalcShell.Proofs.Calc.Actions
import CalcShell.Proofs.Calc.Continuation
import CalcShell.Proofs.Calc.Evaluation
import CalcShell.Proofs.Calc.Levels
import CalcShell.Proofs.Calc.Literals
import CalcShell.Proofs.Calc.Parsing
import CalcShell.Proofs.Calc.Pieces
import CalcShell.Proofs.Calc.Spacing
import CalcShell.Proofs.Calc.Statements
import CalcShell.Proofs.Calc.Steady
import CalcShell.Proofs.Calc.Tokens
import CalcShell.Proofs.Calc.Trees
import CalcShell.Proofs.Completion.Cycling
import CalcShell.Proofs.Completion.Encoding
import CalcShell.Proofs.Completion.Listing
import CalcShell.Proofs.Completion.Selection
import CalcShell.Proofs.Completion.Words
import CalcShell.Proofs.Editing.History
import CalcShell.Proofs.Editing.Line
import CalcShell.Proofs.Keyboard.Bindings
import CalcShell.Proofs.Keyboard.Chunks
import CalcShell.Proofs.Popup.Placement
import CalcShell.Proofs.Screen.Brackets
import CalcShell.Proofs.Screen.Cursor
import CalcShell.Proofs.Screen.Drawing
import CalcShell.Proofs.Screen.Inputs
import CalcShell.Proofs.Screen.Page
import CalcShell.Proofs.Screen.Record
import CalcShell.Proofs.Screen.Redraw
import CalcShell.Proofs.Screen.Transcript
import CalcShell.Proofs.Session.Agreement
import CalcShell.Proofs.Session.Cancel
import CalcShell.Proofs.Session.Events
import CalcShell.Proofs.Session.Faithful
import CalcShell.Proofs.Session.Frame
import CalcShell.Proofs.Session.Interrupt
import CalcShell.Proofs.Session.Listener
import CalcShell.Proofs.Session.Output
import CalcShell.Proofs.Session.Page
import CalcShell.Proofs.Session.Paste
import CalcShell.Proofs.Session.Placement
import CalcShell.Proofs.Session.Replay
import CalcShell.Proofs.Session.Rollback
import CalcShell.Proofs.Session.Runs
import CalcShell.Proofs.Session.Statement
import CalcShell.Proofs.Session.Submission
import CalcShell.Proofs.Session.Typing
import CalcShell.Proofs.Session.Undo
import CalcShell.Proofs.Text.Cells
import CalcShell.Proofs.Text.Lines
import CalcShell.Proofs.Text.Styled
import CalcShell.Proofs.Text.Utf8
import CalcShell.Screen.Color
import CalcShell.Screen.Draw
import CalcShell.Screen.Geometry
import CalcShell.Screen.Painter
import CalcShell.Screen.Record
import CalcShell.Screen.Renderer
import CalcShell.Screen.Terminal
import CalcShell.Screen.Throttle
import CalcShell.Screen.Transcript
import CalcShell.Session.Basic
import CalcShell.Session.Config
import CalcShell.Session.Events
import CalcShell.Session.Listener
import CalcShell.Session.Status
import CalcShell.Session.Submission
import CalcShell.Text.Styled
import CalcShell.Text.Table
import CalcShell.Text.Utf8
import CalcShell.Text.WordWrap
import CalcShell.Proofs.Editing.Characters
import CalcShell.Proofs.Screen.Painting
import CalcShell.Proofs.Session.Browsing
import CalcShell.Proofs.Screen.Numbering
import CalcShell.Proofs.Screen.Queue
import CalcShell.Proofs.Calc.Tiling
import CalcShell.Proofs.Calc.Quoting
import CalcShell.Proofs.Text.Widths
import CalcShell.Proofs.Popup.Content
import CalcShell.Proofs.Calc.OnePass
import CalcShell.Proofs.Calc.Depth
import CalcShell.Proofs.Calc.Skipping
import CalcShell.Proofs.Calc.Unquoting
import CalcShell.Proofs.Calc.Unplaced
import CalcShell.Proofs.Calc.Header
import CalcShell.Proofs.Calc.Repeating
import CalcShell.Proofs.Completion.Scanning
import CalcShell.Proofs.Completion.OpenCall
import CalcShell.Proofs.Completion.WholeNames
import CalcShell.Proofs.Editing.Position
import CalcShell.Proofs.Files.Writing
import CalcShell.Proofs.Editing.HistoryFile
import CalcShell.Proofs.Screen.Nesting
import CalcShell.Proofs.Screen.Partners
import CalcShell.Proofs.Screen.Highlights
import CalcShell.Proofs.Screen.Coalescing
import CalcShell.Proofs.Keyboard.Tables
import CalcShell.Proofs.Keyboard.Decoding
import CalcShell.Proofs.Completion.Hint
import CalcShell.Proofs.Completion.Indexing
import CalcShell.Proofs.Keyboard.Broken
import CalcShell.Proofs.Editing.Words
import CalcShell.Proofs.Text.Wrapping
import CalcShell.Proofs.Text.Rows
import CalcShell.Proofs.Session.Turns
