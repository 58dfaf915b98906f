import LazeEdit.Analysis
import LazeEdit.Calendar
import LazeEdit.Command.Arguments
import LazeEdit.Command.Options
import LazeEdit.Command.Position
import LazeEdit.Command.Run
import LazeEdit.Command.Usage
import LazeEdit.Config.Diagnostic
import LazeEdit.Config.Settings
import LazeEdit.Decimal.Shortest
import LazeEdit.Dump
import LazeEdit.Files
import LazeEdit.Lexicon.Pattern
import LazeEdit.Log
import LazeEdit.Main
import LazeEdit.Proofs.Analysis.Declarations
import LazeEdit.Proofs.Analysis.Echo
import LazeEdit.Proofs.Analysis.Parameters
import LazeEdit.Proofs.Analysis.Stream
import LazeEdit.Proofs.BlockTree.View
import LazeEdit.Proofs.Classification.Brackets
import LazeEdit.Proofs.Classification.References
import LazeEdit.Proofs.Completion.Clause
import LazeEdit.Proofs.Completion.Closers
import LazeEdit.Proofs.Completion.View
import LazeEdit.Proofs.Mask.Comments
import LazeEdit.Proofs.Mask.Refill
import LazeEdit.Proofs.Scope.Shape
import LazeEdit.Proofs.Text.Positions
import LazeEdit.Proofs.Token.Rearrange
import LazeEdit.Server
import LazeEdit.Sweep
import LazeEdit.Toml.Document
import LazeEdit.Proofs.Classification.Types
import LazeEdit.Proofs.Completion.Receiver
import LazeEdit.Proofs.Classification.Operators
import LazeEdit.Proofs.Mask.Tokens
import LazeEdit.Proofs.Lexicon.Spellings
import LazeEdit.Proofs.Config.Diagnostic
import LazeEdit.Proofs.Text.Utf8
import LazeEdit.Proofs.Command.Options
