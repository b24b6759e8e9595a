import Dialogue.Text.Blank
import Dialogue.Dict
import Dialogue.Decimal.Layout
import Dialogue.Decimal.Reader
import Dialogue.Json.Printer
import Dialogue.Json.Reader
import Dialogue.Json.Decode
import Dialogue.Expr.Operator
import Dialogue.Expr.Token
import Dialogue.Expr.Tree
import Dialogue.Lua.Builtin
import Dialogue.Lua.Fragment
import Dialogue.Command.Basic
import Dialogue.Command.Directive
import Dialogue.Line.SequenceTag
import Dialogue.Line.Speaker
import Dialogue.Line.Index
import Dialogue.Database.Basic
import Dialogue.Graph.Draft
import Dialogue.Script.Basic
import Dialogue.Script.Builder
import Dialogue.Script.Tree
import Dialogue.Script.Grammar
import Dialogue.Diagnostic
import Dialogue.Graph.Error
import Dialogue.Graph.Lowering
import Dialogue.Compile
import Dialogue.Bundle.Basic
import Dialogue.Bundle.Codec
import Dialogue.Bundle.Read
import Dialogue.Database.Codec
import Dialogue.Toml.Basic
import Dialogue.Toml.Parser
import Dialogue.Toml.Reader
import Dialogue.Files.Basic
import Dialogue.Files.Tree
import Dialogue.Manifest.Basic
import Dialogue.Manifest.Search
import Dialogue.Cli.Arguments
import Dialogue.Cli.Run
import Dialogue.Main
import Dialogue.Proofs.Draft
import Dialogue.Proofs.Growth
import Dialogue.Proofs.Lowering
import Dialogue.Proofs.Execution
import Dialogue.Proofs.Playback
import Dialogue.Proofs.Fragment
import Dialogue.Proofs.Wiring
import Dialogue.Proofs.ControlFlow
import Dialogue.Proofs.Grammar
import Dialogue.Proofs.Jump
import Dialogue.Proofs.Postorder
import Dialogue.Proofs.Posts
import Dialogue.Proofs.Generation
import Dialogue.Proofs.Numbering
import Dialogue.Proofs.Registration
import Dialogue.Proofs.Variables
import Dialogue.Proofs.Reading
import Dialogue.Proofs.Nesting
import Dialogue.Proofs.Accounting
import Dialogue.Proofs.Reference
import Dialogue.Proofs.SingleExit
import Dialogue.Proofs.Attachment
import Dialogue.Proofs.Gates
import Dialogue.Proofs.Guards
import Dialogue.Proofs.Speakers
import Dialogue.Proofs.Lua.Lexeme
import Dialogue.Proofs.Lua.Syntax
import Dialogue.Proofs.Decimal.Magnitude
import Dialogue.Proofs.Decimal.Spelling
import Dialogue.Proofs.Decimal.Representation
import Dialogue.Proofs.Lua.ReadBack
import Dialogue.Proofs.Lua.Meaning
import Dialogue.Proofs.Lua.Containment
import Dialogue.Proofs.Arena
import Dialogue.Proofs.Validation
import Dialogue.Proofs.Emission
import Dialogue.Proofs.Requirements
import Dialogue.Proofs.Alike
import Dialogue.Proofs.FileOrder
import Dialogue.Proofs.DanglingJumps
import Dialogue.Proofs.BundleFormat
import Dialogue.Proofs.DatabaseFormat
import Dialogue.Proofs.Census
import Dialogue.Proofs.BlockLayout
import Dialogue.Proofs.FallbackChain
import Dialogue.Proofs.EntryScripts
import Dialogue.Proofs.Words
import Dialogue.Proofs.Placeholders
import Dialogue.Proofs.Sequences
import Dialogue.Proofs.ConstantFolding
import Dialogue.Proofs.Trimming
import Dialogue.Proofs.Attribution
import Dialogue.Proofs.SequenceTags
import Dialogue.Proofs.LineRanges
import Dialogue.Proofs.AppendOnly
