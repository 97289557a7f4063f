import CommandShell.Completion
import CommandShell.Interrupt
import CommandShell.Main
import CommandShell.Proofs.Evaluation.Invariant
import CommandShell.Proofs.Evaluation.Meaning
import CommandShell.Proofs.Evaluation.Numbering
import CommandShell.Proofs.Evaluation.Sequence
import CommandShell.Proofs.Evaluation.StatusRange
import CommandShell.Proofs.Evaluation.TrailingComment
import CommandShell.Proofs.Evaluation.Variables
import CommandShell.Proofs.Evaluation.Verbatim
import CommandShell.Proofs.Startup
import CommandShell.Proofs.Line.Interleaving
import CommandShell.Proofs.Word.Spacing
import CommandShell.Proofs.Text.Decoding
import CommandShell.Proofs.Stream
import CommandShell.Proofs.Evaluation.Trace
import CommandShell.Proofs.Evaluation.Directory
import CommandShell.Proofs.Evaluation.Truncation
import CommandShell.Proofs.Evaluation.Updates
import CommandShell.Proofs.Evaluation.Children
import CommandShell.Proofs.Line.Painting
import CommandShell.Proofs.Completion.Position
import CommandShell.Proofs.Completion.Commands
import CommandShell.Proofs.Completion.SearchPath
import CommandShell.Proofs.Expansion.Reading
import CommandShell.Proofs.Expansion.Fields
import CommandShell.Proofs.Expansion.Places
import CommandShell.Proofs.Line.Offence
import CommandShell.Proofs.Builtin.Move
import CommandShell.Proofs.Builtin.Return
import CommandShell.Proofs.Environment.Listing
import CommandShell.Proofs.Options
import CommandShell.Proofs.Line.Erasure
import CommandShell.Proofs.Completion.Extension
import CommandShell.Proofs.Interrupt
import CommandShell.Proofs.Path
import CommandShell.Proofs.Builtin.Exit
