import GrammarLayout.Main
import GrammarLayout.Pass.RoundTrip
import GrammarLayout.View.Progress
import GrammarLayout.Proofs.Grammar.Braces
import GrammarLayout.Proofs.Grammar.Ink
import GrammarLayout.Proofs.Grammar.Conservation
import GrammarLayout.Proofs.Grammar.Order
import GrammarLayout.Proofs.Pass.Shape
import GrammarLayout.Proofs.Pass.WhiteSpace
import GrammarLayout.Proofs.Pass.RoundTrip
import GrammarLayout.Proofs.Grammar.SingleBlock
import GrammarLayout.Proofs.Grammar.State
import GrammarLayout.Proofs.Grammar.Reader
import GrammarLayout.Proofs.Grammar.Commented
import GrammarLayout.Proofs.Grammar.StrayBrace
import GrammarLayout.Proofs.Grammar.Comments
import GrammarLayout.Proofs.Pass.Comments
import GrammarLayout.Proofs.Grammar.Symbols
import GrammarLayout.Proofs.Grammar.Reread
import GrammarLayout.Proofs.Pass.Opaque
import GrammarLayout.Proofs.Pass.Reindented
import GrammarLayout.Proofs.Run.Effect
import GrammarLayout.Proofs.Run.LineEndings
import GrammarLayout.Proofs.Cache.Transparent
import GrammarLayout.Proofs.Style.Override
import GrammarLayout.Proofs.Style.Lossless
import GrammarLayout.Proofs.View.Progress
import GrammarLayout.Proofs.Trace.Failure
import GrammarLayout.Proofs.Pass.Literals
import GrammarLayout.Proofs.Idempotent.Spacing
import GrammarLayout.Proofs.Idempotent.Layout
import GrammarLayout.Proofs.Pass.Unindented
import GrammarLayout.Proofs.Text.FirstLines
import GrammarLayout.Proofs.Grammar.Faults
import GrammarLayout.Proofs.Source.Lines
import GrammarLayout.Proofs.Diagnostic.Excerpt
import GrammarLayout.Proofs.Grammar.Placement
import GrammarLayout.Proofs.Pass.EmptyLine
import GrammarLayout.Proofs.Pass.Colons
import GrammarLayout.Proofs.Style.Acceptance
import GrammarLayout.Proofs.Pass.ActionBraces
import GrammarLayout.Proofs.Source.Uniform
import GrammarLayout.Proofs.Source.Versions
import GrammarLayout.Proofs.Text.Order
import GrammarLayout.Proofs.Text.Case
import GrammarLayout.Proofs.Disk.Tree
import GrammarLayout.Proofs.Run.Collect
import GrammarLayout.Proofs.Grammar.InlineBlock
import GrammarLayout.Proofs.Idempotent.Parsed
import GrammarLayout.Proofs.Stable.RoundTrip
