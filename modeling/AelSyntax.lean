import AelSyntax.Main
import AelSyntax.Token.Reader
import AelSyntax.Tree.OneLine
import AelSyntax.Proofs.Token.Gap
import AelSyntax.Proofs.Token.Longest
import AelSyntax.Proofs.Token.Draining
import AelSyntax.Proofs.Token.Decomposition
import AelSyntax.Proofs.Number.Reading
import AelSyntax.Proofs.Grammar.Phrase
import AelSyntax.Proofs.Grammar.Unambiguity
import AelSyntax.Proofs.Grammar.Run
import AelSyntax.Proofs.Grammar.Completeness
import AelSyntax.Proofs.Grammar.Soundness
import AelSyntax.Proofs.Grammar.Recognition
import AelSyntax.Proofs.Grammar.Failure
import AelSyntax.Proofs.Grammar.CorrectPrefix
import AelSyntax.Proofs.Token.Order
import AelSyntax.Proofs.Token.Spacing
import AelSyntax.Proofs.Token.Building
import AelSyntax.Proofs.Tree.Writing
import AelSyntax.Proofs.Grammar.RoundTrip
import AelSyntax.Proofs.Grammar.Stopping
import AelSyntax.Proofs.Token.Standing
import AelSyntax.Proofs.Grammar.Location
import AelSyntax.Proofs.Token.Joining
import AelSyntax.Proofs.Grammar.Lookahead
import AelSyntax.Proofs.Grammar.Moving
import AelSyntax.Proofs.Grammar.Joining
import AelSyntax.Proofs.Session.Continuation
import AelSyntax.Proofs.Session.Entries
import AelSyntax.Proofs.Command.Delivery
import AelSyntax.Proofs.Number.Nearest
import AelSyntax.Proofs.Number.Writing
import AelSyntax.Proofs.Tree.Lines
import AelSyntax.Proofs.Tree.Picture
import AelSyntax.Proofs.Grammar.Legible
import AelSyntax.Proofs.Grammar.Congruence
import AelSyntax.Proofs.Grammar.Limits
import AelSyntax.Proofs.Grammar.Unrolling
import AelSyntax.Proofs.Grammar.Bookkeeping
import AelSyntax.Proofs.Grammar.Layout
import AelSyntax.Proofs.Grammar.Places
import AelSyntax.Proofs.Token.Continuing
import AelSyntax.Proofs.Token.Progress
import AelSyntax.Proofs.Token.Lines
import AelSyntax.Proofs.Token.Padding
import AelSyntax.Proofs.Grammar.Padding
import AelSyntax.Proofs.Session.Echo
import AelSyntax.Proofs.Token.LineEnds
import AelSyntax.Proofs.Command.Sources
import AelSyntax.Proofs.Number.Integer
import AelSyntax.Proofs.Token.Listing
import AelSyntax.Proofs.Text.Utf16
import AelSyntax.Proofs.Json.Grammar
import AelSyntax.Proofs.Json.Unambiguity
import AelSyntax.Proofs.Json.Numerals
import AelSyntax.Proofs.Json.Strings
import AelSyntax.Proofs.Json.Conformance
import AelSyntax.Proofs.Tree.Record
import AelSyntax.Proofs.Json.Rendering
import AelSyntax.Proofs.Tree.Traversal
import AelSyntax.Proofs.Grammar.Ending
import AelSyntax.Proofs.Grammar.CallDepth
import AelSyntax.Proofs.Token.Calls
import AelSyntax.Proofs.Token.Scanning
import AelSyntax.Proofs.Token.Unread
