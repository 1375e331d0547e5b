import ChainTypings.Main
import ChainTypings.Proofs.Bracket.Pairs
import ChainTypings.Proofs.Bracket.Splitting
import ChainTypings.Proofs.Command.Halfway
import ChainTypings.Proofs.Document.Comments
import ChainTypings.Proofs.Document.Dangling
import ChainTypings.Proofs.Document.Faithful
import ChainTypings.Proofs.Document.Listing
import ChainTypings.Proofs.Document.Members
import ChainTypings.Proofs.Document.Pallets
import ChainTypings.Proofs.Render.Formatting
import ChainTypings.Proofs.Render.Grammar
import ChainTypings.Proofs.Render.Shortcut
import ChainTypings.Proofs.Session.ByName
import ChainTypings.Proofs.Session.Collecting
import ChainTypings.Proofs.Session.Evaluation
import ChainTypings.Proofs.Session.Failing
import ChainTypings.Proofs.Session.Hints
import ChainTypings.Proofs.Session.ImportLines
import ChainTypings.Proofs.Session.Labels
import ChainTypings.Proofs.Session.Layouts
import ChainTypings.Proofs.Session.Notation
import ChainTypings.Proofs.Shape.Bracketed
import ChainTypings.Proofs.Shape.Description
import ChainTypings.Proofs.Shape.Inline.RoundTrip
import ChainTypings.Proofs.Shape.Parenthesised
import ChainTypings.Proofs.Spelling.Projections
import ChainTypings.Proofs.Spelling.Settled
import ChainTypings.Render.Format
