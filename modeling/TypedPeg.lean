import TypedPeg.Assembly.Draft
import TypedPeg.Match.Draft
import TypedPeg.Match.Session
import TypedPeg.Parser
import TypedPeg.Proofs.Run.Ends
import TypedPeg.Proofs.Match.Termination
import TypedPeg.Proofs.Match.LeftRecursion
import TypedPeg.Proofs.Match.Separators
import TypedPeg.Proofs.Match.Discipline
import TypedPeg.Proofs.Match.Tiling
import TypedPeg.Proofs.Match.Conformance
import TypedPeg.Proofs.Match.Report
import TypedPeg.Proofs.Grammar.Compilation
import TypedPeg.Proofs.Match.Outcomes
import TypedPeg.Proofs.Node.Parts
import TypedPeg.Proofs.Match.Congruence
import TypedPeg.Proofs.Match.Known
import TypedPeg.Proofs.Assembly.Collisions
import TypedPeg.Proofs.Assembly.Complete
import TypedPeg.Proofs.Assembly.Extension
import TypedPeg.Proofs.Match.Shelter
import TypedPeg.Proofs.Match.Diagnostics
import TypedPeg.Proofs.Match.Tight
import TypedPeg.Proofs.Match.Translation
import TypedPeg.Proofs.Assembly.Sealing
import TypedPeg.Proofs.Match.Context
import TypedPeg.Proofs.Grammar.DirectMatching
import TypedPeg.Proofs.Grammar.Mirror
import TypedPeg.Proofs.Grammar.Kinship
import TypedPeg.Proofs.Grammar.Unambiguous
import TypedPeg.Proofs.Match.Quiescence
import TypedPeg.Proofs.Match.Yields
import TypedPeg.Proofs.Match.Nesting
import TypedPeg.Proofs.Source.Occurrence
import TypedPeg.Proofs.Grammar.Search
import TypedPeg.Proofs.Match.Backreference
import TypedPeg.Proofs.Node.Tree
import TypedPeg.Proofs.Node.References
import TypedPeg.Proofs.Assembly.Growth
import TypedPeg.Proofs.Match.Agreement
import TypedPeg.Proofs.Grammar.Exchange
import TypedPeg.Proofs.Match.Merging
import TypedPeg.Proofs.Match.FieldNames
import TypedPeg.Proofs.Source.Places
import TypedPeg.Proofs.Text.Delimited
