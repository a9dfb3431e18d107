import RuleGraph.Document.Edit
import RuleGraph.Graph.Schema
import RuleGraph.Main
import RuleGraph.Proofs.Lists
import RuleGraph.Proofs.References
import RuleGraph.Proofs.Walks
import RuleGraph.Proofs.Depiction
import RuleGraph.Proofs.Refusal
import RuleGraph.Proofs.DistinctNames
import RuleGraph.Proofs.DocumentFormat
import RuleGraph.Proofs.NodeIds
import RuleGraph.Proofs.Headings
import RuleGraph.Proofs.Ending
import RuleGraph.Proofs.FaultlessTree
import RuleGraph.Proofs.ReadableText
import RuleGraph.Proofs.FormatAgreement
import RuleGraph.Proofs.WrittenLexemes
import RuleGraph.Proofs.WrittenText
import RuleGraph.Proofs.Routes
import RuleGraph.Proofs.MemberOrder
import RuleGraph.Proofs.EntityFormat
import RuleGraph.Proofs.GraphRoundTrip
import RuleGraph.Proofs.CoherentTree
import RuleGraph.Proofs.Drafts
import RuleGraph.Proofs.DocumentRoundTrip
import RuleGraph.Proofs.Resolution
import RuleGraph.Proofs.Opacity
import RuleGraph.Proofs.Recovery
import RuleGraph.Proofs.NodeCounts
import RuleGraph.Proofs.Streaming
import RuleGraph.Proofs.Writing
import RuleGraph.Proofs.LimitedSink
import RuleGraph.Proofs.Vacancy
import RuleGraph.Proofs.Locality
import RuleGraph.Proofs.Conservation
import RuleGraph.Proofs.TypedMembers
import RuleGraph.Proofs.Paths
import RuleGraph.Proofs.Delivery
import RuleGraph.Proofs.Verbosity
import RuleGraph.Proofs.Validation
import RuleGraph.Proofs.Omission
import RuleGraph.Proofs.SchemaAgreement
import RuleGraph.Proofs.PrintedIds
import RuleGraph.Proofs.Rounding
import RuleGraph.Proofs.ShortestText
import RuleGraph.Proofs.NumberTitles
