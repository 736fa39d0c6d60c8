import RdfMapping.Csv
import RdfMapping.Datatype
import RdfMapping.Double.Basic
import RdfMapping.Double.Decimal
import RdfMapping.Double.Shortest
import RdfMapping.Error
import RdfMapping.Json.Basic
import RdfMapping.Json.Parser
import RdfMapping.Json.Printer
import RdfMapping.JsonPath
import RdfMapping.LanguageTag
import RdfMapping.Mapping.Basic
import RdfMapping.Mapping.Rule
import RdfMapping.Table
import RdfMapping.Template
import RdfMapping.Term
import RdfMapping.Text.Blank
import RdfMapping.Text.Numeral
import RdfMapping.Text.Percent
import RdfMapping.Text.Search
import RdfMapping.Vocabulary
import RdfMapping.Xml.Event
import RdfMapping.Xml.Document
import RdfMapping.XPath
import RdfMapping.Options
import RdfMapping.Source.Cache
import RdfMapping.Function.Arguments
import RdfMapping.Function.Library
import RdfMapping.Function.Registry
import RdfMapping.Record.Basic
import RdfMapping.Record.Nesting
import RdfMapping.Record.Triples
import RdfMapping.Graph.Basic
import RdfMapping.Graph.JsonLd
import RdfMapping.Mapping.OfGraph
import RdfMapping.Evaluation.Call
import RdfMapping.Evaluation.Rule
import RdfMapping.Evaluation.Join
import RdfMapping.Evaluation.Run
import RdfMapping.Proofs.Evaluation.Plain
import RdfMapping.Proofs.Evaluation.History
import RdfMapping.Proofs.Source.Cache
import RdfMapping.Proofs.Evaluation.Steps
import RdfMapping.Proofs.Evaluation.Memo
import RdfMapping.Proofs.Join.Index
import RdfMapping.Proofs.Join.Resolve
import RdfMapping.Proofs.Join.Lookup
import RdfMapping.Proofs.Join.NestedLoop
import RdfMapping.Proofs.Join.Order
import RdfMapping.Proofs.Evaluation.Possible
import RdfMapping.Proofs.Evaluation.Slots
import RdfMapping.Proofs.Evaluation.Joins
import RdfMapping.Proofs.Evaluation.Marks
import RdfMapping.Proofs.Evaluation.Remembered
import RdfMapping.Proofs.Evaluation.Cycle
import RdfMapping.Proofs.Evaluation.Alike
import RdfMapping.Proofs.Evaluation.Order
import RdfMapping.Proofs.Evaluation.Distributed
import RdfMapping.Proofs.Evaluation.Failure
import RdfMapping.Proofs.Function.Failure
import RdfMapping.Proofs.Mapping.References
import RdfMapping.Proofs.Mapping.Order
import RdfMapping.Proofs.Mapping.Distributed
import RdfMapping.Proofs.Evaluation.ParentValues
import RdfMapping.Proofs.Record.Shown
import RdfMapping.Proofs.Record.Reach
import RdfMapping.Proofs.Record.TopLevel
import RdfMapping.Proofs.Evaluation.Invariant
import RdfMapping.Proofs.Evaluation.RunErrors
import RdfMapping.Proofs.Evaluation.KeptCache
import RdfMapping.Proofs.Join.Parameter
import RdfMapping.Proofs.Record.Statements
import RdfMapping.Proofs.Record.Rearranged
import RdfMapping.Proofs.Evaluation.Given
import RdfMapping.Proofs.Evaluation.Classes
import RdfMapping.Proofs.Evaluation.Languages
import RdfMapping.Proofs.Triple.Grammar
import RdfMapping.Proofs.Triple.Reading
import RdfMapping.Proofs.Triple.ReadBack
import RdfMapping.Proofs.Triple.Plain
import RdfMapping.Proofs.Record.Written
import RdfMapping.Proofs.Evaluation.Documents
import RdfMapping.Proofs.Csv.Written
import RdfMapping.Proofs.Text.Tokens
import RdfMapping.Proofs.Json.Location
import RdfMapping.Proofs.Json.Places
import RdfMapping.Proofs.Json.Relative
import RdfMapping.Proofs.Json.DocumentOrder
import RdfMapping.Proofs.Json.Disorder
import RdfMapping.Proofs.Json.ReadBack
import RdfMapping.Proofs.Json.Spelling
import RdfMapping.Proofs.Source.Key
import RdfMapping.Proofs.Source.FirstParse
import RdfMapping.Proofs.Text.Removal
import RdfMapping.Proofs.Source.Declarations
import RdfMapping.Proofs.Source.Apart
import RdfMapping.Proofs.LanguageTag.Grammar
import RdfMapping.Proofs.LanguageTag.Subtags
import RdfMapping.Proofs.LanguageTag.Spelling
import RdfMapping.Proofs.LanguageTag.Accepted
import RdfMapping.Proofs.Xml.Spelling
import RdfMapping.Proofs.Xml.ReadBack
import RdfMapping.Proofs.Template.ReadBack
import RdfMapping.Proofs.Template.Symbols
import RdfMapping.Proofs.Template.Choices
import RdfMapping.Proofs.Template.Separated
import RdfMapping.Proofs.Text.Percent
import RdfMapping.Proofs.Evaluation.Anonymous
import RdfMapping.Proofs.Graph.Nodes
import RdfMapping.Proofs.Graph.Lookup
import RdfMapping.Proofs.Graph.Described
import RdfMapping.Proofs.Graph.Labels
import RdfMapping.Proofs.Graph.Accepted
import RdfMapping.Proofs.Graph.Flattened
import RdfMapping.Proofs.Record.Unfolding
import RdfMapping.Proofs.Triple.Literal
import RdfMapping.Proofs.Evaluation.Spread
import RdfMapping.Proofs.Xml.Descendants
import RdfMapping.Proofs.Xml.Filters
import RdfMapping.Proofs.Xml.Spine
import RdfMapping.Proofs.Xml.CharacterData
import RdfMapping.Proofs.Function.Named
import RdfMapping.Proofs.Function.Parts
import RdfMapping.Proofs.Graph.Expansion
import RdfMapping.Proofs.Xml.Preorder
