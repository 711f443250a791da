import LazyFields.Compilation
import LazyFields.Schema.Merge
import LazyFields.Script
import LazyFields.Session.Depth
import LazyFields.Source.Json
import LazyFields.Proofs.Cache.SingleFlight
import LazyFields.Proofs.Source.Comments
import LazyFields.Proofs.Source.Named
import LazyFields.Proofs.Source.Lossless
import LazyFields.Proofs.Source.LongestNames
import LazyFields.Proofs.Source.Literals
import LazyFields.Proofs.Source.Cursor.Parser
import LazyFields.Proofs.Source.BodyLines
import LazyFields.Proofs.Source.RoundTrip
import LazyFields.Proofs.Session.Cyclic
import LazyFields.Proofs.Session.Undisturbed
import LazyFields.Proofs.Session.Updates
import LazyFields.Proofs.Session.WakeUp
import LazyFields.Proofs.Session.WatchClosure
import LazyFields.Proofs.Cache.Register
import LazyFields.Proofs.FieldType.Notation
import LazyFields.Proofs.Schema.Valid
import LazyFields.Proofs.Schema.DependencyCycle
import LazyFields.Proofs.Catalog.Loops
import LazyFields.Proofs.Schema.Imported
import LazyFields.Proofs.Schema.InitTypes
import LazyFields.Proofs.Schema.TypeNames
import LazyFields.Proofs.Schema.WrittenTypes
import LazyFields.Proofs.Schema.RoundTrip
import LazyFields.Proofs.Schema.Merging
import LazyFields.Proofs.Schema.Reordered
import LazyFields.Proofs.Schema.Concatenated
import LazyFields.Proofs.Session.Reachable
import LazyFields.Proofs.Session.Refusal
import LazyFields.Proofs.WatchGraph.Indexes
import LazyFields.Proofs.WatchGraph.Snapshot
import LazyFields.Proofs.Session.AtMostOnce
import LazyFields.Proofs.Catalog.Packed
import LazyFields.Proofs.Catalog.History
import LazyFields.Proofs.Bindings.Clashes
import LazyFields.Proofs.Session.Gaps
import LazyFields.Proofs.Session.Conclusion
import LazyFields.Proofs.Session.FailedWatch
import LazyFields.Proofs.Session.Listening
import LazyFields.Proofs.Bindings.TypedReads
import LazyFields.Proofs.Bindings.RawStrings
import LazyFields.Proofs.Bindings.Methods
import LazyFields.Proofs.Bindings.Generator
