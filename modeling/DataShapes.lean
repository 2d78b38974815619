import DataShapes.Json.Equality
import DataShapes.Main
import DataShapes.Schema.Equality
import DataShapes.Schema.Evaluation
import DataShapes.Proofs.Generation.Built
import DataShapes.Proofs.Model.Accepted
import DataShapes.Proofs.Schema.References
import DataShapes.Proofs.Generation.Names
import DataShapes.Proofs.Generation.Provided
import DataShapes.Proofs.Inputs.Query
import DataShapes.Proofs.Graph.Reverse
import DataShapes.Proofs.Inputs.Write
import DataShapes.Proofs.Inputs.Nested
import DataShapes.Proofs.Inputs.Operation
import DataShapes.Proofs.Generation.Resolution
import DataShapes.Proofs.Schema.Deferral
import DataShapes.Proofs.Json.Entries
import DataShapes.Proofs.Schema.Rendering
import DataShapes.Proofs.Schema.Evaluation
import DataShapes.Proofs.Schema.Making
import DataShapes.Proofs.Generation.Unaltered
import DataShapes.Proofs.Generation.Spelling
import DataShapes.Proofs.Generation.Overlaps
import DataShapes.Proofs.Generation.Apart
import DataShapes.Proofs.Generation.Lossless
import DataShapes.Proofs.Schema.Calls
import DataShapes.Proofs.Schema.Acceptance
import DataShapes.Proofs.Generation.Termination
import DataShapes.Proofs.Acceptance.Conditions
import DataShapes.Proofs.Acceptance.NestedCreates
import DataShapes.Proofs.Generation.Reduced
import DataShapes.Proofs.Model.Violations
import DataShapes.Proofs.Text.NameSet
import DataShapes.Proofs.Graph.Locality
import DataShapes.Proofs.Generation.Extension
import DataShapes.Proofs.Generation.Order
import DataShapes.Proofs.Generation.Growth
import DataShapes.Proofs.Generation.Demand
import DataShapes.Proofs.Generation.Mentions
import DataShapes.Proofs.Acceptance.StorageKeys
import DataShapes.Proofs.Files.Tree
import DataShapes.Proofs.Files.Runs
import DataShapes.Proofs.Text.Quoted
import DataShapes.Proofs.Schema.Chains
import DataShapes.Proofs.Schema.Reading
import DataShapes.Proofs.Schema.Widening
import DataShapes.Proofs.Generation.Columns
import DataShapes.Proofs.Generation.WiderWrites
import DataShapes.Proofs.Generation.Compatibility
import DataShapes.Proofs.Acceptance.Payloads
import DataShapes.Proofs.Acceptance.Omission
import DataShapes.Proofs.Acceptance.Records
import DataShapes.Proofs.Acceptance.Null
import DataShapes.Proofs.Acceptance.Lookups
import DataShapes.Proofs.Model.Constraints
import DataShapes.Proofs.Graph.Pairing
import DataShapes.Proofs.Schema.Parts
import DataShapes.Proofs.Inputs.Arms
import DataShapes.Proofs.Generation.ArraysFirst
import DataShapes.Proofs.Acceptance.JsonValues
import DataShapes.Proofs.Schema.Register
import DataShapes.Proofs.Text.Literals
import DataShapes.Proofs.Schema.Quotes
import DataShapes.Proofs.Generation.DistinctKeys
import DataShapes.Proofs.Inputs.Keys
import DataShapes.Proofs.Schema.Appending
import DataShapes.Proofs.Generation.Siblings
import DataShapes.Proofs.Generation.Clashes
import DataShapes.Proofs.Generation.Losses
import DataShapes.Proofs.Generation.Agreement
import DataShapes.Proofs.Generation.Retention
import DataShapes.Proofs.Schema.DateTime
import DataShapes.Proofs.Model.Decoding
