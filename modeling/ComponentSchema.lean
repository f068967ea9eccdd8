import ComponentSchema.Binary64.Shortest
import ComponentSchema.Json.Document
import ComponentSchema.Main
import ComponentSchema.Validation
import ComponentSchema.Yaml.Document
import ComponentSchema.Proofs.Entries
import ComponentSchema.Proofs.Registry
import ComponentSchema.Proofs.Definition
import ComponentSchema.Proofs.Runs
import ComponentSchema.Proofs.Frame
import ComponentSchema.Proofs.Moves
import ComponentSchema.Proofs.Validation
import ComponentSchema.Proofs.Linking
import ComponentSchema.Proofs.Origin
import ComponentSchema.Proofs.Faithful
import ComponentSchema.Proofs.Chains
import ComponentSchema.Proofs.Compiled
import ComponentSchema.Proofs.Blueprint
import ComponentSchema.Proofs.Unresolved
import ComponentSchema.Proofs.Shadowing
import ComponentSchema.Proofs.Keys
import ComponentSchema.Proofs.Grammar
import ComponentSchema.Proofs.Order
import ComponentSchema.Proofs.Conformance
import ComponentSchema.Proofs.Faults
import ComponentSchema.Proofs.Routes
import ComponentSchema.Proofs.Defects
import ComponentSchema.Proofs.Calls
import ComponentSchema.Proofs.Recursion
import ComponentSchema.Proofs.Trace
import ComponentSchema.Proofs.Reordering
import ComponentSchema.Proofs.Representation
import ComponentSchema.Proofs.Relaxation
import ComponentSchema.Proofs.Cardinality
import ComponentSchema.Proofs.Numbers
import ComponentSchema.Proofs.Conversion
import ComponentSchema.Proofs.Nearest
import ComponentSchema.Proofs.Shortest
import ComponentSchema.Proofs.ScalarText
import ComponentSchema.Proofs.Lossless
import ComponentSchema.Proofs.ByteOrder
import ComponentSchema.Proofs.Reports
