import LazyBinding.Accessor
import LazyBinding.ClassPath
import LazyBinding.CommandLine.Arguments
import LazyBinding.CommandLine.Check
import LazyBinding.CommandLine.Command
import LazyBinding.CommandLine.Document
import LazyBinding.CommandLine.Exporting
import LazyBinding.CommandLine.Run
import LazyBinding.Compilation
import LazyBinding.Conversion
import LazyBinding.Decimal.Binary
import LazyBinding.Decimal.Layout
import LazyBinding.Decimal.Numeral
import LazyBinding.Decimal.Shortest
import LazyBinding.Description
import LazyBinding.Dict
import LazyBinding.FieldType
import LazyBinding.Files
import LazyBinding.Files.Tree
import LazyBinding.Glob
import LazyBinding.Glob.Search
import LazyBinding.Hook
import LazyBinding.Json.Cursor
import LazyBinding.Json.Fault
import LazyBinding.Json.Filter
import LazyBinding.Json.Filter.Reader
import LazyBinding.Json.Filter.Token
import LazyBinding.Json.FilterLanguage
import LazyBinding.Json.Number
import LazyBinding.Json.Pointer
import LazyBinding.Json.Quoted
import LazyBinding.Json.Reader
import LazyBinding.Json.Tree
import LazyBinding.Json.Writer
import LazyBinding.Main
import LazyBinding.Manifest
import LazyBinding.Manifest.Fault
import LazyBinding.Object
import LazyBinding.Object.Access
import LazyBinding.Object.Analysis
import LazyBinding.Object.Call
import LazyBinding.Object.Construction
import LazyBinding.Object.Encoding
import LazyBinding.Object.Error
import LazyBinding.Object.Export
import LazyBinding.Object.Place
import LazyBinding.Object.Serialization
import LazyBinding.OrderedSet
import LazyBinding.Proofs.Acceptance
import LazyBinding.Proofs.AcceptedInstances
import LazyBinding.Proofs.AccessorCalls
import LazyBinding.Proofs.AccessorNames
import LazyBinding.Proofs.Admission
import LazyBinding.Proofs.AncestorWalk
import LazyBinding.Proofs.Ancestry
import LazyBinding.Proofs.AtRest
import LazyBinding.Proofs.Binding
import LazyBinding.Proofs.CacheGrowth
import LazyBinding.Proofs.CheckAndExport
import LazyBinding.Proofs.ClassGraph
import LazyBinding.Proofs.ClosedDescription
import LazyBinding.Proofs.CompilationSteps
import LazyBinding.Proofs.CompiledTables
import LazyBinding.Proofs.CompleteExport
import LazyBinding.Proofs.Conformity
import LazyBinding.Proofs.ConversionSteps
import LazyBinding.Proofs.DescribedClasses
import LazyBinding.Proofs.DescribedExport
import LazyBinding.Proofs.Diagnosis
import LazyBinding.Proofs.DistinctProblems
import LazyBinding.Proofs.DocumentText
import LazyBinding.Proofs.DoubleBits
import LazyBinding.Proofs.EncoderAgreement
import LazyBinding.Proofs.Evolution
import LazyBinding.Proofs.ExitStatus
import LazyBinding.Proofs.Exploration
import LazyBinding.Proofs.ExportRelation
import LazyBinding.Proofs.FieldAccess
import LazyBinding.Proofs.FieldClasses
import LazyBinding.Proofs.FieldLocations
import LazyBinding.Proofs.FieldReading
import LazyBinding.Proofs.FieldTruth
import LazyBinding.Proofs.Flattening
import LazyBinding.Proofs.History
import LazyBinding.Proofs.Inheritance
import LazyBinding.Proofs.InheritedFields
import LazyBinding.Proofs.Instances
import LazyBinding.Proofs.IntegerTexts
import LazyBinding.Proofs.LeadingDocument
import LazyBinding.Proofs.LockStep
import LazyBinding.Proofs.NearestDouble
import LazyBinding.Proofs.NestedWork
import LazyBinding.Proofs.NestingDepth
import LazyBinding.Proofs.NormalForm
import LazyBinding.Proofs.NumberText
import LazyBinding.Proofs.Passing
import LazyBinding.Proofs.PlainDocument
import LazyBinding.Proofs.PlainExport
import LazyBinding.Proofs.ProblemReports
import LazyBinding.Proofs.ReadTransparency
import LazyBinding.Proofs.ReaderLocality
import LazyBinding.Proofs.References
import LazyBinding.Proofs.RegistryOrder
import LazyBinding.Proofs.Rendering
import LazyBinding.Proofs.ReportOrder
import LazyBinding.Proofs.RipeAnalysis
import LazyBinding.Proofs.Ripening
import LazyBinding.Proofs.SchemaOperations
import LazyBinding.Proofs.SchemaValidation
import LazyBinding.Proofs.Settlement
import LazyBinding.Proofs.ShortestSpelling
import LazyBinding.Proofs.Steadiness
import LazyBinding.Proofs.StringText
import LazyBinding.Proofs.Termination
import LazyBinding.Proofs.TextRoundTrip
import LazyBinding.Proofs.TokenLocality
import LazyBinding.Proofs.Transaction
import LazyBinding.Proofs.TypeDefinitions
import LazyBinding.Proofs.WellKeyed
import LazyBinding.Proofs.WrittenNumber
import LazyBinding.Registry
import LazyBinding.Report
import LazyBinding.Schema
import LazyBinding.SchemaCache
import LazyBinding.SchemaError
import LazyBinding.Session
import LazyBinding.Sorted
import LazyBinding.Text.Blank
import LazyBinding.Text.Lines
import LazyBinding.Text.Lowercase
import LazyBinding.Text.Quoted
import LazyBinding.Text.Ranges
import LazyBinding.Text.Visible
import LazyBinding.TypeDefinition
import LazyBinding.Value.Basic
import LazyBinding.Value.Decoding
import LazyBinding.Value.Scalar
import LazyBinding.Value.View
