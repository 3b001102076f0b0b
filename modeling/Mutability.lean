import Mutability.Checker.Expression
import Mutability.Checker.Machine
import Mutability.Checker.Statement
import Mutability.Checker.Table
import Mutability.Checker.Unit
import Mutability.Codec.Configuration
import Mutability.Codec.ConfigurationToml
import Mutability.Codec.Metrics
import Mutability.Codec.Position
import Mutability.Codec.Program
import Mutability.Codec.Qualifier
import Mutability.Codec.Report
import Mutability.Collection.OrderedMap
import Mutability.Collection.OrderedSet
import Mutability.CommandLine.Arguments
import Mutability.CommandLine.Files
import Mutability.CommandLine.Run
import Mutability.Configuration
import Mutability.Construction
import Mutability.Decimal.Double
import Mutability.Decimal.Range
import Mutability.Decimal.Shortest
import Mutability.Defaulting
import Mutability.Diagnostic
import Mutability.Fault
import Mutability.Field
import Mutability.HostType
import Mutability.Initialization
import Mutability.Json.Basic
import Mutability.Json.Number
import Mutability.Json.Printer
import Mutability.Json.Reader
import Mutability.Json.Shape
import Mutability.Law.Basic
import Mutability.Law.Sample
import Mutability.Main
import Mutability.Metrics
import Mutability.Policy
import Mutability.Position
import Mutability.Program
import Mutability.Proofs.ReportAppend
import Mutability.Qualifier.Basic
import Mutability.Qualifier.Hierarchy
import Mutability.Qualifier.Name
import Mutability.Qualifier.Order
import Mutability.Report
import Mutability.Text.Blank
import Mutability.Toml.Basic
import Mutability.Toml.Reader
import Mutability.Toml.Scalar
import Mutability.Validity
import Mutability.Viewpoint
import Mutability.Proofs.Lists
import Mutability.Proofs.Accumulation
import Mutability.Proofs.CheckerSteps
import Mutability.Proofs.Annotation
import Mutability.Proofs.BodyRuns
import Mutability.Proofs.MachineRuns
import Mutability.Proofs.ExpressionFrame
import Mutability.Proofs.Typing
import Mutability.Proofs.TypingTables
import Mutability.Proofs.CleanBodies
import Mutability.Proofs.CleanReports
import Mutability.Proofs.Evaluation
import Mutability.Proofs.ImplicitImmutability
import Mutability.Proofs.Erasure
import Mutability.Proofs.Noninterference
import Mutability.Proofs.Locality
import Mutability.Proofs.Modularity
import Mutability.Proofs.Faults
import Mutability.Proofs.Concrete
import Mutability.Proofs.Placeholder
import Mutability.Proofs.Views
import Mutability.Proofs.DeclaredPositions
import Mutability.Proofs.WrittenDefaults
import Mutability.Proofs.BodyTraces
import Mutability.Proofs.IllegalAnnotations
import Mutability.Proofs.PositionLedger
import Mutability.Proofs.ConstructorSummaries
import Mutability.Proofs.InitializationOrder
import Mutability.Proofs.ObjectStates
import Mutability.Proofs.ProgramReading
import Mutability.Proofs.StageOrders
import Mutability.Proofs.PrintedText
import Mutability.Proofs.ConfigurationReading
import Mutability.Proofs.RepeatedDefaulting
import Mutability.Proofs.Priorities
import Mutability.Proofs.StaticBinding
import Mutability.Proofs.VariableTracking
import Mutability.Proofs.AssignmentReports
import Mutability.Proofs.ObjectCreation
import Mutability.Proofs.ConstructorWrites
import Mutability.Proofs.AdaptedSignatures
import Mutability.Proofs.HierarchyTables
import Mutability.Proofs.QualifierBounds
import Mutability.Proofs.AnnotationNames
import Mutability.Proofs.AnnotationResolution
import Mutability.Proofs.MetricsConservation
