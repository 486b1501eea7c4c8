import AbilityGraph.Canvas
import AbilityGraph.Canvas.Wire
import AbilityGraph.Catalog
import AbilityGraph.Catalog.Builtin
import AbilityGraph.Catalog.Wire
import AbilityGraph.CommandLine
import AbilityGraph.CommandLine.Arguments
import AbilityGraph.CommandLine.Help
import AbilityGraph.Compile
import AbilityGraph.Compile.Walk
import AbilityGraph.ConfigField
import AbilityGraph.Connect
import AbilityGraph.ControlFlow
import AbilityGraph.Definition
import AbilityGraph.Definition.Wire
import AbilityGraph.Edit
import AbilityGraph.FieldMap
import AbilityGraph.Graph
import AbilityGraph.Graph.Wire
import AbilityGraph.Issue
import AbilityGraph.Issue.Wire
import AbilityGraph.Json
import AbilityGraph.Json.Printer
import AbilityGraph.Json.Reader
import AbilityGraph.Json.Record
import AbilityGraph.Json.Token
import AbilityGraph.Json.Wire
import AbilityGraph.Json.Writer
import AbilityGraph.Main
import AbilityGraph.Number.Double
import AbilityGraph.Number.Numeral
import AbilityGraph.Number.Power
import AbilityGraph.Number.Shortest
import AbilityGraph.Pin
import AbilityGraph.Pin.Wire
import AbilityGraph.Reconcile
import AbilityGraph.Repeats
import AbilityGraph.Slots
import AbilityGraph.Step
import AbilityGraph.Step.Tree
import AbilityGraph.Step.Wire
import AbilityGraph.Text.Blank
import AbilityGraph.Text.Duration
import AbilityGraph.Text.RandomId
import AbilityGraph.Timestamp
import AbilityGraph.Validate
import AbilityGraph.Proofs.ControlFlow.Paths
import AbilityGraph.Proofs.ControlFlow.Search
import AbilityGraph.Proofs.ControlFlow.Components
import AbilityGraph.Proofs.Compile.Sequences
import AbilityGraph.Proofs.Compile.DepthFirst
import AbilityGraph.Proofs.Pins
import AbilityGraph.Proofs.Validate.Findings
import AbilityGraph.Proofs.Validate.Edges
import AbilityGraph.Proofs.Connect
import AbilityGraph.Proofs.Validate.AddEdge
import AbilityGraph.Proofs.Validate.Order
import AbilityGraph.Proofs.Edit
import AbilityGraph.Proofs.Validate.WellFormed
import AbilityGraph.Proofs.Catalog
import AbilityGraph.Proofs.Catalog.Builtin
import AbilityGraph.Proofs.Validate.Refusals
import AbilityGraph.Proofs.Connect.Order
import AbilityGraph.Proofs.Collisions
import AbilityGraph.Proofs.Compile.Visits
import AbilityGraph.Proofs.Validate.Unreachable
import AbilityGraph.Proofs.Compile.Live
import AbilityGraph.Proofs.Compile.Lossless
import AbilityGraph.Proofs.Checks
import AbilityGraph.Proofs.Reconcile
import AbilityGraph.Proofs.Compile.Mirror
import AbilityGraph.Proofs.Compile.Nulls
import AbilityGraph.Proofs.Validate.Nulls
import AbilityGraph.Proofs.Compile.Values
import AbilityGraph.Proofs.Compile.Conditions
import AbilityGraph.Proofs.FieldMap
import AbilityGraph.Proofs.Json.Wire
import AbilityGraph.Proofs.Json.ReadBack
import AbilityGraph.Proofs.Pin.ReadBack
import AbilityGraph.Proofs.Timestamp
import AbilityGraph.Proofs.Graph.ReadBack
import AbilityGraph.Proofs.Definition.ReadBack
import AbilityGraph.Proofs.Catalog.ReadBack
import AbilityGraph.Proofs.Step.Wire
import AbilityGraph.Proofs.Step.RoundTrip
import AbilityGraph.Proofs.Compile.Presentation
import AbilityGraph.Proofs.Number
import AbilityGraph.Proofs.Slots
import AbilityGraph.Proofs.Validate.Places
import AbilityGraph.Proofs.Canvas
import AbilityGraph.Proofs.Templates
import AbilityGraph.Proofs.Compile.Assembly
import AbilityGraph.Proofs.Json.OneLine
import AbilityGraph.Proofs.Step.Tree
