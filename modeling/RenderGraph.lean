import RenderGraph.Compile.Session
import RenderGraph.Typing.Inference
import RenderGraph.Proofs.Compile.Dependencies
import RenderGraph.Proofs.Compile.Totality
import RenderGraph.Proofs.Compile.Bindings
import RenderGraph.Proofs.Shader.Calls
import RenderGraph.Proofs.Compile.Boundary
import RenderGraph.Proofs.Compile.Recency
import RenderGraph.Proofs.Compile.DataFaults
import RenderGraph.Proofs.Agreement
import RenderGraph.Proofs.Shader.Contribution
import RenderGraph.Proofs.Variant
import RenderGraph.Proofs.Shader.Twin
import RenderGraph.Proofs.Plan.Twin
import RenderGraph.Proofs.Plan.TwinStages
import RenderGraph.Proofs.Compile.Record
import RenderGraph.Proofs.Compile.Reuse
import RenderGraph.Proofs.Compile.Refresh
import RenderGraph.Proofs.Shader.Statement
import RenderGraph.Proofs.Shader.MainStatements
import RenderGraph.Proofs.Compile.Scoping
import RenderGraph.Proofs.Shader.CallOrder
import RenderGraph.Proofs.Shader.InnerStatements
import RenderGraph.Proofs.Shader.InnerScoping
import RenderGraph.Proofs.Plan.EntryCalls
import RenderGraph.Proofs.Typing.Fixpoint
import RenderGraph.Proofs.Typing.Exchange
import RenderGraph.Proofs.Typing.Rounds
import RenderGraph.Proofs.Typing.Changes
import RenderGraph.Proofs.Typing.Mirroring
import RenderGraph.Proofs.Typing.Feedback
import RenderGraph.Proofs.Typing.Provenance
import RenderGraph.Proofs.Typing.Conversion
import RenderGraph.Proofs.Typing.Recurrence
import RenderGraph.Proofs.Compile.CycleCount
import RenderGraph.Proofs.Compile.DistinctIds
import RenderGraph.Proofs.Compile.FinalPass
import RenderGraph.Proofs.Compile.PreviousStage
import RenderGraph.Proofs.Plan.Traversal
import RenderGraph.Proofs.Plan.Sources
import RenderGraph.Proofs.Compile.LoopReads
import RenderGraph.Proofs.Plan.DefineLines
import RenderGraph.Proofs.Plan.Unrolling
import RenderGraph.Proofs.Value.Delimiting
import RenderGraph.Proofs.Compile.Outline
import RenderGraph.Proofs.Compile.Legibility
import RenderGraph.Proofs.Compile.SharedRecord
import RenderGraph.Proofs.Plan.Account
import RenderGraph.Proofs.Shader.Declaration
import RenderGraph.Proofs.Plan.Rebinding
import RenderGraph.Proofs.Plan.Declared
import RenderGraph.Proofs.Compile.ArrayLengths
import RenderGraph.Proofs.Compile.KeptValues
import RenderGraph.Proofs.Compile.GlobalReads
import RenderGraph.Proofs.Shader.Prototype
import RenderGraph.Proofs.Value.Conforming
import RenderGraph.Proofs.Plan.StageReferences
import RenderGraph.Proofs.Plan.StageValues
import RenderGraph.Proofs.Source.Stripping
import RenderGraph.Proofs.Source.Lines
import RenderGraph.Proofs.Source.Labels
import RenderGraph.Proofs.Plan.CommentedStages
import RenderGraph.Proofs.Shader.OwnArguments
import RenderGraph.Proofs.Compile.SharedLengths
import RenderGraph.Proofs.Compile.PassedArrays
import RenderGraph.Proofs.Shader.OverloadSizes
import RenderGraph.Proofs.Typing.OverloadChoice
import RenderGraph.Proofs.Value.RowPacking
import RenderGraph.Proofs.Value.NestedForm
import RenderGraph.Proofs.Shader.AssembledArray
import RenderGraph.Proofs.Graph.Connecting
