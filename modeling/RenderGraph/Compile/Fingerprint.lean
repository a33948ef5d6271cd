import RenderGraph.Compile.Result
import RenderGraph.Digest.Sha256

/-!
# Fingerprints of requests

Two requests have one fingerprint when they lead to the same programs. The fingerprint is the digest
of a text that records the request and the structure of the graph: bodies, kinds, scopes, ports,
types and lengths of bound values, stages and edges, but neither the bound values themselves nor
labels and positions.

## Main definitions

* `Compile.record`: the text that is digested
* `Compile.fingerprint`
-/

namespace RenderGraph.Compile

/-- Nodes in the order of their ids. -/
def sortedNodes (nodes : List Node) : List Node :=
  nodes.mergeSort fun a b => !(b.id < a.id)

/-- What the record holds about a port. -/
def portRecord (side : String) (p : Port) : String :=
  side ++ ":" ++ p.id ++ ":" ++ p.type.name

/-- What the record holds about a bound value. -/
def boundRecord (fallback : Number) (key : String) (bound : BoundValue) : Except Fault String := do
  let length ← BoundValue.declaredLength bound.type (some bound) bound.value fallback
  pure ("u:" ++ key ++ ":" ++ bound.type.name ++ ":" ++ Value.writtenOption toString length)

/-- What the record holds about a global value. -/
def globalRecord (fallback : Number) (node : Node) : Except Fault String := do
  if node.kind = .globalVar then
    let length ← BoundValue.declaredLength node.outputType (node.uniforms.get? "value")
      node.globalValue fallback
    pure ("g:" ++ Value.writtenOption toString length)
  else pure ""

/-- What the record holds about a stage. -/
def stageRecord (stage : Stage) : Except Fault String := do
  match stage.source with
  | none => throw .notText
  | some source =>
    pure ("stage:" ++ stage.id ++ ":" ++ toString stage.loop ++ ":" ++
      Value.writtenOption Feedback.written stage.feedback ++ source)

/-- What the record holds about a node. -/
def nodeRecord (fallback : Number) (node : Node) : Except Fault String := do
  let keys := node.uniforms.entries.mergeSort fun a b => !(b.1 < a.1)
  let bound ← keys.mapM fun b => boundRecord fallback b.1 b.2
  let global ← globalRecord fallback node
  let stages ← node.stages.mapM stageRecord
  pure (String.join
    (["node:" ++ node.id ++ ":" ++ node.kind.name ++ ":" ++ node.outputType.name,
      "scope:" ++ node.scope.getD "" ++ ":global:" ++ node.globalName.getD "",
      "src:" ++ node.source] ++
    node.inputs.map (portRecord "in") ++ node.outputs.map (portRecord "out") ++
    bound ++ [global] ++ stages))

/-- What the record holds about an edge. -/
def edgeRecord (e : Edge) : String :=
  let port := Value.writtenOption (id : String → String)
  "edge:" ++ e.source ++ ":" ++ port e.sourcePort ++ ":" ++ e.target ++ ":" ++ port e.targetPort

/-- The text that records a request. -/
def record (scene : Scene) (target : Target) : Except Fault String := do
  let nodes ← (sortedNodes scene.graph.nodeList).mapM (nodeRecord scene.fallback)
  pure (String.join
    (["target:" ++ Value.writtenOption (id : String → String) target.node ++ ":" ++
        target.port.getD ""] ++
    nodes ++ scene.graph.edges.map edgeRecord))

/-- The fingerprint of a request. -/
def fingerprint (scene : Scene) (target : Target) : Except Fault String :=
  (record scene target).map Sha256.hexDigest

end RenderGraph.Compile
