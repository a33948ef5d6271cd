import Mathlib.Logic.Relation
import RenderGraph.Shader.Body
import RenderGraph.Shader.Uniform
import RenderGraph.Source.Pragma

/-!
# Causes of failure

Why the planning of an existing output may fail: the graph is malformed, a value cannot be packed, or
something in a handle, a stage or a widget cannot be read. Each cause names the place in the graph
where it lies.

## Main definitions

* `Graph.Encloses`: one compound stands inside the scope of another
* `Graph.Inlines`: a node may be inlined in a pass
* `GraphFault`, `PackingFault`, `ReadingFault`
* `Cause`: one of them
-/

namespace RenderGraph

/-- A compound stands inside the scope of a node. -/
def Graph.Encloses (g : Graph) (outer inner : String) : Prop :=
  ∃ n ∈ g.nodeList, n.kind = .compound ∧ n.id = inner ∧ n.scope = some outer

/-- A node may be inlined in a pass: it is one of the graph and is not drawn stage by stage. -/
def Graph.Inlines (g : Graph) (n : Node) : Prop :=
  n ∈ g.nodeList ∧ n.isMultiStage = false

variable (scene : Scene)

/-- The graph is malformed. -/
inductive GraphFault : Fault → Prop
  /-- The source of an edge does not exist. -/
  | source {e : Edge} (he : e ∈ scene.graph.edges) (hs : scene.graph.node? e.source = none) :
      GraphFault (.nodeNotFound e.source (some e.target))
  /-- A compound stands inside its own scope. -/
  | contains {c : String} (h : Relation.TransGen scene.graph.Encloses c c) :
      GraphFault (.selfContaining c)
  /-- A multi-stage node has no stages. -/
  | stageless {n : Node} (hn : n ∈ scene.graph.nodeList) (hk : n.kind = .multiStage)
      (hs : n.stages = []) : GraphFault (.notInlined .multiStage)

/-- A capacity cannot be found or a value cannot be packed. -/
inductive PackingFault (f : Fault) : Prop
  /-- The capacity of an array input. -/
  | input {n : Node} {port : Port} (hn : n ∈ scene.graph.nodeList) (hp : port ∈ n.inputs)
      (ht : port.type.isArray = true)
      (h : Shader.portCapacity port n.uniforms scene.fallback = .error f)
  /-- The capacity of an array that a stage takes. -/
  | parameter {n : Node} {stage : Stage} {io : Source.Interface} {port : Port}
      (hn : n ∈ scene.graph.nodeList) (hs : stage ∈ n.stages)
      (hi : Source.interface stage.text = .ok io) (hp : port ∈ io.inputs)
      (ht : port.type.isArray = true)
      (h : BoundValue.capacity port.type none scene.fallback = .error f)
  /-- The length and the packed form of a bound value. -/
  | bound {n : Node} {key name : String} {b : BoundValue} {d : Declarations}
      (hn : n ∈ scene.graph.nodeList) (hb : n.uniforms.get? key = some b)
      (h : Shader.declareBound scene name b d = .error f)
  /-- The length and the packed form of a global value. -/
  | global {n : Node} {d : Declarations} (hn : n ∈ scene.graph.nodeList) (hk : n.kind = .globalVar)
      (h : Shader.declareGlobal scene n d = .error f)
  /-- The packed defaults of an input proxy. -/
  | proxy {n : Node} {d : Declarations} (hn : n ∈ scene.graph.nodeList) (hk : n.kind = .graphInput)
      (h : Shader.declareProxy n d = .error f)

/-- A text or a number cannot be read. -/
inductive ReadingFault (f : Fault) : Prop
  /-- The index in the handle of an edge. -/
  | handle {e : Edge} (he : e ∈ scene.graph.edges) (h : e.arrayElement = .error f)
  /-- The directives in the body of a stage. -/
  | interface {n : Node} {stage : Stage} (hn : n ∈ scene.graph.nodeList) (hs : stage ∈ n.stages)
      (h : Source.interface stage.text = .error f)
  /-- The body of a stage. -/
  | body {n : Node} {stage : Stage} (hn : n ∈ scene.graph.nodeList) (hs : stage ∈ n.stages)
      (h : stage.body = .error f)
  /-- The number of iterations of a stage. -/
  | loop {n : Node} {stage : Stage} {body : String} (hn : n ∈ scene.graph.nodeList)
      (hs : stage ∈ n.stages) (hb : stage.body = .ok body) (h : stage.loopCount body = .error f)
  /-- The selected index of an array input. -/
  | index {n : Node} {port : Port} (hn : n ∈ scene.graph.nodeList) (hp : port ∈ n.inputs)
      (ht : port.type.isArray = true)
      (h : BoundValue.statedIndex (n.uniforms.get? port.id) = .error f)

/-- Why the planning of an existing output may fail. -/
inductive Cause (f : Fault) : Prop
  | graph (h : GraphFault scene f)
  | packing (h : PackingFault scene f)
  | reading (h : ReadingFault scene f)

end RenderGraph
