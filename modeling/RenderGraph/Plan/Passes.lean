import RenderGraph.Plan.Stages

/-!
# Planning of passes

A pass is planned when its output is first asked for, after the passes that it reads. A request for a
pass that is still being planned is answered with its id and a warning: the pass then reads what was
drawn in the previous frame.

## Main definitions

* `Plan.planOutput`: the pass of an output of a node that is no multi-stage node
* `Plan.plan`: the pass of any output
-/

namespace RenderGraph.Plan

variable (scene : Scene)

/-- What a search for the nodes of a pass asks of the plan. -/
def host (plan : Request → PlanM String) : Host State where
  texture source port := do
    let pass ← plan { node := source.id, port }
    sampler scene.config pass
  warn := warn

/-- Writes a fragment program; its warnings are issued also when it fails. -/
def writeFragment (subgraph : Subgraph) (node : Node) (port : Port) :
    PlanM (String × Keyed Uniform) := do
  let (result, state) :=
    (Shader.fragment scene subgraph.textures subgraph.order node port).run {}
  state.warnings.forM warn
  (result : Except Fault _)

/-- Builds the pass of an output. -/
def buildPass (plan : Request → PlanM String) (node : Node) (port : Option String) (key : String) :
    PlanM RenderPass := do
  let subgraph ← collect scene.graph (host scene plan) node.id
  modify fun s => { s with cycleBreaks := s.cycleBreaks + subgraph.cycleBreaks }
  let (fragment, uniforms) ← writeFragment scene subgraph node (node.outputPort port)
  pure { id := key, vertex := Shader.vertexProgram, fragment, uniforms,
         textures := subgraph.textures, bindings := ← bindings subgraph.textures.values }

/-- Plans the pass of an output of a node that is no multi-stage node. -/
def planOutput (plan : Request → PlanM String) (node : Node) (port : Option String) :
    PlanM String := do
  let key := passKey node port
  let state ← get
  match state.generated.get? key with
  | some pass => pure pass
  | none =>
    if key ∈ state.active then
      breakCycle key
      pure key
    else
      let p ← whileActive key (buildPass scene plan node port key)
      addPasses [p] key key
      pure key

/-- Plans the pass of an output; gives the pass to read. `fuel` bounds the number of passes that are
being planned at the same time. -/
def planWithin : Nat → Request → PlanM String
  | 0, _ => throw .tooDeep
  | fuel + 1, r => do
    let node ← (scene.graph.requireNode r.node : Except Fault _)
    if node.isMultiStage then planStages scene (planWithin fuel) node r.stage
    else planOutput scene (planWithin fuel) node r.port

/-- How many keys the outputs and stages of a node may have. -/
def keyCount (node : Node) : Nat :=
  node.stages.length + node.outputs.length + 1

/-- How many keys the outputs and stages of a graph may have. -/
def totalKeyCount (g : Graph) : Nat :=
  g.nodeList.foldr (fun node count => keyCount node + count) 0

/-- Plans the pass of an output; gives the pass to read. -/
def plan (r : Request) : PlanM String :=
  planWithin scene (totalKeyCount scene.graph + 1) r

end RenderGraph.Plan
