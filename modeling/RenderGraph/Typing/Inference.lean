import RenderGraph.Typing.Selection

/-!
# Type inference

Inference makes three sweeps over the nodes of a graph, each in order.

1. Input proxies take the greatest rank that is wanted of them, and so do the inputs of the compounds
   they belong to.
2. Nodes that are typed automatically take the overload that agrees best with their connections, and
   their bound values are brought in line with it.
3. Output proxies take the type of what feeds them, and so do the outputs of the compounds they belong
   to.

Later steps see what earlier steps did. A failing step leaves what was done before it.

## Main definitions

* `Typing.State`, `Typing.TypingM`
* `Typing.inputStep`, `Typing.autoStep`, `Typing.outputStep`: one node
* `Typing.sweep`: all nodes
* `Typing.infer`, `Typing.inferStrict`
-/

namespace RenderGraph.Typing

/-- The nodes as typed so far, and the warnings. -/
structure State where
  nodes : Keyed Node
  warnings : List String := []

/-- A computation on the nodes of a graph. -/
abbrev TypingM :=
  ExceptT Fault (StateM State)

/-- Issues a warning. -/
def warn (message : String) : TypingM Unit :=
  modify fun s => { s with warnings := s.warnings ++ [message] }

/-- Exchanges a node. -/
def setNode (n : Node) : TypingM Unit :=
  modify fun s => { s with nodes := s.nodes.insert n.id n }

/-- The compound inside which a proxy stands. -/
def owner? (nodes : Keyed Node) (proxy : Node) : Option Node :=
  match proxy.scope with
  | none | some "" => none
  | some scope => nodes.get? scope

/-! ### Input proxies -/

/-- The greatest rank that is wanted of an output of a proxy. -/
def demand (g : Graph) (nodes : Keyed Node) (proxy : Node) (port : Port) : Nat :=
  maxRank 0 ((g.outgoing proxy.id (some port.id)).filterMap (edgeTargetType? nodes))

/-- The outputs of an input proxy whose types change. -/
def inputUpdates (g : Graph) (nodes : Keyed Node) (proxy : Node) : Keyed DataType :=
  proxy.outputs.foldl (fun updates port =>
    let rank := demand g nodes proxy port
    if 0 < rank ∧ DataType.ofRank rank ≠ port.type then updates.insert port.id (DataType.ofRank rank)
    else updates) .empty

/-- The bound values of a compound whose inputs change their types. -/
def migrateInputs (updates : Keyed DataType) (inputs : List Port) (uniforms : Keyed BoundValue) :
    Except Fault (Keyed BoundValue) :=
  inputs.foldlM (fun uniforms port =>
    match updates.get? port.id with
    | some t =>
      if t = port.type then pure uniforms
      else do
        let bound ← BoundValue.migrate (uniforms.get? port.id) t
        pure (uniforms.insert port.id bound)
    | none => pure uniforms) uniforms

/-- Types an input proxy and its compound; tells whether anything changed. -/
def inputStep (g : Graph) (proxy : Node) : TypingM Bool := do
  if proxy.kind ≠ .graphInput then return false
  let updates := inputUpdates g (← get).nodes proxy
  if updates.size = 0 then return false
  setNode { proxy with outputs := retype proxy.outputs updates }
  match owner? (← get).nodes proxy with
  | none => return true
  | some compound =>
    let uniforms ← migrateInputs updates compound.inputs compound.uniforms
    setNode { compound with inputs := retype compound.inputs updates, uniforms }
    return true

/-! ### Nodes that are typed automatically -/

/-- Bound values in line with some inputs, and whether any changed. -/
def conformInputs (inputs : List Port) (uniforms : Keyed BoundValue) :
    Except Fault (Keyed BoundValue × Bool) :=
  inputs.foldlM (fun (uniforms, changed) port =>
    let current := uniforms.get? port.id
    if current.any (·.conforms port.type) then pure (uniforms, changed)
    else do
      let bound ← BoundValue.conform current port.type
      pure (uniforms.insert port.id bound, true)) (uniforms, false)

/-- The node as its connections want it, if that changes anything. Nodes without connections keep
their types. -/
def autoNode (g : Graph) (node : Node) : TypingM (Option Node) := do
  let nodes := (← get).nodes
  let c := connection g nodes node.id
  if !c.connected then return none
  let all ← (Source.overloads node.source : Except Fault _)
  let chosen := select? all (drivingEdges g nodes node.id) nodes c.rank
  let (inputs, outputs) ← match chosen with
    | some o => pure (o.inputs, o.outputs)
    | none =>
      warn ("No overload of node " ++ node.id ++ " matches rank " ++ toString c.rank ++
        "; keeping current ports")
      pure (node.inputs, node.outputs)
  let outputType :=
    match chosen, outputs with
    | some _, port :: _ => port.type
    | _, _ => node.outputType
  let (uniforms, valuesChanged) ← conformInputs inputs node.uniforms
  if inputs = node.inputs ∧ outputs = node.outputs ∧ outputType = node.outputType ∧
      valuesChanged = false then
    return none
  return some { node with inputs, outputs, outputType, uniforms }

/-- Types a node that is typed automatically; tells whether anything changed. -/
def autoStep (g : Graph) (node : Node) : TypingM Bool := do
  if !node.autoType || (node.kind ≠ .standard && node.kind ≠ .compound) then return false
  match ← autoNode g node with
  | none => return false
  | some updated =>
    setNode updated
    return true

/-! ### Output proxies -/

/-- The inputs of an output proxy whose types change. -/
def outputUpdates (g : Graph) (nodes : Keyed Node) (proxy : Node) : Keyed DataType :=
  proxy.inputs.foldl (fun updates port =>
    match (g.edgeInto proxy.id (some port.id)).bind (edgeSourceType? nodes) with
    | some t => if t = port.type then updates else updates.insert port.id t
    | none => updates) .empty

/-- Types an output proxy and its compound; tells whether anything changed. -/
def outputStep (g : Graph) (proxy : Node) : TypingM Bool := do
  if proxy.kind ≠ .graphOutput then return false
  let updates := outputUpdates g (← get).nodes proxy
  if updates.size = 0 then return false
  setNode { proxy with inputs := retype proxy.inputs updates }
  match owner? (← get).nodes proxy with
  | none => return true
  | some compound =>
    let outputs := retype compound.outputs updates
    setNode { compound with
      outputs, outputType := (outputs.head?.map (·.type)).getD compound.outputType }
    return true

/-! ### Sweeps -/

/-- Takes a step at every node, in order; tells whether anything changed. -/
def sweep (step : Node → TypingM Bool) : TypingM Bool := do
  let ids := (← get).nodes.keys
  ids.foldlM (fun changed id => do
    match (← get).nodes.get? id with
    | some node =>
      let now ← step node
      pure (changed || now)
    | none => pure changed) false

/-- The first sweep. -/
def inputSweep (g : Graph) : TypingM Bool :=
  sweep (inputStep g)

/-- The second sweep. -/
def autoSweep (g : Graph) : TypingM Bool :=
  sweep (autoStep g)

/-- The third sweep. -/
def outputSweep (g : Graph) : TypingM Bool :=
  sweep (outputStep g)

/-- The three sweeps; gives the new graph if anything changed. -/
def infer (g : Graph) : TypingM (Option Graph) := do
  let inputs ← inputSweep g
  let auto ← autoSweep g
  let outputs ← outputSweep g
  if inputs || auto || outputs then return some (g.replaceNodes (← get).nodes)
  return none

/-- The new graph if inference changes anything, and the warnings, which are issued also when
inference fails. -/
def run (g : Graph) : Except Fault (Option Graph) × List String :=
  let (result, state) := (infer g).run { nodes := g.nodes }
  (result, state.warnings)

/-- The node as its connections want it. It fails when no overload accepts them. -/
def inferStrict (g : Graph) (id : String) : TypingM Node := do
  let node ← g.requireNode id
  let nodes := (← get).nodes
  let c := connection g nodes node.id
  let all ← (Source.overloads node.source : Except Fault _)
  let chosen := select? all (drivingEdges g nodes node.id) nodes c.rank
  if c.connected && chosen.isNone then throw (.noOverload id)
  return (← autoNode g node).getD node

end RenderGraph.Typing
