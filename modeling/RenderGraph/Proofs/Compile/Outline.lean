import RenderGraph.Compile.Fingerprint
import RenderGraph.Proofs.Outcome

/-!
# Outlines of requests

The record of a request is the text of an outline: the target, the nodes in the order of their ids with
their kinds, types, scopes, names, bodies, ports, bound values and stages, and the edges.

## Main definitions

* `Compile.Outline`, `Compile.NodeOutline`, `Compile.EdgeOutline`: what is to be recorded
* `Compile.outline`: the outline of a request

## Main results

* `Compile.record_eq`: a record is the text of an outline
* `Compile.NodeOutline.text_absorb`: a body may end with the record of an output
-/

namespace RenderGraph.Compile

/-! ### Outlines -/

/-- What is recorded of a port. -/
structure PortOutline where
  id : String
  type : DataType
  deriving DecidableEq

/-- What is recorded of a bound value. -/
structure BoundOutline where
  key : String
  type : DataType
  /-- The length of the uniform, if the value is an array. -/
  length : Option Nat
  deriving DecidableEq

/-- The settings of a feedback buffer in their written form, if there is such a buffer. -/
abbrev WrittenFeedback :=
  { s : String // ∃ feedback, Value.writtenOption Feedback.written feedback = s }

/-- What is recorded of a stage. -/
structure StageOutline where
  id : String
  loop : Int
  feedback : WrittenFeedback
  source : String
  deriving DecidableEq

/-- What is recorded of a node. -/
structure NodeOutline where
  id : String
  kind : NodeKind
  type : DataType
  /-- The compound inside which the node stands; empty if it stands in none. -/
  scope : String
  globalName : String
  source : String
  inputs : List PortOutline
  outputs : List PortOutline
  /-- The bound values in the order of their keys. -/
  bound : List BoundOutline
  /-- The length of the global value, if the node has one. -/
  globalLength : Option (Option Nat)
  stages : List StageOutline
  deriving DecidableEq

/-- What is recorded of an edge. -/
structure EdgeOutline where
  source : String
  sourcePort : Option String
  target : String
  targetPort : Option String
  deriving DecidableEq

/-- What is recorded of a request. -/
structure Outline where
  node : Option String
  /-- The requested output; empty if none is named. -/
  port : String
  /-- The nodes in the order of their ids. -/
  nodes : List NodeOutline
  edges : List EdgeOutline
  deriving DecidableEq

def portOutline (p : Port) : PortOutline where
  id := p.id
  type := p.type

def boundOutline (fallback : Number) (key : String) (bound : BoundValue) :
    Except Fault BoundOutline := do
  let length ← BoundValue.declaredLength bound.type (some bound) bound.value fallback
  pure { key, type := bound.type, length }

/-- The length of the global value of a node. -/
def globalOutline (fallback : Number) (node : Node) : Except Fault (Option (Option Nat)) :=
  if node.kind = .globalVar then
    (BoundValue.declaredLength node.outputType (node.uniforms.get? "value") node.globalValue
      fallback).map some
  else pure none

def stageOutline (stage : Stage) : Except Fault StageOutline :=
  match stage.source with
  | none => throw .notText
  | some source =>
    pure { id := stage.id, loop := stage.loop, feedback := ⟨_, stage.feedback, rfl⟩, source }

def nodeOutline (fallback : Number) (node : Node) : Except Fault NodeOutline := do
  let keys := node.uniforms.entries.mergeSort fun a b => !(b.1 < a.1)
  let bound ← keys.mapM fun b => boundOutline fallback b.1 b.2
  let globalLength ← globalOutline fallback node
  let stages ← node.stages.mapM stageOutline
  pure {
    id := node.id, kind := node.kind, type := node.outputType, scope := node.scope.getD "",
    globalName := node.globalName.getD "", source := node.source,
    inputs := node.inputs.map portOutline, outputs := node.outputs.map portOutline, bound,
    globalLength, stages }

def edgeOutline (e : Edge) : EdgeOutline where
  source := e.source
  sourcePort := e.sourcePort
  target := e.target
  targetPort := e.targetPort

/-- The outline of a request. -/
def outline (scene : Scene) (target : Target) : Except Fault Outline := do
  let nodes ← (sortedNodes scene.graph.nodeList).mapM (nodeOutline scene.fallback)
  pure { node := target.node, port := target.port.getD "", nodes,
         edges := scene.graph.edges.map edgeOutline }

/-! ### Texts of outlines -/

/-- The text of a port on one side of a node. -/
def PortOutline.text (side : String) (p : PortOutline) : String :=
  side ++ ":" ++ p.id ++ ":" ++ p.type.name

def BoundOutline.text (b : BoundOutline) : String :=
  "u:" ++ b.key ++ ":" ++ b.type.name ++ ":" ++ Value.writtenOption toString b.length

/-- The text of the length of a global value. -/
def globalText (length : Option Nat) : String :=
  "g:" ++ Value.writtenOption toString length

def StageOutline.text (s : StageOutline) : String :=
  "stage:" ++ s.id ++ ":" ++ toString s.loop ++ ":" ++ s.feedback.val ++ s.source

def NodeOutline.text (n : NodeOutline) : String :=
  String.join
    (["node:" ++ n.id ++ ":" ++ n.kind.name ++ ":" ++ n.type.name,
      "scope:" ++ n.scope ++ ":global:" ++ n.globalName,
      "src:" ++ n.source] ++
    n.inputs.map (PortOutline.text "in") ++ n.outputs.map (PortOutline.text "out") ++
    n.bound.map BoundOutline.text ++ [String.join (n.globalLength.toList.map globalText)] ++
    n.stages.map StageOutline.text)

def EdgeOutline.text (e : EdgeOutline) : String :=
  "edge:" ++ e.source ++ ":" ++ Value.writtenOption id e.sourcePort ++ ":" ++ e.target ++ ":" ++
    Value.writtenOption id e.targetPort

def Outline.text (o : Outline) : String :=
  String.join
    (["target:" ++ Value.writtenOption (id : String → String) o.node ++ ":" ++ o.port] ++
    o.nodes.map NodeOutline.text ++ o.edges.map EdgeOutline.text)

theorem boundRecord_eq (fallback : Number) (key : String) (bound : BoundValue) :
    boundRecord fallback key bound = (boundOutline fallback key bound).map BoundOutline.text := by
  unfold boundRecord boundOutline
  cases BoundValue.declaredLength bound.type (some bound) bound.value fallback <;> rfl

theorem stageRecord_eq (stage : Stage) :
    stageRecord stage = (stageOutline stage).map StageOutline.text := by
  unfold stageRecord stageOutline
  cases stage.source <;> rfl

theorem globalRecord_eq (fallback : Number) (node : Node) :
    globalRecord fallback node =
      (globalOutline fallback node).map fun l => String.join (l.toList.map globalText) := by
  have hjoin (length : Option Nat) : String.join ([length].map globalText) = globalText length :=
    String.empty_append
  unfold globalRecord globalOutline
  split
  · cases BoundValue.declaredLength node.outputType (node.uniforms.get? "value") node.globalValue
      fallback with
    | error e => rfl
    | ok length => exact congrArg Except.ok (hjoin length).symm
  · rfl

theorem nodeRecord_eq (fallback : Number) (node : Node) :
    nodeRecord fallback node = (nodeOutline fallback node).map NodeOutline.text := by
  have hbound : (fun b : String × BoundValue => boundRecord fallback b.1 b.2) =
      fun b => (boundOutline fallback b.1 b.2).map BoundOutline.text :=
    funext fun b => boundRecord_eq fallback b.1 b.2
  have hstage : stageRecord = fun s => (stageOutline s).map StageOutline.text := funext stageRecord_eq
  unfold nodeRecord nodeOutline
  dsimp only
  rw [hbound, hstage, mapM_map, mapM_map, globalRecord_eq]
  generalize (node.uniforms.entries.mergeSort fun a b => !(b.1 < a.1)).mapM
    (fun b => boundOutline fallback b.1 b.2) = bound
  generalize globalOutline fallback node = globalLength
  generalize node.stages.mapM stageOutline = stages
  cases bound with
  | error e => rfl
  | ok bound =>
  cases globalLength with
  | error e => rfl
  | ok globalLength =>
  cases stages with
  | error e => rfl
  | ok stages =>
    have hports (side : String) (ports : List Port) :
        ports.map (portRecord side) = (ports.map portOutline).map (PortOutline.text side) := by
      rw [List.map_map]
      rfl
    rw [hports, hports]
    rfl

/-- A record is the text of an outline. -/
theorem record_eq (scene : Scene) (target : Target) :
    record scene target = (outline scene target).map Outline.text := by
  have hnode : nodeRecord scene.fallback = fun n => (nodeOutline scene.fallback n).map NodeOutline.text :=
    funext (nodeRecord_eq scene.fallback)
  unfold record outline
  rw [hnode, mapM_map]
  cases (sortedNodes scene.graph.nodeList).mapM (nodeOutline scene.fallback) with
  | error e => rfl
  | ok nodes =>
    have hedges : scene.graph.edges.map edgeRecord =
        (scene.graph.edges.map edgeOutline).map EdgeOutline.text := by
      rw [List.map_map]
      rfl
    rw [hedges]
    rfl

/-! ### Where a body ends -/

/-- The text of what follows the body of a node. -/
def NodeOutline.parts (n : NodeOutline) : List Char :=
  (n.inputs.map (PortOutline.text "in")).flatMap String.toList ++
    ((n.outputs.map (PortOutline.text "out")).flatMap String.toList ++
    ((n.bound.map BoundOutline.text).flatMap String.toList ++
    ((n.globalLength.toList.map globalText).flatMap String.toList ++
    (n.stages.map StageOutline.text).flatMap String.toList)))

theorem NodeOutline.toList_text (n : NodeOutline) :
    n.text.toList = "node:".toList ++ (n.id.toList ++ (":".toList ++ (n.kind.name.toList ++
      (":".toList ++ (n.type.name.toList ++ ("scope:".toList ++ (n.scope.toList ++
      (":global:".toList ++ (n.globalName.toList ++ ("src:".toList ++
      (n.source.toList ++ n.parts))))))))))) := by
  simp only [text, parts, String.toList_join, List.flatMap_append, List.flatMap_cons,
    List.flatMap_nil, List.append_nil, String.toList_append, List.append_assoc]

/-- The record of an output may as well stand at the end of the body. -/
theorem NodeOutline.text_absorb (n : NodeOutline) (h : n.inputs = []) (p : PortOutline)
    (ps : List PortOutline) :
    NodeOutline.text { n with source := n.source ++ p.text "out", outputs := ps } =
      NodeOutline.text { n with outputs := p :: ps } := by
  rw [← String.toList_inj, toList_text, toList_text]
  simp only [parts, h, List.map_nil, List.flatMap_nil, List.nil_append, List.map_cons,
    List.flatMap_cons, String.toList_append, List.append_assoc]

end RenderGraph.Compile
