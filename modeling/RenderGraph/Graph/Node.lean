import RenderGraph.Graph.Port
import RenderGraph.Graph.Stage
import RenderGraph.Graph.Kind
import RenderGraph.Text.Word

/-!
# Nodes

A node has inputs and outputs, a body, and values bound to its inputs. Its id, with every character
that may not stand in an identifier exchanged for an underscore, occurs in the names that the node
contributes to a program.

## Main definitions

* `Node`, `Node.ofValue`
* `Node.outputPort`, `Node.findOutput`, `Node.findInput`
* `Node.uniformName`, `Node.outputVar`, `Node.runName`: names in generated programs
-/

namespace RenderGraph

/-- A node of a graph. -/
structure Node where
  id : String
  kind : NodeKind := .standard
  /-- What the editor calls the node; it occurs in comments only. -/
  label : Value := .text ""
  /-- The body. -/
  source : String := ""
  inputs : List Port := []
  outputs : List Port := []
  /-- The type of the output of a node that lists none. -/
  outputType : DataType := .vec4
  /-- The values bound to inputs. -/
  uniforms : Keyed BoundValue := .empty
  /-- The overload is chosen by what the node is connected to. -/
  autoType : Bool := false
  /-- The compound inside which the node stands. -/
  scope : Option String := none
  globalName : Option String := none
  globalValue : Value := .null
  stages : List Stage := []
  /-- The place in the editor; it has no meaning here. -/
  position : Option (List Value) := none

namespace Node

variable (n : Node)

/-! ### Names in generated programs -/

/-- An id with every character that may not stand in an identifier exchanged for an underscore. -/
def cleanName (id : String) : String :=
  String.ofList (id.toList.map fun c => if Text.isIdentChar c then c else '_')

def cleanId : String :=
  cleanName n.id

/-- The name of the node's entry function. -/
def runName : String :=
  "node_" ++ n.cleanId ++ "_run"

/-- The uniform that carries the value bound to an input. -/
def uniformName (port : String) : String :=
  "u_" ++ n.cleanId ++ "_" ++ port

/-- The variable that holds an output. -/
def outputVar (port : String) : String :=
  "out_" ++ n.cleanId ++ "_" ++ port

/-- The uniform that carries a global value. -/
def globalUniformName : String :=
  match n.globalName with
  | none | some "" => "u_global_" ++ n.cleanId
  | some name => name

/-- What a program calls the node in comments: its label, unless that counts as false. -/
def title : String :=
  match n.label.truth with
  | .ok true => n.label.asText
  | _ => n.id

/-! ### Ports -/

/-- The node is drawn stage by stage. -/
def isMultiStage : Bool :=
  n.kind = .multiStage && !n.stages.isEmpty

/-- The first output; a node that lists none has one of its output type. -/
def defaultOutput : Port :=
  n.outputs.headD { id := "out", name := some "Output", type := n.outputType }

/-- The outputs; a node that lists none has its default output. -/
def effectiveOutputs : List Port :=
  if n.outputs.isEmpty then [n.defaultOutput] else n.outputs

/-- The output with a given id, else the default output. -/
def outputPort (port : Option String) : Port :=
  match port with
  | none | some "" => n.defaultOutput
  | some id => (Port.find? n.outputs id).getD n.defaultOutput

/-- The port of an output is the default output or one that is listed. -/
theorem outputPort_eq_or_mem (n : Node) (port : Option String) :
    n.outputPort port = n.defaultOutput ∨ n.outputPort port ∈ n.outputs := by
  unfold outputPort
  split
  · exact Or.inl rfl
  · exact Or.inl rfl
  · next id _ =>
    cases hf : Port.find? n.outputs id with
    | none => exact Or.inl rfl
    | some p => exact Or.inr (List.mem_of_find?_eq_some hf)

/-- A node that lists outputs has no other port. -/
theorem outputPort_mem_outputs {n : Node} (h : n.outputs ≠ []) (port : Option String) :
    n.outputPort port ∈ n.outputs := by
  refine (n.outputPort_eq_or_mem port).elim (fun he => ?_) fun hmem => hmem
  obtain ⟨p, ps, hp⟩ := List.exists_cons_of_ne_nil h
  rw [he, defaultOutput, hp]
  exact List.mem_cons_self

theorem outputPort_mem (n : Node) (port : Option String) : n.outputPort port ∈ n.effectiveOutputs := by
  unfold effectiveOutputs
  split
  · next h =>
    rw [List.isEmpty_iff] at h
    refine List.mem_singleton.2 ((n.outputPort_eq_or_mem port).resolve_right ?_)
    simp [h]
  · next h => exact outputPort_mem_outputs (by simpa using h) port

/-- The output with a given id. -/
def findOutput (port : Option String) : Option Port :=
  port.bind fun id =>
    match Port.find? n.outputs id with
    | some p => some p
    | none => if n.outputs.isEmpty && id == "out" then some n.defaultOutput else none

/-- The input with a given id. -/
def findInput (port : Option String) : Option Port :=
  port.bind (Port.find? n.inputs)

/-- An input is found by its id among the inputs of the node. -/
theorem findInput_eq_some {n : Node} {port : Option String} {p : Port}
    (h : n.findInput port = some p) : port = some p.id ∧ p ∈ n.inputs := by
  obtain ⟨id, hid, hp⟩ := Option.bind_eq_some_iff.1 h
  have hport : p.id = id := by simpa using List.find?_some hp
  exact ⟨by rw [hid, hport], List.mem_of_find?_eq_some hp⟩

/-! ### Documents -/

/-- The values bound to inputs, from a list of pairs of a key and a bound value. A repeated key keeps its
first place and takes its last value. -/
def uniformsOfValue (v : Value) : Except Fault (Keyed BoundValue) := do
  let pairs ← (← v.partsOrNone).mapM fun pair =>
    match pair with
    | .list [.text key, bound] => pure (key, bound)
    | _ => throw .wrongShape
  let bounds ← (Keyed.ofList pairs).entries.mapM fun (key, bound) => do
    pure (key, ← BoundValue.ofValue bound)
  pure (Keyed.ofList bounds)

/-- The kind of node that a document describes. -/
def kindOfValue (type data : Value) : Except Fault NodeKind := do
  match type with
  | .text "graphInput" => pure .graphInput
  | .text "graphOutput" => pure .graphOutput
  | _ =>
    if ← (← data.field "isGlobalVar").truth then pure .globalVar
    else if ← (← data.field "isCompound").truth then pure .compound
    else if ← (← data.field "passes").truth then pure .multiStage
    else pure .standard

/-- The ports of a node. Proxies show on one side what a document may list on the other. -/
def arrangePorts (kind : NodeKind) (inputs outputs : List Port) : List Port × List Port :=
  if kind = .graphInput ∧ outputs.isEmpty then ([], inputs)
  else if kind = .graphOutput ∧ inputs.isEmpty then (outputs, [])
  else (inputs, outputs)

/-- The place in the editor that a document gives. -/
def positionOfValue (v : Value) : Except Fault (Option (List Value)) := do
  match v with
  | .null => pure none
  | .map _ =>
    let coordinate (name : String) : Except Fault Value := do
      pure ((← v.field? name).getD (.float .zero))
    pure (some [← coordinate "x", ← coordinate "y"])
  | v => v.parts.map some

/-- A text that a document may leave out, or give as something that counts as false. -/
def textOrEmpty (v : Value) : Except Fault String := do
  if ← v.truth then
    match v with
    | .text s => pure s
    | _ => throw .wrongShape
  else pure ""

/-- The output type that a document gives; one that it leaves out is `vec4`. -/
def outputTypeOfValue (v : Value) : Except Fault DataType := do
  if ← v.truth then DataType.ofValue v else pure .vec4

/-- The node that a document describes. -/
def ofValue (v : Value) : Except Fault Node := do
  let data := (← v.field? "data").getD (.map [])
  let kind ← kindOfValue (← v.field "type") data
  let inputs ← (← (← data.field "inputs").partsOrNone).mapM Port.ofValue
  let outputs ← (← (← data.field "outputs").partsOrNone).mapM Port.ofValue
  let (inputs, outputs) := arrangePorts kind inputs outputs
  let uniforms ← uniformsOfValue (← data.field "uniforms")
  let globalValue ← data.field "value"
  let globalValue :=
    match globalValue, uniforms.get? "value" with
    | .null, some bound => bound.value
    | value, _ => value
  let position ← v.field "position"
  let id := (← v.require "id").asText
  let label := (← data.field? "label").getD (.text "")
  let source ← textOrEmpty (← data.field "glsl")
  let outputType ← outputTypeOfValue (← data.field "outputType")
  let autoType ← (← data.field "autoType").truth
  let scope ← (← data.field "scopeId").text?
  let globalName ← (← data.field "globalName").text?
  let stages ← (← (← data.field "passes").partsOrNone).mapM Stage.ofValue
  let position ← positionOfValue position
  pure { id, kind, label, source, inputs, outputs, outputType, uniforms, autoType, scope, globalName,
         globalValue, stages, position }

end Node

end RenderGraph
