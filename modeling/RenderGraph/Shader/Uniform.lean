import RenderGraph.Config
import RenderGraph.Graph.Basic
import RenderGraph.Value.Pack

/-!
# Uniforms

A program declares a uniform for each bound input of its nodes, for the selected index of each array
input, for each global value and for each output of an input proxy at top level. A name is declared
once; later declarations of the same name are ignored.

## Main definitions

* `Uniform`, `Declarations`, `Declarations.declare`
* `Scene`: a graph and a configuration
* `Shader.declareNode`, `Shader.declareStages`
* `Shader.overrides`, `Shader.applyOverrides`: new values for uniforms of compiled passes
-/

namespace RenderGraph

/-- A graph and the configuration under which it is compiled. -/
structure Scene where
  graph : Graph
  config : Config

/-- The length of arrays that neither widget nor value determine. -/
def Scene.fallback (s : Scene) : Number :=
  s.config.defaultArrayLength

/-- The typed value of a uniform; samplers hold the name of a texture. -/
structure Uniform where
  type : DataType
  value : Value := .null

/-- The uniforms of a program and the lines that declare them. -/
structure Declarations where
  uniforms : Keyed Uniform := .empty
  lines : List String := []

/-- The line that declares a uniform. -/
def declarationLine (name : String) (t : DataType) (length : Option Nat) : String :=
  if t.isArray then
    "uniform " ++ t.element.name ++ " " ++ name ++ "[" ++ Value.writtenOption toString length ++ "];"
  else "uniform " ++ t.name ++ " " ++ name ++ ";"

/-- Declares a uniform, unless its name is declared already. -/
def Declarations.declare (d : Declarations) (name : String) (t : DataType) (value : Value)
    (length : Option Nat := none) : Declarations :=
  if d.uniforms.contains name then d
  else
    { uniforms := d.uniforms.insert name { type := t, value },
      lines := d.lines ++ [declarationLine name t length] }

namespace Shader

variable (scene : Scene)

/-- Declares the uniform of a bound value. -/
def declareBound (name : String) (bound : BoundValue) (d : Declarations) :
    Except Fault Declarations := do
  let length ← BoundValue.declaredLength bound.type (some bound) bound.value scene.fallback
  let value ← pack bound.type bound.value length
  pure (d.declare name bound.type value length)

/-- Declares the uniform of a global value. -/
def declareGlobal (node : Node) (d : Declarations) : Except Fault Declarations := do
  let t := node.outputType
  let length ← BoundValue.declaredLength t (node.uniforms.get? "value") node.globalValue
    scene.fallback
  let value :=
    match node.globalValue with
    | .null => t.defaultValue (length.getD 1)
    | value => value
  let packed ← pack t value length
  pure (d.declare node.globalUniformName t packed length)

/-- Declares the uniforms of the bound inputs of a node. -/
def declareBoundInputs (node : Node) (d : Declarations) : Except Fault Declarations :=
  node.inputs.foldlM (fun d port =>
    match node.uniforms.get? port.id with
    | some bound => declareBound scene (node.uniformName port.id) bound d
    | none => pure d) d

/-- Declares the uniforms of the selected indices of a node's array inputs. -/
def declareIndices (node : Node) (d : Declarations) : Except Fault Declarations :=
  node.inputs.foldlM (fun d port =>
    if port.type.isArray then do
      let index ← BoundValue.selectedIndex port.type (node.uniforms.get? port.id) scene.fallback
      pure (d.declare (node.uniformName port.id ++ "_index") .int (.int index))
    else pure d) d

/-- Declares the uniforms of a node's own inputs. -/
def declareInputs (node : Node) (d : Declarations) : Except Fault Declarations := do
  declareIndices scene node (← declareBoundInputs scene node d)

/-- Declares the uniforms of the outputs of an input proxy. Only a proxy at top level has some: inside
a compound it passes on the compound's arguments. -/
def declareProxy (node : Node) (d : Declarations) : Except Fault Declarations :=
  if node.scope.isSome then pure d
  else
    node.outputs.foldlM (fun d port => do
      let value ← pack port.type (port.type.defaultValue defaultLength) none
      pure (d.declare (node.uniformName port.id) port.type value)) d

/-- Declares the uniforms of a node and of the nodes inside its scope. `fuel` bounds the depth of
scopes, and `stack` holds the compounds around the node. -/
def declareWithin : Nat → List String → Node → Declarations → Except Fault Declarations
  | 0, _, _, d => pure d
  | fuel + 1, stack, node, d =>
    match node.kind with
    | .globalVar => declareGlobal scene node d
    | .graphInput => declareProxy node d
    | .graphOutput | .multiStage => pure d
    | .standard => declareInputs scene node d
    | .compound => do
      let d ← declareInputs scene node d
      if node.id ∈ stack then pure d
      else
        (scene.graph.children (some node.id)).foldlM
          (fun d inner => declareWithin fuel (stack ++ [node.id]) inner d) d

/-- Declares the uniforms of a node and of the nodes inside its scope. -/
def declareNode (node : Node) (d : Declarations) : Except Fault Declarations :=
  declareWithin scene (scene.graph.size + 1) [] node d

/-- The bound values that the stages of a node may read. -/
def stageBindings (node : Node) : List (String × BoundValue) :=
  node.uniforms.entries.filter (·.1 != "value")

/-- Declares the uniforms of the bound values of a multi-stage node. -/
def declareStages (node : Node) (d : Declarations) : Except Fault Declarations :=
  (stageBindings node).foldlM (fun d b => declareBound scene (node.uniformName b.1) b.2 d) d

/-- The lines by which the stages of a node may call its bound values by their own names. -/
def stageDefines (node : Node) : List String :=
  (stageBindings node).map fun b => "#define " ++ b.1 ++ " " ++ node.uniformName b.1

/-- The present values of all uniforms of a graph, by name. -/
def overrides : Except Fault (Keyed Uniform) := do
  let d ← scene.graph.nodeList.foldlM (fun d node =>
    if node.kind = .multiStage then declareStages scene node d else declareNode scene node d)
    ({} : Declarations)
  pure d.uniforms

/-- Uniforms with new values where there is one of the same type. -/
def refresh (news : Keyed Uniform) (uniforms : Keyed Uniform) : Keyed Uniform :=
  uniforms.mapWithKey fun name old =>
    match news.get? name with
    | some u => if u.type = old.type then u else old
    | none => old

end Shader

end RenderGraph
