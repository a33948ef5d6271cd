import RenderGraph.Shader.Compound
import RenderGraph.Shader.Identifier

/-!
# Calls in the main function

The main function of a program calls its nodes in order. An input is given, in order of precedence,
the texture of another pass, an array assembled from edges to its elements, the output of a node
called before, the uniform of its bound value, or the default of its type.

## Main definitions

* `Shader.CallContext`: what a call may refer to
* `Shader.CallM`: lines and warnings, kept also on failure
* `Shader.argument`: what an input is given
* `Shader.Role`: how nodes of a kind appear in a program
-/

namespace RenderGraph.Shader

/-- What a call may refer to. -/
structure CallContext where
  scene : Scene
  /-- The samplers of inputs that are fed by other passes, by node and port. -/
  textures : Keyed String := .empty
  /-- The nodes called before. -/
  emitted : List String := []

/-- The lines of a main function so far, and the warnings. -/
structure CallState where
  lines : List String := []
  warnings : List String := []

/-- A computation that writes lines of a main function. -/
abbrev CallM :=
  ExceptT Fault (StateM CallState)

/-- Writes a line. -/
def writeLine (line : String) : CallM Unit :=
  modify fun s => { s with lines := s.lines ++ [line] }

/-- Issues a warning. -/
def warnCall (message : String) : CallM Unit :=
  modify fun s => { s with warnings := s.warnings ++ [message] }

/-- The key under which the sampler of an input is kept. -/
def textureKey (node port : String) : String :=
  node ++ "_" ++ port

variable (ctx : CallContext)

/-- The sampler of an input that is fed by another pass. -/
def CallContext.texture? (node port : String) : Option String :=
  match ctx.textures.get? (textureKey node port) with
  | none | some "" => none
  | some texture => some texture

/-! ### Arguments -/

/-- What an edge brings, as a value of a type, if its source was called before. -/
def edgeExpression? (e : Edge) (t : DataType) : Except Fault (Option String) := do
  let source ← ctx.scene.graph.requireNode e.source (some e.target)
  if source.id ∉ ctx.emitted then pure none
  else if source.kind = .globalVar then
    pure (some (cast source.globalUniformName source.outputType t))
  else
    let port := source.outputPort e.sourcePort
    pure (some (cast (source.outputVar port.id) port.type t))

/-- The edges to elements of an array input, with their indices. -/
def elementEdges (node : Node) (port : Port) : Except Fault (List (Edge × Nat)) := do
  let elements ← (ctx.scene.graph.incoming node.id).mapM fun e => do
    match ← e.arrayElement with
    | some (base, index) => pure (if base = port.id then some (e, index) else none)
    | none => pure none
  pure (elements.filterMap id)

/-- The name of the array that is assembled for an input. -/
def arrayName (node : Node) (port : Port) : String :=
  "arr_" ++ node.cleanId ++ "_" ++ sanitize port.id

/-- The lines that declare the array that is assembled for an input and copy the bound value to it. -/
def arrayOpening (node : Node) (port : Port) (length : Nat) : List String :=
  ["  " ++ port.type.element.name ++ " " ++ arrayName node port ++ "[" ++ toString length ++ "] = " ++
    defaultLiteral ctx.scene.config port.type (some length) ++ ";"] ++
  if (node.uniforms.get? port.id).any (·.type = port.type) then
    ["  for (int i = 0; i < " ++ toString length ++ "; i++) \x7b " ++ arrayName node port ++
      "[i] = " ++ node.uniformName port.id ++ "[i]; \x7d"]
  else []

/-- The line that assigns a value to an element of an array. -/
def elementLine (name : String) (length index : Nat) (value : String) : String :=
  "  " ++ name ++ "[" ++ toString (min index (length - 1)) ++ "] = " ++ value ++ ";"

/-- Assigns what an edge brings to an element of an array. -/
def assignElement (node : Node) (port : Port) (length : Nat) (element : Edge × Nat) : CallM Unit := do
  let (e, index) := element
  let value ← match ← (edgeExpression? ctx e port.type.element : Except Fault _) with
    | some value => pure value
    | none =>
      warnCall ("Array element " ++ e.targetPort.getD "" ++ " of " ++ node.id ++
        " is not reachable in this pass")
      pure (defaultLiteral ctx.scene.config port.type.element)
  writeLine (elementLine (arrayName node port) length index value)

/-- Assembles an array from the bound value of an input and the edges to its elements, in the order of
their indices; gives its name. -/
def assembleArray (node : Node) (port : Port) (elements : List (Edge × Nat)) : CallM String := do
  let bound := node.uniforms.get? port.id
  let length ← (BoundValue.capacity port.type bound ctx.scene.fallback : Except Fault _)
  (arrayOpening ctx node port length).forM writeLine
  let sorted := elements.mergeSort fun a b => a.2 ≤ b.2
  sorted.forM (assignElement ctx node port length)
  pure (arrayName node port)

/-- The default of an input that nothing feeds. -/
def defaultArgument (node : Node) (port : Port) : Except Fault String := do
  if port.type.isArray then
    let length ← BoundValue.capacity port.type (node.uniforms.get? port.id) ctx.scene.fallback
    pure (defaultLiteral ctx.scene.config port.type (some length))
  else pure (defaultLiteral ctx.scene.config port.type)

/-- What an input is given that nothing feeds: its bound value or its default. -/
def ownArgument (node : Node) (port : Port) : Except Fault String :=
  match boundArgument? node port with
  | some value => pure value
  | none => defaultArgument ctx node port

/-- What an input is given when no texture and no assembled array feeds it. -/
def plainArgument (node : Node) (port : Port) (edge : Option Edge) : Except Fault String := do
  match edge with
  | none => ownArgument ctx node port
  | some e =>
    match ← edgeExpression? ctx e port.type with
    | some value => pure value
    | none => ownArgument ctx node port

/-- What an input is given. -/
def argument (node : Node) (port : Port) : CallM String := do
  match ctx.texture? node.id port.id with
  | some texture => pure (sample texture port.type)
  | none =>
    let edge := ctx.scene.graph.edgeInto node.id (some port.id)
    let elements ←
      if edge.isNone && port.type.isArray then (elementEdges ctx node port : Except Fault _)
      else pure []
    if elements.isEmpty then (plainArgument ctx node port edge : Except Fault _)
    else assembleArray ctx node port elements

/-! ### Calls -/

/-- How nodes of a kind appear in a program. -/
inductive Role
  /-- By a function of their own, which is called. -/
  | function
  /-- By a function that gives the values of uniforms. -/
  | inputProxy
  /-- By a function that gives its first argument as a colour. -/
  | outputProxy
  /-- By a uniform alone. -/
  | uniform
  deriving DecidableEq, Repr

/-- How nodes of a kind appear in a program. Multi-stage nodes have passes of their own. -/
def Role.ofKind : NodeKind → Except Fault Role
  | .standard | .compound => .ok .function
  | .graphInput => .ok .inputProxy
  | .graphOutput => .ok .outputProxy
  | .globalVar => .ok .uniform
  | .multiStage => .error (.notInlined .multiStage)

/-- The name of the result of an output proxy. -/
def resultPort : Port :=
  .ofId "result" .vec4

/-- The function definitions of a node. -/
def nodeFunctions (scene : Scene) (node : Node) : Except Fault String := do
  let titled (code : String) := "// Node: " ++ node.title ++ "\n" ++ code ++ "\n\n"
  let block (head body : String) := titled (head ++ " \x7b\n" ++ body ++ "\n\x7d")
  match ← Role.ofKind node.kind with
  | .uniform => pure ""
  | .inputProxy =>
    let lines := node.outputs.map fun p => "  " ++ p.id ++ " = " ++ node.uniformName p.id ++ ";"
    let body := if lines.isEmpty then "  // No outputs" else "\n".intercalate lines
    let head ← prototype node.runName [] node.outputs .empty scene.fallback
    pure (block head body)
  | .outputProxy =>
    let body :=
      match node.inputs with
      | first :: _ => "  result = " ++ cast first.id first.type .vec4 ++ ";"
      | [] => "  result = vec4(0.0);"
    let head ← prototype node.runName node.inputs [resultPort] node.uniforms scene.fallback
    pure (block head body)
  | .function =>
    let source ← if node.kind = .compound then compoundBody scene node else pure node.source
    let code ← prepareBody node source scene.fallback
    pure (titled code)

/-- Calls a node with its inputs and some variables for its results. -/
def callWith (node : Node) (results : List Port) : CallM Unit := do
  let arguments ← node.inputs.mapM (argument ctx node)
  results.forM fun p =>
    writeLine (outputDeclaration ctx.scene (node.outputVar p.id) p.type)
  writeLine (callLine node.runName
    (["uv"] ++ arguments ++ results.map fun p => node.outputVar p.id))

/-- Writes the call of a node. -/
def nodeCall (node : Node) : CallM Unit := do
  match ← (Role.ofKind node.kind : Except Fault _) with
  | .uniform => pure ()
  | .inputProxy =>
    node.outputs.forM fun p =>
      writeLine (outputDeclaration ctx.scene (node.outputVar p.id) p.type)
    writeLine (callLine node.runName (["uv"] ++ node.outputs.map fun p => node.outputVar p.id))
  | .outputProxy => callWith ctx node [resultPort]
  | .function => callWith ctx node node.effectiveOutputs

end RenderGraph.Shader
