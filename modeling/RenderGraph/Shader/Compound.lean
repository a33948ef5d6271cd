import RenderGraph.Shader.Body
import RenderGraph.Shader.Expression
import RenderGraph.Shader.Uniform

/-!
# Bodies of compounds

A compound is compiled into a single body. The nodes inside its scope become functions; they are
called in the order of their dependencies, starting from the output proxy, and what feeds the output
proxy is assigned to the compound's outputs. Inside the body, the input proxy stands for the
compound's parameters.

## Main definitions

* `Shader.callOrder`: the nodes that a compound calls, dependencies first
* `Shader.innerArgument`: what an inner node is called with
* `Shader.compoundBody`
-/

namespace RenderGraph.Shader

variable (scene : Scene)

/-- The line that declares a variable for an output. -/
def outputDeclaration (name : String) (t : DataType) : String :=
  if t.isArray then
    "  " ++ t.element.name ++ " " ++ name ++ "[" ++ scene.fallback.text ++ "];"
  else "  " ++ t.name ++ " " ++ name ++ ";"

/-- A statement that calls a function. -/
def callLine (name : String) (arguments : List String) : String :=
  "  " ++ name ++ "(" ++ ", ".intercalate arguments ++ ");"

/-! ### Arguments -/

/-- What an edge brings inside a scope, as a value of a type. -/
def innerSource (scope : String) (e : Edge) (t : DataType) : Except Fault String := do
  let source ← scene.graph.requireNode e.source (some e.target)
  let port := source.outputPort e.sourcePort
  if source.kind = .graphInput ∧ source.scope = some scope then
    pure (cast port.id port.type t)
  else if source.kind = .globalVar then
    pure (cast source.globalUniformName source.outputType t)
  else pure (cast (source.outputVar port.id) port.type t)

/-- The uniform of the value bound to an input, as a value of the input's type. -/
def boundArgument? (node : Node) (port : Port) : Option String :=
  (node.uniforms.get? port.id).bind fun bound =>
    if bound.type = port.type then some (node.uniformName port.id)
    else if !bound.type.isArray && !port.type.isArray then
      some (cast (node.uniformName port.id) bound.type port.type)
    else none

/-- What an inner node is called with: what an edge brings, else the bound value, else the default. -/
def innerArgument (scope : String) (node : Node) (port : Port) : Except Fault String :=
  match scene.graph.edgeInto node.id (some port.id) with
  | some e => innerSource scene scope e port.type
  | none => pure ((boundArgument? node port).getD (defaultLiteral scene.config port.type))

/-! ### Order of calls -/

/-- What a search for the order of calls has seen: the nodes it has finished and their order. -/
structure CallSearch where
  finished : List String := []
  order : List Node := []

/-- Visits a node of a scope after the nodes of the scope that feed it. `fuel` bounds the depth, and
`stack` holds the nodes being visited. -/
def visitCalls (scope : List Node) : Nat → List String → String → CallSearch → CallSearch
  | 0, _, _, s => s
  | fuel + 1, stack, id, s =>
    if id ∈ s.finished ∨ id ∈ stack then s
    else
      let s := (scene.graph.incoming id).foldl (fun s e =>
        if scope.any (·.id == e.source) then visitCalls scope fuel (id :: stack) e.source s
        else s) s
      { finished := id :: s.finished,
        order := s.order ++ (scope.find? (·.id == id)).toList }

/-- The nodes of a scope that its output proxies need, dependencies first. -/
def callOrder (scope : List Node) : List Node :=
  ((scope.filter (·.kind = .graphOutput)).foldl (fun s proxy =>
    visitCalls scene scope (scope.length + 1) [] proxy.id s) ({} : CallSearch)).order

/-! ### Bodies -/

/-- The lines that call an inner node: its output variables, then the call. -/
def innerCall (scope : String) (node : Node) : Except Fault (List String) := do
  let arguments ← node.inputs.mapM (innerArgument scene scope node)
  let outputs := node.effectiveOutputs
  let declarations := outputs.map fun p => outputDeclaration scene (node.outputVar p.id) p.type
  let results := outputs.map fun p => node.outputVar p.id
  pure (declarations ++ [callLine node.runName (["uv"] ++ arguments ++ results)])

/-- Nodes of the kind have a function of their own. -/
def hasFunction (kind : NodeKind) : Bool :=
  kind ≠ .graphInput && kind ≠ .graphOutput && kind ≠ .globalVar

/-- The line that assigns an output of a compound. -/
def outputAssignment (compound : Node) (proxy : Option Node) (port : Port) :
    Except Fault String := do
  let edge := proxy.bind fun p => scene.graph.edgeInto p.id (some port.id)
  let value ← match edge with
    | some e => innerSource scene compound.id e port.type
    | none => pure (defaultLiteral scene.config port.type)
  pure ("  " ++ port.id ++ " = " ++ value ++ ";")

/-- The body of a compound. `fuel` bounds the depth of scopes, and `stack` holds the compounds around
it. -/
def compoundWithin : Nat → List String → Node → Except Fault String
  | 0, _, _ => throw .tooDeep
  | fuel + 1, stack, compound => do
    if compound.id ∈ stack then throw (.selfContaining compound.id)
    let children := scene.graph.children (some compound.id)
    let functions ← (children.filter (hasFunction ·.kind)).mapM fun inner => do
      let source ←
        if inner.kind = .compound then compoundWithin fuel (stack ++ [compound.id]) inner
        else pure inner.source
      let code ← prepareBody inner source scene.fallback
      pure ("// Inner Node: " ++ inner.title ++ "\n" ++ code ++ "\n")
    let order := callOrder scene children
    let calls ← (order.filter (hasFunction ·.kind)).mapM (innerCall scene compound.id)
    let proxy := (order.filter (·.kind = .graphOutput)).getLast?
    let assignments ← compound.outputs.mapM (outputAssignment scene compound proxy)
    let head ← prototype "run" compound.inputs compound.outputs compound.uniforms scene.fallback
    pure ("\n".intercalate functions ++ "\n" ++ head ++ " \x7b\n" ++
      "\n".intercalate (calls.flatten ++ assignments) ++ "\n\x7d\n")

/-- The body of a compound. -/
def compoundBody (compound : Node) : Except Fault String :=
  compoundWithin scene (scene.graph.size + 1) [] compound

end RenderGraph.Shader
