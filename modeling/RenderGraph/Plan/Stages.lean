import RenderGraph.Plan.State
import RenderGraph.Source.Pragma

/-!
# Passes of multi-stage nodes

Each stage of a multi-stage node is drawn by a pass of its own, or by several if it is repeated. All
inputs of the node arrive as textures. In the bodies, `u_pass_<stage>`, `u_firstPass` and
`u_prevPass` name the textures of other stages; they are defined as the samplers that read them.

## Main definitions

* `Plan.Request`: an output that is to be planned
* `Plan.stageProgram`: the program of a stage
* `Plan.buildStage`, `Plan.iterations`: the passes of a stage
* `Plan.planStage`, `Plan.planStages`
-/

namespace RenderGraph.Plan

/-- An output that is to be planned: of a node, at a port or, for a multi-stage node, of a stage. -/
structure Request where
  node : String
  port : Option String := none
  stage : Option String := none
  deriving DecidableEq, Repr

variable (scene : Scene)

/-- The key of the pass of a stage. -/
def stageKey (node : Node) (stage : Stage) : String :=
  node.id ++ "_pass_" ++ stage.id

/-! ### Textures of a stage -/

/-- The textures of the stages that a body refers to. -/
def referenceTextures (plan : Request → PlanM String) (node : Node)
    (references : List Source.StageReference) : PlanM (Keyed String) :=
  let ids := node.stages.map (·.id)
  let read (textures : Keyed String) (name stage : String) : PlanM (Keyed String) := do
    let pass ← plan { node := node.id, stage := some stage }
    pure (textures.insert name (← sampler scene.config pass))
  references.foldlM (fun textures r =>
    match r with
    | .named id =>
      if id ∈ ids then read textures r.uniform id
      else do
        warn ("Pass dependency \"" ++ id ++ "\" not found in node " ++ node.id)
        pure textures
    | .first => read textures r.uniform (ids.headD "")
    | .previous => pure textures) .empty

/-- The textures of a stage and the first among those of its inputs. -/
structure StageTextures where
  all : Keyed String
  firstInput : Option String := none

/-- Adds the textures of a node's inputs. -/
def inputTextures (plan : Request → PlanM String) (node : Node) (textures : Keyed String) :
    PlanM StageTextures :=
  (scene.graph.incoming node.id).foldlM (fun t e =>
    match e.targetPort with
    | none | some "" => pure t
    | some port => do
      let _ ← (scene.graph.requireNode e.source (some node.id) : Except Fault _)
      let pass ← plan { node := e.source, port := e.sourcePort }
      let name ← sampler scene.config pass
      pure { all := t.all.insert (Shader.textureKey node.id port) name,
             firstInput := t.firstInput <|> some name }) { all := textures }

/-- The texture that a stage reads as the previous pass: the pass before it, else the first input,
else a texture bound to an input, else the empty texture. -/
def previousTexture (node : Node) (previous : String) (firstInput : Option String)
    (isRead : Bool) : PlanM (Option String) := do
  if !previous.isEmpty then
    pure (some (← sampler scene.config previous))
  else if !isRead then pure none
  else
    let bound := node.inputs.find? fun p =>
      p.type = .sampler2D && (node.uniforms.get? p.id).any (·.type = .sampler2D)
    let input :=
      match firstInput with
      | none | some "" => none
      | some name => some name
    pure (some ((input <|> bound.map fun p => node.uniformName p.id).getD
      scene.config.emptyTexture))

/-! ### The program of a stage -/

/-- What an input of a stage's entry function is given. -/
def entryArgument (node : Node) (textures : Keyed String) (port : Port) : Except Fault String := do
  match textures.get? (Shader.textureKey node.id port.id) with
  | none | some "" =>
    if node.uniforms.contains port.id then pure port.id
    else if port.type.isArray then
      let length ← BoundValue.capacity port.type none scene.fallback
      pure (Shader.defaultLiteral scene.config port.type (some length))
    else pure (Shader.defaultLiteral scene.config port.type)
  | some texture => pure (Shader.sample texture port.type "vUv")

/-- The references of a body that are defined by name, with the samplers that they mean. -/
def definedReferences (references : List Source.StageReference) (textures : Keyed String) :
    List (String × String) :=
  let others := references.filter (· ≠ .previous)
  (others.map (·.uniform) ++ [previousPass]).filterMap fun name =>
    (textures.get? name).map fun texture => (name, texture)

/-- The samplers that a stage has to declare. -/
def stageSamplers (node : Node) (textures : Keyed String) : List String :=
  let bound := (Shader.stageBindings node).map fun b => node.uniformName b.1
  Shader.newNames (scene.config.emptyTexture :: bound) textures.values

/-- The program of a stage and its uniforms. -/
def stageProgram (node : Node) (body : String) (io : Source.Interface) (textures : Keyed String)
    (isLoop hasFeedback : Bool) : Except Fault (String × Keyed Uniform) := do
  let defines := definedReferences io.references textures
  let d ← Shader.declareStages scene node {}
  let bound := (d.lines.zip (Shader.stageDefines node)).map fun l => l.1 ++ "\n" ++ l.2 ++ "\n"
  let main ←
    if Text.occurs Source.mainDeclaration body.toList then pure ""
    else do
      let arguments ← io.inputs.mapM (entryArgument scene node textures)
      pure ("\nvoid main() \x7b run(" ++
        ", ".intercalate (["vUv"] ++ arguments ++ ["fragColor"]) ++ "); \x7d\n")
  let code := Shader.header scene.config [] true ++
    (if isLoop then
      "uniform int " ++ loopIndexUniform ++ ";\nuniform int " ++ loopCountUniform ++ ";\n"
    else "") ++
    (if hasFeedback then Shader.samplerLine Source.previousFrame ++ "\n" else "") ++
    String.join ((stageSamplers scene node textures).map fun u => Shader.samplerLine u ++ "\n") ++
    String.join (defines.map fun r => "#define " ++ r.1 ++ " " ++ r.2 ++ "\n") ++
    "// Inject Node Uniforms\n" ++
    String.join bound ++
    "\n" ++ Source.stripPragmas body ++ "\n" ++
    main
  let uniforms := defines.foldl (fun u r =>
    u.insert r.1 { type := .sampler2D, value := .text r.2 }) d.uniforms
  pure (code, uniforms)

/-! ### Planning -/

/-- The first iteration of a stage, given the pass before it, and how often it is repeated. -/
def buildStage (plan : Request → PlanM String) (node : Node) (stage : Stage) (key previous : String) :
    PlanM (RenderPass × Loop) := do
  let io ← (Source.interface stage.text : Except Fault _)
  let textures ← referenceTextures scene plan node io.references
  let textures ← inputTextures scene plan node textures
  let isRead := io.references.any (· = .previous)
  let texture ← previousTexture scene node previous textures.firstInput isRead
  let all :=
    match texture with
    | none | some "" => textures.all
    | some name => textures.all.insert previousPass name
  let body ← (stage.body : Except Fault _)
  let count ← (stage.loopCount body : Except Fault _)
  let loop : Loop := { base := key, count }
  let (feedback, warnings) := stage.effectiveFeedback body node.id
  warnings.forM fun w => log (.warn w)
  let (fragment, uniforms) ←
    (stageProgram scene node body io all loop.isLoop feedback.isSome : Except Fault _)
  pure ({ id := key, vertex := Shader.vertexProgram, fragment, uniforms, textures := all,
          bindings := ← bindings all.values, feedback }, loop)

/-- The iterations of a stage. -/
def iterations (template : RenderPass) (loop : Loop) : PlanM (List RenderPass) :=
  (List.range loop.count.toNat).mapM
    (iteration scene.config (sampler scene.config) template loop)

/-- Plans a stage, given the pass before it; gives the pass of its last iteration. -/
def planStage (plan : Request → PlanM String) (node : Node) (stage : Stage) (key previous : String) :
    PlanM String := do
  let (template, loop) ← buildStage scene plan node stage key previous
  let passes ← iterations scene template loop
  addPasses passes key loop.lastId
  pure loop.lastId

/-- The stages of a node that are asked for. -/
def requestedStages (node : Node) (stage : Option String) : List Stage :=
  match stage with
  | none | some "" => node.stages
  | some id => node.stages.filter (·.id == id)

/-- Plans the stages of a node, or one of them; gives the pass to read, or nothing when there is no
such stage. -/
def planStages (plan : Request → PlanM String) (node : Node) (stage : Option String) :
    PlanM String := do
  let stages := requestedStages node stage
  if stages.isEmpty then
    warn ("Target pass \"" ++ stage.getD "" ++ "\" not found in node " ++ node.id)
  stages.foldlM (fun last stage => do
    let key := stageKey node stage
    let state ← get
    match state.generated.get? key with
    | some pass => pure pass
    | none =>
      if key ∈ state.active then
        breakCycle key
        pure key
      else whileActive key (planStage scene plan node stage key last)) ""

end RenderGraph.Plan
