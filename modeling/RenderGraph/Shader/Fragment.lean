import RenderGraph.Shader.Call

/-!
# Programs of passes

A program has a header, the uniforms of its nodes, their functions, and a main function that calls
them in order and writes the requested output as a colour.

## Main definitions

* `Shader.vertexProgram`: the vertex program of every pass
* `Shader.headerLines`, `Shader.header`, `Shader.cubeAnchor`
* `Shader.fragment`: the fragment program of some nodes
-/

namespace RenderGraph.Shader

/-- The vertex program of every pass. -/
def vertexProgram : String :=
  "\n".intercalate
    ["#version 300 es",
      "in vec2 position;",
      "out vec2 vUv;",
      "void main() \x7b",
      "  vUv = position * 0.5 + 0.5;",
      "  gl_Position = vec4(position, 0.0, 1.0);",
      "\x7d"]

/-- The line that declares a texture. -/
def samplerLine (name : String) : String :=
  "uniform sampler2D " ++ name ++ ";"

/-- The names that are to be declared: each once, and none that is declared already. -/
def newNames (declared : List String) : List String → List String
  | [] => []
  | name :: names =>
    if name ∈ declared then newNames declared names
    else name :: newNames (name :: declared) names

/-- Each name is declared already or is to be declared. -/
theorem mem_newNames (declared : List String) {names : List String} {name : String} (h : name ∈ names) :
    name ∈ declared ∨ name ∈ newNames declared names := by
  induction names generalizing declared with
  | nil => cases h
  | cons first names ih =>
    unfold newNames
    split
    · next hd =>
      rcases List.mem_cons.1 h with rfl | h
      · exact Or.inl hd
      · exact ih declared h
    · rcases List.mem_cons.1 h with rfl | h
      · exact Or.inr List.mem_cons_self
      · rcases ih (first :: declared) h with hd | hn
        · rcases List.mem_cons.1 hd with rfl | hd
          · exact Or.inr List.mem_cons_self
          · exact Or.inl hd
        · exact Or.inr (List.mem_cons_of_mem _ hn)

/-- The lines of the header of a fragment program that reads some textures. -/
def headerLines (config : Config) (textures : List String) (stage : Bool) : List String :=
  ["#version " ++ config.glslVersion,
    "precision " ++ config.floatPrecision ++ " float;",
    "in vec2 vUv;",
    "out vec4 fragColor;",
    "#define texture2D texture"] ++
  (if stage then ["#define gl_FragColor fragColor"] else []) ++
  ["",
    "uniform float u_time;",
    "uniform vec2 u_resolution;",
    samplerLine config.emptyTexture,
    "uniform samplerCube " ++ config.emptyCubeTexture ++ ";",
    "",
    "// Shadertoy compatibility",
    "#define iTime u_time",
    "#define iResolution vec3(u_resolution, 1.0)"] ++
  (newNames [config.emptyTexture] textures).map samplerLine

/-- The header of a fragment program that reads some textures. -/
def header (config : Config) (textures : List String) (stage : Bool) : String :=
  "\n".intercalate (headerLines config textures stage) ++ "\n"

/-- The line of the header behind which more textures may be declared. -/
def cubeAnchor (config : Config) : String :=
  "uniform samplerCube " ++ config.emptyCubeTexture ++ ";\n"

/-- The variable and the type of the requested output. -/
def finalValue (output : Node) (port : Port) : String × DataType :=
  match output.kind with
  | .graphOutput => (output.outputVar resultPort.id, .vec4)
  | .globalVar => (output.globalUniformName, output.outputType)
  | _ => (output.outputVar port.id, port.type)

/-- Writes the calls of some nodes, each of which may refer to those before it. -/
def callNodes (ctx : CallContext) : List Node → CallM Unit
  | [] => pure ()
  | node :: nodes => do
    nodeCall ctx node
    callNodes { ctx with emitted := node.id :: ctx.emitted } nodes

/-- The main function that calls some nodes and writes an output. -/
def mainFunction (ctx : CallContext) (order : List Node) (output : Node) (port : Port) :
    CallM String := do
  callNodes ctx order
  let (name, type) := finalValue output port
  let lines := ["void main() \x7b", "  vec2 uv = vUv;"] ++ (← get).lines ++
    ["  fragColor = " ++ cast name type .vec4 ++ ";", "\x7d"]
  pure ("\n".intercalate lines)

/-- The fragment program of some nodes, dependencies first, and its uniforms. -/
def fragment (scene : Scene) (textures : Keyed String) (order : List Node) (output : Node)
    (port : Port) : CallM (String × Keyed Uniform) := do
  let d ← (order.foldlM (fun d node => declareNode scene node d) ({} : Declarations) :
    Except Fault _)
  let functions ← (order.mapM (nodeFunctions scene) : Except Fault _)
  let main ← mainFunction { scene, textures } order output port
  let code := "\n".intercalate
    [header scene.config textures.values false, "\n".intercalate d.lines, "",
      String.join functions, main]
  pure (code, d.uniforms)

end RenderGraph.Shader
