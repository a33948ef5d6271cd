import RenderGraph.Proofs.Compile.Run
import RenderGraph.Proofs.Plan.Drawing
import RenderGraph.Proofs.Shader.Contribution
import RenderGraph.Proofs.Shader.MainStatements

/-!
# Names in the programs of passes

The main function of a pass reads names: of variables, which earlier lines of it declare, of values,
which the lines of the program's uniforms declare, and of textures, which its header declares. The
declarations of a node and its call are written by different functions, and for proxies they do not
agree: no uniform is declared for a value that is bound to an output proxy, an output proxy has a
variable for its result alone, and an input proxy that lists no output has no variable. Nothing else
is read without a declaration.

## Main definitions

* `Shader.Program`: the parts of a program, with its main function as statements
* `Shader.program`: the program of an output
* `Shader.Preamble.Declares`: what the header and the uniforms of a program declare
* `Shader.Unbacked`: what no program declares

## Main results

* `Shader.exists_program_of_fragment`: the text of a program
* `Shader.closed_program`: the names that its main function reads
* `Compile.reads_declared_or_unbacked`: the same for every pass of a compilation
-/

namespace RenderGraph.Shader

/-! ### Programs -/

/-- What the program of an output has in front of its main function. -/
structure Preamble where
  textures : List String
  /-- The lines that declare uniforms. -/
  uniforms : List String
  functions : List String

namespace Preamble

/-- The lines of the header. -/
def header (scene : Scene) (q : Preamble) : List String :=
  headerLines scene.config q.textures false

/-- What is declared in front of the statements of a main function: the coordinate, values by lines of
the uniforms, and textures by lines of the header. -/
inductive Declares (scene : Scene) (q : Preamble) : Reference → Prop
  | coordinate : Declares scene q .coordinate
  | global {n : Node} {t : DataType} {length : Option Nat}
      (h : declarationLine n.globalUniformName t length ∈ q.uniforms) : Declares scene q (.global n)
  | bound {n : Node} {port : Port} {t : DataType} {length : Option Nat}
      (h : declarationLine (n.uniformName port.id) t length ∈ q.uniforms) :
      Declares scene q (.bound n port)
  | texture {name : String} (h : samplerLine name ∈ q.header scene) :
      Declares scene q (.texture name)
  | cube {name : String} (h : "uniform samplerCube " ++ name ++ ";" ∈ q.header scene) :
      Declares scene q (.texture name)

end Preamble

/-- The program of an output, with the statements of its main function. -/
structure Program extends Preamble where
  statements : List Statement

def Program.text (scene : Scene) (q : Program) : String :=
  "\n".intercalate
    ["\n".intercalate (q.header scene) ++ "\n", "\n".intercalate q.uniforms, "",
      String.join q.functions,
      "\n".intercalate (["void main() \x7b", "  vec2 uv = vUv;"] ++
        q.statements.map (Statement.text scene) ++ ["\x7d"])]

/-- What the colour of a program is made of. -/
def finalReference (output : Node) (port : Port) : Reference :=
  match output.kind with
  | .graphOutput => .output output resultPort
  | .globalVar => .global output
  | _ => .output output port

/-- The colour of a program. -/
def finalExpression (output : Node) (port : Port) : Expression :=
  .value (finalReference output port) (finalValue output port).2 .vec4

theorem text_finalExpression (config : Config) (output : Node) (port : Port) :
    (finalExpression output port).text config =
      cast (finalValue output port).1 (finalValue output port).2 .vec4 := by
  unfold finalExpression finalReference finalValue
  cases output.kind <;> rfl

/-- The program of an output: the textures and uniforms that it declares, the functions of its nodes, and
the statements that call them. -/
def program (scene : Scene) (textures : Keyed String) (order : List Node) (output : Node) (port : Port) :
    Except Fault Program := do
  let d ← order.foldlM (fun d node => declareNode scene node d) ({} : Declarations)
  let functions ← order.mapM (nodeFunctions scene)
  let calls ← CallContext.statements { scene, textures } order
  pure
    { textures := textures.values, uniforms := d.lines, functions,
      statements := calls ++ [.colour (finalExpression output port)] }

/-- What no program declares, though a main function may read it. -/
inductive Unbacked (g : Graph) : Reference → Prop
  /-- A value that is bound to an output proxy. -/
  | value {n : Node} {port : Port} (hn : n ∈ g.nodeList) (hk : n.kind = .graphOutput)
      (hp : port ∈ n.inputs) (hb : (n.uniforms.get? port.id).isSome = true) :
      Unbacked g (.bound n port)
  /-- An output of an output proxy other than its result. -/
  | result {n : Node} {port : Option String} (hn : n ∈ g.nodeList) (hk : n.kind = .graphOutput)
      (h : (n.outputPort port).id ≠ resultPort.id) : Unbacked g (.output n (n.outputPort port))
  /-- The output of an input proxy that lists none. -/
  | input {n : Node} {port : Option String} (hn : n ∈ g.nodeList) (hk : n.kind = .graphInput)
      (h : n.outputs = []) : Unbacked g (.output n (n.outputPort port))

/-! ### Headers and uniforms -/

variable {scene : Scene}

theorem Preamble.declares_emptyTexture (q : Preamble) :
    q.Declares scene (.texture scene.config.emptyTexture) :=
  .texture (by simp [header, headerLines])

theorem Preamble.declares_emptyCubeTexture (q : Preamble) :
    q.Declares scene (.texture scene.config.emptyCubeTexture) :=
  .cube (by simp [header, headerLines])

theorem Preamble.declares_texture {q : Preamble} {name : String} (h : name ∈ q.textures) :
    q.Declares scene (.texture name) := by
  rcases mem_newNames [scene.config.emptyTexture] h with hempty | hnew
  · rw [List.mem_singleton.1 hempty]
    exact q.declares_emptyTexture
  · exact .texture (List.mem_append_right _ (List.mem_map_of_mem hnew))

/-- The uniforms of a program have a line for each name that one of its nodes contributes. -/
theorem exists_line_of_contribution {order : List Node} {d : Declarations}
    (h : order.foldlM (fun d n => declareNode scene n d) ({} : Declarations) = .ok d)
    (hg : ∀ n ∈ order, n ∈ scene.graph.nodeList) {n : Node} (hn : n ∈ order)
    (hk : n.kind ≠ .multiStage) {c : String × Except Fault Uniform}
    (hc : c ∈ n.contributions scene.fallback) : ∃ t length, declarationLine c.1 t length ∈ d.lines := by
  have hgrown := Declarations.yields_foldlM (C := scene.Contributes)
    (P := fun n name => n.kind ≠ .multiStage ∧ ∃ c ∈ n.contributions scene.fallback, c.1 = name)
    (f := fun d n => declareNode scene n d) (l := order) (fun d n hn => ?_) {}
  · rw [h, yields_ok] at hgrown
    exact hgrown.1.lists Declarations.listed_empty (hgrown.2 n hn c.1 ⟨hk, c, hc, rfl⟩)
  · refine (yields_declareNode (hg n hn) d).mono (fun d' hd' => ⟨hd'.1, ?_⟩) fun _ => id
    rintro _ ⟨hk, c, hc, rfl⟩
    exact hd'.2 hk c hc

/-- Nodes that have functions are not multi-stage nodes. -/
theorem kind_ne_of_nodeFunctions {order : List Node} {functions : List String}
    (h : order.mapM (nodeFunctions scene) = .ok functions) {n : Node} (hn : n ∈ order) :
    n.kind ≠ .multiStage := by
  intro hk
  obtain ⟨code, hcode⟩ := exists_of_mapM h hn
  unfold nodeFunctions at hcode
  rw [hk] at hcode
  cases hcode

/-! ### Main functions -/

/-- Programs supply what the calls of their nodes need, but for what no program declares. -/
theorem supplies_of_parts {textures : Keyed String} {order : List Node} {d : Declarations}
    {functions : List String} {q : Preamble}
    (hd : order.foldlM (fun d n => declareNode scene n d) ({} : Declarations) = .ok d)
    (hf : order.mapM (nodeFunctions scene) = .ok functions)
    (hg : ∀ n ∈ order, n ∈ scene.graph.nodeList) (ht : q.textures = textures.values)
    (hu : q.uniforms = d.lines) :
    Supplies scene textures order fun r => q.Declares scene r ∨ Unbacked scene.graph r where
  coordinate := Or.inl .coordinate
  texture := fun u hmem => Or.inl (Preamble.declares_texture (ht ▸ hmem))
  empty := Or.inl q.declares_emptyTexture
  emptyCube := Or.inl q.declares_emptyCubeTexture
  global := by
    intro n hn hk
    obtain ⟨t, length, hline⟩ := exists_line_of_contribution hd hg hn (by simp [hk])
      (c := (n.globalUniformName, n.globalUniform scene.fallback)) (by simp [Node.contributions, hk])
    exact Or.inl (.global (hu ▸ hline))
  bound := by
    intro n hn hk port hp hb
    have hinputs (hk : n.kind = .standard ∨ n.kind = .compound) :
        q.Declares scene (.bound n port) := by
      obtain ⟨b, hb⟩ := Option.isSome_iff_exists.1 hb
      have hc : (n.uniformName port.id, b.uniform scene.fallback) ∈ n.contributions scene.fallback := by
        rw [Node.contributions_of_inputs hk]
        refine List.mem_append_left _ (List.mem_filterMap.2 ⟨port, hp, ?_⟩)
        rw [hb]
        rfl
      obtain ⟨t, length, hline⟩ := exists_line_of_contribution hd hg hn
        (kind_ne_of_nodeFunctions hf hn) hc
      exact .bound (hu ▸ hline)
    cases hkind : n.kind with
    | standard => exact Or.inl (hinputs (Or.inl hkind))
    | compound => exact Or.inl (hinputs (Or.inr hkind))
    | graphOutput => exact Or.inr (.value (hg n hn) hkind hp hb)
    | globalVar => exact absurd hkind hk.1
    | graphInput => exact absurd hkind hk.2
    | multiStage => exact absurd hkind (kind_ne_of_nodeFunctions hf hn)
  output := by
    intro n hn _ port hport
    have heffective : (n.outputPort port).id ∈ n.effectiveOutputs.map Port.id :=
      List.mem_map_of_mem (n.outputPort_mem port)
    cases hk : n.kind with
    | graphOutput =>
      refine Or.inr (.result (hg n hn) hk fun heq => hport ?_)
      simp [callResults, hk, heq]
    | graphInput =>
      refine Or.inr (.input (hg n hn) hk ?_)
      by_contra hne
      refine hport ?_
      rw [callResults, hk]
      exact List.mem_map_of_mem (Node.outputPort_mem_outputs hne port)
    | standard => exact absurd heffective (by simpa [callResults, hk] using hport)
    | compound => exact absurd heffective (by simpa [callResults, hk] using hport)
    | multiStage => exact absurd heffective (by simpa [callResults, hk] using hport)
    | globalVar => contradiction

/-- The colour reads a variable that was declared when the output was called, or what the program
supplies. -/
theorem Supplies.final {textures : Keyed String} {order : List Node} {known : Reference → Prop}
    (h : Supplies scene textures order known) {output : Node} (ho : output ∈ order)
    (port : Option String) {names : List String}
    (hnames : ∀ p ∈ callResults output, output.outputVar p.id ∈ names) :
    (finalReference output (output.outputPort port)).name ∈ names ∨
      known (finalReference output (output.outputPort port)) := by
  unfold finalReference
  split
  · next hk =>
    refine Or.inl (hnames resultPort ?_)
    simp [callResults, hk]
  · next hk => exact Or.inr (h.global output ho hk)
  · next hk =>
    by_cases hport : (output.outputPort port).id ∈ (callResults output).map Port.id
    · obtain ⟨p, hp, hid⟩ := List.mem_map.1 hport
      have hdeclared := hnames p hp
      rw [hid] at hdeclared
      exact Or.inl hdeclared
    · exact Or.inr (h.output output ho hk port hport)

/-- The code that is written for an output is the text of its program. -/
theorem exists_program_of_fragment {textures : Keyed String} {order : List Node} {output : Node}
    {port : Port} {code : String} {uniforms : Keyed Uniform} {s : CallState}
    (h : (fragment scene textures order output port).run {} = (.ok (code, uniforms), s)) :
    ∃ q, program scene textures order output port = .ok q ∧ code = q.text scene := by
  have hleads : Leads (fragment scene textures order output port)
      (fun written _ => ∃ q, program scene textures order output port = .ok q ∧
        written.1 = q.text scene) {} := by
    unfold fragment
    rw [Leads, ends_bind, ends_lift, yields_iff]
    refine ⟨fun d hd => ?_, fun _ _ => trivial⟩
    rw [ends_bind, ends_lift, yields_iff]
    refine ⟨fun functions hfunctions => ?_, fun _ _ => trivial⟩
    unfold mainFunction
    rw [ends_bind, ends_bind]
    refine Ends.mono (leads_callNodes_statements {}) ?_ fun _ _ => id
    rintro _ u ⟨calls, hcalls, hu⟩
    have hq : program scene textures order output port = .ok
        { textures := textures.values, uniforms := d.lines, functions,
          statements := calls ++ [.colour (finalExpression output port)] } := by
      rw [program, hd, hfunctions]
      show (CallContext.statements { scene, textures } order >>= fun calls => _) = _
      rw [hcalls]
      rfl
    have hlines : u.lines = calls.map (Statement.text scene) := hu
    have hcolour : Statement.text scene (.colour (finalExpression output port)) =
        "  fragColor = " ++ cast (finalValue output port).1 (finalValue output port).2 .vec4 ++ ";" := by
      rw [← text_finalExpression scene.config]
      rfl
    refine ⟨_, hq, ?_⟩
    rw [Program.text, List.map_append, ← hlines, List.map_singleton, hcolour]
    simp only [List.append_assoc, List.cons_append, List.nil_append]
    rfl
  exact hleads.of_run_ok h

/-- The main function of a program reads only what is declared before, but for what no program
declares. -/
theorem closed_program {textures : Keyed String} {order : List Node} {output : Node}
    {port : Option String} {q : Program}
    (h : program scene textures order output (output.outputPort port) = .ok q)
    (hg : ∀ n ∈ order, n ∈ scene.graph.nodeList) (ho : output ∈ order) :
    Closed scene.config (fun _ r => q.Declares scene r ∨ Unbacked scene.graph r) q.statements := by
  obtain ⟨d, hd, h⟩ := Fault.bind_eq_ok_iff.1 h
  obtain ⟨functions, hfunctions, h⟩ := Fault.bind_eq_ok_iff.1 h
  obtain ⟨calls, hcalls, h⟩ := Fault.bind_eq_ok_iff.1 h
  cases h
  let q : Preamble := { textures := textures.values, uniforms := d.lines, functions }
  have hsupplies := supplies_of_parts hd hfunctions hg (q := q) rfl rfl
  obtain ⟨hclosed, hdeclared⟩ :=
    closed_statements hcalls hsupplies hg (fun _ => id) (List.forall_mem_nil (Emitted order []))
  refine Closed.append (hclosed.mono fun _ r hr => hr.resolve_left List.not_mem_nil) (.of_known ?_)
  refine List.forall_mem_singleton.2 fun r hr => ?_
  rw [List.mem_singleton.1 hr]
  exact hsupplies.final ho port (hdeclared output ho)

end RenderGraph.Shader

namespace RenderGraph.Compile

open Shader (Closed Preamble Program Statement Unbacked program)

variable {scene : Scene} {target : Target} {r : Result} {log : List Journal.Record} {p : RenderPass}

/-- In every pass that is not drawn for a stage, the main function reads only what is declared: a
variable by a line before, a value by the uniforms, a texture by the header. The exceptions belong to
proxies. -/
theorem reads_declared_or_unbacked (h : compile scene target = (.ok r, log)) (hf : r.failure = none)
    (hp : p ∈ r.passes) :
    Plan.IsStagePass scene p ∨ ∃ (d : Plan.Drawing scene p) (q : Program),
      program scene p.textures d.subgraph.order d.node (d.node.outputPort d.port) = .ok q ∧
        p.fragment = q.text scene ∧
        Closed scene.config (fun _ ref => q.Declares scene ref ∨ Unbacked scene.graph ref)
          q.statements := by
  obtain ⟨s, hs, hpasses, -⟩ := exists_steps_of_compile h hf
  obtain ⟨before, after, hsplit⟩ := List.append_of_mem hp
  refine (Plan.exists_drawing (hs.steps.origin rfl (hpasses.trans hsplit))).imp_right ?_
  rintro ⟨d, -⟩
  obtain ⟨q, hq, htext⟩ := Shader.exists_program_of_fragment d.written
  refine ⟨d, q, d.textures_eq ▸ hq, htext, ?_⟩
  exact Shader.closed_program hq (fun n hn => (d.collected.inlined n hn).1) d.root_mem

/-- Two nodes that feed each other, with a bound value and an array that takes a global value. -/
def tangled : Scene where
  graph := .ofLists
    [{ id := "a", inputs := [.ofId "x" .float, .ofId "y" .vec4, .ofId "w" (.array .float)],
       outputs := [.ofId "o" .vec4], uniforms := .ofList [("x", { type := .int, value := .int 1 })] },
      { id := "b", inputs := [.ofId "t" .vec4], outputs := [.ofId "o" .vec4] },
      { id := "k", kind := .globalVar, outputType := .float, globalValue := .int 2 }]
    [{ source := "b", target := "a", sourcePort := some "o", targetPort := some "y" },
      { source := "a", target := "b", sourcePort := some "o", targetPort := some "t" },
      { source := "k", target := "a", targetPort := some "w__0" }]
  config := {}

theorem reads_declared_or_unbacked_tangled : ∃ r log p,
    compile tangled { node := some "a" } = (.ok r, log) ∧ r.failure = none ∧ p ∈ r.passes ∧
      ∃ (d : Plan.Drawing tangled p) (q : Program),
        program tangled p.textures d.subgraph.order d.node (d.node.outputPort d.port) = .ok q ∧
          p.fragment = q.text tangled ∧
          Closed tangled.config (fun _ ref => q.Declares tangled ref ∨ Unbacked tangled.graph ref)
            q.statements := by
  have hrun : succeedsWith tangled { node := some "a" }
      (fun r => r.passes.any (·.id == "a")) = true := by
    decide +kernel
  obtain ⟨r, log, hr, hf, htest⟩ := exists_of_succeedsWith hrun
  obtain ⟨p, hp, -⟩ := List.any_eq_true.1 htest
  exact ⟨r, log, p, hr, hf, hp,
    (reads_declared_or_unbacked hr hf hp).resolve_left (Plan.not_isStagePass (by decide +kernel))⟩

/-- An output proxy with a bound value. -/
def boundProxy : Node :=
  { id := "z", kind := .graphOutput, inputs := [.ofId "r" .vec4],
    uniforms := .ofList [("r", { type := .vec4, value := .list [.int 1, .int 0, .int 0, .int 1] })] }

def proxied : Scene where
  graph := .ofLists [boundProxy] []
  config := {}

/-- The program of the proxy. -/
def proxyProgram : Program where
  textures := []
  uniforms := []
  functions :=
    ["// Node: z\nvoid node_z_run(vec2 uv, vec4 r, out vec4 result) \x7b\n  result = r;\n\x7d\n\n"]
  statements :=
    [.output boundProxy Shader.resultPort,
      .call boundProxy [.value (.bound boundProxy (.ofId "r" .vec4)) .vec4 .vec4] [Shader.resultPort],
      .colour (.value (.output boundProxy Shader.resultPort) .vec4 .vec4)]

/-- The compilation of the proxy succeeds, but its main function reads the uniform of the bound value,
which is not declared. -/
theorem proxy_value_undeclared : ∃ r log p,
    compile proxied { node := some "z" } = (.ok r, log) ∧ r.failure = none ∧ p ∈ r.passes ∧
      program proxied .empty [boundProxy] boundProxy (boundProxy.outputPort none) = .ok proxyProgram ∧
      p.fragment = proxyProgram.text proxied ∧
      ¬ Closed proxied.config (fun _ => proxyProgram.Declares proxied) proxyProgram.statements := by
  have hrun : succeedsWith proxied { node := some "z" }
      (fun r => r.passes.any (·.fragment == proxyProgram.text proxied)) = true := by
    decide +kernel
  obtain ⟨r, log, hr, hf, htest⟩ := exists_of_succeedsWith hrun
  obtain ⟨p, hp, hfragment⟩ := List.any_eq_true.1 htest
  refine ⟨r, log, p, hr, hf, hp, rfl, eq_of_beq hfragment, fun hclosed => ?_⟩
  rcases hclosed [.output boundProxy Shader.resultPort] _ _ rfl
    (.bound boundProxy (.ofId "r" .vec4)) (by simp [Statement.reads, Shader.Expression.references])
    with hbefore | hdeclared
  · exact absurd hbefore (by decide +kernel)
  · cases hdeclared with
    | bound h => cases h

end RenderGraph.Compile
