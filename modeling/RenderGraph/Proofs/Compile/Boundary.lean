import RenderGraph.Proofs.Compile.Totality
import RenderGraph.Proofs.Plan.Drawing
import RenderGraph.Proofs.Shader.Calls

/-!
# Where boundaries are read

The value of an edge that is a boundary comes from a pass of its own. A call in the main function of a
pass reads it from the texture of that pass; only an array whose handles are also inputs may take it
inline as an element. A call in the body of a compound knows no textures, and takes it inline.

## Main definitions

* `Compile.ReadsPass`: an argument reads the texture of a pass
* `Compile.SamplesBoundaries`: the calls of a main function read boundaries from passes

## Main results

* `Compile.boundary_sampled_or_inner`
-/

namespace RenderGraph.Compile

open Plan (Drawing IsBoundaryEdge IsBoundaryInput)

/-- An argument takes nothing inline, but reads the texture of a pass. -/
def ReadsPass (p : RenderPass) (passes : List RenderPass) (a : Shader.Argument) : Prop :=
  a.inlined = [] ∧ ∃ u q, a.text = Shader.sample u a.port.type ∧ p.bindings.get? u = some q ∧
    ∃ p' ∈ passes, p'.id = q

variable {scene : Scene} {target : Target} {r : Result} {log : List Journal.Record} {p : RenderPass}

/-- The main function of a pass is made of calls of the nodes that it inlines. Unless a node has an empty
id, a boundary is read from a pass where it feeds an input, and it is taken inline by an array only, of
which its handle names an element. -/
def SamplesBoundaries (passes : List RenderPass) (d : Drawing scene p) : Prop :=
  ∃ front functions blocks value,
    p.fragment = "\n".intercalate (front ++
      [String.join functions, "\n".intercalate (Shader.mainLines scene blocks value)]) ∧
    d.subgraph.order.mapM (Shader.nodeFunctions scene) = .ok functions ∧
    Shader.Calls { scene, textures := p.textures } d.subgraph.order blocks ∧
    (scene.graph.node? "" = none → ∀ b ∈ blocks, ∀ a ∈ b.arguments, ∀ e,
      IsBoundaryEdge scene.graph b.node e →
        (e.targetPort = some a.port.id → ReadsPass p passes a) ∧
        (e ∈ a.inlined → ∃ i, e.arrayElement = .ok (some (a.port.id, i))))

private theorem texture?_eq {ctx : Shader.CallContext} {node port u : String}
    (h : ctx.textures.get? (Shader.textureKey node port) = some u) (hne : u ≠ "") :
    ctx.texture? node port = some u := by
  unfold Shader.CallContext.texture?
  rw [h]
  split
  · next he => cases he
  · next he => exact absurd (Option.some.inj he) hne
  · next he => rw [Option.some.inj he]

theorem samplesBoundaries {passes : List RenderPass} (d : Drawing scene p)
    (hb : ∀ {u q : String}, p.bindings.get? u = some q → ∃ p' ∈ passes, p'.id = q) :
    SamplesBoundaries passes d := by
  obtain ⟨front, functions, blocks, value, hfunctions, hcalls, hcode⟩ :=
    Shader.exists_calls_of_fragment d.written
  rw [← d.textures_eq] at hcalls
  refine ⟨front, functions, blocks, value, hcode, hfunctions, hcalls, ?_⟩
  intro hid b hmem a ha e he
  obtain ⟨hn, port, hport, emitted, hgiven⟩ := hcalls.exists_given hmem ha
  -- At a boundary there is a texture, so that the argument is one.
  have htexture (hp : e.targetPort = some port.id) : ∃ u q,
      Shader.CallContext.texture? { scene, textures := p.textures, emitted } b.node.id port.id =
        some u ∧ p.bindings.get? u = some q := by
    obtain ⟨u, q, hne, hu, hq⟩ := d.exists_bound hid hn ⟨e, he, hp⟩
    exact ⟨u, q, texture?_eq hu hne, hq⟩
  constructor
  · intro hp
    obtain ⟨u, q, hu, hq⟩ := htexture (hgiven.port_eq ▸ hp)
    cases hgiven with
    | texture hu' =>
      rw [hu, Option.some.injEq] at hu'
      subst hu'
      exact ⟨rfl, u, q, rfl, hq, hb hq⟩
    | edge ht => simp [hu] at ht
    | array ht => simp [hu] at ht
    | own ht => simp [hu] at ht
  · intro hinlined
    cases hgiven with
    | texture => simp at hinlined
    | edge ht hedge =>
      rw [List.mem_singleton] at hinlined
      subst hinlined
      obtain ⟨-, hp⟩ := Graph.target_of_edgeInto hedge
      obtain ⟨u, q, hu, -⟩ := htexture hp
      simp [hu] at ht
    | array _ helements =>
      obtain ⟨hmem, -⟩ := List.mem_filter.1 hinlined
      obtain ⟨⟨e, i⟩, helement, rfl⟩ := List.mem_map.1 hmem
      exact ⟨i, (Shader.mem_of_elementEdges helements helement).2⟩
    | own => simp at hinlined

/-- A boundary that feeds an input of a node which a compound calls is taken inline. -/
theorem inlines_of_innerCalls {compound : Node} {body : String} {blocks : List Shader.Block}
    (h : Shader.InnerCalls scene compound body blocks) {b : Shader.Block} (hb : b ∈ blocks)
    {a : Shader.Argument} (ha : a ∈ b.arguments) {e : Edge} (he : IsBoundaryEdge scene.graph b.node e)
    (hp : e.targetPort = some a.port.id) :
    a.inlined = [e] ∧ Shader.innerSource scene compound.id e a.port.type = .ok a.text := by
  obtain ⟨n, -, hcalled⟩ := exists_of_forall₂ h.called hb
  obtain ⟨port, -, hgiven⟩ := exists_of_forall₂ hcalled.given ha
  obtain ⟨hedge, htarget⟩ : e ∈ scene.graph.edges ∧ e.target = b.node.id := by
    simpa using List.mem_filter.1 he.1
  have hinto := Graph.edgeInto_eq_some hedge
  rw [htarget, hp, hcalled.node_eq] at hinto
  cases hgiven with
  | edge hinto' hv =>
    rw [hinto, Option.some.injEq] at hinto'
    subst hinto'
    exact ⟨rfl, hv⟩
  | own hnone => simp [hinto] at hnone

/-- The calls of a main function read boundaries from passes; the calls of a compound take them
inline. -/
theorem boundary_sampled_or_inner (h : compile scene target = (.ok r, log)) (hf : r.failure = none)
    (hp : p ∈ r.passes) :
    (Plan.IsStagePass scene p ∨ ∃ d : Drawing scene p, SamplesBoundaries r.passes d) ∧
      ∀ fuel stack compound body, Shader.compoundWithin scene fuel stack compound = .ok body →
        ∃ blocks, Shader.InnerCalls scene compound body blocks ∧
          ∀ b ∈ blocks, ∀ a ∈ b.arguments, ∀ e, IsBoundaryEdge scene.graph b.node e →
            e.targetPort = some a.port.id →
              a.inlined = [e] ∧ Shader.innerSource scene compound.id e a.port.type = .ok a.text := by
  obtain ⟨s, hs, hpasses, -⟩ := exists_steps_of_compile h hf
  obtain ⟨before, after, hsplit⟩ := List.append_of_mem hp
  constructor
  · refine (Plan.exists_drawing (hs.steps.origin rfl (hpasses.trans hsplit))).imp_right ?_
    rintro ⟨d, -⟩
    refine ⟨d, samplesBoundaries d fun hq => ?_⟩
    have hsound := hs.steps.sound Plan.sound_initial
    exact hpasses ▸ exists_pass_of_known hs (hsound.bindings (hpasses.trans hsplit) hq).1
  · intro fuel stack compound body hbody
    obtain ⟨blocks, hblocks⟩ := Shader.exists_innerCalls hbody
    exact ⟨blocks, hblocks, fun b hb a ha e he => inlines_of_innerCalls hblocks hb ha he⟩

/-- A node that is fed twice: as a texture, by an edge whose handle also names an element of an array,
and inline. -/
def mixed : Scene where
  graph := .ofLists
    [{ id := "s", outputs := [.ofId "o" .vec4] },
      { id := "n", inputs := [.ofId "x" (.array .float), .ofId "x__0" .sampler2D, .ofId "y" .vec4],
        outputs := [.ofId "o" .vec4] }]
    [{ source := "s", target := "n", sourcePort := some "o", targetPort := some "x__0" },
      { source := "s", target := "n", sourcePort := some "o", targetPort := some "y" }]
  config := {}

theorem boundary_sampled_or_inner_mixed : ∃ r log p,
    compile mixed { node := some "n" } = (.ok r, log) ∧ r.failure = none ∧ p ∈ r.passes ∧
      p.id = "n" ∧ (∃ d : Drawing mixed p, SamplesBoundaries r.passes d) := by
  have hrun : succeedsWith mixed { node := some "n" }
      (fun r => r.passes.any (·.id == "n")) = true := by
    decide +kernel
  obtain ⟨r, log, hr, hf, htest⟩ := exists_of_succeedsWith hrun
  obtain ⟨p, hp, hid⟩ := List.any_eq_true.1 htest
  have hdrawn := (boundary_sampled_or_inner hr hf hp).1
  exact ⟨r, log, p, hr, hf, hp, by simpa using hid,
    hdrawn.resolve_left (Plan.not_isStagePass (by decide +kernel))⟩

/-- A node that draws something. -/
def drawing : Node :=
  { id := "y", outputs := [.ofId "o" .vec4], scope := some "C" }

/-- A node that reads a texture. -/
def sampling : Node :=
  { id := "x", inputs := [.ofId "t" .sampler2D], outputs := [.ofId "o" .vec4], scope := some "C" }

/-- A compound inside which a node reads another as a texture. -/
def nested : Scene where
  graph := .ofLists
    [drawing, sampling,
      { id := "z", kind := .graphOutput, inputs := [.ofId "r" .vec4], scope := some "C" },
      { id := "C", kind := .compound, outputs := [.ofId "r" .vec4] }]
    [{ source := "y", target := "x", sourcePort := some "o", targetPort := some "t" },
      { source := "x", target := "z", sourcePort := some "o", targetPort := some "r" }]
  config := {}

private theorem not_cause_nested (f : Fault) : ¬ Cause nested f :=
  not_cause_of_plain (by decide +kernel) (by decide +kernel) (by decide +kernel) (by decide +kernel) rfl
    (by decide +kernel) (by decide +kernel) (by decide +kernel)

/-- The compilation of the compound succeeds, but the call inside it takes the boundary inline: as a
variable where a texture is wanted. -/
theorem nested_boundary_inlined : ∃ r log compound body blocks,
    compile nested { node := some "C" } = (.ok r, log) ∧ r.failure = none ∧
      nested.graph.node? "C" = some compound ∧ Shader.compoundBody nested compound = .ok body ∧
      Shader.InnerCalls nested compound body blocks ∧
      ∃ b ∈ blocks, ∃ a ∈ b.arguments, IsBoundaryInput nested.graph b.node a.port.id ∧
        a.text = "sampler2D(out_y_o)" := by
  obtain ⟨compound, hc⟩ : ∃ compound, nested.graph.node? "C" = some compound :=
    Option.isSome_iff_exists.1 (by decide +kernel)
  have hid : compound.id = "C" := nested.graph.id_eq hc
  have he : Target.Exists { node := some "C" } compound := Or.inr (Or.inl rfl)
  obtain ⟨r, log, hr, hf⟩ := (compile_or_cause rfl (by decide) hc he).resolve_right
    fun ⟨f, _, _, hcause⟩ => not_cause_nested f hcause
  obtain ⟨body, hbody⟩ :=
    Shader.exists_compoundBody (Graph.mem_nodeList_of_node? hc) not_cause_nested
  obtain ⟨blocks, hblocks⟩ := Shader.exists_innerCalls hbody
  refine ⟨r, log, compound, body, blocks, hr, hf, hc, hbody, hblocks, ?_⟩
  have hcalled := hblocks.called
  rw [hid] at hcalled
  -- The node that reads the texture is called, and its only input is given a variable.
  have hmem : sampling ∈ (Shader.callOrder nested (nested.graph.children (some "C"))).filter
      (Shader.hasFunction ·.kind) := by
    show sampling ∈ [drawing, sampling]
    simp
  obtain ⟨b, hb, hcalls⟩ := exists_of_forall₂ hcalled.flip hmem
  obtain ⟨a, ha, hgiven⟩ := exists_of_forall₂ hcalls.given.flip
    (b := Port.ofId "t" .sampler2D) (by simp [sampling])
  refine ⟨b, hb, a, ha, ?_, ?_⟩
  · rw [hcalls.node_eq, hgiven.port_eq]
    exact ⟨_, ⟨List.mem_cons_self, _, drawing, rfl, rfl, rfl⟩, rfl⟩
  · have htext := hgiven.argument_eq
    exact (Except.ok.inj htext).symm

end RenderGraph.Compile
