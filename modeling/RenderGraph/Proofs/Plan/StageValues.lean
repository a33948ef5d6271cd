import RenderGraph.Proofs.Plan.EntryCalls
import RenderGraph.Proofs.Plan.StageProgram

/-!
# Bound values of a stage

A stage is called with an argument for each input of its default overload. For an input that nothing feeds
and to which a value is bound, that is the name of the input itself, which the program defines as the
uniform of the value. The defines, their uniforms and the arguments come from three functions. The first two
leave out the key `value`, and the third does not; besides, an argument is looked for under a name that a
reference to another stage may have too, and so may a uniform. Apart from these, they agree.

## Main definitions

* `Plan.Shadowed`: a bound value that a stage may miss
* `Plan.PassesValue`: the call of a stage passes a bound value

## Main results

* `Plan.StageBuild.namedBy`: what the textures of a stage are found under
* `Plan.StageBuild.passesValue`, `Plan.StageBuild.value_left_out`: values that are passed, and one that is not
* `Plan.values_passed_or_shadowed`: what a stage that is planned is passed
-/

namespace RenderGraph.Plan

open Source (StageReference stageReferences)

variable {scene : Scene} {plan : Request → PlanM String} {node : Node} {stage : Stage} {s t u : State}

/-! ### Names of textures -/

/-- The names by which a stage reads others, and that of the previous pass, which it need not read. -/
def referenceNames (stage : Stage) : List String :=
  (stageReferences stage.text).map (·.uniform) ++ [previousPass]

/-- A name is the key of an input that an edge feeds. -/
def IsFedKey (g : Graph) (node : Node) (name : String) : Prop :=
  ∃ e ∈ g.incoming node.id, ∃ port, e.targetPort = some port ∧ name = Shader.textureKey node.id port

/-- Nothing feeds an input of a node. -/
def IsUnfedAt (g : Graph) (node : Node) (port : String) : Prop :=
  ∀ e ∈ g.incoming node.id, e.targetPort ≠ some port

theorem IsUnfedAt.not_isFedKey {g : Graph} {port : String} (h : IsUnfedAt g node port) :
    ¬ IsFedKey g node (Shader.textureKey node.id port) := by
  rintro ⟨e, he, port', htarget, heq⟩
  obtain rfl : port = port' := by simpa [Shader.textureKey] using heq
  exact h e he htarget

/-- All textures are found under names with a property. -/
def NamedBy (P : String → Prop) (textures : Keyed String) : Prop :=
  ∀ name sampler, textures.get? name = some sampler → P name

theorem namedBy_empty (P : String → Prop) : NamedBy P .empty := by
  intro name sampler h
  rw [Keyed.get?_empty] at h
  cases h

theorem NamedBy.insert {P : String → Prop} {textures : Keyed String} {name : String}
    (h : NamedBy P textures) (hname : P name) (sampler : String) :
    NamedBy P (textures.insert name sampler) :=
  Keyed.forall_insert (P := fun name _ => P name) h hname

/-- What is read of other stages is found under the names of references. -/
private theorem leads_referenceTextures_names (references : List StageReference) :
    Leads (referenceTextures scene plan node references)
      (fun textures _ => NamedBy (· ∈ references.map (·.uniform)) textures) s := by
  unfold referenceTextures
  dsimp only
  refine Ends.foldlM (I := fun textures _ => NamedBy (· ∈ references.map (·.uniform)) textures)
    (fun textures r hr t ht => ?_) (namedBy_empty _)
  have hread (stage : String) : Leads (do
      let pass ← plan { node := node.id, stage := some stage }
      pure (textures.insert r.uniform (← sampler scene.config pass)))
      (fun textures _ => NamedBy (· ∈ references.map (·.uniform)) textures) t :=
    Leads.bind fun _ _ => Leads.bind fun _ _ => ht.insert (List.mem_map_of_mem hr) _
  cases r with
  | named id =>
    dsimp only
    split
    · exact hread id
    · exact Leads.bind fun _ _ => ht
  | first => exact hread _
  | previous => exact ht

/-- What feeds the node is found under the keys of its inputs. -/
private theorem leads_inputTextures_names {P : String → Prop} {textures : Keyed String}
    (h : NamedBy P textures) (hfed : ∀ name, IsFedKey scene.graph node name → P name) :
    Leads (inputTextures scene plan node textures) (fun r _ => NamedBy P r.all) s := by
  unfold inputTextures
  refine Ends.foldlM (I := fun (r : StageTextures) _ => NamedBy P r.all) (fun r e he t ht => ?_) h
  split
  · exact ht
  · exact ht
  · next port _ hport =>
    refine Leads.bind fun _ _ => Leads.bind fun _ _ => Leads.bind fun _ _ => ?_
    exact ht.insert (hfed _ ⟨e, he, port, hport, rfl⟩) _

/-- The textures of a stage are found under names of references and under keys of inputs that are fed. -/
theorem StageBuild.namedBy {previous : String} {template : RenderPass}
    (b : StageBuild scene plan node stage previous s template t) :
    NamedBy (fun name => name ∈ referenceNames stage ∨ IsFedKey scene.graph node name)
      template.textures := by
  have hread := (leads_referenceTextures_names _).of_run_ok b.reads
  rw [references_eq b.interface_eq] at hread
  have hnamed := (leads_inputTextures_names (fun name sampler h =>
    Or.inl (List.mem_append_left [previousPass] (hread name sampler h))) fun _ => Or.inr).of_run_ok b.feeds
  rw [b.textures_eq]
  unfold withPrevious
  split
  · exact hnamed
  · exact hnamed
  · exact hnamed.insert (Or.inl (List.mem_append_right _ List.mem_cons_self)) _

/-! ### Arguments -/

/-- A stage may miss the value that is bound to a key: the key is left out, or a texture for its input or
the uniform of the value would bear the name of a reference. -/
inductive Shadowed (node : Node) (stage : Stage) (key : String) : Prop
  | leftOut (h : key = "value")
  | texture (h : Shader.textureKey node.id key ∈ referenceNames stage)
  | uniform (h : node.uniformName key ∈ referenceNames stage)

/-- The argument for a port is the name of the port, which a program defines as a uniform that it declares,
and in some passes the uniform has the value, packed to the declared length. -/
structure PassesValue (scene : Scene) (node : Node) (program : String) (passes : List RenderPass)
    (port : Port) (b : BoundValue) (text : String) : Prop where
  text_eq : text = port.id
  defined : HasLine program ("#define " ++ text ++ " " ++ node.uniformName port.id)
  packed : ∃ length value, BoundValue.declaredLength b.type (some b) b.value scene.fallback = .ok length ∧
    pack b.type b.value length = .ok value ∧
    HasLine program (declarationLine (node.uniformName port.id) b.type length) ∧
    ∀ p ∈ passes, p.uniforms.get? (node.uniformName port.id) = some { type := b.type, value }

/-- Nothing is found under the key of an input that nothing feeds, unless it is the name of a reference; so
the argument for a bound value is the name of its input. -/
theorem StageBuild.entryArgument_eq {previous : String} {template : RenderPass} {port : Port}
    {v : BoundValue} (b : StageBuild scene plan node stage previous s template t)
    (hv : node.uniforms.get? port.id = some v) (hunfed : IsUnfedAt scene.graph node port.id)
    (hname : Shader.textureKey node.id port.id ∉ referenceNames stage) :
    entryArgument scene node template.textures port = .ok port.id := by
  have hnone : template.textures.get? (Shader.textureKey node.id port.id) = none := by
    refine Option.eq_none_iff_forall_ne_some.2 fun sampler hsampler => ?_
    exact (b.namedBy _ sampler hsampler).elim hname hunfed.not_isFedKey
  have hcontains : node.uniforms.contains port.id = true := by
    rw [Keyed.contains_eq_isSome, hv]
    rfl
  unfold entryArgument
  rw [hnone]
  exact if_pos hcontains

/-- The name of a uniform has two underscores of its own. -/
private theorem uniformName_ne {name : String} (h : name.toList.count '_' < 2) (port : String) :
    node.uniformName port ≠ name := by
  rintro rfl
  simp only [Node.uniformName, String.toList_append, List.count_append] at h
  have hparts : "u_".toList.count '_' = 1 ∧ "_".toList.count '_' = 1 := by decide
  omega

/-- Every pass of a stage has the uniforms of the first one, but for the numbers of a loop and for the
previous pass. -/
private theorem IsTurn.get?_uniforms {config : Config} {template p : RenderPass} {l : Loop} {i : Nat}
    (h : IsTurn config template l i p) {name : String} (hindex : name ≠ loopIndexUniform)
    (hcount : name ≠ loopCountUniform) (hprevious : name ≠ previousPass) :
    p.uniforms.get? name = template.uniforms.get? name := by
  rcases Nat.eq_zero_or_pos i with rfl | hi
  · obtain rfl := h.eq_firstIteration
    exact get?_iterationUniforms hindex hcount
  · obtain ⟨fragment, -, rfl⟩ := h.exists_eq hi
    rw [Keyed.get?_insert, if_neg hprevious]
    exact get?_iterationUniforms hindex hcount

/-- A name that no reference has is none that stands for a sampler. -/
theorem StageBuild.ne_of_mem_definedReferences {previous name : String} {template : RenderPass}
    (b : StageBuild scene plan node stage previous s template t) (hname : name ∉ referenceNames stage) :
    ∀ r ∈ definedReferences b.io.references template.textures, r.1 ≠ name := by
  rintro ⟨name, sampler⟩ hr rfl
  refine hname ?_
  rcases (mem_definedReferences.1 hr).2 with hprevious | ⟨r, hmem, -, hreference⟩
  · exact List.mem_append_right _ (List.mem_singleton.2 hprevious)
  · rw [references_eq b.interface_eq] at hmem
    exact List.mem_append_left _ (List.mem_map.2 ⟨r, hmem, hreference⟩)

/-- A bound value that is not shadowed is passed. -/
theorem StageBuild.passesValue {previous text : String} {template : RenderPass} {port : Port}
    {v : BoundValue} (b : StageBuild scene plan node stage previous s template t)
    (hv : node.uniforms.get? port.id = some v) (hunfed : IsUnfedAt scene.graph node port.id)
    (hshadowed : ¬ Shadowed node stage port.id)
    (htext : entryArgument scene node template.textures port = .ok text)
    {l : Loop} {passes : List RenderPass}
    (hpasses : ∀ p ∈ passes, ∃ i, IsTurn scene.config template l i p) :
    PassesValue scene node template.fragment passes port v text := by
  obtain ⟨cs, main, hprogram⟩ := isStageProgram_of_eq_ok b.writes
  have hbinding : (port.id, v) ∈ Shader.stageBindings node :=
    List.mem_filter.2 ⟨Keyed.mem_entries_iff.2 hv, by simpa using fun h => hshadowed (.leftOut h)⟩
  obtain ⟨c, hdeclared, hline, hdefine, hfind⟩ := hprogram.exists_declaration hbinding
  obtain ⟨length, hlength, hdeclared⟩ := Fault.bind_eq_ok_iff.1 hdeclared
  obtain ⟨value, hvalue, hdeclared⟩ := Fault.bind_eq_ok_iff.1 hdeclared
  obtain rfl := Except.ok.inj hdeclared
  have htemplate : template.uniforms.get? (node.uniformName port.id) = some { type := v.type, value } := by
    rw [hprogram.get?_of_forall_ne (b.ne_of_mem_definedReferences fun h => hshadowed (.uniform h)), hfind]
    rfl
  obtain rfl : port.id = text :=
    Except.ok.inj ((b.entryArgument_eq hv hunfed fun h => hshadowed (.texture h)).symm.trans htext)
  refine ⟨rfl, hdefine, length, value, hlength, hvalue, hline, fun p hp => ?_⟩
  obtain ⟨i, hturn⟩ := hpasses p hp
  rw [hturn.get?_uniforms (uniformName_ne (by decide) _) (uniformName_ne (by decide) _)
    (uniformName_ne (by decide) _), htemplate]

/-- A value under the key `value` has no uniform, although its name is passed like that of any other. -/
theorem StageBuild.value_left_out {previous : String} {template : RenderPass} {port : Port} {v : BoundValue}
    (b : StageBuild scene plan node stage previous s template t) (hkey : port.id = "value")
    (hv : node.uniforms.get? port.id = some v) (hunfed : IsUnfedAt scene.graph node port.id)
    (htexture : Shader.textureKey node.id port.id ∉ referenceNames stage)
    (huniform : node.uniformName port.id ∉ referenceNames stage) :
    entryArgument scene node template.textures port = .ok port.id ∧
      template.uniforms.get? (node.uniformName port.id) = none := by
  obtain ⟨cs, main, hprogram⟩ := isStageProgram_of_eq_ok b.writes
  refine ⟨b.entryArgument_eq hv hunfed htexture, ?_⟩
  rw [hprogram.get?_of_forall_ne (b.ne_of_mem_definedReferences huniform), Option.map_eq_none_iff,
    List.find?_eq_none]
  intro c hc hname
  obtain ⟨binding, hbinding, hdeclared⟩ := exists_of_forall₂ hprogram.declared hc
  have hother : binding.1 ≠ "value" := by simpa using (List.mem_filter.1 hbinding).2
  rw [beq_iff_eq, BoundValue.name_of_declaration hdeclared] at hname
  exact hother ((by simpa [Node.uniformName] using hname : binding.1 = port.id).trans hkey)

/-- A program that ends with the main function of a stage ends with a call. -/
private theorem endsInCall_of_eq {fragment front : String} {texts : List String}
    (h : fragment = front ++ mainCall texts) : EndsInCall fragment (texts ++ ["fragColor"]) := by
  refine ⟨front, h.trans (congrArg _ ?_)⟩
  unfold mainCall
  rw [List.singleton_append, List.cons_append]

/-- A stage that has a body has it as its text. -/
private theorem body_eq_text {body : String} (h : stage.body = .ok body) : body = stage.text := by
  unfold Stage.body at h
  unfold Stage.text
  split at h
  · next hsource =>
    rw [hsource]
    exact (Except.ok.inj h).symm
  · cases h

/-- The first pass of a stage that is planned ends with a call of its entry function, unless its body has a
main function. For each input of the default overload that nothing feeds and to which a value is bound, the
call passes the value, unless it is shadowed; later passes have the same uniform for it. -/
theorem values_passed_or_shadowed {n : Nat} {previous q : String}
    (h : (planStage scene (planWithin scene n) node stage (stageKey node stage) previous).run s =
      (.ok q, t)) :
    ∃ p later io, AddsStage scene (planWithin scene n) node stage previous s t p later ∧
      Source.interface stage.text = .ok io ∧
      (Text.occurs Source.mainDeclaration stage.text.toList = true ∨
        ∃ texts, EndsInCall p.fragment (texts ++ ["fragColor"]) ∧
          List.Forall₂ (fun port text => ∀ b, node.uniforms.get? port.id = some b →
            IsUnfedAt scene.graph node port.id →
            PassesValue scene node p.fragment (p :: later) port b text ∨ Shadowed node stage port.id)
            io.inputs texts) := by
  obtain ⟨p, later, hp⟩ := exists_addsStage h
  obtain ⟨template, l, u, hbuild, rfl, hlater, -, -⟩ := hp.built
  obtain ⟨b⟩ := (leads_buildStage_build _ previous s).of_run_ok hbuild
  obtain ⟨cs, main, hprogram⟩ := isStageProgram_of_eq_ok b.writes
  refine ⟨_, later, b.io, hp, b.interface_eq, ?_⟩
  rw [← body_eq_text b.body_eq]
  refine hprogram.called.imp And.left ?_
  rintro ⟨texts, htexts, rfl⟩
  have hbehind (front behind : String) : front ++ (behind ++ mainCall texts) =
      front ++ behind ++ mainCall texts :=
    (String.append_assoc ..).symm
  refine ⟨texts, endsInCall_of_eq (hprogram.code_eq.trans (hbehind _ _)), ?_⟩
  have hgiven : Yields (b.io.inputs.mapM (entryArgument scene node template.textures))
      (List.Forall₂ (fun port text => entryArgument scene node template.textures port = .ok text)
        b.io.inputs) fun _ => True :=
    Yields.mapM fun port _ => yields_iff.2 ⟨fun text htext => htext, fun _ _ => trivial⟩
  rw [htexts, yields_ok] at hgiven
  refine hgiven.imp fun port text htext v hv hunfed => ?_
  by_cases hshadowed : Shadowed node stage port.id
  · exact Or.inr hshadowed
  · refine Or.inl (b.passesValue hv hunfed hshadowed htext (l := l) ?_)
    exact List.forall_mem_cons.2 ⟨⟨0, rfl⟩, fun p' hp' => (hlater p' hp').imp fun _ h => h.2⟩

/-! ### One bound value -/

/-- An input of a key, and a value that is bound to it. -/
def amplifierPort (key : String) : Port :=
  .ofId key .float

def amplifierValue : BoundValue where
  type := .float
  value := .int 2

/-- A stage that reads an input. -/
def amplifierStage (key : String) : Stage where
  id := "s"
  source := some ("void run(vec2 uv, float " ++ key ++ ", out vec4 c) \x7b c = vec4(" ++ key ++ "); \x7d")

/-- The node of the stage, with the value. -/
def amplifierNode (key : String) : Node where
  id := "n"
  kind := .multiStage
  inputs := [amplifierPort key]
  uniforms := .ofList [(key, amplifierValue)]
  stages := [amplifierStage key]

def amplifier (key : String) : Scene where
  graph := .ofLists [amplifierNode key] []
  config := {}

/-- The planning of the stage. -/
def amplified (key : String) : Except Fault String × State :=
  (planStage (amplifier key) (planWithin (amplifier key) 0) (amplifierNode key) (amplifierStage key)
    (stageKey (amplifierNode key) (amplifierStage key)) "").run {}

theorem values_passed_or_shadowed_gain : ∃ q t p later,
    amplified "gain" = (.ok q, t) ∧ p ∈ t.passes ∧ EndsInCall p.fragment ["gain", "fragColor"] ∧
    PassesValue (amplifier "gain") (amplifierNode "gain") p.fragment (p :: later) (amplifierPort "gain")
      amplifierValue "gain" := by
  have hok : (amplified "gain").1.isOk = true := by decide +kernel
  have htext : (amplifierStage "gain").text =
      "void run(vec2 uv, float gain, out vec4 c) \x7b c = vec4(gain); \x7d" := by
    decide +kernel
  have hio : Source.interface (amplifierStage "gain").text = .ok
      { inputs := [amplifierPort "gain"], outputs := [.ofId "c" .vec4], valid := true, index := some 0 } := by
    rw [Source.interface, Source.overloads, Source.tokenize_stripComments, stageReferences, htext,
      String.toList_ofList]
    decide +kernel
  have hmain : Text.occurs Source.mainDeclaration (amplifierStage "gain").text.toList = false := by
    rw [htext, String.toList_ofList]
    decide +kernel
  have hunfed : IsUnfedAt (amplifier "gain").graph (amplifierNode "gain") "gain" := by
    have hincoming : (amplifier "gain").graph.incoming "n" = [] := rfl
    intro e he
    rw [show (amplifierNode "gain").id = "n" from rfl, hincoming] at he
    cases he
  have hshadowed : ¬ Shadowed (amplifierNode "gain") (amplifierStage "gain") "gain" := by
    have hreferences : referenceNames (amplifierStage "gain") = [previousPass] := by
      rw [referenceNames, stageReferences, htext, String.toList_ofList]
      decide +kernel
    rintro (h | h | h)
    · exact absurd h (by decide)
    · exact absurd (hreferences ▸ h) (by decide)
    · exact absurd (hreferences ▸ h) (by decide)
  obtain ⟨q, t, hrun⟩ := exists_run_of_isOk hok
  obtain ⟨p, later, io, hp, hinterface, hcall⟩ := values_passed_or_shadowed hrun
  obtain ⟨texts, hcall, hvalues⟩ := hcall.resolve_left (by rw [hmain]; exact Bool.false_ne_true)
  obtain rfl := Except.ok.inj (hinterface.symm.trans hio)
  obtain ⟨text, rest, hvalue, hrest, rfl⟩ := List.forall₂_cons_left_iff.1 hvalues
  obtain rfl := List.forall₂_nil_left_iff.1 hrest
  have hpasses := (hvalue amplifierValue rfl hunfed).resolve_right hshadowed
  obtain rfl : text = "gain" := hpasses.text_eq
  obtain ⟨_, _, u, -, -, -, hpassed, -⟩ := hp.built
  refine ⟨q, t, p, later, hrun, ?_, hcall, hpasses⟩
  rw [hpassed]
  exact List.mem_append_right _ List.mem_cons_self

/-- The lines of the program for the key `value`, before its main function. -/
private def valueLines : List String :=
  ["#version 300 es\n", "precision mediump float;\n", "in vec2 vUv;\n", "out vec4 fragColor;\n",
    "#define texture2D texture\n", "#define gl_FragColor fragColor\n", "\n", "uniform float u_time;\n",
    "uniform vec2 u_resolution;\n", "uniform sampler2D u_empty_tex;\n", "uniform samplerCube u_empty_cube;\n",
    "\n", "// Shadertoy compatibility\n", "#define iTime u_time\n",
    "#define iResolution vec3(u_resolution, 1.0)\n", "// Inject Node Uniforms\n", "\n",
    "void run(vec2 uv, float value, out vec4 c) \x7b c = vec4(value); \x7d\n"]

/-- The program neither defines the name of the value nor mentions a uniform of the node. -/
private theorem not_mentions_of_valueLines {text : String} (htext : text ∈ ["#define value", "u_n_value"]) :
    ¬ Mentions (String.join (valueLines ++ [mainCall ["value"]])) text := by
  have hscan : ∀ text ∈ ["#define value", "u_n_value"], Text.occurs (Text.literal text)
      ((valueLines ++ [mainCall ["value"]]).flatMap String.toList) = false := by
    rw [valueLines, List.flatMap_append]
    repeat rw [List.flatMap_cons, String.toList_ofList]
    decide +kernel
  rw [mentions_iff_occurs, String.toList_join, hscan text htext]
  exact Bool.false_ne_true

/-- A value under the key `value` is passed by a name that nothing defines, and no uniform has it. -/
theorem value_key_undefined : ∃ q t p,
    amplified "value" = (.ok q, t) ∧ t.passes = [p] ∧ EndsInCall p.fragment ["value", "fragColor"] ∧
    ¬ Mentions p.fragment "#define value" ∧ ¬ Mentions p.fragment "u_n_value" ∧
    p.uniforms.get? "u_n_value" = none := by
  have htest : ((amplified "value").1.isOk &&
      ((amplified "value").2.passes.map fun p => (p.fragment, p.uniforms.contains "u_n_value")) ==
        [(String.join (valueLines ++ [mainCall ["value"]]), false)]) = true := by
    decide +kernel
  obtain ⟨hok, hpasses⟩ := Bool.and_eq_true_iff.1 htest
  obtain ⟨q, t, hrun⟩ : ∃ q t, amplified "value" = (.ok q, t) := exists_run_of_isOk hok
  rw [hrun, beq_iff_eq] at hpasses
  obtain ⟨p, hp, htest⟩ := List.map_eq_singleton_iff.1 hpasses
  obtain ⟨hfragment, huniform⟩ := Prod.mk.inj htest
  rw [Keyed.contains_eq_isSome, Option.isSome_eq_false_iff, Option.isNone_iff_eq_none] at huniform
  refine ⟨q, t, p, hrun, hp, ?_, ?_, ?_, huniform⟩
  · have hjoin (main : String) : String.join [main] = main := by simp [String.join]
    rw [String.join_append, hjoin] at hfragment
    have hends := endsInCall_of_eq hfragment
    rwa [List.singleton_append] at hends
  · rw [hfragment]
    exact not_mentions_of_valueLines List.mem_cons_self
  · rw [hfragment]
    exact not_mentions_of_valueLines (List.mem_cons_of_mem _ List.mem_cons_self)

end RenderGraph.Plan
