import RenderGraph.Proofs.Plan.StageProgram

/-!
# What a stage reads of others

A body names the textures of other stages. A name that means a stage of the node, the first stage or the
previous one always stands for a sampler: the planned pass of the stage, the pass before, a texture that is
fed to the node, one that is bound to it, or the empty texture. The program defines the name as the sampler
and declares the sampler, unless the header declares it already or the line of a bound value does; the
textures and the uniforms of the pass have the name too. Only a name that means no stage stands for nothing,
and that is reported.

## Main definitions

* `Plan.ReadsAs`: a pass reads a sampler under a name
* `Plan.Dangles`: a reference means no stage, and that was reported

## Main results

* `Plan.StageBuild.isSome_or_dangles`: there is a texture for each reference
* `Plan.reads_or_dangles_of_planStage`: the references of a stage that is planned
-/

namespace RenderGraph.Plan

open Source (StageReference stageReferences)

variable {scene : Scene} {plan : Request → PlanM String} {node : Node} {stage : Stage} {s t u : State}

/-! ### Textures -/

/-- On the way from one state to another, textures and warnings were added, and no name of a texture was
lost. -/
structure Gains (textures : Keyed String) (s : State) (textures' : Keyed String) (t : State) : Prop where
  kept : ∀ {name : String}, (textures.get? name).isSome = true → (textures'.get? name).isSome = true
  warnings : s.warnings <+: t.warnings

namespace Gains

variable {m m' m'' : Keyed String}

theorem refl (m : Keyed String) (s : State) : Gains m s m s :=
  ⟨id, List.prefix_refl _⟩

theorem trans (h : Gains m s m' t) (h' : Gains m' t m'' u) : Gains m s m'' u :=
  ⟨fun hname => h'.kept (h.kept hname), h.warnings.trans h'.warnings⟩

theorem insert (h : s.warnings <+: t.warnings) (m : Keyed String) (name sampler : String) :
    Gains m s (m.insert name sampler) t := by
  refine ⟨fun {name'} hname => ?_, h⟩
  rw [Keyed.get?_insert]
  split
  · rfl
  · exact hname

end Gains

/-- What is told of a reference that means no stage of a node. -/
def danglingWarning (id node : String) : String :=
  "Pass dependency \"" ++ id ++ "\" not found in node " ++ node

/-- A reference means no stage of a node, and that was reported. -/
def Dangles (node : Node) (warnings : List String) (r : StageReference) : Prop :=
  ∃ id, r = .named id ∧ id ∉ node.stages.map (·.id) ∧ danglingWarning id node.id ∈ warnings

theorem Dangles.mono {r : StageReference} (h : Dangles node s.warnings r)
    (hw : s.warnings <+: t.warnings) : Dangles node t.warnings r := by
  obtain ⟨id, hr, hid, hmem⟩ := h
  exact ⟨id, hr, hid, hw.subset hmem⟩

/-- A plan takes no warning back. -/
def KeepsWarnings (plan : Request → PlanM String) : Prop :=
  ∀ r s, Leads (plan r) (fun _ t => s.warnings <+: t.warnings) s

theorem keepsWarnings_planWithin (scene : Scene) (n : Nat) : KeepsWarnings (planWithin scene n) := by
  intro r s
  refine ends_iff.2 ⟨fun q t hr => ?_, fun _ _ _ => trivial⟩
  obtain ⟨keys, h⟩ := orderly_planWithin scene n r s
  rw [hr] at h
  exact h.warnings

/-- A texture is asked for. -/
private theorem leads_read {α : Type} (hplan : KeepsWarnings plan) {r : Request} {f : String → α}
    {Q : α → State → Prop} (h : ∀ name t, s.warnings <+: t.warnings → Q (f name) t) :
    Leads (do
        let pass ← plan r
        let name ← sampler scene.config pass
        pure (f name)) Q s := by
  rw [Leads, ends_bind]
  refine (hplan r s).mono (fun pass t ht => ?_) fun _ _ => id
  rw [ends_bind, ends_sampler]
  split
  · exact h _ t ht
  · exact h _ _ ht

/-- There is a texture for each reference that means another stage; one that means none is reported. -/
private theorem leads_referenceTextures_gains (hplan : KeepsWarnings plan)
    (references : List StageReference) :
    Leads (referenceTextures scene plan node references) (fun textures t =>
      ∀ r ∈ references, r = .previous ∨ (textures.get? r.uniform).isSome = true ∨
        Dangles node t.warnings r) s := by
  unfold referenceTextures
  dsimp only
  generalize (Keyed.empty : Keyed String) = m
  suffices h : Leads (references.foldlM _ m) (fun textures t => Gains m s textures t ∧
      ∀ r ∈ references, r = .previous ∨ (textures.get? r.uniform).isSome = true ∨
        Dangles node t.warnings r) s from h.mono (fun _ _ h => h.2) fun _ _ => id
  induction references generalizing m s with
  | nil => exact ⟨.refl m s, by simp⟩
  | cons r references ih =>
    rw [List.foldlM_cons, Leads, ends_bind]
    -- What the first reference adds is kept by the others.
    suffices hr : Leads _ (fun m' t => Gains m s m' t ∧ (r = .previous ∨
        (m'.get? r.uniform).isSome = true ∨ Dangles node t.warnings r)) s by
      refine Ends.mono hr (fun m' t h => ?_) fun _ _ => id
      obtain ⟨hgains, hfirst⟩ := h
      refine (ih m').mono (fun m'' u h => ?_) fun _ _ => id
      obtain ⟨hrest, hall⟩ := h
      refine ⟨hgains.trans hrest, List.forall_mem_cons.2 ⟨?_, hall⟩⟩
      exact hfirst.imp_right (Or.imp hrest.kept fun h => h.mono hrest.warnings)
    have hread (name stage : String) : Leads (do
        let pass ← plan { node := node.id, stage := some stage }
        pure (m.insert name (← sampler scene.config pass)))
        (fun m' t => Gains m s m' t ∧ (m'.get? name).isSome = true) s := by
      refine leads_read hplan fun sampler t ht => ⟨.insert ht .., ?_⟩
      rw [Keyed.get?_insert, if_pos rfl]
      rfl
    cases r with
    | named target =>
      dsimp only
      split
      · exact (hread _ _).mono (fun _ _ h => ⟨h.1, Or.inr (Or.inl h.2)⟩) fun _ _ => id
      · next hid =>
        rw [Leads, ends_bind, ends_warn, ends_pure]
        refine ⟨⟨id, List.prefix_append _ _⟩, Or.inr (Or.inr ⟨_, rfl, hid, ?_⟩)⟩
        exact List.mem_append_right _ List.mem_cons_self
    | first => exact (hread _ _).mono (fun _ _ h => ⟨h.1, Or.inr (Or.inl h.2)⟩) fun _ _ => id
    | previous => exact ⟨.refl m s, Or.inl rfl⟩

/-- What feeds the node adds textures. -/
private theorem leads_inputTextures_gains (hplan : KeepsWarnings plan) (m : Keyed String) :
    Leads (inputTextures scene plan node m) (fun r t => Gains m s r.all t) s := by
  refine Ends.foldlM (I := fun (r : StageTextures) t => Gains m s r.all t) (fun r e _ t ht => ?_) (.refl m s)
  split
  · exact ht
  · exact ht
  · rw [ends_bind, ends_lift, yields_iff]
    refine ⟨fun _ _ => ?_, fun _ _ => trivial⟩
    exact leads_read hplan fun name u hu => ht.trans (.insert hu ..)

/-- There is a previous pass for every stage that reads it. -/
private theorem leads_previousTexture_isSome (he : scene.config.emptyTexture ≠ "") (previous : String)
    (firstInput : Option String) (isRead : Bool) :
    Leads (previousTexture scene node previous firstInput isRead) (fun texture t =>
      t.warnings = s.warnings ∧ (isRead = true → ∃ u, texture = some u ∧ u ≠ "")) s := by
  unfold previousTexture
  split
  · rw [Leads, ends_bind, ends_sampler]
    split
    · exact ⟨rfl, fun _ => ⟨_, rfl, he⟩⟩
    · exact ⟨rfl, fun _ => ⟨_, rfl, by simp [Shader.samplerName]⟩⟩
  · cases isRead with
    | false => exact ⟨rfl, by simp⟩
    | true =>
      have hbound (bound : Option Port) :
          (bound.map fun port => node.uniformName port.id).getD scene.config.emptyTexture ≠ "" := by
        cases bound with
        | none => exact he
        | some port => simp [Node.uniformName]
      refine ⟨rfl, fun _ => ⟨_, rfl, ?_⟩⟩
      split
      · exact hbound _
      · exact hbound _
      · next hne => exact hne

/-- The previous pass is added to the textures, and no name is lost. -/
private theorem isSome_withPrevious {texture : Option String} {textures : Keyed String} {name : String}
    (h : (textures.get? name).isSome = true ∨ name = previousPass ∧ ∃ u, texture = some u ∧ u ≠ "") :
    ((withPrevious texture textures).get? name).isSome = true := by
  have hinsert (sampler : String) (hname : (textures.get? name).isSome = true ∨ name = previousPass) :
      ((textures.insert previousPass sampler).get? name).isSome = true := by
    rw [Keyed.get?_insert]
    split
    · rfl
    · next hne => exact hname.resolve_right hne
  unfold withPrevious
  split
  · exact h.resolve_right (by simp)
  · exact h.resolve_right (by simp)
  · exact hinsert _ (h.imp_right And.left)

/-- There is a texture for each reference of a stage that means a stage of the node. -/
theorem StageBuild.isSome_or_dangles {previous : String} {template : RenderPass}
    (b : StageBuild scene plan node stage previous s template t) (hplan : KeepsWarnings plan)
    (he : scene.config.emptyTexture ≠ "") {r : StageReference} (hr : r ∈ stageReferences stage.text) :
    (template.textures.get? r.uniform).isSome = true ∨ Dangles node t.warnings r := by
  have hfed := (leads_inputTextures_gains hplan b.references).of_run_ok b.feeds
  obtain ⟨hwarnings, htaken⟩ := (leads_previousTexture_isSome he _ _ _).of_run_ok b.takes
  rw [← references_eq b.interface_eq] at hr
  rw [b.textures_eq, b.warnings_eq, hwarnings]
  rcases (leads_referenceTextures_gains hplan _).of_run_ok b.reads r hr with rfl | hsome | hdangles
  · exact Or.inl (isSome_withPrevious (Or.inr ⟨rfl, htaken (by simpa using hr)⟩))
  · exact Or.inl (isSome_withPrevious (Or.inl (hfed.kept hsome)))
  · exact Or.inr (hdangles.mono hfed.warnings)

/-! ### Passes -/

/-- A pass reads a sampler under a name: its program defines the name so and declares the sampler, as a
texture or as a bound value, and its textures and its uniforms have the name. -/
structure ReadsAs (scene : Scene) (node : Node) (p : RenderPass) (name u : String) : Prop where
  defined : HasLine p.fragment ("#define " ++ name ++ " " ++ u)
  declared : HasLine p.fragment (Shader.samplerLine u) ∨ ∃ b ∈ Shader.stageBindings node, ∃ c,
    node.uniformName b.1 = u ∧ b.2.declaration scene.fallback u = .ok c ∧ HasLine p.fragment c.line
  texture_eq : p.textures.get? name = some u
  uniform_eq : p.uniforms.get? name = some { type := .sampler2D, value := .text u }

/-- The name of a reference is none of the numbers of a loop. -/
private theorem uniform_ne (r : StageReference) :
    r.uniform ≠ loopIndexUniform ∧ r.uniform ≠ loopCountUniform := by
  cases r with
  | named id =>
    have hhead (rest : String) : "u_pass_" ++ id ≠ "u_l" ++ rest := by
      intro h
      have hchars := congrArg (fun s : String => s.toList[2]?) h
      simp at hchars
    exact ⟨hhead "oopIndex", hhead "oopCount"⟩
  | first => decide
  | previous => decide

/-- A reference with a texture is read under its name. -/
theorem StageBuild.readsAs {previous sampler : String} {template : RenderPass}
    (b : StageBuild scene plan node stage previous s template t) {r : StageReference}
    (hr : r ∈ stageReferences stage.text) (hu : template.textures.get? r.uniform = some sampler)
    (l : Loop) : ReadsAs scene node (firstIteration template l 0) r.uniform sampler := by
  obtain ⟨cs, main, hprogram⟩ := isStageProgram_of_eq_ok b.writes
  have hmem : (r.uniform, sampler) ∈ definedReferences b.io.references template.textures := by
    refine mem_definedReferences.2 ⟨hu, ?_⟩
    by_cases hprevious : r = .previous
    · exact Or.inl (congrArg StageReference.uniform hprevious)
    · exact Or.inr ⟨r, references_eq b.interface_eq ▸ hr, hprevious, rfl⟩
  exact {
    defined := hprogram.hasLine_reference hmem
    declared := hprogram.declares_texture (Keyed.mem_values_of_get? hu)
    texture_eq := hu
    uniform_eq :=
      (get?_iterationUniforms (uniform_ne r).1 (uniform_ne r).2).trans (hprogram.get?_of_mem hmem) }

/-- Each name of another stage that stands in the body of a stage that is planned is read by its first pass
as a sampler, or it means no stage of the node, and that is reported. -/
theorem reads_or_dangles_of_planStage {n : Nat} {previous q : String}
    (he : scene.config.emptyTexture ≠ "")
    (h : (planStage scene (planWithin scene n) node stage (stageKey node stage) previous).run s =
      (.ok q, t)) :
    ∃ p later, AddsStage scene (planWithin scene n) node stage previous s t p later ∧
      ∀ r ∈ stageReferences stage.text,
        (∃ u, ReadsAs scene node p r.uniform u) ∨ Dangles node t.warnings r := by
  obtain ⟨p, later, hp⟩ := exists_addsStage h
  obtain ⟨template, l, u, hbuild, rfl, -, -, hwarnings⟩ := hp.built
  obtain ⟨b⟩ := (leads_buildStage_build _ previous s).of_run_ok hbuild
  refine ⟨_, later, hp, fun r hr => ?_⟩
  rw [hwarnings]
  refine (b.isSome_or_dangles (keepsWarnings_planWithin scene n) he hr).imp_left fun hsome => ?_
  obtain ⟨sampler, hsampler⟩ := Option.isSome_iff_exists.1 hsome
  exact ⟨sampler, b.readsAs hr hsampler l⟩

/-- A stage that reads another one, one that does not exist, the first and the previous one. -/
def echoStage : Stage where
  id := "b"
  source := some ("void run(vec2 uv, out vec4 c) \x7b c = texture(u_pass_a, uv) + " ++
    "texture(u_pass_z, uv) + texture(u_firstPass, uv) + texture(u_prevPass, uv); \x7d")

/-- The node of the stage. -/
def echoNode : Node where
  id := "n"
  kind := .multiStage
  stages :=
    [{ id := "a", source := some "void run(vec2 uv, out vec4 c) \x7b c = vec4(1.0); \x7d" }, echoStage]

def echo : Scene where
  graph := .ofLists [echoNode] []
  config := {}

theorem reads_or_dangles_of_planStage_echo : ∃ q t p,
    echo.config.emptyTexture ≠ "" ∧
    (planStage echo (planWithin echo 1) echoNode echoStage (stageKey echoNode echoStage) "").run {} =
      (.ok q, t) ∧
    p ∈ t.passes ∧ (∃ u, ReadsAs echo echoNode p "u_pass_a" u) ∧
    (∃ u, ReadsAs echo echoNode p "u_firstPass" u) ∧ (∃ u, ReadsAs echo echoNode p "u_prevPass" u) ∧
    t.warnings = [danglingWarning "z" "n"] := by
  have hempty : echo.config.emptyTexture ≠ "" := by decide
  have htest : (match (planStage echo (planWithin echo 1) echoNode echoStage (stageKey echoNode echoStage)
      "").run {} with
    | (.ok _, t) => t.warnings == [danglingWarning "z" "n"]
    | (.error _, _) => false) = true := by
    decide +kernel
  have hreferences : stageReferences echoStage.text = [.named "a", .named "z", .first, .previous] := by
    have htext : echoStage.text.toList = _ ++ _ :=
      String.toList_append.trans (congrArg₂ _ String.toList_ofList String.toList_ofList)
    rw [stageReferences, htext]
    decide +kernel
  split at htest
  · next q t hrun =>
    have hwarnings : t.warnings = [danglingWarning "z" "n"] := by simpa using htest
    obtain ⟨p, later, hp, hreads⟩ := reads_or_dangles_of_planStage hempty hrun
    have hread (r : StageReference) (hr : r ∈ stageReferences echoStage.text)
        (hstage : r ≠ .named "z") : ∃ u, ReadsAs echo echoNode p r.uniform u := by
      refine (hreads r hr).resolve_right ?_
      rintro ⟨id, rfl, hid, -⟩
      rw [hreferences] at hr
      obtain rfl : id = "a" := by simpa [show id ≠ "z" by simpa using hstage] using hr
      exact hid (by decide)
    obtain ⟨_, _, u, -, -, -, hpasses, -⟩ := hp.built
    refine ⟨q, t, p, hempty, hrun, ?_, hread (.named "a") ?_ (by decide), hread .first ?_ (by decide),
      hread .previous ?_ (by decide), hwarnings⟩
    · rw [hpasses]
      exact List.mem_append_right _ List.mem_cons_self
    all_goals rw [hreferences]; decide
  · cases htest

end RenderGraph.Plan
