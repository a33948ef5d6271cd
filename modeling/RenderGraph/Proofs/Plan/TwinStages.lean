import RenderGraph.Proofs.Plan.Twin

/-!
# The stages of twins

The stages of a multi-stage node and of its twin have the same programs in any case: a stage takes
arrays of the length that is declared for them, and that is the same. The passes of the iterations
differ in the values of uniforms only.

## Main results

* `Plan.agree_stageProgram`, `Plan.agrees_iterations`
* `Plan.agrees_planStages`: the stages of twins
* `Plan.agrees_plan`: the plans of twins
-/

namespace RenderGraph.Plan

variable {sized : Prop} {scene : Scene} {config : Config} {g k : Graph} {n m : Node}
  {plan plan' : Request → PlanM String}

/-! ### Textures -/

theorem agrees_referenceTextures (hp : Graph.Paired config sized g k n m)
    (hplan : ∀ r, Agrees (StateTwin sized { graph := k, config }) Eq (plan r) (plan' r))
    (references : List Source.StageReference) :
    Agrees (StateTwin sized { graph := k, config }) Eq
      (referenceTextures { graph := g, config } plan n references)
      (referenceTextures { graph := k, config } plan' m references) := by
  obtain ⟨-, -, ⟨-, -, -⟩⟩ := hp
  have hread (textures : Keyed String) (name stage : String) :
      Agrees (StateTwin sized { graph := k, config }) Eq
        (do
          let pass ← plan { node := n.id, stage := some stage }
          pure (textures.insert name (← sampler config pass)))
        (do
          let pass ← plan' { node := n.id, stage := some stage }
          pure (textures.insert name (← sampler config pass))) := by
    refine (hplan _).bind ?_
    rintro pass _ rfl
    refine (agrees_sampler _ _).bind ?_
    rintro u _ rfl
    exact .pure rfl
  refine Agrees.foldlM (forall₂_self references) ?_ rfl
  rintro textures _ r _ rfl ⟨-, rfl⟩
  cases r with
  | named id =>
    dsimp only
    split
    · exact hread _ _ _
    · exact (agrees_warn _).bind fun _ _ _ => .pure rfl
  | first => exact hread _ _ _
  | previous => exact .pure rfl

theorem agrees_inputTextures (hg : g.Twin config sized k) (hp : Graph.Paired config sized g k n m)
    (hplan : ∀ r, Agrees (StateTwin sized { graph := k, config }) Eq (plan r) (plan' r))
    (textures : Keyed String) :
    Agrees (StateTwin sized { graph := k, config }) Eq
      (inputTextures { graph := g, config } plan n textures)
      (inputTextures { graph := k, config } plan' m textures) := by
  unfold inputTextures
  dsimp only
  rw [hp.id_eq, hg.incoming_eq]
  refine Agrees.foldlM (forall₂_self (g.incoming n.id)) ?_ rfl
  rintro t _ e _ rfl ⟨-, rfl⟩
  split
  · exact .pure rfl
  · exact .pure rfl
  · refine (Agrees.lift (hg.requireNode e.source (some n.id))).bind fun _ _ _ => ?_
    refine (hplan _).bind ?_
    rintro pass _ rfl
    refine (agrees_sampler _ _).bind ?_
    rintro u _ rfl
    exact .pure rfl

theorem agrees_previousTexture (hp : Graph.Paired config sized g k n m) (previous : String)
    (firstInput : Option String) (isRead : Bool) :
    Agrees (StateTwin sized scene) Eq
      (previousTexture { graph := g, config } n previous firstInput isRead)
      (previousTexture { graph := k, config } m previous firstInput isRead) := by
  unfold previousTexture
  simp only [hp.any_type_eq, hp.inputs_eq, hp.uniformName_eq]
  split
  · refine (agrees_sampler _ _).bind ?_
    rintro u _ rfl
    exact .pure rfl
  · split
    · exact .pure rfl
    · exact .pure rfl

/-! ### Programs -/

theorem entryArgument_eq (hp : Graph.Paired config sized g k n m) (textures : Keyed String) :
    entryArgument { graph := k, config } m textures = entryArgument { graph := g, config } n textures := by
  funext port
  unfold entryArgument
  rw [hp.id_eq, hp.uniforms.contains_eq]
  rfl

/-- The bound values of a multi-stage node and of its twin have the same names. -/
theorem map_stageBindings_eq {α : Type} (hp : Graph.Paired config sized g k n m) (f : String → α) :
    (Shader.stageBindings m).map (fun b => f b.1) = (Shader.stageBindings n).map fun b => f b.1 :=
  (map_eq_of_forall₂ (forall₂_filter hp.uniforms fun e d hed => by rw [hed.1])
    fun e d hed => congrArg f hed.1).symm

theorem reserved_of_mem_definedReferences {references : List Source.StageReference}
    {textures : Keyed String} {r : String × String} (h : r ∈ definedReferences references textures) :
    Reserved r.1 := by
  obtain ⟨name, hname, hr⟩ := List.mem_filterMap.1 h
  obtain ⟨texture, -, rfl⟩ := Option.map_eq_some_iff.1 hr
  rcases List.mem_append.1 hname with hname | hname
  · obtain ⟨reference, -, rfl⟩ := List.mem_map.1 hname
    exact .reference reference
  · rw [List.mem_singleton.1 hname]
    exact .reference .previous

/-- The program of a stage of a twin is the same. -/
theorem agree_stageProgram (hp : Graph.Paired config sized g k n m) (hk : n.kind = .multiStage)
    (body : String) (io : Source.Interface) (textures : Keyed String) (isLoop hasFeedback : Bool) :
    Agree (ProgramTwin True { graph := k, config })
      (stageProgram { graph := g, config } n body io textures isLoop hasFeedback)
      (stageProgram { graph := k, config } m body io textures isLoop hasFeedback) := by
  have hdeclare : Agree Declarations.Alike (Shader.declareStages { graph := g, config } n {})
      (Shader.declareStages { graph := k, config } m {}) :=
    Shader.agree_declareStages hp ⟨rfl, Keyed.match_empty⟩
  have horigin : Yields (Shader.declareStages { graph := k, config } m {})
      (Declarations.Grown (Scene.Contributes { graph := k, config }) {}) fun _ => True :=
    (Shader.yields_declareStages (hp.kind_eq.trans hk) {}).mono
      (fun d hd => hd.1.mono fun name u hu => ⟨m, hp.right, hu⟩) fun _ => id
  have hdefines : Shader.stageDefines m = Shader.stageDefines n := by
    unfold Shader.stageDefines
    simp only [hp.uniformName_eq]
    exact map_stageBindings_eq hp fun key => "#define " ++ key ++ " " ++ n.uniformName key
  have hsamplers : stageSamplers { graph := k, config } m textures =
      stageSamplers { graph := g, config } n textures := by
    unfold stageSamplers
    simp only [hp.uniformName_eq]
    rw [map_stageBindings_eq hp n.uniformName]
  unfold stageProgram
  dsimp only
  rw [hdefines, hsamplers, entryArgument_eq hp]
  refine hdeclare.and_eq.bind ?_
  rintro d d' ⟨halike, -, hd'⟩
  rw [hd', yields_ok] at horigin
  rw [halike.lines_eq]
  have huniforms : Keyed.Match (UniformTwin { graph := k, config })
      ((definedReferences io.references textures).foldl
        (fun u r => u.insert r.1 { type := .sampler2D, value := .text r.2 }) d.uniforms)
      ((definedReferences io.references textures).foldl
        (fun u r => u.insert r.1 { type := .sampler2D, value := .text r.2 }) d'.uniforms) := by
    refine List.rel_foldl ?_ ?_ (forall₂_self (definedReferences io.references textures))
    · rintro u v huv r _ ⟨hr, rfl⟩
      exact huv.insert ⟨rfl, Or.inr ⟨reserved_of_mem_definedReferences hr, rfl⟩⟩
    · refine halike.uniforms.imp fun name u v _ hv htype => ⟨htype, Or.inl ?_⟩
      exact (horigin.origin hv).resolve_left (by simp [Keyed.get?_empty])
  split
  · exact .ok ⟨fun _ => rfl, huniforms⟩
  · refine (Agree.refl _).bind ?_
    rintro arguments _ rfl
    exact .ok ⟨fun _ => rfl, huniforms⟩

/-- The first iteration of a stage and of its twin. -/
theorem agrees_buildStage (hg : g.Twin config sized k) (hp : Graph.Paired config sized g k n m)
    (hk : n.kind = .multiStage)
    (hplan : ∀ r, Agrees (StateTwin sized { graph := k, config }) Eq (plan r) (plan' r))
    (stage : Stage) (key previous : String) :
    Agrees (StateTwin sized { graph := k, config })
      (fun p q => PassTwin True { graph := k, config } p.1 q.1 ∧ p.2 = q.2)
      (buildStage { graph := g, config } plan n stage key previous)
      (buildStage { graph := k, config } plan' m stage key previous) := by
  unfold buildStage
  refine (Agrees.lift (Agree.refl _)).bind ?_
  rintro io _ rfl
  refine (agrees_referenceTextures hp hplan _).bind ?_
  rintro textures _ rfl
  refine (agrees_inputTextures hg hp hplan _).bind ?_
  rintro textures _ rfl
  refine (agrees_previousTexture hp _ _ _).bind ?_
  rintro texture _ rfl
  refine (Agrees.lift (Agree.refl _)).bind ?_
  rintro body _ rfl
  refine (Agrees.lift (Agree.refl _)).bind ?_
  rintro count _ rfl
  rw [hp.id_eq]
  refine (Agrees.forM (forall₂_self _) ?_).bind fun _ _ _ => ?_
  · rintro w _ ⟨-, rfl⟩
    exact agrees_log _
  · refine (Agrees.lift (agree_stageProgram hp hk _ _ _ _ _)).bind fun program program' hprogram => ?_
    refine (agrees_bindings _).bind ?_
    rintro bindings _ rfl
    exact .pure ⟨.mk hprogram.text hprogram.uniforms, rfl⟩

/-! ### Iterations -/

theorem match_iterationUniforms (loop : Loop) (index : Nat) {u v : Keyed Uniform}
    (h : u.Match (UniformTwin scene) v) :
    (iterationUniforms loop index u).Match (UniformTwin scene) (iterationUniforms loop index v) := by
  unfold iterationUniforms
  split
  · exact (h.insert ⟨rfl, Or.inr ⟨.loopIndex, rfl⟩⟩).insert ⟨rfl, Or.inr ⟨.loopCount, rfl⟩⟩
  · exact h

theorem agrees_iteration {p q : RenderPass} (h : PassTwin True scene p q) (loop : Loop) (index : Nat) :
    Agrees (StateTwin sized scene) (PassTwin sized scene)
      (iteration config (sampler config) p loop index)
      (iteration config (sampler config) q loop index) := by
  obtain ⟨hf, hu⟩ := h
  obtain rfl := hf trivial
  have huniforms := match_iterationUniforms loop index hu
  unfold iteration
  split
  · exact .pure (.mk (fun _ => rfl) huniforms)
  · refine (agrees_sampler _ _).bind ?_
    rintro name _ rfl
    refine .lift ((Agree.refl _).bind ?_)
    rintro fragment _ rfl
    exact .ok (.mk (fun _ => rfl) (huniforms.insert ⟨rfl, Or.inr ⟨.reference .previous, rfl⟩⟩))

theorem agrees_planStage (hg : g.Twin config sized k) (hp : Graph.Paired config sized g k n m)
    (hk : n.kind = .multiStage)
    (hplan : ∀ r, Agrees (StateTwin sized { graph := k, config }) Eq (plan r) (plan' r))
    (stage : Stage) (key previous : String) :
    Agrees (StateTwin sized { graph := k, config }) Eq
      (planStage { graph := g, config } plan n stage key previous)
      (planStage { graph := k, config } plan' m stage key previous) := by
  refine (agrees_buildStage hg hp hk hplan stage key previous).bind ?_
  rintro ⟨template, loop⟩ ⟨template', loop'⟩ ⟨htemplate, hloop⟩
  obtain rfl : loop = loop' := hloop
  refine (Agrees.mapM (Q := PassTwin sized { graph := k, config }) (forall₂_self _) ?_).bind
    fun passes passes' hpasses => ?_
  · rintro index _ ⟨-, rfl⟩
    exact agrees_iteration htemplate loop index
  · exact (agrees_addPasses hpasses _ _).bind fun _ _ _ => .pure rfl

/-- What the plan of a node does at one of its stages, given the pass before it. -/
private def planRound (scene : Scene) (plan : Request → PlanM String) (node : Node) (last : String)
    (stage : Stage) : PlanM String := do
  let key := stageKey node stage
  let state ← get
  match state.generated.get? key with
  | some pass => pure pass
  | none =>
    if key ∈ state.active then
      breakCycle key
      pure key
    else whileActive key (planStage scene plan node stage key last)

private theorem planStages_eq (scene : Scene) (plan : Request → PlanM String) (node : Node)
    (stage : Option String) : planStages scene plan node stage = (do
      if (requestedStages node stage).isEmpty then
        warn ("Target pass \"" ++ stage.getD "" ++ "\" not found in node " ++ node.id)
      (requestedStages node stage).foldlM (planRound scene plan node) "") :=
  rfl

private theorem agrees_planRound (hg : g.Twin config sized k) (hp : Graph.Paired config sized g k n m)
    (hk : n.kind = .multiStage)
    (hplan : ∀ r, Agrees (StateTwin sized { graph := k, config }) Eq (plan r) (plan' r))
    (last : String) (stage : Stage) :
    Agrees (StateTwin sized { graph := k, config }) Eq
      (planRound { graph := g, config } plan n last stage)
      (planRound { graph := k, config } plan' m last stage) := by
  have hkey : stageKey m stage = stageKey n stage := by
    rw [stageKey, stageKey, hp.id_eq]
  unfold planRound
  rw [hkey]
  refine Agrees.get.bind ?_
  rintro s _ ⟨-⟩
  dsimp only
  split
  · exact .pure rfl
  · split
    · exact (agrees_breakCycle _).bind fun _ _ _ => .pure rfl
    · exact agrees_whileActive _ (agrees_planStage hg hp hk hplan stage _ _)

/-- The stages of a multi-stage node and of its twin. -/
theorem agrees_planStages (hg : g.Twin config sized k) (hp : Graph.Paired config sized g k n m)
    (hk : n.kind = .multiStage)
    (hplan : ∀ r, Agrees (StateTwin sized { graph := k, config }) Eq (plan r) (plan' r))
    (stage : Option String) :
    Agrees (StateTwin sized { graph := k, config }) Eq
      (planStages { graph := g, config } plan n stage)
      (planStages { graph := k, config } plan' m stage) := by
  have hrequested : requestedStages m stage = requestedStages n stage := by
    obtain ⟨-, -, ⟨-, -, -⟩⟩ := hp
    rfl
  have hfold : Agrees (StateTwin sized { graph := k, config }) Eq
      ((requestedStages n stage).foldlM (planRound { graph := g, config } plan n) "")
      ((requestedStages n stage).foldlM (planRound { graph := k, config } plan' m) "") := by
    refine Agrees.foldlM (forall₂_self _) ?_ rfl
    rintro last _ stage _ rfl ⟨-, rfl⟩
    exact agrees_planRound hg hp hk hplan last stage
  rw [planStages_eq, planStages_eq, hrequested, hp.id_eq]
  split
  · exact (agrees_warn _).bind fun _ _ _ => hfold
  · exact hfold

/-! ### Plans -/

theorem agrees_planWithin (hg : g.Twin config sized k) (fuel : Nat) (r : Request) :
    Agrees (StateTwin sized { graph := k, config }) Eq
      (planWithin { graph := g, config } fuel r) (planWithin { graph := k, config } fuel r) := by
  induction fuel generalizing r with
  | zero => exact .throw _
  | succ fuel ih =>
    refine (Agrees.lift (hg.requireNode r.node none)).bind fun n m hp => ?_
    have hmulti : m.isMultiStage = n.isMultiStage := by
      obtain ⟨-, -, ⟨-, -, -⟩⟩ := hp
      rfl
    rw [hmulti]
    split
    · next hm =>
      have hk : n.kind = .multiStage := by
        simp only [Node.isMultiStage, Bool.and_eq_true, decide_eq_true_eq] at hm
        exact hm.1
      exact agrees_planStages hg hp hk ih r.stage
    · exact agrees_planOutput hg hp ih r.port

theorem totalKeyCount_eq (hg : g.Twin config sized k) : totalKeyCount k = totalKeyCount g := by
  have htotal (g : Graph) : totalKeyCount g = (g.nodeList.map keyCount).foldr (· + ·) 0 := by
    rw [List.foldr_map]
    rfl
  rw [htotal, htotal, map_eq_of_forall₂ hg.nodeList]
  rintro n _ ⟨-, -, ⟨-, -, -⟩⟩
  rfl

/-- The plans of twins take the same steps. -/
theorem agrees_plan (hg : g.Twin config sized k) (r : Request) :
    Agrees (StateTwin sized { graph := k, config }) Eq (Plan.plan { graph := g, config } r)
      (Plan.plan { graph := k, config } r) := by
  unfold Plan.plan
  dsimp only
  rw [totalKeyCount_eq hg]
  exact agrees_planWithin hg _ r

end RenderGraph.Plan
