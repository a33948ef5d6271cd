import RenderGraph.Proofs.Plan.Search
import RenderGraph.Proofs.Plan.Steps
import RenderGraph.Proofs.Shader.Emission

/-!
# Planning makes progress

A plan goes from one state to another by steps, and it fails for a cause only. It does not run out of
fuel: the keys being planned are distinct keys of the graph, so that there are never more of them than
the graph has keys.

## Main definitions

* `Plan.Keeps`: some steps, after which the same keys are being planned as before
* `Plan.Serves`: requests are answered with passes that are known

## Main results

* `Plan.serves_planWithin`: planning answers every request
-/

namespace RenderGraph.Plan

variable {scene : Scene}

/-! ### Fuel and steps -/

theorem Ready.ne_zero {n : Nat} {s : State} (h : Ready scene n s) : n ≠ 0 := by
  have hle := (List.subperm_of_subset h.nodup h.subset).length_le
  have hlt := h.fuel
  omega

/-- Planning a key takes one unit of fuel. -/
theorem Ready.enter {n : Nat} {s : State} {key : String} (h : Ready scene (n + 1) s)
    (hk : key ∈ keys scene.graph) (ha : key ∉ s.active) :
    Ready scene n { s with active := s.active ++ [key] } where
  sound := by
    have hstep : Steps scene s { s with active := s.active ++ [key] } := Steps.refl.enter ha
    exact hstep.sound h.sound
  nodup := by simpa using h.nodup.concat ha
  subset := List.append_subset.2 ⟨h.subset, by simpa using hk⟩
  fuel := by
    have hlt := h.fuel
    rw [List.length_append, List.length_singleton]
    omega

/-- Some steps, after which the same keys are being planned as before. -/
structure Keeps (scene : Scene) (s t : State) : Prop where
  steps : Steps scene s t
  active_eq : t.active = s.active

namespace Keeps

variable {n : Nat} {s t u : State}

theorem refl (s : State) : Keeps scene s s :=
  ⟨.refl, rfl⟩

theorem trans (h : Keeps scene s t) (h' : Keeps scene t u) : Keeps scene s u :=
  ⟨h.steps.trans h'.steps, h'.active_eq.trans h.active_eq⟩

theorem note (h : Keeps scene s t) (warnings : List String) (journal : List Journal.Record)
    (breaks : Nat) :
    Keeps scene s { t with
      warnings := t.warnings ++ warnings,
      journal := t.journal ++ journal,
      cycleBreaks := t.cycleBreaks + breaks } :=
  ⟨h.steps.note warnings journal breaks, h.active_eq⟩

theorem ready (h : Keeps scene s t) (hs : Ready scene n s) : Ready scene n t where
  sound := h.steps.sound hs.sound
  nodup := h.active_eq ▸ hs.nodup
  subset := h.active_eq ▸ hs.subset
  fuel := h.active_eq ▸ hs.fuel

theorem known (h : Keeps scene s t) {q : String} (hq : s.Known q) : t.Known q := by
  obtain ⟨hp, hw⟩ := h.steps.grows
  refine hq.imp (fun hq => ?_) fun hq => ⟨h.active_eq ▸ hq.1, hw.subset hq.2⟩
  exact (hp.map (·.id)).subset hq

end Keeps

/-- A pass that a request may be answered with: one that is known, or none. -/
def State.Gives (s : State) (q : String) : Prop :=
  q = "" ∨ s.Known q

theorem Keeps.gives {s t : State} (h : Keeps scene s t) {q : String} (hq : s.Gives q) : t.Gives q :=
  hq.imp_right h.known

/-- Requests for outputs of existing nodes are answered with passes that are known. Only a request for a
stage may be answered with none. -/
def Serves (scene : Scene) (n : Nat) (plan : Request → PlanM String) : Prop :=
  ∀ {r : Request} {s : State}, r.node ∈ scene.graph.nodes.keys → Ready scene n s →
    Ends (plan r) (fun q t => Keeps scene s t ∧ t.Gives q ∧ (r.stage = none → t.Known q))
      (fun f _ => Cause scene f) s

/-! ### Samplers and searches -/

section Serves

variable {n : Nat} {plan : Request → PlanM String} {s t : State} {node : Node}

theorem ends_sampler_of_gives (h : Keeps scene s t) {q : String} (hq : t.Gives q)
    {E : Fault → State → Prop} :
    Ends (sampler scene.config q) (fun _ u => Keeps scene s u) E t := by
  rw [ends_sampler]
  split
  · exact h
  · next hne => exact ⟨h.steps.own hne (hq.resolve_left hne), h.active_eq⟩

/-- A request for the texture of an output. -/
theorem ends_texture (hplan : Serves scene n plan) {r : Request}
    (hr : r.node ∈ scene.graph.nodes.keys) (hs : Ready scene n s) (h : Keeps scene s t)  :
    Ends (plan r >>= sampler scene.config) (fun _ u => Keeps scene s u) (fun f _ => Cause scene f)
      t := by
  rw [ends_bind]
  refine (hplan hr (h.ready hs)).mono ?_ fun _ _ => id
  rintro q u ⟨hu, hq, -⟩
  exact ends_sampler_of_gives (h.trans hu) hq

theorem keeps_of_asks (hplan : Serves scene n plan) (hs : Ready scene n s) {reads : List Read}
    (h : Asks scene.graph (host scene plan) s reads t) : Keeps scene s t := by
  induction h with
  | nil => exact .refl s
  | @warn reads t u message _ hw ih =>
    have hwarn : Ends ((host scene plan).warn message) (fun _ u => Keeps scene s u)
        (fun _ _ => True) t :=
      ih.note [message] [.warn message] 0
    exact hwarn.of_run_ok hw
  | read _ hm hr ih => exact (ends_texture hplan (Graph.id_mem_keys hm) hs ih).of_run_ok hr

/-- The plan is a host that answers. -/
theorem answers_host (hplan : Serves scene n plan) (hs : Ready scene n s) :
    Answers scene.graph (host scene plan) (Cause scene) s := by
  intro reads t h
  have ht := keeps_of_asks hplan hs h
  refine ⟨fun source hm port => ?_, fun _ => trivial⟩
  exact (ends_texture hplan (Graph.id_mem_keys hm) hs ht).mono (fun _ _ _ => trivial) fun _ _ => id

theorem covers_cause (scene : Scene) : Covers scene.graph (Cause scene) where
  source _ he hs := .graph (.source he hs)
  handle _ he _ hf := .reading (.handle he hf)

/-! ### Outputs -/

private theorem ends_warnings (h : Keeps scene s t) (warnings : List String)
    {E : Fault → State → Prop} :
    Ends (warnings.forM warn) (fun _ u => Keeps scene s u) E t :=
  Ends.forM (I := Keeps scene s) (fun message _ _ hu => hu.note [message] [.warn message] 0) h

theorem ends_writeFragment (h : Keeps scene s t) {subgraph : Subgraph} (port : Port)
    (ho : ∀ m ∈ subgraph.order, scene.graph.Inlines m) :
    Ends (writeFragment scene subgraph node port) (fun _ u => Keeps scene s u)
      (fun f _ => Cause scene f) t := by
  have hstops : StopsIn (Shader.fragment scene subgraph.textures subgraph.order node port)
      (Cause scene) := Shader.stopsIn_fragment ho
  unfold writeFragment
  rcases hr : (Shader.fragment scene subgraph.textures subgraph.order node port).run {} with
    ⟨result, state⟩
  dsimp only
  rw [ends_bind]
  refine (ends_warnings h state.warnings).mono ?_ fun _ _ => id
  intro _ u hu
  rw [ends_lift, yields_iff]
  refine ⟨fun _ _ => hu, fun f hf => ?_⟩
  subst hf
  exact (hstops {}).of_run_error hr

theorem ends_buildPass (hplan : Serves scene n plan) (hs : Ready scene n s)
    (hn : scene.graph.Inlines node) (port : Option String) (key : String) :
    Ends (buildPass scene plan node port key) (fun _ t => Keeps scene s t)
      (fun f _ => Cause scene f) s := by
  unfold buildPass
  rw [ends_bind]
  refine (ends_collect (covers_cause scene) hn (answers_host hplan hs)).mono ?_ fun _ _ => id
  rintro subgraph t ⟨reads, hadds, hasks⟩
  rw [ends_bind, ends_modify, ends_bind]
  have ht : Keeps scene s { t with cycleBreaks := t.cycleBreaks + subgraph.cycleBreaks } := by
    simpa using (keeps_of_asks hplan hs hasks).note [] [] subgraph.cycleBreaks
  refine (ends_writeFragment ht (node.outputPort port) hadds.inlined).mono ?_ fun _ _ => id
  rintro ⟨fragment, uniforms⟩ u hu
  rw [ends_bind, ends_bindings, ends_pure]
  exact hu

/-- When the planning of a key ends, the keys being planned are those from before. -/
theorem erase_active {key : String} {t : State} (h : key ∉ s.active)
    (ht : t.active = s.active ++ [key]) : t.active.erase key = s.active := by
  rw [ht, List.erase_append_right _ h, List.erase_cons_head, List.append_nil]

theorem ends_planOutput (hplan : Serves scene n (planWithin scene n)) (hs : Ready scene (n + 1) s)
    (hn : scene.graph.Inlines node) (port : Option String) :
    Ends (planOutput scene (planWithin scene n) node port) (fun q t => Keeps scene s t ∧ t.Known q)
      (fun f _ => Cause scene f) s := by
  unfold planOutput
  rw [ends_bind, ends_get]
  cases hg : s.generated.get? (passKey node port) with
  | some pass => exact ⟨.refl s, Or.inl (hs.sound.generated hg)⟩
  | none =>
    dsimp only
    by_cases ha : passKey node port ∈ s.active
    · rw [if_pos ha, ends_bind, ends_breakCycle, ends_pure]
      refine ⟨(Keeps.refl s).note [_] [_] 1, Or.inr ⟨ha, ?_⟩⟩
      exact List.mem_append_right _ List.mem_cons_self
    · rw [if_neg ha, ends_bind, ends_whileActive]
      have hready := hs.enter (passKey_mem hn.1 port) ha
      refine ((ends_buildPass hplan hready hn port (passKey node port)).and_run).mono ?_ fun _ _ => id
      rintro p t ⟨ht, hrun⟩
      have hsteps : Steps scene s t := (Steps.refl.enter ha).trans ht.steps
      rw [ends_bind, ends_addPasses, ends_pure, erase_active ha ht.active_eq]
      refine ⟨⟨.output (Steps.refl.enter ha) hsteps hready (Graph.mem_nodeList_iff.1 hn.1) hn.2 hrun
        ht.active_eq, rfl⟩, Or.inl ?_⟩
      rw [ids_add]
      have hid := (leads_buildPass.of_run_ok hrun).1
      exact List.mem_append_right _ (List.mem_map.2 ⟨p, List.mem_cons_self, hid⟩)

/-! ### Stages -/

theorem ends_referenceTextures (hplan : Serves scene n plan) (hs : Ready scene n s)
    (hn : node ∈ scene.graph.nodeList) (references : List Source.StageReference) :
    Ends (referenceTextures scene plan node references) (fun _ t => Keeps scene s t)
      (fun f _ => Cause scene f) s := by
  have hread {t : State} (h : Keeps scene s t) (textures : Keyed String) (name stage : String) :
      Ends (do
          let pass ← plan { node := node.id, stage := some stage }
          pure (textures.insert name (← sampler scene.config pass)))
        (fun _ u => Keeps scene s u) (fun f _ => Cause scene f) t := by
    have htexture := ends_texture (r := { node := node.id, stage := some stage }) hplan
      (Graph.id_mem_keys hn) hs h
    rw [ends_bind] at htexture ⊢
    refine htexture.mono ?_ fun _ _ => id
    intro pass u hu
    rw [ends_bind]
    exact hu.mono (fun _ _ => id) fun _ _ => id
  unfold referenceTextures
  refine Ends.foldlM (I := fun _ => Keeps scene s) ?_ (.refl s)
  intro textures r _ t ht
  cases r with
  | named id =>
    dsimp only
    split
    · exact hread ht textures _ id
    · rw [ends_bind, ends_warn, ends_pure]
      exact ht.note [_] [_] 0
  | first => exact hread ht textures _ _
  | previous => exact ht

theorem ends_inputTextures (hplan : Serves scene n plan) (hs : Ready scene n s)
    (h : Keeps scene s t) (textures : Keyed String) :
    Ends (inputTextures scene plan node textures) (fun _ u => Keeps scene s u)
      (fun f _ => Cause scene f) t := by
  unfold inputTextures
  refine Ends.foldlM (I := fun _ => Keeps scene s) ?_ h
  intro r e he u hu
  obtain ⟨hedge, htarget⟩ : e ∈ scene.graph.edges ∧ e.target = node.id := by
    simpa using List.mem_filter.1 he
  split
  · exact hu
  · exact hu
  · rw [ends_bind, ends_lift, ← htarget, yields_iff]
    refine ⟨fun source hsource => ?_, failsIn_iff.1 (Shader.failsIn_requireNode hedge)⟩
    have hmem : e.source ∈ scene.graph.nodes.keys := by
      unfold Graph.requireNode at hsource
      split at hsource
      · next m hm =>
        exact scene.graph.id_eq hm ▸ Graph.id_mem_keys (Graph.mem_nodeList_of_node? hm)
      · cases hsource
    have htexture := ends_texture (r := { node := e.source, port := e.sourcePort }) hplan hmem hs hu
    rw [ends_bind] at htexture ⊢
    refine htexture.mono ?_ fun _ _ => id
    intro pass v hv
    rw [ends_bind]
    exact hv.mono (fun _ _ => id) fun _ _ => id

theorem ends_previousTexture (h : Keeps scene s t) {previous : String} (hp : t.Gives previous)
    (firstInput : Option String) (isRead : Bool) {E : Fault → State → Prop} :
    Ends (previousTexture scene node previous firstInput isRead) (fun _ u => Keeps scene s u) E t := by
  unfold previousTexture
  split
  · rw [ends_bind]
    exact (ends_sampler_of_gives h hp).mono (fun _ _ => id) fun _ _ => id
  · split <;> exact h

/-- The program of a stage is written unless there is a cause of failure. -/
theorem failsIn_stageProgram {stage : Stage} {io : Source.Interface}
    (hn : node ∈ scene.graph.nodeList) (hs : stage ∈ node.stages)
    (hi : Source.interface stage.text = .ok io) (body : String) (textures : Keyed String)
    (isLoop hasFeedback : Bool) :
    FailsIn (stageProgram scene node body io textures isLoop hasFeedback) (Cause scene) := by
  unfold stageProgram
  refine FailsIn.bind (FailsIn.foldlM (fun d b hb => ?_) _) fun d _ => ?_
  · have hget : node.uniforms.get? b.1 = some b.2 :=
      Keyed.mem_entries_iff.1 (List.mem_filter.1 hb).1
    exact failsIn_iff.2 fun _ hf => .packing (.bound hn hget hf)
  · dsimp only
    split
    · trivial
    · refine FailsIn.bind (FailsIn.mapM fun port hp => ?_) fun _ _ => trivial
      unfold entryArgument
      have hdefault : FailsIn (do
          if node.uniforms.contains port.id then pure port.id
          else if port.type.isArray then
            let length ← BoundValue.capacity port.type none scene.fallback
            pure (Shader.defaultLiteral scene.config port.type (some length))
          else pure (Shader.defaultLiteral scene.config port.type) : Except Fault String)
          (Cause scene) := by
        split
        · trivial
        · split
          · next ht =>
            refine FailsIn.bind (failsIn_iff.2 fun _ hf => ?_) fun _ _ => trivial
            exact .packing (.parameter hn hs hi hp ht hf)
          · trivial
      split
      · exact hdefault
      · exact hdefault
      · trivial

theorem ends_buildStage (hplan : Serves scene n plan) (hs : Ready scene n s)
    (hn : node ∈ scene.graph.nodeList) {stage : Stage} (hstage : stage ∈ node.stages)
    (key : String) {previous : String} (hp : s.Gives previous) :
    Ends (buildStage scene plan node stage key previous) (fun _ t => Keeps scene s t)
      (fun f _ => Cause scene f) s := by
  unfold buildStage
  rw [ends_bind, ends_lift, yields_iff]
  refine ⟨fun io hio => ?_, fun f hf => .reading (.interface hn hstage hf)⟩
  rw [ends_bind]
  refine (ends_referenceTextures hplan hs hn io.references).mono ?_ fun _ _ => id
  intro textures t ht
  rw [ends_bind]
  refine (ends_inputTextures hplan hs ht textures).mono ?_ fun _ _ => id
  intro textures u hu
  rw [ends_bind]
  refine (ends_previousTexture hu (hu.gives hp) textures.firstInput _).mono ?_ fun _ _ => id
  intro texture v hv
  rw [ends_bind, ends_lift, yields_iff]
  refine ⟨fun body hbody => ?_, fun f hf => .reading (.body hn hstage hf)⟩
  rw [ends_bind, ends_lift, yields_iff]
  refine ⟨fun count hcount => ?_, fun f hf => .reading (.loop hn hstage hbody hf)⟩
  dsimp only
  rw [ends_bind]
  have hlog (warnings : List String) : Ends (warnings.forM fun w => log (.warn w))
      (fun _ w => Keeps scene s w) (fun f _ => Cause scene f) v :=
    Ends.forM (I := Keeps scene s)
      (fun message _ _ hw => by simpa using hw.note [] [.warn message] 0) hv
  refine (hlog _).mono ?_ fun _ _ => id
  intro _ w hw
  rw [ends_bind, ends_lift, yields_iff]
  refine ⟨fun program _ => ?_, failsIn_iff.1 (failsIn_stageProgram hn hstage hio ..)⟩
  exact hw

/-- The end of a stage's planning: its iterations are added. -/
theorem ends_planStage (hplan : Serves scene n (planWithin scene n)) (hs : Ready scene (n + 1) s)
    (hn : node ∈ scene.graph.nodeList) {stage : Stage} (hstage : stage ∈ node.stages)
    (ha : stageKey node stage ∉ s.active) {previous : String} (hp : s.Gives previous) :
    Ends (whileActive (stageKey node stage)
        (planStage scene (planWithin scene n) node stage (stageKey node stage) previous))
      (fun q t => Keeps scene s t ∧ t.Known q) (fun f _ => Cause scene f) s := by
  have hready := hs.enter (stageKey_mem hn hstage) ha
  have hgives : State.Gives { s with active := s.active ++ [stageKey node stage] } previous :=
    hp.imp_right fun hk => hk.imp_right fun h => ⟨List.mem_append_left _ h.1, h.2⟩
  rw [ends_whileActive]
  unfold planStage
  rw [ends_bind]
  refine ((ends_buildStage hplan hready hn hstage _ hgives).and_run).mono ?_ fun _ _ => id
  rintro ⟨template, loop⟩ t ⟨ht, hrun⟩
  have hbuilt := leads_buildStage.of_run_ok hrun
  obtain ⟨hbase, hcount, -⟩ : loop.base = stageKey node stage ∧ 1 ≤ loop.count ∧ _ := hbuilt
  have hne : loop.base ≠ "" := hbase ▸ stageKey_ne node stage
  dsimp only
  rw [ends_bind]
  refine ((ends_iterations scene template hne).and_run).mono ?_ fun _ _ h => h.elim
  rintro passes u ⟨⟨hpasses, howners⟩, hiter⟩
  have hactive : u.active = s.active ++ [stageKey node stage] := by
    rw [howners.eq]
    exact ht.active_eq
  have hsteps : Steps scene s t := (Steps.refl.enter ha).trans ht.steps
  rw [ends_bind, ends_addPasses, ends_pure]
  have hadd : (u.add passes (stageKey node stage) loop.lastId).active.erase
      (stageKey node stage) = s.active := erase_active ha hactive
  refine ⟨⟨?_, hadd⟩, Or.inl ?_⟩
  · rw [hadd]
    exact .stage (Steps.refl.enter ha) hsteps (Graph.mem_nodeList_iff.1 hn) hstage hrun hiter
      ht.active_eq
  · show loop.lastId ∈ (State.add u passes (stageKey node stage) loop.lastId).ids
    rw [ids_add]
    exact List.mem_append_right _ (lastId_mem hpasses hcount)

/-- Stages are planned one after the other, and then the last of them is known. -/
private theorem ends_planRound (hplan : Serves scene n (planWithin scene n))
    (hs : Ready scene (n + 1) s) (hn : node ∈ scene.graph.nodeList) {stages : List Stage}
    (hmem : ∀ stage ∈ stages, stage ∈ node.stages) (h : Keeps scene s t) {last : String}
    (hl : t.Gives last) :
    Ends (stages.foldlM (fun last stage => do
        let key := stageKey node stage
        let state ← get
        match state.generated.get? key with
        | some pass => pure pass
        | none =>
          if key ∈ state.active then
            breakCycle key
            pure key
          else whileActive key (planStage scene (planWithin scene n) node stage key last)) last)
      (fun q u => Keeps scene s u ∧ u.Gives q ∧ (stages ≠ [] ∨ t.Known last → u.Known q))
      (fun f _ => Cause scene f) t := by
  induction stages generalizing t last with
  | nil => exact ⟨h, hl, fun hk => hk.resolve_left fun hne => hne rfl⟩
  | cons stage stages ih =>
    have hready := h.ready hs
    have hstage := hmem stage List.mem_cons_self
    have hround : Ends (do
          let key := stageKey node stage
          let state ← get
          match state.generated.get? key with
          | some pass => pure pass
          | none =>
            if key ∈ state.active then
              breakCycle key
              pure key
            else whileActive key (planStage scene (planWithin scene n) node stage key last))
        (fun q u => Keeps scene s u ∧ u.Known q) (fun f _ => Cause scene f) t := by
      rw [ends_bind, ends_get]
      cases hg : t.generated.get? (stageKey node stage) with
      | some pass => exact ⟨h, Or.inl (hready.sound.generated hg)⟩
      | none =>
        dsimp only
        by_cases ha : stageKey node stage ∈ t.active
        · rw [if_pos ha, ends_bind, ends_breakCycle, ends_pure]
          refine ⟨h.note [_] [_] 1, Or.inr ⟨ha, ?_⟩⟩
          exact List.mem_append_right _ List.mem_cons_self
        · rw [if_neg ha]
          refine (ends_planStage hplan hready hn hstage ha hl).mono ?_ fun _ _ => id
          rintro q u ⟨hu, hq⟩
          exact ⟨h.trans hu, hq⟩
    rw [List.foldlM_cons, ends_bind]
    refine hround.mono ?_ fun _ _ => id
    rintro q u ⟨hu, hq⟩
    refine (ih (fun stage' hm => hmem stage' (List.mem_cons_of_mem _ hm)) hu (Or.inr hq)).mono ?_
      fun _ _ => id
    rintro q' v ⟨hv, hg, hk⟩
    exact ⟨hv, hg, fun _ => hk (Or.inr hq)⟩

theorem ends_planStages (hplan : Serves scene n (planWithin scene n)) (hs : Ready scene (n + 1) s)
    (hn : node ∈ scene.graph.nodeList) (stage : Option String) :
    Ends (planStages scene (planWithin scene n) node stage)
      (fun q t => Keeps scene s t ∧ t.Gives q ∧ (requestedStages node stage ≠ [] → t.Known q))
      (fun f _ => Cause scene f) s := by
  have hmem : ∀ stage' ∈ requestedStages node stage, stage' ∈ node.stages := by
    intro stage' hm
    unfold requestedStages at hm
    split at hm
    · exact hm
    · exact hm
    · exact (List.mem_filter.1 hm).1
  unfold planStages
  dsimp only
  split
  · rw [ends_bind, ends_warn]
    refine (ends_planRound hplan hs hn hmem ((Keeps.refl s).note [_] [_] 0) (Or.inl rfl)).mono ?_
      fun _ _ => id
    exact fun q u h => ⟨h.1, h.2.1, fun hne => h.2.2 (Or.inl hne)⟩
  · refine (ends_planRound hplan hs hn hmem (.refl s) (Or.inl rfl)).mono ?_ fun _ _ => id
    exact fun q u h => ⟨h.1, h.2.1, fun hne => h.2.2 (Or.inl hne)⟩

/-- Planning answers every request, and fails for a cause only. -/
theorem serves_planWithin (scene : Scene) (n : Nat) : Serves scene n (planWithin scene n) := by
  induction n with
  | zero =>
    intro r s _ hs
    exact absurd rfl hs.ne_zero
  | succ n ih =>
    intro r s hr hs
    obtain ⟨⟨id, node⟩, hentry, hid⟩ := List.mem_map.1 hr
    dsimp only at hid
    subst hid
    have hnode : scene.graph.node? r.node = some node := Keyed.mem_entries_iff.1 hentry
    have hn : node ∈ scene.graph.nodeList := Graph.mem_nodeList_of_node? hnode
    unfold planWithin
    rw [ends_bind, Graph.requireNode, hnode, ends_lift, yields_ok]
    split
    · next hm =>
      refine (ends_planStages ih hs hn r.stage).mono ?_ fun _ _ => id
      have hstages : node.stages ≠ [] := by
        simpa using (Bool.and_eq_true_iff.1 hm).2
      rintro q t ⟨ht, hg, hk⟩
      refine ⟨ht, hg, fun hstage => hk ?_⟩
      rw [hstage]
      exact hstages
    · next hm =>
      refine (ends_planOutput ih hs ⟨hn, by simpa using hm⟩ r.port).mono ?_ fun _ _ => id
      exact fun q t h => ⟨h.1, Or.inr h.2, fun _ => h.2⟩

end Serves

end RenderGraph.Plan
