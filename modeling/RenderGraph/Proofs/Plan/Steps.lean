import RenderGraph.Proofs.Plan.Operation

/-!
# The steps of a plan

Whatever a plan does to its state, it does in a few kinds of steps: it takes notes, makes a sampler for
a pass that it knows, begins to plan a key, or ends to plan a key and adds its passes. A pass is known
when it was planned, or when it is being planned and the cycle was reported. What is read is always
known, so that the passes stand in the order of their dependencies but for the cycles reported.

## Main definitions

* `Plan.State.Known`: the pass is planned, or it is being planned and the cycle was reported
* `Plan.Sound`: what holds of the state of a plan at any time
* `Plan.keys`: the keys of the outputs and stages of a graph
* `Plan.Ready`: there is fuel for every key that is not being planned
* `Plan.Steps`: one state comes from another by steps of a plan
* `Plan.Origin`: where a pass comes from

## Main results

* `Plan.Steps.sound`: steps keep a state sound
* `Plan.Steps.grows`: passes and warnings are only added
* `Plan.Steps.get?_owners`: samplers keep their owners
* `Plan.Steps.origin`: every pass was built for an output or for a stage
-/

namespace RenderGraph.Plan

/-- The pass is planned, or it is being planned and a request for it was reported. -/
def State.Known (s : State) (q : String) : Prop :=
  q ∈ s.ids ∨ q ∈ s.active ∧ cycleWarning q ∈ s.warnings

/-- What holds of the state of a plan at any time. -/
structure Sound (s : State) : Prop where
  /-- What a key leads to is planned. -/
  generated : ∀ {key q : String}, s.generated.get? key = some q → q ∈ s.ids
  /-- Samplers read passes that are known. -/
  owners : ∀ {u q : String}, s.owners.get? u = some q → q ≠ "" ∧ s.Known q
  /-- Samplers have the names of the passes that they read. -/
  names : ∀ {u q : String}, s.owners.get? u = some q → u = Shader.samplerName q
  /-- A pass reads passes that are known, and that stand before it unless a cycle was reported. -/
  bindings : ∀ {before after : List RenderPass} {p : RenderPass}, s.passes = before ++ p :: after →
    ∀ {u q : String}, p.bindings.get? u = some q →
      s.Known q ∧ (q ∈ before.map (·.id) ∨ cycleWarning q ∈ s.warnings)

theorem sound_initial : Sound {} where
  generated h := by simp at h
  owners h := by simp at h
  names h := by simp at h
  bindings h := by simp at h

variable {scene : Scene}

/-! ### Keys -/

/-- The keys of the outputs and stages of a node. -/
def nodeKeys (node : Node) : List String :=
  node.id :: (node.outputs.map fun p => node.id ++ "::" ++ p.id) ++ node.stages.map (stageKey node)

/-- The keys of the outputs and stages of a graph. -/
def keys (g : Graph) : List String :=
  g.nodeList.flatMap nodeKeys

theorem length_nodeKeys (node : Node) : (nodeKeys node).length = keyCount node := by
  simp only [nodeKeys, keyCount, List.length_append, List.length_cons, List.length_map]
  omega

theorem length_keys (g : Graph) : (keys g).length = totalKeyCount g := by
  unfold keys totalKeyCount
  induction g.nodeList with
  | nil => rfl
  | cons node nodes ih =>
    rw [List.flatMap_cons, List.length_append, List.foldr_cons, length_nodeKeys, ih]

theorem passKey_mem {g : Graph} {node : Node} (hn : node ∈ g.nodeList) (port : Option String) :
    passKey node port ∈ keys g := by
  refine List.mem_flatMap.2 ⟨node, hn, ?_⟩
  unfold passKey nodeKeys
  dsimp only
  split
  · exact List.mem_append_left _ List.mem_cons_self
  · next hne =>
    have hmem := (node.outputPort_eq_or_mem port).resolve_left fun he => hne (by rw [he])
    exact List.mem_append_left _ (List.mem_cons_of_mem _ (List.mem_map.2 ⟨_, hmem, rfl⟩))

theorem stageKey_mem {g : Graph} {node : Node} (hn : node ∈ g.nodeList) {stage : Stage}
    (hs : stage ∈ node.stages) : stageKey node stage ∈ keys g :=
  List.mem_flatMap.2 ⟨node, hn, List.mem_append_right _ (List.mem_map.2 ⟨stage, hs, rfl⟩)⟩

/-- Only a node with an empty id makes an empty key. -/
theorem passKey_ne {node : Node} (h : node.id ≠ "") (port : Option String) :
    passKey node port ≠ "" := by
  unfold passKey
  dsimp only
  split
  · exact h
  · simp [String.append_eq_empty_iff]

theorem empty_notMem_keys {g : Graph} (h : g.node? "" = none) : "" ∉ keys g := by
  intro hmem
  obtain ⟨node, hn, hkey⟩ := List.mem_flatMap.1 hmem
  have hid : node.id ≠ "" := by
    intro he
    rw [← he, Graph.mem_nodeList_iff.1 hn] at h
    cases h
  rcases List.mem_append.1 hkey with hkey | hkey
  · rcases List.mem_cons.1 hkey with he | hkey
    · exact hid he.symm
    · obtain ⟨port, -, he⟩ := List.mem_map.1 hkey
      simp [String.append_eq_empty_iff] at he
  · obtain ⟨stage, -, he⟩ := List.mem_map.1 hkey
    exact stageKey_ne node stage he

/-! ### Fuel -/

/-- The state is sound, and there is fuel for every key that is not being planned. -/
structure Ready (scene : Scene) (n : Nat) (s : State) : Prop where
  sound : Sound s
  nodup : s.active.Nodup
  subset : s.active ⊆ keys scene.graph
  fuel : (keys scene.graph).length < n + s.active.length

/-! ### What builds a pass -/

/-- The pass of an output has the key of the output as its id and reads what its samplers own. -/
theorem leads_buildPass {plan : Request → PlanM String} {node : Node} {port : Option String}
    {key : String} {s : State} :
    Leads (buildPass scene plan node port key) (fun p t => p.id = key ∧
      ∀ {u q : String}, p.bindings.get? u = some q → t.owners.get? u = some q) s := by
  unfold buildPass
  refine Leads.bind fun subgraph s => Leads.bind fun _ s => Leads.bind fun program s => ?_
  rw [Leads, ends_bind, ends_bindings, ends_pure]
  exact ⟨rfl, get?_of_get?_bindings⟩

/-- How often a stage is repeated is at least one. -/
theorem one_le_loopCount {stage : Stage} {body : String} {n : Nat}
    (h : stage.loopCount body = .ok n) : 1 ≤ n := by
  unfold Stage.loopCount at h
  split at h
  · next hl =>
    cases h
    omega
  · unfold Stage.pragmaLoop at h
    split at h
    · next digits _ _ =>
      cases hd : Numeral.read digits with
      | error f => simp [hd, Except.map] at h
      | ok k =>
        simp only [hd, Except.map, Except.ok.injEq] at h
        by_cases hk : 1 < k
        · rw [if_pos hk, Option.getD_some] at h
          omega
        · rw [if_neg hk, Option.getD_none] at h
          omega
    · cases h
      exact Nat.le_refl 1

/-- The first iteration of a stage reads what its samplers own; there is at least one iteration. -/
theorem leads_buildStage {plan : Request → PlanM String} {node : Node} {stage : Stage}
    {key previous : String} {s : State} :
    Leads (buildStage scene plan node stage key previous) (fun r t =>
      r.2.base = key ∧ 1 ≤ r.2.count ∧
        ∀ {u q : String}, r.1.bindings.get? u = some q → t.owners.get? u = some q) s := by
  unfold buildStage
  refine Leads.bind fun io s => Leads.bind fun _ s => Leads.bind fun textures s =>
    Leads.bind fun texture s => Leads.bind fun body s => ?_
  rw [Leads, ends_bind, ends_lift, yields_iff]
  refine ⟨fun count hc => ?_, fun _ _ => trivial⟩
  refine Leads.bind fun _ s => Leads.bind fun program s => ?_
  rw [Leads, ends_bind, ends_bindings, ends_pure]
  have hc' : (1 : Int) ≤ count := by exact_mod_cast one_le_loopCount hc
  exact ⟨rfl, hc', get?_of_get?_bindings⟩

/-! ### Steps -/

/-- One state comes from another by steps of a plan. -/
inductive Steps (scene : Scene) (s : State) : State → Prop
  | refl : Steps scene s s
  /-- Warnings are issued, records are written and dropped edges are counted. -/
  | note {t : State} (h : Steps scene s t) (warnings : List String) (journal : List Journal.Record)
      (breaks : Nat) :
      Steps scene s { t with
        warnings := t.warnings ++ warnings,
        journal := t.journal ++ journal,
        cycleBreaks := t.cycleBreaks + breaks }
  /-- A sampler is made for a pass. -/
  | own {t : State} {q : String} (h : Steps scene s t) (hq : q ≠ "") (hk : t.Known q) :
      Steps scene s { t with owners := t.owners.insertNew (Shader.samplerName q) q }
  /-- The planning of a key begins. -/
  | enter {t : State} {key : String} (h : Steps scene s t) (hk : key ∉ t.active) :
      Steps scene s { t with active := t.active ++ [key] }
  /-- The planning of an output ends with its pass. -/
  | output {t₀ t : State} {n : Nat} {node : Node} {port : Option String} {p : RenderPass}
      {rest : List String} (h₀ : Steps scene s t₀) (h : Steps scene s t) (hf : Ready scene n t₀)
      (hn : scene.graph.node? node.id = some node) (hm : node.isMultiStage = false)
      (hr : (buildPass scene (planWithin scene n) node port (passKey node port)).run t₀ = (.ok p, t))
      (ha : t.active = rest ++ [passKey node port]) :
      Steps scene s
        ({ t with active := rest }.add [p] (passKey node port) (passKey node port))
  /-- The planning of a stage ends with its iterations. -/
  | stage {t₀ t u : State} {n : Nat} {node : Node} {stage : Stage} {previous : String}
      {template : RenderPass} {loop : Loop} {passes : List RenderPass} {rest : List String}
      (h₀ : Steps scene s t₀) (h : Steps scene s t)
      (hn : scene.graph.node? node.id = some node) (hs : stage ∈ node.stages)
      (hr : (buildStage scene (planWithin scene n) node stage (stageKey node stage) previous).run t₀ =
        (.ok (template, loop), t))
      (hi : (iterations scene template loop).run t = (.ok passes, u))
      (ha : t.active = rest ++ [stageKey node stage]) :
      Steps scene s ({ u with active := rest }.add passes (stageKey node stage) loop.lastId)

namespace Steps

variable {s t u : State}

theorem trans (h : Steps scene s t) (h' : Steps scene t u) : Steps scene s u := by
  induction h' with
  | refl => exact h
  | note _ ws js k ih => exact ih.note ws js k
  | own _ hq hk ih => exact ih.own hq hk
  | enter _ hk ih => exact ih.enter hk
  | output _ _ hf hn hm hr ha ih₀ ih => exact output ih₀ ih hf hn hm hr ha
  | stage _ _ hn hs hr hi ha ih₀ ih => exact stage ih₀ ih hn hs hr hi ha

end Steps

/-! ### Steps keep a state sound -/

section Sound

variable {t : State} {passes : List RenderPass} {key last q : String} {rest : List String}

/-- A pass stays known when more is noted. -/
theorem State.Known.note (h : t.Known q) (warnings : List String) (journal : List Journal.Record)
    (breaks : Nat) :
    State.Known { t with
      warnings := t.warnings ++ warnings,
      journal := t.journal ++ journal,
      cycleBreaks := t.cycleBreaks + breaks } q :=
  h.imp_right fun hq => ⟨hq.1, List.mem_append_left _ hq.2⟩

theorem State.Known.enter (h : t.Known q) (key : String) :
    State.Known { t with active := t.active ++ [key] } q :=
  h.imp_right fun hq => ⟨List.mem_append_left _ hq.1, hq.2⟩

/-- A pass stays known when the planning of a key ends, since the key becomes the id of a pass. -/
theorem State.Known.add (h : t.Known q) (owners : Keyed String)
    (ha : t.active = rest ++ [key]) (hk : key ∈ passes.map (·.id)) :
    (State.add { t with owners, active := rest } passes key last).Known q := by
  unfold State.Known
  rw [ids_add]
  rcases h with h | ⟨h, hw⟩
  · exact Or.inl (List.mem_append_left _ h)
  · rw [ha, List.mem_append, List.mem_singleton] at h
    rcases h with h | rfl
    · exact Or.inr ⟨h, hw⟩
    · exact Or.inl (List.mem_append_right _ hk)

/-- A known pass is planned, or its cycle was reported. -/
theorem State.Known.mem_or_warning (h : t.Known q) :
    q ∈ t.ids ∨ cycleWarning q ∈ t.warnings :=
  h.imp_right And.right

private theorem mem_ids_of_get?_foldl {passes : List RenderPass} {generated : Keyed String}
    {key q : String}
    (h : (passes.foldl (fun m p => m.insertNew p.id p.id) generated).get? key = some q) :
    generated.get? key = some q ∨ q ∈ passes.map (·.id) := by
  induction passes generalizing generated with
  | nil => exact Or.inl h
  | cons p passes ih =>
    rcases ih h with h | h
    · rw [Keyed.get?_insertNew] at h
      split at h
      · next hk =>
        cases hg : generated.get? p.id with
        | some r => exact Or.inl (by rw [hk, hg, ← h, hg]; rfl)
        | none =>
          rw [hg, Option.getD_none, Option.some.injEq] at h
          exact Or.inr (h ▸ List.mem_cons_self)
      · exact Or.inl h
    · exact Or.inr (List.mem_cons_of_mem _ h)

/-- The end of a planning keeps a state sound: what the new passes read is known or among them. -/
theorem Sound.add (h : Sound t) {owners : Keyed String} (ha : t.active = rest ++ [key])
    (hk : key ∈ passes.map (·.id)) (hl : last ∈ passes.map (·.id))
    (ho : ∀ {u q : String}, owners.get? u = some q → t.owners.get? u = some q ∨
      u = Shader.samplerName q ∧ q ≠ "" ∧ q ∈ passes.map (·.id))
    (hb : ∀ {before after : List RenderPass} {p : RenderPass}, passes = before ++ p :: after →
      ∀ {u q : String}, p.bindings.get? u = some q → t.Known q ∨ q ∈ before.map (·.id)) :
    Sound (State.add { t with owners, active := rest } passes key last) where
  generated := by
    intro k q hq
    rw [ids_add, List.mem_append]
    rw [State.add, Keyed.get?_insert] at hq
    split at hq
    · obtain rfl : last = q := Option.some.inj hq
      exact Or.inr hl
    · exact (mem_ids_of_get?_foldl hq).imp_left h.generated
  owners := by
    intro u q hq
    rcases ho hq with hq | ⟨-, hne, hq⟩
    · exact ⟨(h.owners hq).1, (h.owners hq).2.add owners ha hk⟩
    · refine ⟨hne, Or.inl ?_⟩
      rw [ids_add]
      exact List.mem_append_right _ hq
  names hq := (ho hq).elim h.names And.left
  bindings := by
    intro before after p hp u q hq
    have hp' : t.passes ++ passes = before ++ p :: after := hp
    rcases List.append_eq_append_iff.1 hp' with ⟨new, hbefore, hnew⟩ | ⟨old, hold, hnew⟩
    · -- The pass is one of the new ones; what stands before it is old, or new and before it.
      rcases hb hnew hq with hknown | hmem
      · refine ⟨hknown.add owners ha hk, ?_⟩
        rw [hbefore, List.map_append]
        exact hknown.mem_or_warning.imp_left (List.mem_append_left _)
      · have hids : q ∈ passes.map (·.id) := by
          rw [hnew, List.map_append]
          exact List.mem_append_left _ hmem
        refine ⟨Or.inl ?_, Or.inl ?_⟩
        · rw [ids_add]
          exact List.mem_append_right _ hids
        · rw [hbefore, List.map_append]
          exact List.mem_append_right _ hmem
    · cases old with
      | nil =>
        rw [List.append_nil] at hold
        have hnew' : passes = [] ++ p :: after := hnew.symm
        rcases hb hnew' hq with hknown | hmem
        · exact ⟨hknown.add owners ha hk, hold ▸ hknown.mem_or_warning⟩
        · simp at hmem
      | cons p' old =>
        rw [List.cons_append, List.cons.injEq] at hnew
        obtain ⟨rfl, -⟩ := hnew
        obtain ⟨hknown, hbefore⟩ := h.bindings hold hq
        exact ⟨hknown.add owners ha hk, hbefore⟩

end Sound

private theorem eq_of_singleton_eq_append {p p' : RenderPass} {before after : List RenderPass}
    (h : [p] = before ++ p' :: after) : before = [] ∧ p = p' := by
  rw [eq_comm, List.append_eq_singleton_iff] at h
  rcases h with ⟨hb, hp⟩ | ⟨-, hp⟩
  · exact ⟨hb, (List.cons.inj hp).1.symm⟩
  · simp at hp

section Iterations

variable {template : RenderPass} {loop : Loop} {n : Nat} {passes : List RenderPass}

private theorem map_id_of_iterations {indices : List Nat}
    (h : List.Forall₂ (IsIteration template loop) indices passes) :
    passes.map (·.id) = indices.map fun i : Nat => loop.iterationId i := by
  induction h with
  | nil => rfl
  | cons hp _ ih => rw [List.map_cons, List.map_cons, hp.id_eq, ih]

/-- Every iteration stands behind the iterations before it. -/
private theorem isIteration_of_iterations
    (h : List.Forall₂ (IsIteration template loop) (List.range n) passes)
    {before after : List RenderPass} {p : RenderPass} (hp : passes = before ++ p :: after) :
    IsIteration template loop before.length p ∧
      before.map (·.id) = (List.range before.length).map fun i : Nat => loop.iterationId i := by
  subst hp
  obtain ⟨hlen, hget⟩ := List.forall₂_iff_get.1 h
  rw [List.length_range, List.length_append, List.length_cons] at hlen
  refine ⟨?_, ?_⟩
  · have hp := hget before.length (by simp; omega) (by simp)
    simpa using hp
  · have hb := List.forall₂_take_append _ _ _ h
    rw [List.take_range, Nat.min_eq_left (by omega)] at hb
    exact map_id_of_iterations hb

/-- The first iteration keeps the id of the loop. -/
private theorem base_mem
    (h : List.Forall₂ (IsIteration template loop) (List.range loop.count.toNat) passes)
    (hc : 1 ≤ loop.count) : loop.base ∈ passes.map (·.id) := by
  rw [map_id_of_iterations h]
  refine List.mem_map.2 ⟨0, List.mem_range.2 (by omega), ?_⟩
  exact if_pos rfl

/-- The last iteration is one of them. -/
theorem lastId_mem
    (h : List.Forall₂ (IsIteration template loop) (List.range loop.count.toNat) passes)
    (hc : 1 ≤ loop.count) : loop.lastId ∈ passes.map (·.id) := by
  rw [map_id_of_iterations h, Loop.lastId_eq hc]
  exact List.mem_map.2 ⟨loop.count.toNat - 1, List.mem_range.2 (by omega), rfl⟩

end Iterations

namespace Steps

variable {s t : State}

/-- Steps keep a state sound. -/
theorem sound (h : Steps scene s t) (hs : Sound s) : Sound t := by
  induction h with
  | refl => exact hs
  | note _ ws js k ih =>
    exact {
      generated := ih.generated
      owners := fun hu => ⟨(ih.owners hu).1, (ih.owners hu).2.note ws js k⟩
      names := ih.names
      bindings := fun hp _ _ hu =>
        ⟨(ih.bindings hp hu).1.note ws js k,
          (ih.bindings hp hu).2.imp_right (List.mem_append_left ws)⟩ }
  | @own t q _ hq hk ih =>
    have howner {u r : String} (hr : (t.owners.insertNew (Shader.samplerName q) q).get? u = some r) :
        t.owners.get? u = some r ∨ u = Shader.samplerName q ∧ r = q := by
      rw [Keyed.get?_insertNew] at hr
      split at hr
      · next hu =>
        subst hu
        cases ho : t.owners.get? (Shader.samplerName q) with
        | some r' => exact Or.inl (by simpa [ho] using hr)
        | none => exact Or.inr ⟨rfl, by simpa [ho] using hr.symm⟩
      · exact Or.inl hr
    refine ⟨ih.generated, fun hr => ?_, fun hr => ?_, ih.bindings⟩
    · rcases howner hr with hr | ⟨-, rfl⟩
      · exact ih.owners hr
      · exact ⟨hq, hk⟩
    · rcases howner hr with hr | ⟨hu, rfl⟩
      · exact ih.names hr
      · exact hu
  | enter _ _ ih =>
    exact {
      generated := ih.generated
      owners := fun hu => ⟨(ih.owners hu).1, (ih.owners hu).2.enter _⟩
      names := ih.names
      bindings := fun hp _ _ hu => ⟨(ih.bindings hp hu).1.enter _, (ih.bindings hp hu).2⟩ }
  | @output t₀ t n node port p rest _ _ _ hn hm hr ha _ ih =>
    obtain ⟨hid, hbind⟩ := leads_buildPass.of_run_ok hr
    have hmem : passKey node port ∈ [p].map (·.id) := by simp [hid]
    refine Sound.add ih ha hmem hmem (@fun _ _ hq => Or.inl hq) ?_
    intro before after p' hp u q hq
    obtain ⟨rfl, rfl⟩ := eq_of_singleton_eq_append hp
    exact Or.inl (ih.owners (hbind hq)).2
  | @stage t₀ t u n node stage previous template loop passes rest _ _ hn hs hr hi ha _ ih =>
    have hbuilt := leads_buildStage.of_run_ok hr
    obtain ⟨hbase, hcount, hbind⟩ : loop.base = stageKey node stage ∧ 1 ≤ loop.count ∧ _ := hbuilt
    have hne : loop.base ≠ "" := hbase ▸ stageKey_ne node stage
    obtain ⟨hpasses, howners⟩ := (ends_iterations scene template hne).of_run_ok hi
    have hids : ∀ i < loop.count.toNat, loop.iterationId i ∈ passes.map (·.id) := by
      intro i hi
      rw [map_id_of_iterations hpasses]
      exact List.mem_map.2 ⟨i, List.mem_range.2 hi, rfl⟩
    have hkey : stageKey node stage ∈ passes.map (·.id) := hbase ▸ base_mem hpasses hcount
    rw [howners.eq]
    refine ih.add ha hkey (lastId_mem hpasses hcount) ?_ ?_
    · intro v q hq
      refine (howners.new hq).imp_right ?_
      rintro ⟨hv, hne, i, hi, rfl⟩
      exact ⟨hv, hne, hids i hi⟩
    · intro before after p hp v q hq
      obtain ⟨hiter, hbefore⟩ := isIteration_of_iterations hpasses hp
      rcases hiter.get?_bindings hq with hq | ⟨hpos, rfl⟩
      · exact Or.inl (ih.owners (hbind hq)).2
      · refine Or.inr ?_
        rw [hbefore]
        refine List.mem_map.2 ⟨before.length - 1, List.mem_range.2 (by omega), ?_⟩
        rw [Loop.previousId]
        congr 1
        omega

end Steps

/-- Passes and warnings are only added. -/
theorem Steps.grows {s t : State} (h : Steps scene s t) :
    s.passes <+: t.passes ∧ s.warnings <+: t.warnings := by
  induction h with
  | refl => exact ⟨List.prefix_refl _, List.prefix_refl _⟩
  | note _ ws _ _ ih => exact ⟨ih.1, ih.2.trans (List.prefix_append _ ws)⟩
  | own _ _ _ ih => exact ih
  | enter _ _ ih => exact ih
  | output _ _ _ _ _ _ _ _ ih => exact ⟨ih.1.trans (List.prefix_append _ _), ih.2⟩
  | @stage t₀ t u n node stage previous template loop passes rest _ _ _ _ hr hi _ _ ih =>
    have hbase : loop.base = stageKey node stage := (leads_buildStage.of_run_ok hr).1
    have hne : loop.base ≠ "" := hbase ▸ stageKey_ne node stage
    have howners := ((ends_iterations scene template hne).of_run_ok hi).2
    rw [howners.eq]
    exact ⟨ih.1.trans (List.prefix_append _ _), ih.2⟩

/-- A sampler keeps its owner. -/
theorem Steps.get?_owners {s t : State} (h : Steps scene s t) {u q : String}
    (hu : s.owners.get? u = some q) : t.owners.get? u = some q := by
  induction h with
  | refl => exact hu
  | note _ _ _ _ ih => exact ih
  | @own t q' _ _ _ ih =>
    show (t.owners.insertNew (Shader.samplerName q') q').get? u = some q
    rw [Keyed.get?_insertNew]
    split
    · next he => rw [← he, ih]; rfl
    · exact ih
  | enter _ _ ih => exact ih
  | output _ _ _ _ _ _ _ _ ih => exact ih
  | @stage t₀ t u' n node stage previous template loop passes rest _ _ _ _ hr hi _ _ ih =>
    have hbase : loop.base = stageKey node stage := (leads_buildStage.of_run_ok hr).1
    have hne : loop.base ≠ "" := hbase ▸ stageKey_ne node stage
    exact ((ends_iterations scene template hne).of_run_ok hi).2.old ih

/-! ### Where passes come from -/

/-- Where a pass of a state comes from that stands behind some others. -/
inductive Origin (scene : Scene) (s last : State) : List RenderPass → RenderPass → Prop
  /-- It was built for an output of a node; what was known then is known in the end. -/
  | output {t₀ t : State} {n : Nat} {node : Node} {port : Option String} {p : RenderPass}
      (h₀ : Steps scene s t₀) (h : Steps scene s t) (hf : Ready scene n t₀)
      (hn : scene.graph.node? node.id = some node) (hm : node.isMultiStage = false)
      (hr : (buildPass scene (planWithin scene n) node port (passKey node port)).run t₀ = (.ok p, t))
      (hk : ∀ {q : String}, t.Known q → last.Known q) :
      Origin scene s last t.passes p
  /-- It is an iteration of a stage. -/
  | stage {t₀ t u : State} {n : Nat} {node : Node} {stage : Stage} {previous : String}
      {template p : RenderPass} {loop : Loop} {earlier later : List RenderPass}
      (h₀ : Steps scene s t₀) (h : Steps scene s t)
      (hn : scene.graph.node? node.id = some node) (hs : stage ∈ node.stages)
      (hr : (buildStage scene (planWithin scene n) node stage (stageKey node stage) previous).run t₀ =
        (.ok (template, loop), t))
      (hi : (iterations scene template loop).run t = (.ok (earlier ++ p :: later), u)) :
      Origin scene s last (t.passes ++ earlier) p

private theorem Origin.mono {s t u : State} {before : List RenderPass} {p : RenderPass}
    (h : Origin scene s t before p) (hk : ∀ {q : String}, t.Known q → u.Known q) :
    Origin scene s u before p := by
  cases h with
  | output h₀ h hf hn hm hr hk' => exact .output h₀ h hf hn hm hr fun hq => hk (hk' hq)
  | stage h₀ h hn hs hr hi => exact .stage h₀ h hn hs hr hi

private theorem origin_of_append {s last : State} {old new before after : List RenderPass}
    {p : RenderPass} (hp : old ++ new = before ++ p :: after)
    (hold : ∀ {before after : List RenderPass} {p : RenderPass}, old = before ++ p :: after →
      Origin scene s last before p)
    (hnew : ∀ {earlier later : List RenderPass} {p : RenderPass}, new = earlier ++ p :: later →
      Origin scene s last (old ++ earlier) p) : Origin scene s last before p := by
  rcases List.append_eq_append_iff.1 hp with ⟨earlier, rfl, h⟩ | ⟨rest, h, hr⟩
  · exact hnew h
  · cases rest with
    | nil =>
      have hr' : new = [] ++ p :: after := hr.symm
      have h' := hnew hr'
      rw [List.append_nil] at h h'
      exact h ▸ h'
    | cons p' rest =>
      rw [List.cons_append, List.cons.injEq] at hr
      obtain ⟨rfl, -⟩ := hr
      exact hold h

/-- Every pass that was added was built for an output or for a stage. -/
theorem Steps.origin {s t : State} (h : Steps scene s t) (hs : s.passes = [])
    {before after : List RenderPass} {p : RenderPass} (hp : t.passes = before ++ p :: after) :
    Origin scene s t before p := by
  induction h generalizing before after p with
  | refl => simp [hs] at hp
  | note _ ws js k ih => exact (ih hp).mono fun hq => hq.note ws js k
  | own _ _ _ ih => exact (ih hp).mono fun hq => hq
  | enter _ _ ih => exact (ih hp).mono fun hq => hq.enter _
  | @output t₀ t n node port p' rest h₀ h hf hn hm hr ha _ ih =>
    have hp' : t.passes ++ [p'] = before ++ p :: after := hp
    have hkey : passKey node port ∈ [p'].map (·.id) := by simp [(leads_buildPass.of_run_ok hr).1]
    refine origin_of_append hp' (fun he => (ih he).mono fun hq => hq.add t.owners ha hkey) ?_
    intro earlier later q hq
    obtain ⟨rfl, rfl⟩ := eq_of_singleton_eq_append hq
    rw [List.append_nil]
    exact .output h₀ h hf hn hm hr fun hq => hq.add t.owners ha hkey
  | @stage t₀ t u n node stage previous template loop passes rest h₀ h hn hs hr hi ha _ ih =>
    have hbuilt := leads_buildStage.of_run_ok hr
    obtain ⟨hbase, hcount, -⟩ : loop.base = stageKey node stage ∧ 1 ≤ loop.count ∧ _ := hbuilt
    have hne : loop.base ≠ "" := hbase ▸ stageKey_ne node stage
    obtain ⟨hpasses, howners⟩ := (ends_iterations scene template hne).of_run_ok hi
    have hkey : stageKey node stage ∈ passes.map (·.id) := hbase ▸ base_mem hpasses hcount
    have hu : u.passes = t.passes := by rw [howners.eq]
    have hp' : t.passes ++ passes = before ++ p :: after := hu ▸ hp
    refine origin_of_append hp' (fun he => (ih he).mono fun hq => ?_) ?_
    · rw [howners.eq]
      exact hq.add u.owners ha hkey
    · rintro earlier later q rfl
      exact .stage h₀ h hn hs hr hi

/-- Every pass has an id, unless a node has none. -/
theorem Steps.empty_notMem_ids {s t : State} (h : Steps scene s t) (hs : s.passes = [])
    (hid : scene.graph.node? "" = none) : "" ∉ t.ids := by
  intro hmem
  obtain ⟨p, hp, he⟩ := List.mem_map.1 hmem
  obtain ⟨before, after, hsplit⟩ := List.append_of_mem hp
  cases h.origin hs hsplit with
  | output _ _ _ hn _ hr _ =>
    rw [(leads_buildPass.of_run_ok hr).1] at he
    refine passKey_ne ?_ _ he
    intro hempty
    rw [hempty, hid] at hn
    cases hn
  | @stage t₀ t u n node stage previous template p loop earlier later _ _ _ _ hr hi =>
    have hbase : loop.base = stageKey node stage := (leads_buildStage.of_run_ok hr).1
    have hne : loop.base ≠ "" := hbase ▸ stageKey_ne node stage
    have hpasses := ((ends_iterations scene template hne).of_run_ok hi).1
    rw [(isIteration_of_iterations hpasses rfl).1.id_eq] at he
    exact iterationId_ne hne _ he

end RenderGraph.Plan
