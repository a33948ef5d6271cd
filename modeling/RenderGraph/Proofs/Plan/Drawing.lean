import Mathlib.Data.List.Pairwise
import RenderGraph.Proofs.Plan.Progress

/-!
# How a pass reads other passes

The building of a pass is a search that asks the plan for other passes, followed by the writing of a
program. `Drawing` records one such building: where it began and ended, the nodes that it inlined, and
what the plan answered at each boundary. The consumers of a pass find their textures by keys, and the
textures find their passes by samplers; both are made of names, and names may coincide. A pass reads
what was planned for it exactly when none of them do.

## Main definitions

* `Plan.Answer`, `Plan.Answered`: what a plan answered to a search
* `Plan.Drawing`: the building of a pass
* `Plan.Drawing.Faithful`: the consumers of a pass read what was planned for them
* `Plan.Drawing.Unambiguous`: no two names coincide

## Main results

* `Plan.exists_drawing`: every pass of an output has been built
* `Plan.Drawing.faithful_iff_unambiguous`
* `Plan.Drawing.unambiguous_of_distinct`: a condition on names alone
-/

namespace RenderGraph.Plan

/-! ### Answers -/

/-- What a plan answered at a boundary: the input that is fed, the output that feeds it, and the pass
that was planned for it. -/
structure Answer where
  node : Node
  port : Port
  source : Node
  sourcePort : Option String
  pass : String

namespace Answer

/-- The key by which the consumer finds its texture. -/
def key (a : Answer) : String :=
  Shader.textureKey a.node.id a.port.id

/-- The sampler that reads the pass. -/
def sampler (config : Config) (a : Answer) : String :=
  if a.pass = "" then config.emptyTexture else Shader.samplerName a.pass

/-- The texture that the search got. -/
def read (config : Config) (a : Answer) : Read :=
  { node := a.node, port := a.port, source := a.source, sourcePort := a.sourcePort,
    sampler := a.sampler config }

end Answer

/-- On the way from one state to another, a plan gave some answers. -/
inductive Answered (scene : Scene) (plan : Request → PlanM String) (s : State) :
    List Answer → State → Prop
  | nil : Answered scene plan s [] s
  | warn {answers : List Answer} {t u : State} {message : String}
      (h : Answered scene plan s answers t) (hw : (Plan.warn message).run t = (.ok (), u)) :
      Answered scene plan s answers u
  | answer {answers : List Answer} {t u v : State} {a : Answer}
      (h : Answered scene plan s answers t) (hm : a.source ∈ scene.graph.nodeList)
      (hp : (plan { node := a.source.id, port := a.sourcePort }).run t = (.ok a.pass, u))
      (hs : (sampler scene.config a.pass).run u = (.ok (a.sampler scene.config), v)) :
      Answered scene plan s (answers ++ [a]) v

variable {scene : Scene} {plan : Request → PlanM String} {s t : State}

/-- What a search asked is what the plan answered. -/
theorem exists_answered {reads : List Read}
    (h : Asks scene.graph (host scene plan) s reads t) :
    ∃ answers, Answered scene plan s answers t ∧
      reads = answers.map (Answer.read scene.config) := by
  induction h with
  | nil => exact ⟨[], .nil, rfl⟩
  | warn _ hw ih =>
    obtain ⟨answers, ha, hr⟩ := ih
    exact ⟨answers, ha.warn hw, hr⟩
  | @read reads t u r _ hm hr ih =>
    obtain ⟨answers, ha, rfl⟩ := ih
    obtain ⟨pass, v, hplan, hsampler⟩ := exists_of_run_bind hr
    let a : Answer :=
      { node := r.node, port := r.port, source := r.source, sourcePort := r.sourcePort, pass }
    have hname : r.sampler = a.sampler scene.config := by
      have hends : Ends (sampler scene.config pass)
          (fun name _ => name = a.sampler scene.config) (fun _ _ => True) v := by
        rw [ends_sampler]
        split
        · next he => exact (if_pos he).symm
        · next hne => exact (if_neg hne).symm
      exact hends.of_run_ok hsampler
    refine ⟨answers ++ [a], ha.answer (a := a) hm hplan (hname ▸ hsampler), ?_⟩
    rw [List.map_append, List.map_singleton, Answer.read, ← hname]

/-- The passes that a plan answers with are known, and their samplers have owners. -/
theorem Answered.keeps {n : Nat} {answers : List Answer}
    (h : Answered scene (planWithin scene n) s answers t) (hs : Ready scene n s) :
    Keeps scene s t ∧ ∀ a ∈ answers, t.Known a.pass ∧
      (a.pass ≠ "" → ∃ q, t.owners.get? (Shader.samplerName a.pass) = some q) := by
  induction h with
  | nil => exact ⟨.refl s, by simp⟩
  | @warn answers t u message _ hw ih =>
    obtain ⟨ht, hknown⟩ := ih
    have hu : Keeps scene t u := by
      have hwarn : Ends (Plan.warn message) (fun _ u => Keeps scene t u) (fun _ _ => True) t :=
        (Keeps.refl t).note [message] [.warn message] 0
      exact hwarn.of_run_ok hw
    refine ⟨ht.trans hu, fun a ha => ⟨hu.known (hknown a ha).1, fun hne => ?_⟩⟩
    obtain ⟨q, hq⟩ := (hknown a ha).2 hne
    exact ⟨q, hu.steps.get?_owners hq⟩
  | @answer answers t u v a _ hm hp hsampler ih =>
    obtain ⟨ht, hknown⟩ := ih
    obtain ⟨hu, hgives, hk⟩ := (serves_planWithin scene n (r := { node := a.source.id, port := _ })
      (Graph.id_mem_keys hm) (ht.ready hs)).of_run_ok hp
    have hv : Keeps scene u v :=
      (ends_sampler_of_gives (.refl u) hgives (E := fun _ _ => True)).of_run_ok hsampler
    have howner : a.pass ≠ "" → ∃ q, v.owners.get? (Shader.samplerName a.pass) = some q := by
      intro hne
      have hends : Ends (sampler scene.config a.pass)
          (fun _ v => ∃ q, v.owners.get? (Shader.samplerName a.pass) = some q) (fun _ _ => True) u := by
        rw [ends_sampler, if_neg hne]
        exact ⟨_, by rw [Keyed.get?_insertNew, if_pos rfl]⟩
      exact hends.of_run_ok hsampler
    refine ⟨ht.trans (hu.trans hv), fun b hb => ?_⟩
    rcases List.mem_append.1 hb with hb | hb
    · refine ⟨hv.known (hu.known (hknown b hb).1), fun hne => ?_⟩
      obtain ⟨q, hq⟩ := (hknown b hb).2 hne
      exact ⟨q, hv.steps.get?_owners (hu.steps.get?_owners hq)⟩
    · obtain rfl := List.mem_singleton.1 hb
      exact ⟨hv.known (hk rfl), howner⟩

/-! ### Drawings -/

/-- One state is another with more warnings, records and dropped edges. -/
def State.Notes (s t : State) : Prop :=
  ∃ warnings journal breaks, t = { s with
    warnings := s.warnings ++ warnings,
    journal := s.journal ++ journal,
    cycleBreaks := s.cycleBreaks + breaks }

namespace State.Notes

theorem refl (s : State) : s.Notes s :=
  ⟨[], [], 0, by simp⟩

theorem trans {s t u : State} (h : s.Notes t) (h' : t.Notes u) : s.Notes u := by
  obtain ⟨ws, js, k, rfl⟩ := h
  obtain ⟨ws', js', k', rfl⟩ := h'
  exact ⟨ws ++ ws', js ++ js', k + k', by simp [List.append_assoc, Nat.add_assoc]⟩

theorem owners_eq {s t : State} (h : s.Notes t) : t.owners = s.owners := by
  obtain ⟨_, _, _, rfl⟩ := h
  rfl

theorem known {s t : State} (h : s.Notes t) {q : String} (hq : s.Known q) : t.Known q := by
  obtain ⟨ws, js, k, rfl⟩ := h
  exact hq.note ws js k

end State.Notes

/-- The building of a pass of an output, within a plan. -/
structure Drawing (scene : Scene) (p : RenderPass) where
  node : Node
  port : Option String
  fuel : Nat
  /-- The states in which the building began and ended. -/
  start : State
  stop : State
  /-- What the search collected. -/
  subgraph : Subgraph
  /-- What the plan answered to it. -/
  answers : List Answer
  /-- What was written of the main function. -/
  calls : Shader.CallState
  reached : Steps scene {} start
  ready : Ready scene fuel start
  stopped : Steps scene {} stop
  inlines : scene.graph.Inlines node
  built : (buildPass scene (planWithin scene fuel) node port (passKey node port)).run start =
    (.ok p, stop)
  answered : ∃ t, Answered scene (planWithin scene fuel) start answers t ∧ t.Notes stop
  collected : Adds scene.graph [] [] [] {} subgraph subgraph.order
    (answers.map (Answer.read scene.config))
  root_mem : node ∈ subgraph.order
  written : (Shader.fragment scene subgraph.textures subgraph.order node (node.outputPort port)).run
    {} = (.ok (p.fragment, p.uniforms), calls)
  textures_eq : p.textures = subgraph.textures
  bindings_eq : p.bindings = .ofList (p.textures.values.filterMap fun u =>
    (stop.owners.get? u).map fun pass => (u, pass))

/-- The writing of a program only issues warnings. -/
private theorem leads_writeFragment (scene : Scene) (subgraph : Subgraph) (node : Node) (port : Port)
    (s : State) :
    Leads (writeFragment scene subgraph node port) (fun program t => s.Notes t ∧
      ∃ calls, (Shader.fragment scene subgraph.textures subgraph.order node port).run {} =
        (.ok program, calls)) s := by
  unfold writeFragment
  rcases hr : (Shader.fragment scene subgraph.textures subgraph.order node port).run {} with
    ⟨result, calls⟩
  dsimp only
  rw [Leads, ends_bind]
  have hwarnings : Ends (calls.warnings.forM warn) (fun _ t => s.Notes t) (fun _ _ => True) s :=
    Ends.forM (I := s.Notes) (fun message _ t ht => ht.trans ⟨[message], [.warn message], 0, rfl⟩)
      (.refl s)
  refine hwarnings.mono ?_ fun _ _ => id
  intro _ t ht
  rw [ends_lift, yields_iff]
  refine ⟨fun program hp => ⟨ht, calls, ?_⟩, fun _ _ => trivial⟩
  rw [hp]

theorem exists_of_buildPass {p : RenderPass} {node : Node} {port : Option String} {key : String}
    (hn : scene.graph.Inlines node) (h : (buildPass scene plan node port key).run s = (.ok p, t)) :
    ∃ subgraph answers calls,
      (∃ u, (collect scene.graph (host scene plan) node.id).run s = (.ok subgraph, u) ∧
        Answered scene plan s answers u ∧ u.Notes t) ∧
      Adds scene.graph [] [] [] {} subgraph subgraph.order
        (answers.map (Answer.read scene.config)) ∧ node ∈ subgraph.order ∧
      (Shader.fragment scene subgraph.textures subgraph.order node (node.outputPort port)).run {} =
        (.ok (p.fragment, p.uniforms), calls) ∧
      p.textures = subgraph.textures ∧
      p.bindings = .ofList (p.textures.values.filterMap fun u =>
        (t.owners.get? u).map fun pass => (u, pass)) := by
  obtain ⟨subgraph, u, hcollect, h⟩ := exists_of_run_bind h
  have hcovers : Covers scene.graph fun _ => True := ⟨fun _ _ _ => trivial, fun _ _ _ _ => trivial⟩
  have hanswers : Answers scene.graph (host scene plan) (fun _ => True) s := by
    intro reads t _
    exact ⟨fun _ _ _ => ends_iff.2 ⟨fun _ _ _ => trivial, fun _ _ _ => trivial⟩,
      fun _ => ends_iff.2 ⟨fun _ _ _ => trivial, fun _ _ _ => trivial⟩⟩
  obtain ⟨reads, hadds, hasks⟩ := (ends_collect hcovers hn hanswers).of_run_ok hcollect
  obtain ⟨answers, hanswered, rfl⟩ := exists_answered hasks
  have hroot : node ∈ subgraph.order := by
    have hholds := (leads_visit_holds List.not_mem_nil).of_run_ok hcollect
    obtain ⟨m, hm, hid⟩ := List.any_eq_true.1 hholds
    have hget := Graph.mem_nodeList_iff.1 (hadds.inlined m hm).1
    rw [eq_of_beq hid, Graph.mem_nodeList_iff.1 hn.1] at hget
    exact Option.some.inj hget ▸ hm
  obtain ⟨_, u', hbreaks, h⟩ := exists_of_run_bind h
  obtain ⟨⟨fragment, uniforms⟩, v, hwrite, h⟩ := exists_of_run_bind h
  have hu : u.Notes u' := by
    have hends : Ends (modify fun s : State =>
        { s with cycleBreaks := s.cycleBreaks + subgraph.cycleBreaks } : PlanM Unit)
        (fun _ t => u.Notes t) (fun _ _ => True) u :=
      ⟨[], [], subgraph.cycleBreaks, by simp⟩
    exact hends.of_run_ok hbreaks
  obtain ⟨hv, calls, hcalls⟩ := (leads_writeFragment ..).of_run_ok hwrite
  have hends : Ends (do
      pure { id := key, vertex := Shader.vertexProgram, fragment, uniforms,
             textures := subgraph.textures, bindings := ← bindings subgraph.textures.values } :
        PlanM RenderPass)
      (fun p t => t = v ∧ p.fragment = fragment ∧ p.uniforms = uniforms ∧
        p.textures = subgraph.textures ∧
        p.bindings = .ofList (p.textures.values.filterMap fun u =>
          (t.owners.get? u).map fun pass => (u, pass))) (fun _ _ => True) v := by
    rw [ends_bind, ends_bindings, ends_pure]
    exact ⟨rfl, rfl, rfl, rfl, rfl⟩
  obtain ⟨rfl, rfl, rfl, htextures, hbindings⟩ := hends.of_run_ok h
  exact ⟨subgraph, answers, calls, ⟨u, hcollect, hanswered, hu.trans hv⟩, hadds, hroot, hcalls,
    htextures, hbindings⟩

/-- A pass that is an iteration of a stage. -/
def IsStagePass (scene : Scene) (p : RenderPass) : Prop :=
  ∃ (n : Nat) (node : Node) (stage : Stage) (previous : String) (t₀ t u : State)
    (template : RenderPass) (loop : Loop) (passes : List RenderPass),
    Steps scene {} t₀ ∧ scene.graph.node? node.id = some node ∧ stage ∈ node.stages ∧
      (buildStage scene (planWithin scene n) node stage (stageKey node stage) previous).run t₀ =
        (.ok (template, loop), t) ∧
      (iterations scene template loop).run t = (.ok passes, u) ∧ p ∈ passes

/-- Without stages no pass is an iteration of one. -/
theorem not_isStagePass (h : ∀ n ∈ scene.graph.nodeList, n.stages.length = 0) {p : RenderPass} :
    ¬ IsStagePass scene p := by
  rintro ⟨_, node, stage, _, _, _, _, _, _, _, -, hn, hs, -⟩
  rw [List.length_eq_zero_iff.1 (h node (Graph.mem_nodeList_iff.2 hn))] at hs
  cases hs

/-- Every pass of a plan is an iteration of a stage or has been built for an output. -/
theorem exists_drawing {last : State} {before : List RenderPass} {p : RenderPass}
    (h : Origin scene {} last before p) :
    IsStagePass scene p ∨ ∃ d : Drawing scene p, d.stop.passes = before ∧
      ∀ {q : String}, d.stop.Known q → last.Known q := by
  cases h with
  | stage h₀ _ hn hs hr hi =>
    exact Or.inl ⟨_, _, _, _, _, _, _, _, _, _, h₀, hn, hs, hr, hi, by simp⟩
  | output h₀ h hf hn hm hr hk =>
    have hinlines : scene.graph.Inlines _ := ⟨Graph.mem_nodeList_iff.2 hn, hm⟩
    obtain ⟨subgraph, answers, calls, ⟨u, -, ha⟩, hadds, hroot, hw, ht, hb⟩ :=
      exists_of_buildPass hinlines hr
    exact Or.inr ⟨⟨_, _, _, _, _, subgraph, answers, calls, h₀, hf, h, hinlines, hr, ⟨u, ha⟩, hadds,
      hroot, hw, ht, hb⟩, rfl, hk⟩

/-! ### Names -/

/-- No two inputs of a graph have one key. -/
def DistinctKeys (g : Graph) : Prop :=
  ∀ n ∈ g.nodeList, ∀ m ∈ g.nodeList, ∀ p ∈ n.inputs, ∀ q ∈ m.inputs,
    Shader.textureKey n.id p.id = Shader.textureKey m.id q.id → n.id = m.id ∧ p.id = q.id

/-- An edge into an input of a node is a boundary. -/
def IsBoundaryEdge (g : Graph) (n : Node) (e : Edge) : Prop :=
  e ∈ g.incoming n.id ∧ ∃ p source, n.findInput e.targetPort = some p ∧
    g.node? e.source = some source ∧ isBoundary source e.sourcePort p.type = true

/-- The edge into an input of a node exists and is a boundary. -/
def IsBoundaryInput (g : Graph) (n : Node) (port : String) : Prop :=
  ∃ e, IsBoundaryEdge g n e ∧ e.targetPort = some port

namespace Drawing

variable {p : RenderPass} (d : Drawing scene p)

/-- Of every input of a node that is inlined, a texture is kept exactly when a boundary feeds the input,
and the texture is bound to the pass that was planned for the boundary. -/
def Faithful : Prop :=
  ∀ n ∈ d.subgraph.order, ∀ port ∈ n.inputs,
    ((p.textures.get? (Shader.textureKey n.id port.id)).isSome = true ↔
      IsBoundaryInput scene.graph n port.id) ∧
    ∀ a ∈ d.answers, a.node = n → a.port.id = port.id →
      ∃ u, p.textures.get? (Shader.textureKey n.id port.id) = some u ∧
        p.bindings.get? u = some a.pass

/-- No two names coincide. -/
structure Unambiguous : Prop where
  /-- An input that no boundary feeds has a key of its own. -/
  inputs : ∀ a ∈ d.answers, ∀ n ∈ d.subgraph.order, ∀ port ∈ n.inputs,
    Shader.textureKey n.id port.id = a.key → IsBoundaryInput scene.graph n port.id
  /-- Inputs with one key read one pass. -/
  keys : ∀ a ∈ d.answers, ∀ b ∈ d.answers, a.key = b.key → a.pass = b.pass
  /-- Every pass that is read has an id, and its sampler was first made for it. -/
  samplers : ∀ a ∈ d.answers, a.pass ≠ "" ∧
    d.stop.owners.get? (Shader.samplerName a.pass) = some a.pass

/-- Where the plan answered, a boundary feeds an input of a node that is inlined. -/
theorem mem_of_answer {a : Answer} (ha : a ∈ d.answers) :
    a.node ∈ d.subgraph.order ∧ a.port ∈ a.node.inputs ∧
      IsBoundaryInput scene.graph a.node a.port.id := by
  obtain ⟨e, hcross, hmem⟩ := d.collected.crosses _ (List.mem_map.2 ⟨a, ha, rfl⟩)
  obtain ⟨hid, hport⟩ := Node.findInput_eq_some hcross.port_eq
  exact ⟨hmem.resolve_right (by simp), hport, e, ⟨hcross.mem, a.port, a.source, hcross.port_eq,
    hcross.source_eq, hcross.boundary⟩, hid⟩

/-- Where a boundary feeds an input of a node that is inlined, the plan answered. -/
theorem exists_answer {n : Node} (hn : n ∈ d.subgraph.order) {port : String}
    (h : IsBoundaryInput scene.graph n port) :
    ∃ a ∈ d.answers, a.node = n ∧ a.port.id = port := by
  obtain ⟨e, ⟨he, q, source, hq, hsource, hb⟩, hport⟩ := h
  obtain ⟨r, hr, hnode, hcross⟩ := d.collected.served n hn e he q source hq hsource hb
  obtain ⟨a, ha, rfl⟩ := List.mem_map.1 hr
  refine ⟨a, ha, hnode, ?_⟩
  have hid := (Node.findInput_eq_some hcross.port_eq).1
  exact Option.some.inj (hid.symm.trans hport)

theorem textures_eq_ofList : p.textures =
    .ofList (d.answers.map fun a => (a.key, a.sampler scene.config)) := by
  rw [d.textures_eq, d.collected.textures_eq, List.map_map]
  rfl

theorem exists_of_get?_textures {key u : String} (h : p.textures.get? key = some u) :
    ∃ a ∈ d.answers, a.key = key ∧ a.sampler scene.config = u := by
  rw [d.textures_eq_ofList] at h
  obtain ⟨a, ha, he⟩ := List.mem_map.1 (Keyed.mem_of_get?_ofList h)
  exact ⟨a, ha, congrArg Prod.fst he, congrArg Prod.snd he⟩

theorem isSome_get?_textures {a : Answer} (ha : a ∈ d.answers) :
    (p.textures.get? a.key).isSome = true := by
  rw [d.textures_eq_ofList]
  exact Keyed.isSome_get?_insertAll (List.mem_map.2 ⟨a, ha, rfl⟩)

/-- A texture is bound to the owner of its sampler. -/
theorem get?_bindings_iff {key u q : String} (h : p.textures.get? key = some u) :
    p.bindings.get? u = some q ↔ d.stop.owners.get? u = some q := by
  rw [d.bindings_eq]
  exact ⟨get?_of_get?_bindings, get?_bindings (Keyed.mem_values_of_get? h)⟩

/-- A pass reads what was planned for it exactly when no two names coincide. -/
theorem faithful_iff_unambiguous : d.Faithful ↔ d.Unambiguous := by
  constructor
  · intro h
    -- Every answer is found under its key and bound to its pass.
    have hfound {a : Answer} (ha : a ∈ d.answers) :
        ∃ u, p.textures.get? a.key = some u ∧ p.bindings.get? u = some a.pass := by
      obtain ⟨hn, hport, -⟩ := d.mem_of_answer ha
      exact (h a.node hn a.port hport).2 a ha rfl rfl
    have hpass {a b : Answer} (ha : a ∈ d.answers) (hb : b ∈ d.answers) (hk : a.key = b.key) :
        a.pass = b.pass := by
      obtain ⟨u, hu, hua⟩ := hfound ha
      obtain ⟨v, hv, hvb⟩ := hfound hb
      rw [hk, hv, Option.some.injEq] at hu
      subst hu
      exact Option.some.inj (hua.symm.trans hvb)
    refine ⟨?_, fun a ha b hb => hpass ha hb, ?_⟩
    · intro a ha n hn port hport hk
      refine (h n hn port hport).1.1 ?_
      rw [hk]
      exact d.isSome_get?_textures ha
    · intro a ha
      obtain ⟨u, hu, hbound⟩ := hfound ha
      have howner := (d.get?_bindings_iff hu).1 hbound
      have hne := ((d.stopped.sound sound_initial).owners howner).1
      obtain ⟨b, hb, hkey, hsampler⟩ := d.exists_of_get?_textures hu
      rw [Answer.sampler, hpass hb ha hkey, if_neg hne] at hsampler
      exact ⟨hne, hsampler ▸ howner⟩
  · intro h n hn port hport
    have hfound {a : Answer} (ha : a ∈ d.answers) :
        p.textures.get? a.key = some (Shader.samplerName a.pass) := by
      obtain ⟨u, hu⟩ := Option.isSome_iff_exists.1 (d.isSome_get?_textures ha)
      obtain ⟨b, hb, hkey, hsampler⟩ := d.exists_of_get?_textures hu
      rw [Answer.sampler, h.keys b hb a ha hkey, if_neg (h.samplers a ha).1] at hsampler
      rw [hu, hsampler]
    refine ⟨⟨fun hsome => ?_, fun hb => ?_⟩, ?_⟩
    · obtain ⟨u, hu⟩ := Option.isSome_iff_exists.1 hsome
      obtain ⟨a, ha, hkey, -⟩ := d.exists_of_get?_textures hu
      exact h.inputs a ha n hn port hport hkey.symm
    · obtain ⟨a, ha, rfl, hid⟩ := d.exists_answer hn hb
      rw [← hid]
      exact d.isSome_get?_textures ha
    · rintro a ha rfl hid
      have hget := hfound ha
      rw [Answer.key, hid] at hget
      exact ⟨_, hget, (d.get?_bindings_iff hget).2 (h.samplers a ha).2⟩

/-! ### Planned passes -/

/-- The sampler of a pass that is read has an owner. -/
theorem exists_owner {a : Answer} (ha : a ∈ d.answers) (hne : a.pass ≠ "") :
    ∃ q, d.stop.owners.get? (Shader.samplerName a.pass) = some q := by
  obtain ⟨t, hanswered, hnotes⟩ := d.answered
  rw [hnotes.owners_eq]
  exact ((hanswered.keeps d.ready).2 a ha).2 hne

/-- A pass that is read is known when its reader has been built. -/
theorem known_pass {a : Answer} (ha : a ∈ d.answers) : d.stop.Known a.pass := by
  obtain ⟨t, hanswered, hnotes⟩ := d.answered
  exact hnotes.known ((hanswered.keeps d.ready).2 a ha).1

/-- Every pass that is read has an id, unless a node has none. -/
theorem pass_ne (hid : scene.graph.node? "" = none) {a : Answer} (ha : a ∈ d.answers) :
    a.pass ≠ "" := by
  obtain ⟨t, hanswered, -⟩ := d.answered
  obtain ⟨hkeeps, hknown⟩ := hanswered.keeps d.ready
  intro he
  rcases (hknown a ha).1 with hids | ⟨hactive, -⟩
  · exact (d.reached.trans hkeeps.steps).empty_notMem_ids rfl hid (he ▸ hids)
  · exact empty_notMem_keys hid (he ▸ (hkeeps.ready d.ready).subset hactive)

/-- The texture of an input that a boundary feeds is bound, unless a node has an empty id. -/
theorem exists_bound (hid : scene.graph.node? "" = none) {n : Node} (hn : n ∈ d.subgraph.order)
    {port : String} (h : IsBoundaryInput scene.graph n port) :
    ∃ u q, u ≠ "" ∧ p.textures.get? (Shader.textureKey n.id port) = some u ∧
      p.bindings.get? u = some q := by
  obtain ⟨a, ha, rfl, rfl⟩ := d.exists_answer hn h
  obtain ⟨u, hu⟩ := Option.isSome_iff_exists.1 (d.isSome_get?_textures ha)
  obtain ⟨b, hb, -, hsampler⟩ := d.exists_of_get?_textures hu
  have hne := d.pass_ne hid hb
  rw [Answer.sampler, if_neg hne] at hsampler
  obtain ⟨q, hq⟩ := d.exists_owner hb hne
  refine ⟨u, q, ?_, hu, (d.get?_bindings_iff hu).2 (hsampler ▸ hq)⟩
  rw [← hsampler]
  simp [Shader.samplerName, String.append_eq_empty_iff]

/-- At most one answer is given for an input. -/
theorem eq_of_answers {a b : Answer} (ha : a ∈ d.answers) (hb : b ∈ d.answers)
    (hn : a.node.id = b.node.id) (hp : a.port.id = b.port.id) : a = b := by
  by_contra hne
  have happart : d.answers.Pairwise fun a b =>
      ¬ (a.node.id = b.node.id ∧ a.port.id = b.port.id) :=
    List.pairwise_map.1 d.collected.apart
  have : Std.Symm fun a b : Answer => ¬ (a.node.id = b.node.id ∧ a.port.id = b.port.id) :=
    ⟨fun _ _ h h' => h ⟨h'.1.symm, h'.2.symm⟩⟩
  exact happart.forall ha hb hne ⟨hn, hp⟩

/-- If keys are distinct and no two passes that are known have one sampler, no two names coincide. -/
theorem unambiguous_of_distinct (hid : scene.graph.node? "" = none)
    (hk : DistinctKeys scene.graph)
    (hs : ∀ q q', d.stop.Known q → d.stop.Known q' → Shader.samplerName q = Shader.samplerName q' →
      q = q') : d.Unambiguous where
  inputs := by
    intro a ha n hn port hport hkey
    obtain ⟨hmem, hinput, hb⟩ := d.mem_of_answer ha
    have hlist {m : Node} (hm : m ∈ d.subgraph.order) : m ∈ scene.graph.nodeList :=
      (d.collected.inlined m hm).1
    obtain ⟨hnode, hpid⟩ := hk n (hlist hn) a.node (hlist hmem) port hport a.port hinput hkey
    have hnm : some n = some a.node := by
      rw [← Graph.mem_nodeList_iff.1 (hlist hn), hnode, Graph.mem_nodeList_iff.1 (hlist hmem)]
    rw [Option.some.inj hnm, hpid]
    exact hb
  keys := by
    intro a ha b hb hkey
    obtain ⟨hma, hia, -⟩ := d.mem_of_answer ha
    obtain ⟨hmb, hib, -⟩ := d.mem_of_answer hb
    obtain ⟨hnode, hport⟩ := hk a.node (d.collected.inlined _ hma).1 b.node
      (d.collected.inlined _ hmb).1 a.port hia b.port hib hkey
    rw [d.eq_of_answers ha hb hnode hport]
  samplers := by
    intro a ha
    have hne := d.pass_ne hid ha
    obtain ⟨q, hq⟩ := d.exists_owner ha hne
    have hsound := d.stopped.sound sound_initial
    obtain rfl : q = a.pass :=
      hs q a.pass (hsound.owners hq).2 (d.known_pass ha) (hsound.names hq).symm
    exact ⟨hne, hq⟩

end Drawing

end RenderGraph.Plan
