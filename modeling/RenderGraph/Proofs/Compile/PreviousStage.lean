import RenderGraph.Proofs.Compile.FinalPass
import RenderGraph.Proofs.Plan.Succession

/-!
# Stages read the stage before them

The first pass of a stage reads, as the previous pass, the last pass of the stage before it. This fails in
two ways. A stage that is asked for by name, before its turn comes, has no pass before it, and reads an
input of its node or the empty texture. And a stage that is planned again while the stage before it is
still being planned reads the first pass of that stage, which differs from the last one if it is
repeated; then a cycle is reported.

## Main results

* `Compile.previous_stage_cases`
* `Compile.named_stage_unpreceded`: a stage that is asked for by name before its turn
-/

namespace RenderGraph.Compile

open Plan (NamesApart Item stageKey ReadsPrevious)

variable {scene : Scene} {target : Target} {r : Result} {log : List Journal.Record} {node : Node}
  {a b : Stage} {before after : List Stage}

/-- The last pass of a stage has an id. -/
theorem lastId_ne {l : Plan.Loop} (hl : (Item.stage node a).loop = .ok l) : l.lastId ≠ "" := by
  refine Plan.iterationId_ne ?_ _
  rw [(Item.loop_eq_ok hl).1]
  exact Plan.stageKey_ne node a

section Names

variable (hnames : NamesApart scene.graph) (hb : (Item.stage node b).In scene.graph)
  (hstages : node.stages = before ++ a :: b :: after)

include hnames hb hstages

/-- Names apart, every stage of a target that is planned as a whole has a first pass, which was built
after the last pass of the stage before it unless the stage is needed for those before it. -/
theorem Shows.exists_first_pass {q : String} {s : Plan.State} (hs : Shows scene target r node q s)
    (hport : target.port.getD "" = "") :
    ∃ p ∈ s.passes, p.id = stageKey node b ∧
      (¬ Plan.NeededFor scene.graph ((before ++ [a]).map (.stage node)) (stageKey node b) →
        ∃ l, (Item.stage node a).loop = .ok l ∧ Plan.DrawnAfter scene node b l.lastId p) := by
  have hin : ∀ i ∈ node.stages.map (Item.stage node), i.In scene.graph := fun _ => hb.of_mem_stages
  have hitems : (target.request node).items scene.graph = node.stages.map (.stage node) := by
    rw [target.items_request hs.node_eq, if_pos hb.2.1, Plan.requestedStages_of_getD hport]
  cases Plan.responds_planWithin hs.plan_eq with
  | missing hnone =>
    rw [hitems, hstages] at hnone
    simp at hnone
  | answered hrounds =>
    rw [hitems] at hrounds
    by_cases hneeded : Plan.NeededFor scene.graph ((before ++ [a]).map (.stage node)) (stageKey node b)
    · have hhas : s.Has (stageKey node b) :=
        (hrounds.has_iff hnames hin hb).2 ⟨.stage node b, List.mem_map_of_mem hb.2.2, .refl⟩
      have hI := Plan.invariant_mem_ids scene
      have hid : stageKey node b ∈ s.ids :=
        (hI.rounds hI.planWithin hin hrounds fun _ hstart => by cases hstart).1 _ hhas
      obtain ⟨p, hp, hid⟩ := List.mem_map.1 hid
      exact ⟨p, hp, hid, fun hnot => absurd hneeded hnot⟩
    · obtain ⟨p, hp, hid, hdrawn⟩ := hrounds.exists_drawnAfter hnames hb hstages hneeded
      exact ⟨p, hp, hid, fun _ => hdrawn⟩

/-- Names apart, the first pass of a stage was built after what the stage is given. -/
theorem Shows.exists_given {node' : Node} {q : String} {s : Plan.State}
    (hs : Shows scene target r node' q s) {p : RenderPass} (hp : p ∈ s.passes)
    (hid : p.id = stageKey node b) :
    ∃ previous, Plan.IsGiven node a
      (Plan.IsNamed node b ∨ target.node = some node.id ∧ target.port = some b.id) s.warnings previous ∧
        Plan.DrawnAfter scene node b previous p := by
  have hrequest : (target.request node').node = node.id →
      (target.request node').stage = some b.id →
        Plan.IsNamed node b ∨ target.node = some node.id ∧ target.port = some b.id := by
    unfold Target.request
    split
    · exact fun hnode hstage => Or.inr ⟨hnode ▸ hs.target_eq, hstage⟩
    · exact fun _ hstage => by cases hstage
  exact (Plan.successive_planWithin hnames hb hstages Or.inl hs.plan_eq hrequest
    (Plan.successive_initial ..)).drawn p hp hid

end Names

/-- Names apart, every stage of a target that is planned as a whole has a first pass, which reads the last
pass of the stage before it unless the stage is needed for those before it. In any case, the first pass
of a stage reads the last pass of the stage before it; or it reads the first one, and a cycle is reported
there; or the stage was asked for by name, and its first pass was built with no pass before it. -/
theorem previous_stage_cases (h : compile scene target = (.ok r, log)) (hf : r.failure = none)
    (hnames : NamesApart scene.graph) (hn : node ∈ scene.graph.nodeList)
    (hm : node.isMultiStage = true)
    (hstages : node.stages = before ++ a :: b :: after) :
    (target.node = some node.id → target.port.getD "" = "" →
      ∃ p ∈ r.passes, p.id = stageKey node b ∧
        (¬ Plan.NeededFor scene.graph ((before ++ [a]).map (.stage node)) (stageKey node b) →
          ∃ l, (Item.stage node a).loop = .ok l ∧
            ReadsPrevious p (Shader.samplerName l.lastId))) ∧
    ∀ p ∈ r.passes, p.id = stageKey node b →
      (∃ l, (Item.stage node a).loop = .ok l ∧ ReadsPrevious p (Shader.samplerName l.lastId)) ∨
      (Plan.cycleWarning (stageKey node a) ∈ r.warnings ∧
        ReadsPrevious p (Shader.samplerName (stageKey node a))) ∨
      ((Plan.IsNamed node b ∨ target.node = some node.id ∧ target.port = some b.id) ∧
        Plan.DrawnAfter scene node b "" p ∧
        (Plan.IsUnfed scene.graph node → .previous ∈ Source.stageReferences b.text →
          scene.config.emptyTexture ≠ "" → ReadsPrevious p scene.config.emptyTexture)) := by
  obtain ⟨node', q, s, hs⟩ := exists_shows h hf
  have hb : (Item.stage node b).In scene.graph := ⟨hn, hm, by simp [hstages]⟩
  rw [hs.passes_eq, hs.warnings_eq]
  refine ⟨fun htarget hport => ?_, fun p hp hid => ?_⟩
  · obtain rfl : node' = node := hs.eq_node htarget (Graph.mem_nodeList_iff.1 hn)
    obtain ⟨p, hp, hid, hdrawn⟩ := hs.exists_first_pass hnames hb hstages hport
    refine ⟨p, hp, hid, fun hneeded => ?_⟩
    obtain ⟨l, hl, hdrawn⟩ := hdrawn hneeded
    exact ⟨l, hl, hdrawn.readsPrevious (lastId_ne hl)⟩
  · obtain ⟨previous, hgiven, hdrawn⟩ := hs.exists_given hnames hb hstages hp hid
    cases hgiven with
    | last hl => exact Or.inl ⟨_, hl, hdrawn.readsPrevious (lastId_ne hl)⟩
    | active hw => exact Or.inr (Or.inl ⟨hw, hdrawn.readsPrevious (Plan.stageKey_ne node a)⟩)
    | alone hnamed => exact Or.inr (Or.inr ⟨hnamed, hdrawn, hdrawn.readsPrevious_empty⟩)

theorem previous_stage_cases_twoStages : ∃ r log p l,
    compile (twoStages seed (reading "u_prevPass")) { node := some "n" } = (.ok r, log) ∧
      r.failure = none ∧ p ∈ r.passes ∧ p.id = "n_pass_b" ∧
      (Item.stage (twoStageNode seed (reading "u_prevPass"))
        { id := "a", source := some seed }).loop = .ok l ∧
      ReadsPrevious p (Shader.samplerName l.lastId) := by
  obtain ⟨r, log, hr, hf, -⟩ := exists_of_succeedsWith
    (show succeedsWith (twoStages seed (reading "u_prevPass")) { node := some "n" }
      (fun _ => true) = true by decide +kernel)
  have hnames : NamesApart (twoStages seed (reading "u_prevPass")).graph := by decide +kernel
  have hstages : (twoStageNode seed (reading "u_prevPass")).stages = [] ++
      { id := "a", source := some seed } :: { id := "b", source := some (reading "u_prevPass") } :: [] :=
    rfl
  obtain ⟨hwhole, -⟩ := previous_stage_cases hr hf hnames List.mem_cons_self rfl hstages
  obtain ⟨p, hp, hid, hreads⟩ := hwhole rfl rfl
  obtain ⟨l, hl, hreads⟩ := hreads (not_neededFor_twoStages hnames)
  exact ⟨r, log, p, l, hr, hf, hp, hid, hl, hreads⟩

/-- The first stage asks for the second one, which then has no pass before it. -/
theorem named_stage_unpreceded : ∃ r log p l,
    compile (twoStages (reading "u_pass_b") (reading "u_prevPass")) { node := some "n" } =
        (.ok r, log) ∧
      r.failure = none ∧ p ∈ r.passes ∧ p.id = "n_pass_b" ∧
      p.textures.get? Plan.previousPass = some "u_empty_tex" ∧
      (Item.stage (twoStageNode (reading "u_pass_b") (reading "u_prevPass"))
        { id := "a", source := some (reading "u_pass_b") }).loop = .ok l ∧
      ¬ ReadsPrevious p (Shader.samplerName l.lastId) := by
  obtain ⟨r, log, hr, hf, htest⟩ := exists_of_succeedsWith
    (show succeedsWith (twoStages (reading "u_pass_b") (reading "u_prevPass")) { node := some "n" }
      (·.passes.any fun p => p.id == "n_pass_b" &&
        p.textures.get? Plan.previousPass == some "u_empty_tex") = true by decide +kernel)
  obtain ⟨p, hp, htest⟩ := List.any_eq_true.1 htest
  simp only [Bool.and_eq_true, beq_iff_eq] at htest
  have hloop : (Item.stage (twoStageNode (reading "u_pass_b") (reading "u_prevPass"))
      { id := "a", source := some (reading "u_pass_b") }).loop =
        .ok { base := "n_pass_a", count := 1 } := by
    decide +kernel
  refine ⟨r, log, p, _, hr, hf, hp, htest.1, htest.2, hloop, fun hreads => ?_⟩
  have hname : some "u_empty_tex" = some (Shader.samplerName "n_pass_a") :=
    htest.2.symm.trans hreads.texture_eq
  exact absurd hname (by decide +kernel)

end RenderGraph.Compile
