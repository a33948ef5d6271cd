import RenderGraph.Proofs.Compile.FinalPass
import RenderGraph.Proofs.Plan.Sources

/-!
# Who reads a repeated stage

Whoever asks for a stage that is repeated is answered with its last iteration, which holds the result.
There are two ways in which another pass comes to read an earlier one. While the stage is being planned,
it is answered with the first iteration; then a cycle is reported. And samplers are named after ids in
such a way that two ids may share a name; then the first of them owns the sampler.

## Main results

* `Compile.binding_last_or_broken`
* `Compile.binding_first_iteration`: a broken cycle through which the first iteration is read
-/

namespace RenderGraph.Compile

open Plan (NamesApart Item stageKey)

variable {scene : Scene} {target : Target} {r : Result} {log : List Journal.Record} {node : Node}
  {a : Stage} {l : Plan.Loop} {p : RenderPass} {u : String} {k : Nat}

/-- Names apart, a pass that is no iteration of a stage is bound to no iteration of it but the last one,
unless it is the first one and a cycle through the stage was broken, or the sampler is shared. -/
theorem binding_last_or_broken (h : compile scene target = (.ok r, log)) (hf : r.failure = none)
    (hnames : NamesApart scene.graph) (ha : (Item.stage node a).In scene.graph)
    (hl : (Item.stage node a).loop = .ok l) (hp : p ∈ r.passes)
    (hother : ∀ j < l.count.toNat, p.id ≠ l.iterationId j) (hk : k < l.count.toNat)
    (hb : p.bindings.get? u = some (l.iterationId k)) :
    l.iterationId k = l.lastId ∨
      (k = 0 ∧ Plan.cycleWarning (stageKey node a) ∈ r.warnings) ∨
      ¬ Plan.OwnsSampler scene (l.iterationId k) := by
  obtain ⟨node', q, s, hs⟩ := exists_shows h hf
  have hlinked := (Plan.linked_planWithin hnames hs.plan_eq (Plan.linked_initial scene)).1.linked
  have hne : l.base ≠ "" := (Item.loop_eq_ok hl).1 ▸ Plan.stageKey_ne node a
  rw [hs.passes_eq] at hp
  rw [hs.warnings_eq]
  rcases (hlinked.bindings p hp u _ hb).cases_of_iteration hnames ha hl hne hk with ⟨hlt, hid⟩ | h
  · exact absurd hid (hother _ hlt)
  · exact h

/-! ### A stage that is drawn twice -/

/-- A node with a stage that is drawn twice. -/
def loopNode : Node where
  id := "n"
  kind := .multiStage
  inputs := [.ofId "x" .sampler2D]
  stages := [{ id := "s", source := some seed, loop := 2 }]

/-- A node that draws a texture. -/
def viewNode : Node where
  id := "m"
  inputs := [.ofId "x" .sampler2D]
  outputs := [.ofId "o" .vec4]
  source := "void run(vec2 uv, sampler2D x, out vec4 o) \x7b o = texture(x, uv); \x7d"

/-- The texture shows the stage, which in turn reads what was drawn of it. -/
def mirror : Scene where
  graph := .ofLists [loopNode, viewNode]
    [{ source := "n", target := "m", targetPort := some "x" },
      { source := "m", target := "n", sourcePort := some "o", targetPort := some "x" }]
  config := {}

/-- A pass of the texture that reads the first iteration of the stage. -/
def IsView (p : RenderPass) : Prop :=
  p.id = "m" ∧ p.bindings.get? "u_pass_n_pass_s_tex" = some "n_pass_s"

/-- The texture is drawn while the first iteration of the stage is built. -/
private theorem exists_buildStage_mirror : ∃ template l t,
    (Plan.buildStage mirror (Plan.planWithin mirror 4) loopNode
      { id := "s", source := some seed, loop := 2 } "n_pass_s" "").run { active := ["n_pass_s"] } =
        (.ok (template, l), t) ∧ l.base = "n_pass_s" ∧ ∃ p ∈ t.passes, IsView p := by
  have htest : (match (Plan.buildStage mirror (Plan.planWithin mirror 4) loopNode
      { id := "s", source := some seed, loop := 2 } "n_pass_s" "").run { active := ["n_pass_s"] } with
    | (.ok r, t) => r.2.base == "n_pass_s" && t.passes.any fun p =>
        p.id == "m" && p.bindings.get? "u_pass_n_pass_s_tex" == some "n_pass_s"
    | (.error _, _) => false) = true := by
    decide +kernel
  split at htest
  · next r t hrun =>
    rw [Bool.and_eq_true, List.any_eq_true] at htest
    obtain ⟨hbase, p, hp, hview⟩ := htest
    simp only [Bool.and_eq_true, beq_iff_eq] at hbase hview
    exact ⟨r.1, r.2, t, hrun, hbase, p, hp, hview⟩
  · cases htest

/-- The stage can be repeated whatever its program is. -/
private theorem ends_planTarget_mirror :
    Ends (planTarget mirror "n" none) (fun _ t => ∃ p ∈ t.passes, IsView p) (fun _ _ => False) {} := by
  obtain ⟨template, l, t, hrun, hbase, p, hp, hview⟩ := exists_buildStage_mirror
  have hbuild : Ends (Plan.buildStage mirror (Plan.planWithin mirror 4) loopNode
      { id := "s", source := some seed, loop := 2 } "n_pass_s" "")
      (fun r u => r = (template, l) ∧ u = t) (fun _ _ => False) { active := ["n_pass_s"] } :=
    Ends.of_run_eq_ok hrun ⟨rfl, rfl⟩
  have hn : mirror.graph.requireNode "n" = .ok loopNode := rfl
  have hm : loopNode.isMultiStage = true := rfl
  have hcount : Plan.totalKeyCount mirror.graph = 4 := by decide +kernel
  unfold planTarget Plan.plan
  rw [ends_bind, hn, ends_lift, yields_ok, if_pos hm, hcount, Plan.planWithin, ends_bind, hn,
    ends_lift, yields_ok, if_pos hm]
  unfold Plan.planStages
  show Ends (List.foldlM _ "" [_] : Plan.PlanM String) _ _ ({} : Plan.State)
  rw [List.foldlM_cons, ends_bind, ends_bind, ends_get]
  show Ends (Plan.whileActive "n_pass_s" (Plan.planStage mirror (Plan.planWithin mirror 4) loopNode
    { id := "s", source := some seed, loop := 2 } "n_pass_s" "")) _ _ {}
  rw [Plan.ends_whileActive]
  unfold Plan.planStage
  rw [ends_bind]
  refine hbuild.mono ?_ fun _ _ => id
  rintro _ v ⟨rfl, hv⟩
  rw [ends_bind, hv]
  have hne : l.base ≠ "" := by
    rw [hbase]
    decide
  refine (Plan.ends_iterations mirror template hne).mono (fun passes u hu => ?_) fun _ _ => id
  rw [ends_bind, Plan.ends_addPasses, ends_pure]
  have hpasses : u.passes = t.passes := by rw [hu.2.eq]
  exact ⟨p, List.mem_append_left _ (hpasses ▸ hp), hview⟩

private theorem exists_compile_mirror : ∃ r log p,
    compile mirror { node := some "n" } = (.ok r, log) ∧ r.failure = none ∧ p ∈ r.passes ∧
      IsView p := by
  rcases hrun : (planTarget mirror "n" none).run {} with ⟨f | q, t⟩
  · exact (ends_planTarget_mirror.of_run_error hrun).elim
  · obtain ⟨p, hp, hview⟩ := ends_planTarget_mirror.of_run_ok hrun
    have htarget : ({ node := some "n" } : Target).node = some "n" := rfl
    have hcompile : compile mirror { node := some "n" } = resultOf (.ok q) t :=
      compile_eq_of_run htarget (by decide) hrun
    rw [hcompile]
    exact ⟨_, _, p, rfl, rfl, hp, hview⟩

private theorem loop_mirror : (Item.stage loopNode { id := "s", source := some seed, loop := 2 }).loop =
    .ok { base := "n_pass_s", count := 2 } :=
  loop_seed rfl

/-- Since the texture is bound to the first iteration and shares its sampler with nothing else, a cycle
was broken. -/
theorem binding_last_or_broken_mirror : ∃ r log p,
    compile mirror { node := some "n" } = (.ok r, log) ∧ r.failure = none ∧ p ∈ r.passes ∧
      p.id = "m" ∧ p.bindings.get? "u_pass_n_pass_s_tex" = some "n_pass_s" ∧
      Plan.cycleWarning "n_pass_s" ∈ r.warnings := by
  obtain ⟨r, log, p, hr, hf, hp, hid, hb⟩ := exists_compile_mirror
  have hnames : NamesApart mirror.graph := by decide +kernel
  have hs : (Item.stage loopNode { id := "s", source := some seed, loop := 2 }).In mirror.graph :=
    ⟨List.mem_cons_self, rfl, List.mem_cons_self⟩
  have hother : ∀ j < 2, p.id ≠ Plan.Loop.iterationId { base := "n_pass_s", count := 2 } (j : Nat) := by
    rw [hid]
    decide +kernel
  have howns : Plan.OwnsSampler mirror "n_pass_s" := by decide +kernel
  have hcases := binding_last_or_broken hr hf hnames hs loop_mirror hp hother
    (show 0 < 2 by decide) hb
  refine ⟨r, log, p, hr, hf, hp, hid, hb, ?_⟩
  rcases hcases with hlast | ⟨-, hw⟩ | hshared
  · exact absurd hlast (by decide +kernel)
  · exact hw
  · exact absurd howns hshared

/-- The texture is bound to the first iteration of the stage, not to the last one. -/
theorem binding_first_iteration : ∃ r log p l,
    compile mirror { node := some "n" } = (.ok r, log) ∧ r.failure = none ∧ p ∈ r.passes ∧
      p.id = "m" ∧ (Item.stage loopNode { id := "s", source := some seed, loop := 2 }).loop = .ok l ∧
      1 < l.count ∧ p.bindings.get? "u_pass_n_pass_s_tex" = some (l.iterationId 0) ∧
      l.iterationId 0 ≠ l.lastId := by
  obtain ⟨r, log, p, hr, hf, hp, hid, hb⟩ := exists_compile_mirror
  exact ⟨r, log, p, _, hr, hf, hp, hid, loop_mirror, by decide, hb, by decide +kernel⟩

end RenderGraph.Compile
