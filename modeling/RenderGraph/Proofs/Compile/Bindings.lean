import RenderGraph.Proofs.Compile.Run
import RenderGraph.Proofs.Plan.Drawing

/-!
# Compiled passes read what was planned for them

A pass of an output finds the textures of its inputs by the keys of the inputs, and the passes behind
them by the names of samplers. If no two keys and no two names are the same, every input that a boundary
feeds reads the pass that was planned for it; otherwise it may read another.

## Main definitions

* `Compile.DistinctSamplers`

## Main results

* `Compile.reads_planned_iff`
-/

namespace RenderGraph.Compile

/-- No two passes have one sampler. -/
def DistinctSamplers (passes : List RenderPass) : Prop :=
  ∀ p ∈ passes, ∀ q ∈ passes, Shader.samplerName p.id = Shader.samplerName q.id → p.id = q.id

instance (passes : List RenderPass) : Decidable (DistinctSamplers passes) :=
  inferInstanceAs (Decidable (∀ p ∈ passes, ∀ q ∈ passes, _ → _))

variable {scene : Scene} {target : Target} {r : Result} {log : List Journal.Record}

/-- A pass that is no iteration of a stage was built for an output. It reads what was planned for it if
names are distinct, and exactly if none of those that it uses coincide. -/
theorem reads_planned_iff (h : compile scene target = (.ok r, log)) (hf : r.failure = none)
    {before after : List RenderPass} {p : RenderPass} (hp : r.passes = before ++ p :: after) :
    (Plan.IsStagePass scene p ∨ ∃ d : Plan.Drawing scene p, d.stop.passes = before ∧
      (scene.graph.node? "" = none → Plan.DistinctKeys scene.graph →
        DistinctSamplers r.passes → d.Faithful)) ∧
      ∀ d : Plan.Drawing scene p, d.Faithful ↔ d.Unambiguous := by
  obtain ⟨s, hs, hpasses, -⟩ := exists_steps_of_compile h hf
  refine ⟨?_, fun d => d.faithful_iff_unambiguous⟩
  have horigin := hs.steps.origin rfl (hpasses.trans hp)
  refine (Plan.exists_drawing horigin).imp_right ?_
  rintro ⟨d, hbefore, hknown⟩
  refine ⟨d, hbefore, fun hid hk hd => ?_⟩
  refine d.faithful_iff_unambiguous.2 (d.unambiguous_of_distinct hid hk ?_)
  intro q q' hq hq' hname
  obtain ⟨p₁, hp₁, rfl⟩ := exists_pass_of_known hs (hknown hq)
  obtain ⟨p₂, hp₂, rfl⟩ := exists_pass_of_known hs (hknown hq')
  rw [hpasses] at hp₁ hp₂
  exact hd p₁ hp₁ p₂ hp₂ hname

/-- A node that reads two others as textures. -/
def reader (first second : String) : Scene where
  graph := .ofLists
    [{ id := first, outputs := [.ofId "o" .vec4] },
      { id := second, outputs := [.ofId "o" .vec4] },
      { id := "v", inputs := [.ofId "x" .sampler2D, .ofId "y" .sampler2D],
        outputs := [.ofId "o" .vec4] }]
    [{ source := first, target := "v", sourcePort := some "o", targetPort := some "x" },
      { source := second, target := "v", sourcePort := some "o", targetPort := some "y" }]
  config := {}

theorem reads_planned_iff_reader : ∃ r log before p,
    compile (reader "a" "b") { node := some "v" } = (.ok r, log) ∧ r.failure = none ∧
      r.passes = before ++ [p] ∧ p.id = "v" ∧
      (∃ d : Plan.Drawing (reader "a" "b") p, d.stop.passes = before ∧ d.Faithful) ∧
      ∀ d : Plan.Drawing (reader "a" "b") p, d.Faithful ↔ d.Unambiguous := by
  have hrun : succeedsWith (reader "a" "b") { node := some "v" } (fun r =>
      r.passes.getLast?.any (·.id == "v") && decide (DistinctSamplers r.passes)) = true := by
    decide +kernel
  obtain ⟨r, log, hr, hf, htest⟩ := exists_of_succeedsWith hrun
  obtain ⟨hlast, hd⟩ := Bool.and_eq_true_iff.1 htest
  obtain ⟨p, hp, hid⟩ := Option.any_eq_true _ _ |>.1 hlast
  obtain ⟨before, hpasses⟩ := List.getLast?_eq_some_iff.1 hp
  obtain ⟨hdrawn, hiff⟩ := reads_planned_iff hr hf hpasses
  refine ⟨r, log, before, p, hr, hf, hpasses, by simpa using hid, ?_, hiff⟩
  obtain ⟨d, hb, hfaithful⟩ := hdrawn.resolve_left (Plan.not_isStagePass (by decide +kernel))
  have hkeys : Plan.DistinctKeys (reader "a" "b").graph := by
    unfold Plan.DistinctKeys
    decide +kernel
  exact ⟨d, hb, hfaithful rfl hkeys (of_decide_eq_true hd)⟩

/-- Of two passes whose samplers have one name, the second is read by nobody: both inputs of the reader
show the first. -/
theorem reader_aliased : ∃ r log p,
    compile (reader "a-b" "a_b") { node := some "v" } = (.ok r, log) ∧ r.failure = none ∧
      r.passes.map (·.id) = ["a-b", "a_b", "v"] ∧ r.passes[2]? = some p ∧
      p.textures.get? (Shader.textureKey "v" "x") = some "u_pass_a_b_tex" ∧
      p.textures.get? (Shader.textureKey "v" "y") = some "u_pass_a_b_tex" ∧
      p.bindings.entries = [("u_pass_a_b_tex", "a-b")] := by
  have hrun : succeedsWith (reader "a-b" "a_b") { node := some "v" } (fun r =>
      decide (r.passes.map (·.id) = ["a-b", "a_b", "v"]) &&
        r.passes[2]?.any fun p => decide
          (p.textures.get? (Shader.textureKey "v" "x") = some "u_pass_a_b_tex" ∧
            p.textures.get? (Shader.textureKey "v" "y") = some "u_pass_a_b_tex" ∧
            p.bindings.entries = [("u_pass_a_b_tex", "a-b")])) = true := by
    decide +kernel
  obtain ⟨r, log, hr, hf, htest⟩ := exists_of_succeedsWith hrun
  obtain ⟨hids, hany⟩ := Bool.and_eq_true_iff.1 htest
  obtain ⟨p, hp, hread⟩ := Option.any_eq_true _ _ |>.1 hany
  exact ⟨r, log, p, hr, hf, of_decide_eq_true hids, hp, of_decide_eq_true hread⟩

end RenderGraph.Compile
