import RenderGraph.Proofs.Compile.Run

/-!
# Passes stand in the order of their dependencies

Every sampler of a compiled pass is bound to a pass of the same result. That pass stands before the one
that reads it, unless the read closes a cycle, which is then among the warnings.

## Main results

* `Compile.binding_planned_before`
-/

namespace RenderGraph.Compile

variable {scene : Scene} {target : Target} {r : Result} {log : List Journal.Record}

/-- A list around one of its places. -/
private theorem exists_eq_append_of_getElem? {α : Type} {l : List α} {j : Nat} {a : α}
    (h : l[j]? = some a) : ∃ before after, l = before ++ a :: after ∧ before.length = j := by
  obtain ⟨hj, ha⟩ := List.getElem?_eq_some_iff.1 h
  refine ⟨l.take j, l.drop (j + 1), ?_, List.length_take_of_le (Nat.le_of_lt hj)⟩
  rw [← ha, ← List.drop_eq_getElem_cons hj, List.take_append_drop]

/-- No binding dangles, and a binding to a pass that does not stand before its reader is a cycle that was
reported. -/
theorem binding_planned_before (h : compile scene target = (.ok r, log)) (hf : r.failure = none)
    {j : Nat} {p : RenderPass} (hp : r.passes[j]? = some p) {u q : String}
    (hb : (u, q) ∈ p.bindings.entries) :
    (∃ p' ∈ r.passes, p'.id = q) ∧
      ((∀ i < j, ∀ p', r.passes[i]? = some p' → p'.id ≠ q) →
        "Pass Cycle detected at pass " ++ q ++ ". Breaking loop." ∈ r.warnings) := by
  obtain ⟨s, hs, hpasses, hwarnings⟩ := exists_steps_of_compile h hf
  have hsound := hs.steps.sound Plan.sound_initial
  obtain ⟨before, after, hsplit, hlen⟩ := exists_eq_append_of_getElem? hp
  obtain ⟨hknown, hbefore⟩ := hsound.bindings (hpasses.trans hsplit) (Keyed.mem_entries_iff.1 hb)
  refine ⟨hpasses ▸ exists_pass_of_known hs hknown, fun hnone => ?_⟩
  · refine hwarnings ▸ hbefore.resolve_left ?_
    intro hmem
    obtain ⟨p', hp', hid⟩ := List.mem_map.1 hmem
    obtain ⟨i, hi, hget⟩ := List.getElem_of_mem hp'
    refine hnone i (by omega) p' ?_ hid
    rw [hsplit, List.getElem?_append_left hi, List.getElem?_eq_getElem hi, hget]

/-- Two nodes, each of which reads the other as a texture. -/
def ring : Scene where
  graph := .ofLists
    [{ id := "a", inputs := [.ofId "i" .sampler2D], outputs := [.ofId "o" .vec4] },
      { id := "b", inputs := [.ofId "i" .sampler2D], outputs := [.ofId "o" .vec4] }]
    [{ source := "b", target := "a", sourcePort := some "o", targetPort := some "i" },
      { source := "a", target := "b", sourcePort := some "o", targetPort := some "i" }]
  config := {}

/-- The pass that closes the ring stands first and reads the last one. -/
theorem binding_planned_before_ring : ∃ r log p,
    compile ring { node := some "a" } = (.ok r, log) ∧ r.failure = none ∧
      r.passes[0]? = some p ∧ ("u_pass_a_tex", "a") ∈ p.bindings.entries ∧
      (∃ p' ∈ r.passes, p'.id = "a") ∧
      ((∀ i < 0, ∀ p', r.passes[i]? = some p' → p'.id ≠ "a") →
        "Pass Cycle detected at pass a. Breaking loop." ∈ r.warnings) := by
  have hrun : succeedsWith ring { node := some "a" } (fun r =>
      r.passes[0]?.any fun p => decide (("u_pass_a_tex", "a") ∈ p.bindings.entries)) = true := by
    decide +kernel
  obtain ⟨r, log, hr, hf, htest⟩ := exists_of_succeedsWith hrun
  obtain ⟨p, hp, hread⟩ := Option.any_eq_true _ _ |>.1 htest
  have hb := of_decide_eq_true hread
  exact ⟨r, log, p, hr, hf, hp, hb, binding_planned_before hr hf hp hb⟩

end RenderGraph.Compile
