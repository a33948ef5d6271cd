import RenderGraph.Proofs.Compile.Totality
import RenderGraph.Proofs.Plan.PassIds

/-!
# Ids tell passes apart

A pass is found by its id, and samplers are bound to ids. Two compiled passes have one id only if one of
them repeats a stage and the other does not: the keys of outputs and stages are planned once each, but
the ids of repetitions are never compared with them. If no repetition has the key of an output or of a
stage as its id, every id and every binding identifies one pass.

## Main results

* `Compile.ids_nodup_iff`
* `Compile.repeat_aliased`: a repetition that has the id of another stage
-/

namespace RenderGraph.Compile

variable {scene : Scene} {target : Target} {r : Result} {log : List Journal.Record}

/-- The ids of passes are distinct if and only if no pass that repeats a stage has the id of one that
does not, which is so if no repetition has a key as its id. Then a pass is what is found under its id,
and a sampler is bound to one pass. -/
theorem ids_nodup_iff (h : compile scene target = (.ok r, log)) (hf : r.failure = none) :
    ((r.passes.map (·.id)).Nodup ↔ ∀ p ∈ r.passes, ∀ p' ∈ r.passes, p.isRepeat = true →
      p'.isRepeat = false → p.id ≠ p'.id) ∧
    (Plan.RepeatsApart scene.graph → (r.passes.map (·.id)).Nodup) ∧
    ((r.passes.map (·.id)).Nodup → ∀ p ∈ r.passes, r.pass? p.id = some p ∧
      ∀ u q, p.bindings.get? u = some q → ∃! p', p' ∈ r.passes ∧ p'.id = q) := by
  obtain ⟨node, q, s, hs⟩ := exists_shows h hf
  have hapart : Plan.IdsApart scene.graph s :=
    ((Plan.invariant_idsApart scene).planWithin hs.plan_eq (Plan.idsApart_initial _)).1
  have hids : s.ids = r.passes.map (·.id) := by rw [Plan.State.ids, hs.passes_eq]
  have hiff := Plan.nodup_ids_iff hapart.firsts hapart.laters
  rw [hids, ← hs.passes_eq] at hiff
  refine ⟨hiff, fun hr => hids ▸ hapart.nodup_ids hr, fun hnodup p hp => ⟨?_, fun u q hb => ?_⟩⟩
  · have hsome : (r.pass? p.id).isSome = true :=
      List.find?_isSome.2 ⟨p, hp, by simp⟩
    obtain ⟨p', hfound⟩ := Option.isSome_iff_exists.1 hsome
    have hid : p'.id = p.id := by simpa using List.find?_some hfound
    rw [hfound, List.inj_on_of_nodup_map hnodup (List.mem_of_find?_eq_some hfound) hp hid]
  · obtain ⟨t, ht, hpasses, -⟩ := exists_steps_of_compile h hf
    obtain ⟨before, after, hsplit⟩ := List.append_of_mem hp
    have hknown := ((ht.steps.sound Plan.sound_initial).bindings (hpasses.trans hsplit) hb).1
    obtain ⟨p', hp', hid⟩ := exists_pass_of_known ht hknown
    rw [hpasses] at hp'
    refine ⟨p', ⟨hp', hid⟩, ?_⟩
    rintro p'' ⟨hp'', hid''⟩
    exact List.inj_on_of_nodup_map hnodup hp'' hp' (hid''.trans hid.symm)

/-! ### A stage that is repeated -/

/-- A body that draws a colour. -/
def seed : String :=
  "void run(vec2 uv, out vec4 c) \x7b c = vec4(1.0); \x7d"

/-- A node with two stages, the second of which is drawn twice. -/
def repeater (first second : String) : Node where
  id := "n"
  kind := .multiStage
  stages := [{ id := first, source := some seed }, { id := second, source := some seed, loop := 2 }]

def repeated (first second : String) : Scene where
  graph := .ofLists [repeater first second] []
  config := {}

theorem loopCount_seed (stage : Stage) : stage.loopCount seed = .ok (max stage.loop.toNat 1) := by
  have hpragma : Stage.pragmaLoop seed = .ok none := by decide +kernel
  unfold Stage.loopCount
  split
  · next hl => rw [Nat.max_eq_left (by omega)]
  · next hl =>
    rw [hpragma, Nat.max_eq_right (by omega)]
    rfl

theorem loop_seed {node : Node} {stage : Stage} (hs : stage.source = some seed) :
    (Plan.Item.stage node stage).loop =
      .ok { base := Plan.stageKey node stage, count := (max stage.loop.toNat 1 : Nat) } :=
  Fault.bind_eq_ok_iff.2 ⟨seed, by rw [Stage.body, hs],
    Fault.bind_eq_ok_iff.2 ⟨_, loopCount_seed stage, rfl⟩⟩

/-- A stage that draws a colour asks for nothing if nothing feeds its node. -/
theorem not_wants_seed {g : Graph} {node : Node} {stage : Stage} (hs : stage.source = some seed)
    (hin : g.incoming node.id = []) (request : Plan.Request) :
    ¬ (Plan.Item.stage node stage).Wants g request := by
  have hreferences : Source.stageReferences seed = [] := by decide +kernel
  rw [Plan.Item.Wants, Plan.stageRequests, Stage.text, hs, Option.getD_some, hreferences, hin]
  exact List.not_mem_nil

variable (first second : String)

/-- There is nothing in the way of compiling the node. -/
private theorem not_cause_repeated (f : Fault) : ¬ Cause (repeated first second) f := by
  have hnode {n : Node} (hn : n ∈ (repeated first second).graph.nodeList) :
      n = repeater first second :=
    List.mem_singleton.1 hn
  have hsource {n : Node} (hn : n ∈ (repeated first second).graph.nodeList) {stage : Stage}
      (hs : stage ∈ n.stages) : stage.source = some seed := by
    rw [hnode hn] at hs
    rcases List.mem_cons.1 hs with rfl | hs
    · rfl
    · rw [List.mem_singleton.1 hs]
  have hgraph : (repeated first second).graph.WellFormed := by
    refine Graph.wellFormed_of_flat (by simp [repeated, Graph.ofLists, Graph.supersede]) ?_ ?_
    · intro n hn _
      rw [hnode hn]
      exact Nat.succ_ne_zero 1
    · intro n hn hk
      rw [hnode hn] at hk
      cases hk
  have hinterface : (Source.interface seed).toOption.isSome = true := by decide +kernel
  rintro (h | h | h)
  · exact hgraph.not_graphFault h
  · refine not_packingFault_of_plain (fun n hn => ?_) (fun n hn => ?_) rfl h
    · rw [hnode hn]
      rfl
    · rw [hnode hn]
      simp [repeater]
  · rcases h with ⟨he, -⟩ | ⟨hn, hs, h⟩ | ⟨hn, hs, h⟩ | ⟨hn, hs, hb, h⟩ | ⟨hn, hp, -⟩
    · cases he
    · rw [Stage.text, hsource hn hs, Option.getD_some] at h
      rw [h] at hinterface
      cases hinterface
    · rw [Stage.body, hsource hn hs] at h
      cases h
    · rw [Stage.body, hsource hn hs] at hb
      cases hb
      cases (loopCount_seed _).symm.trans h
    · rw [hnode hn] at hp
      cases hp

/-- Every pass of the two stages is planned. -/
private theorem exists_compile_repeated (hne : first ≠ second) : ∃ r log,
    compile (repeated first second) { node := some "n" } = (.ok r, log) ∧ r.failure = none ∧
      r.passes.map (·.id) =
        ["n_pass_" ++ first, "n_pass_" ++ second, "n_pass_" ++ second ++ "_loop1"] := by
  have hcompile : (∃ r log, compile (repeated first second) { node := some "n" } = (.ok r, log) ∧
      r.failure = none) ∨ ∃ f s, compile (repeated first second) { node := some "n" } =
        resultOf (.error f) s ∧ Cause (repeated first second) f :=
    compile_or_cause rfl (by decide) rfl (Or.inl rfl)
  obtain ⟨r, log, hr, hf⟩ := hcompile.resolve_right fun ⟨f, _, _, hcause⟩ =>
    not_cause_repeated first second f hcause
  obtain ⟨node, q, s, hs⟩ := exists_shows hr hf
  obtain rfl : node = repeater first second := hs.eq_node rfl rfl
  cases Plan.responds_planWithin hs.plan_eq with
  | missing hi => cases hi
  | answered h =>
    cases h with
    | @cons _ _ _ _ _ _ t _ ha hrest =>
      cases hrest with
      | cons hb hnil =>
        cases hnil
        obtain ⟨hids, hactive, hgenerated⟩ :=
          ha.of_not_wants (not_wants_seed rfl rfl) (loop_seed rfl) rfl List.not_mem_nil
        have hids₁ : t.ids = ["n_pass_" ++ first] := hids
        have hnew : "n_pass_" ++ second ≠ "n_pass_" ++ first := by
          simpa using hne.symm
        have hfresh : t.generated.get? ("n_pass_" ++ second) = none :=
          hgenerated _ hnew (by rw [hids₁, List.mem_singleton]; exact hnew)
        obtain ⟨hids₂, -, -⟩ := hb.of_not_wants (not_wants_seed rfl rfl) (loop_seed rfl) hfresh
          (by rw [hactive]; exact List.not_mem_nil)
        have hlast : Plan.Loop.iterationId { base := "n_pass_" ++ second, count := 2 } (1 : Nat) =
            "n_pass_" ++ second ++ "_loop1" := by
          have hnumber : "_loop" ++ toString (1 : Int) = "_loop1" := by decide
          rw [← hnumber, ← String.append_assoc]
          rfl
        refine ⟨r, log, hr, hf, ?_⟩
        rw [hs.passes_eq]
        refine hids₂.trans ?_
        rw [hids₁]
        exact congrArg (fun id => ["n_pass_" ++ first, "n_pass_" ++ second, id]) hlast

theorem ids_nodup_iff_repeated : ∃ r log,
    compile (repeated "a" "b") { node := some "n" } = (.ok r, log) ∧ r.failure = none ∧
      r.passes.map (·.id) = ["n_pass_a", "n_pass_b", "n_pass_b_loop1"] ∧
      (r.passes.map (·.id)).Nodup ∧ ∀ p ∈ r.passes, r.pass? p.id = some p := by
  obtain ⟨r, log, hr, hf, hids⟩ := exists_compile_repeated "a" "b" (by decide)
  obtain ⟨-, hapart, hunique⟩ := ids_nodup_iff hr hf
  have hnodup := hapart (by decide +kernel)
  exact ⟨r, log, hr, hf, hids, hnodup, fun p hp => (hunique hnodup p hp).1⟩

/-- The second pass of the repeated stage has the key of the first stage as its id. -/
theorem repeat_aliased : ∃ r log,
    compile (repeated "s_loop1" "s") { node := some "n" } = (.ok r, log) ∧ r.failure = none ∧
      r.passes.map (·.id) = ["n_pass_s_loop1", "n_pass_s", "n_pass_s_loop1"] ∧
      ¬ (r.passes.map (·.id)).Nodup := by
  obtain ⟨r, log, hr, hf, hids⟩ := exists_compile_repeated "s_loop1" "s" (by decide)
  exact ⟨r, log, hr, hf, hids, by rw [hids]; decide⟩

end RenderGraph.Compile
