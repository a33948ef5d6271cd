import RenderGraph.Proofs.Compile.DistinctIds
import RenderGraph.Proofs.Plan.Reach

/-!
# The last pass

A target is answered with the pass of its node, or with that of the last of its stages; the passes stand
in the order in which they were completed. For a node that is no multi-stage node the two agree: its pass
is completed last. The last stage may have been planned before, on behalf of an earlier one; then the pass
of an earlier stage is the last one. This is the case exactly if an earlier stage needs the last one,
directly or through others.

## Main results

* `Plan.Rounds.getLast?_eq_iff`: when the last item is answered with the last pass
* `Compile.last_pass_iff`
* `Compile.last_stage_first`: a stage that refers to the one after it
-/

namespace RenderGraph

namespace Plan

variable {scene : Scene} {n : Nat} {previous q : String} {s t : State} {is : List Item} {i : Item}

/-- An item that is found has been answered before, and adds nothing. -/
theorem Obtains.eq_of_has {plan : Request → PlanM String} (h : Obtains scene plan i previous s q t)
    (hhas : s.Has i.key) : s.generated.get? i.key = some q ∧ t = s := by
  have hne : s.generated.get? i.key ≠ none := fun hg => by
    rw [State.Has, hg] at hhas
    cases hhas
  cases h with
  | found hg => exact ⟨hg, rfl⟩
  | cycle hg => exact absurd hg hne
  | built hg => exact absurd hg hne

/-- Names apart, the last of the items is answered with the last pass if and only if it is not needed for
those before it. -/
theorem Rounds.getLast?_eq_iff (hnames : NamesApart scene.graph)
    (hi : ∀ j ∈ is ++ [i], j.In scene.graph) (hkeys : ((is ++ [i]).map Item.key).Nodup)
    (hne : t.passes ≠ [])
    (h : Rounds scene (planWithin scene n) (is ++ [i]) previous {} q t) :
    t.ids.getLast? = some q ↔ ¬ NeededFor scene.graph is i.key := by
  obtain ⟨q', u, hfirst, hlast⟩ := h.exists_of_append
  have hfirsts : ∀ j ∈ is, j.In scene.graph := fun j hj => hi j (List.mem_append_left _ hj)
  have hin : i.In scene.graph := hi i (List.mem_append_right _ List.mem_cons_self)
  rw [← hfirst.has_iff hnames hfirsts hin]
  cases hlast with
  | cons ho hnil =>
    cases hnil
    constructor
    · intro hid hhas
      obtain ⟨hg, rfl⟩ := ho.eq_of_has hhas
      have hI := invariant_settled hnames
      have hsettled : Settled scene.graph t :=
        (hI.rounds hI.planWithin hfirsts hfirst (settled_initial _)).1
      obtain ⟨l, hl, rfl⟩ := hsettled i hin q hg
      rcases hfirst.getLast_cases with hsame | ⟨j, hj, l', hl', hid'⟩
      · exact hne hsame
      · have hkey : j.key = i.key := by
          refine Item.key_eq_of_lastId_eq hnames.repeats (hfirsts j hj) hin hl' hl ?_
          exact Option.some.inj (hid'.symm.trans hid)
        rw [List.map_append, List.nodup_append] at hkeys
        exact hkeys.2.2 j.key (List.mem_map_of_mem hj) i.key List.mem_cons_self hkey
    · intro hhas
      rcases ho.getLast_cases with ⟨hholds, -⟩ | ⟨l, -, rfl, hid⟩
      · rw [State.Holds, active_rounds hfirsts hfirst] at hholds
        exact absurd (hholds.resolve_right List.not_mem_nil) hhas
      · exact hid

/-- A single item that is answered from the start is answered with the last pass. -/
theorem Obtains.getLast?_eq {plan : Request → PlanM String} (h : Obtains scene plan i previous {} q t) :
    t.ids.getLast? = some q := by
  rcases h.getLast_cases with ⟨hhas | hactive, -⟩ | ⟨l, -, rfl, hid⟩
  · cases hhas
  · cases hactive
  · exact hid

end Plan

namespace Compile

variable {scene : Scene} {target : Target} {r : Result} {log : List Journal.Record}

/-- The items that answer a target: its stages, or its output. -/
theorem Target.items_request {g : Graph} {node : Node} (hn : g.node? node.id = some node)
    (target : Target) : (target.request node).items g =
      if node.isMultiStage then (Plan.requestedStages node target.port).map (.stage node)
      else [.output node target.port] := by
  cases hm : node.isMultiStage <;> simp [Target.request, Plan.Request.items, hm, hn]

/-- A target is answered with the last pass if it is an output of a node that is no multi-stage node, or a
single stage. Names apart, it is answered with the last pass if and only if its last stage is not needed
for the stages before it. -/
theorem last_pass_iff (h : compile scene target = (.ok r, log)) (hf : r.failure = none)
    (hne : r.passes ≠ []) : ∃ node q s, Shows scene target r node q s ∧
      ∃ init last, (target.request node).items scene.graph = init ++ [last] ∧
        (node.isMultiStage = false ∨ init = [] → (r.passes.map (·.id)).getLast? = some q) ∧
        (Plan.NamesApart scene.graph →
          ((r.passes.map (·.id)).getLast? = some q ↔
            ¬ Plan.NeededFor scene.graph init last.key)) := by
  obtain ⟨node, q, s, hs⟩ := exists_shows h hf
  have hids : r.passes.map (·.id) = s.ids := by rw [Plan.State.ids, hs.passes_eq]
  rw [hs.passes_eq] at hne
  cases Plan.responds_planWithin hs.plan_eq with
  | missing => exact absurd rfl hne
  | answered hrounds =>
    rcases List.eq_nil_or_concat ((target.request node).items scene.graph) with
      hnil | ⟨init, last, hitems⟩
    · rw [hnil] at hrounds
      cases hrounds
      exact absurd rfl hne
    · rw [List.concat_eq_append] at hitems
      rw [hitems] at hrounds
      rw [hids]
      refine ⟨node, q, s, hs, init, last, hitems, fun hone => ?_, fun hnames => ?_⟩
      · have hinit : init = [] := by
          refine hone.elim (fun hm => ?_) id
          rw [target.items_request hs.node_eq, if_neg (by simp [hm])] at hitems
          cases init with
          | nil => rfl
          | cons i init => simp at hitems
        rw [hinit] at hrounds
        cases hrounds with
        | cons ho hnil =>
          cases hnil
          exact ho.getLast?_eq
      · exact hrounds.getLast?_eq_iff hnames
          (fun i hi => (Plan.Request.in_of_mem_items (hitems ▸ hi)).1)
          (hitems ▸ Plan.Request.nodup_keys hnames.stages _) hne

/-! ### Two stages -/

/-- A body that reads a texture. -/
def reading (name : String) : String :=
  "void run(vec2 uv, out vec4 c) \x7b c = texture(" ++ name ++ ", uv); \x7d"

/-- A node with two stages that have the given bodies. -/
def twoStageNode (first second : String) : Node where
  id := "n"
  kind := .multiStage
  stages := [{ id := "a", source := some first }, { id := "b", source := some second }]

def twoStages (first second : String) : Scene where
  graph := .ofLists [twoStageNode first second] []
  config := {}

/-- The first stage asks for nothing, so that the second one is not needed for it. -/
theorem not_neededFor_twoStages {second : String}
    (hnames : Plan.NamesApart (twoStages seed second).graph) :
    ¬ Plan.NeededFor (twoStages seed second).graph
      [.stage (twoStageNode seed second) { id := "a", source := some seed }] "n_pass_b" := by
  have hin : Plan.Item.In (twoStages seed second).graph
      (.stage (twoStageNode seed second) { id := "a", source := some seed }) :=
    ⟨List.mem_cons_self, rfl, List.mem_cons_self⟩
  rintro ⟨i, hi, hreach⟩
  obtain rfl := List.mem_singleton.1 hi
  have hkey : "n_pass_b" = "n_pass_a" :=
    hin.eq_key_of_needs hnames (not_wants_seed rfl rfl) hreach
  exact absurd hkey (by decide)

theorem last_pass_iff_twoStages : ∃ r log node q s,
    compile (twoStages seed (reading "u_pass_a")) { node := some "n" } = (.ok r, log) ∧
      r.failure = none ∧ r.passes ≠ [] ∧
      Shows (twoStages seed (reading "u_pass_a")) { node := some "n" } r node q s ∧
      (r.passes.map (·.id)).getLast? = some q := by
  obtain ⟨r, log, hr, hf, hids⟩ := exists_of_succeedsWith
    (show succeedsWith (twoStages seed (reading "u_pass_a")) { node := some "n" }
      (!·.passes.isEmpty) = true by decide +kernel)
  have hne : r.passes ≠ [] := by simpa using hids
  obtain ⟨node, q, s, hs, init, last, hitems, -, hiff⟩ := last_pass_iff hr hf hne
  obtain rfl : node = twoStageNode seed (reading "u_pass_a") := hs.eq_node rfl rfl
  have hsplit : [.stage (twoStageNode seed (reading "u_pass_a")) { id := "a", source := some seed }] ++
      [.stage (twoStageNode seed (reading "u_pass_a")) { id := "b", source := some (reading "u_pass_a") }] =
        init ++ [last] := hitems
  obtain ⟨rfl, hlast⟩ := List.append_inj' hsplit rfl
  obtain rfl := List.singleton_inj.1 hlast
  have hnames : Plan.NamesApart (twoStages seed (reading "u_pass_a")).graph := by decide +kernel
  exact ⟨r, log, _, q, s, hr, hf, hne, hs,
    (hiff hnames).2 (not_neededFor_twoStages hnames)⟩

/-- The pass of the first stage is the last one, since it reads the second stage; the node is answered
with the pass of the second stage. -/
theorem last_stage_first : ∃ r log node q s,
    compile (twoStages (reading "u_pass_b") seed) { node := some "n" } = (.ok r, log) ∧
      r.failure = none ∧ r.passes.map (·.id) = ["n_pass_b", "n_pass_a"] ∧
      Shows (twoStages (reading "u_pass_b") seed) { node := some "n" } r node q s ∧
      q = "n_pass_b" ∧ (r.passes.map (·.id)).getLast? ≠ some q := by
  have htest : (match (planTarget (twoStages (reading "u_pass_b") seed) "n" none).run {} with
      | (.ok q, s) => q == "n_pass_b" && s.passes.map (·.id) == ["n_pass_b", "n_pass_a"]
      | (.error _, _) => false) = true := by
    decide +kernel
  split at htest
  · next q s hrun =>
    rw [Bool.and_eq_true, beq_iff_eq, beq_iff_eq] at htest
    obtain ⟨rfl, hids⟩ := htest
    have htarget : ({ node := some "n" } : Target).node = some "n" := rfl
    have hr := compile_eq_of_run htarget (by decide) hrun
    obtain ⟨node, q, s', hs⟩ := exists_shows hr rfl
    have hid : "n" = node.id := Option.some.inj hs.target_eq
    have hanswer := hs.planTarget_eq
    rw [← hid, hrun] at hanswer
    cases hanswer
    exact ⟨_, _, node, "n_pass_b", s, hr, rfl, hids, hs, rfl, by rw [hids]; decide⟩
  · cases htest

end Compile

end RenderGraph
