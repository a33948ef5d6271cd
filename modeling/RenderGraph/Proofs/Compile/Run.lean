import RenderGraph.Compile.Result
import RenderGraph.Proofs.Plan.Progress

/-!
# Compilations and the plans behind them

A compilation that succeeds shows the passes and the warnings of a plan that went from the initial state
to its end by steps, with no key left that is being planned.

## Main definitions

* `Compile.Target.request`: the request for a target
* `Compile.Shows`: a compilation shows how a plan ended

## Main results

* `Compile.ends_planTarget`: how the planning of an existing target ends
* `Compile.exists_shows`, `Compile.exists_steps_of_compile`: the plan behind a compilation
* `Compile.exists_of_succeedsWith`: the result of a compilation that has been evaluated
-/

namespace RenderGraph.Compile

open Plan (State Keeps Ready)

variable {scene : Scene} {target : Target} {r : Result} {log : List Journal.Record}

/-- There is fuel for a whole plan. -/
theorem ready_initial (scene : Scene) :
    Ready scene (Plan.totalKeyCount scene.graph + 1) {} where
  sound := Plan.sound_initial
  nodup := List.nodup_nil
  subset := List.nil_subset _
  fuel := by
    rw [Plan.length_keys]
    simp

theorem ends_plan {request : Plan.Request} (h : request.node ∈ scene.graph.nodes.keys) :
    Ends (Plan.plan scene request) (fun q t => Keeps scene {} t ∧ t.Gives q)
      (fun f _ => Cause scene f) {} :=
  (Plan.serves_planWithin scene _ h (ready_initial scene)).mono (fun _ _ h => ⟨h.1, h.2.1⟩)
    fun _ _ => id

/-- The target is an output that exists. Multi-stage nodes take the name of any stage. -/
def Target.Exists (target : Target) (node : Node) : Prop :=
  node.isMultiStage = true ∨ target.port = none ∨ target.port = some "" ∨
    (node.findOutput target.port).isSome = true

/-- A target is planned if it exists, and then the planning fails for a cause only. -/
theorem ends_planTarget {node : Node} {id : String} (hn : scene.graph.node? id = some node) :
    Ends (planTarget scene id target.port) (fun q t => Keeps scene {} t ∧ t.Gives q)
      (fun f _ => Cause scene f ∨ ¬ target.Exists node) {} := by
  have hmem : id ∈ scene.graph.nodes.keys :=
    scene.graph.id_eq hn ▸ Graph.id_mem_keys (Graph.mem_nodeList_of_node? hn)
  have hplan {request : Plan.Request} (hr : request.node = id) :
      Ends (Plan.plan scene request) (fun q t => Keeps scene {} t ∧ t.Gives q)
        (fun f _ => Cause scene f ∨ ¬ target.Exists node) {} :=
    (ends_plan (hr ▸ hmem)).mono (fun _ _ h => h) fun _ _ => Or.inl
  unfold planTarget
  rw [ends_bind, Graph.requireNode, hn, ends_lift, yields_ok]
  split
  · exact hplan rfl
  · next hm =>
    split
    · exact hplan rfl
    · exact hplan rfl
    · next p hne hp =>
      split
      · next hnone =>
        rw [ends_throw]
        refine Or.inr ?_
        rintro (h | h | h | h)
        · exact hm h
        · exact absurd (hp.symm.trans h) (by simp)
        · exact hne (Option.some.inj (hp.symm.trans h))
        · rw [Option.isNone_iff_eq_none] at hnone
          rw [hnone] at h
          cases h
      · exact hplan rfl

/-- A compilation shows the outcome of the plan for its target. -/
theorem compile_eq_of_run {id : String} {outcome : Except Fault String} {s : Plan.State}
    (ht : target.node = some id) (hid : id ≠ "")
    (h : (planTarget scene id target.port).run {} = (outcome, s)) :
    compile scene target = resultOf outcome s := by
  unfold compile
  rw [ht]
  split
  · next h => cases h
  · next h => exact absurd (Option.some.inj h) hid
  · next id' _ h' =>
    obtain rfl : id = id' := Option.some.inj h'
    rw [h]

/-- An existing output is compiled unless there is a cause of failure. -/
theorem compile_or_cause {node : Node} {id : String} (ht : target.node = some id) (hid : id ≠ "")
    (hn : scene.graph.node? id = some node) (he : target.Exists node) :
    (∃ r log, compile scene target = (.ok r, log) ∧ r.failure = none) ∨
      ∃ f s, compile scene target = resultOf (.error f) s ∧ Cause scene f := by
  rcases hr : (planTarget scene id target.port).run {} with ⟨outcome, s⟩
  rw [compile_eq_of_run ht hid hr]
  cases outcome with
  | ok q => exact Or.inl ⟨_, _, rfl, rfl⟩
  | error f =>
    exact Or.inr ⟨f, s, rfl, ((ends_planTarget hn).of_run_error hr).resolve_right (not_not_intro he)⟩

/-- The request for a target that is an output of a node. -/
def Target.request (target : Target) (node : Node) : Plan.Request :=
  if node.isMultiStage then { node := node.id, stage := target.port }
  else { node := node.id, port := target.port }

/-- A compilation shows how a plan ended that answered the request for its target with a pass. -/
structure Shows (scene : Scene) (target : Target) (r : Result) (node : Node) (q : String)
    (s : State) : Prop where
  target_eq : target.node = some node.id
  node_eq : scene.graph.node? node.id = some node
  planTarget_eq : (planTarget scene node.id target.port).run {} = (.ok q, s)
  plan_eq : (Plan.plan scene (target.request node)).run {} = (.ok q, s)
  passes_eq : r.passes = s.passes
  warnings_eq : r.warnings = s.warnings
  cycleBreaks_eq : r.stats.cycleBreaks = s.cycleBreaks

/-- The node of the target is planned. -/
theorem Shows.eq_node {node m : Node} {id q : String} {s : State} (hs : Shows scene target r node q s)
    (ht : target.node = some id) (hm : scene.graph.node? id = some m) : node = m := by
  have hget := hs.node_eq
  rw [← Option.some.inj (ht.symm.trans hs.target_eq), hm] at hget
  exact (Option.some.inj hget).symm

/-- A target is planned by a request for an output of its node. -/
theorem exists_plan_of_planTarget {id q : String} {s : State}
    (h : (planTarget scene id target.port).run {} = (.ok q, s)) :
    ∃ node, scene.graph.node? id = some node ∧
      (Plan.plan scene (target.request node)).run {} = (.ok q, s) := by
  obtain ⟨node, t, hn, h⟩ := exists_of_run_bind h
  unfold Graph.requireNode at hn
  split at hn
  · next hget =>
    cases hn
    have hid := scene.graph.id_eq hget
    refine ⟨node, hget, ?_⟩
    unfold Target.request
    rw [hid]
    split at h
    · next hm => rwa [if_pos hm]
    · next hm =>
      rw [if_neg hm]
      split at h
      · exact h
      · exact h
      · split at h
        · cases h
        · exact h
  · cases hn

/-- The plan behind a compilation that succeeds. -/
theorem exists_shows (h : compile scene target = (.ok r, log)) (hf : r.failure = none) :
    ∃ node q s, Shows scene target r node q s := by
  unfold compile at h
  split at h
  · cases h
    cases hf
  · cases h
    cases hf
  · next id _ ht =>
    rcases hr : (planTarget scene id target.port).run {} with ⟨outcome, s⟩
    rw [hr] at h
    cases outcome with
    | error f =>
      simp only [resultOf] at h
      split at h
      · cases h
        cases hf
      · cases h
    | ok q =>
      cases h
      obtain ⟨node, hn, hplan⟩ := exists_plan_of_planTarget hr
      obtain rfl := scene.graph.id_eq hn
      exact ⟨node, q, s, ht, hn, hr, hplan, rfl, rfl, rfl⟩

/-- The plan behind a compilation goes from the initial state to its end by steps. -/
theorem exists_steps_of_compile (h : compile scene target = (.ok r, log)) (hf : r.failure = none) :
    ∃ s, Keeps scene {} s ∧ s.passes = r.passes ∧ s.warnings = r.warnings := by
  obtain ⟨node, q, s, hs⟩ := exists_shows h hf
  exact ⟨s, ((ends_planTarget hs.node_eq).of_run_ok hs.planTarget_eq).1, hs.passes_eq.symm,
    hs.warnings_eq.symm⟩

/-- What is known at the end of a plan is planned, since nothing is being planned any more. -/
theorem exists_pass_of_known {s : State} (hs : Keeps scene {} s) {q : String} (hq : s.Known q) :
    ∃ p ∈ s.passes, p.id = q := by
  have hids : q ∈ s.ids := by
    refine hq.resolve_right ?_
    rw [hs.active_eq]
    simp
  exact List.mem_map.1 hids

/-! ### Evaluation -/

/-- The compilation succeeds, and its result passes a test. -/
def succeedsWith (scene : Scene) (target : Target) (test : Result → Bool) : Bool :=
  match compile scene target with
  | (.ok r, _) => r.failure.isNone && test r
  | (.error _, _) => false

theorem exists_of_succeedsWith {test : Result → Bool} (h : succeedsWith scene target test = true) :
    ∃ r log, compile scene target = (.ok r, log) ∧ r.failure = none ∧ test r = true := by
  unfold succeedsWith at h
  split at h
  · next r log hr =>
    obtain ⟨hf, htest⟩ := Bool.and_eq_true_iff.1 h
    exact ⟨r, log, hr, Option.isNone_iff_eq_none.1 hf, htest⟩
  · cases h

end RenderGraph.Compile
