import RenderGraph.Proofs.Compile.Run
import RenderGraph.Proofs.Plan.Responses

/-!
# Cycles are counted as they are reported

Cycles are found in two places: a search drops an edge that leads back to a node being visited, and a
plan reports a request for a key that is being planned. The number of cycles that a compilation counts is
the number of its warnings that report one. Where neither the edges of the graph nor the references
between stages close a cycle and the keys of different nodes differ, there are none: the keys that are
being planned belong to nodes downstream of every node that is asked for.

## Main definitions

* `Graph.Acyclic`: no path of edges leads back to where it starts
* `Plan.RefersToPrevious`: the stages of a graph refer to the stage before them only
* `Plan.State.reported`: how many warnings report a cycle
* `Plan.State.Downstream`: what is being planned lies downstream of a node

## Main results

* `Plan.reported_planWithin`: a plan counts the cycles that it reports
* `Plan.cycleBreaks_planWithin`: without cycles it counts none
* `Compile.cycles_counted`
-/

namespace RenderGraph

open Relation (TransGen)

/-- No path of edges leads back to where it starts. -/
def Graph.Acyclic (g : Graph) : Prop :=
  ∀ id, ¬ TransGen g.Feeds id id

/-- Edges that go from lower to higher nodes close no cycle. -/
theorem Graph.acyclic_of_rank {g : Graph} (rank : String → Nat)
    (h : ∀ e ∈ g.edges, rank e.source < rank e.target) : g.Acyclic := by
  have hlt {a b : String} (hab : TransGen g.Feeds a b) : rank a < rank b := by
    induction hab with
    | single hf =>
      obtain ⟨e, he, rfl, rfl⟩ := hf
      exact h e he
    | tail _ hf ih =>
      obtain ⟨e, he, rfl, rfl⟩ := hf
      exact Nat.lt_trans ih (h e he)
  exact fun id hid => Nat.lt_irrefl _ (hlt hid)

namespace Plan

/-- How many warnings report a cycle. -/
def State.reported (s : State) : Nat :=
  s.warnings.countP reportsCycle

variable {scene : Scene} {plan : Request → PlanM String} {s t : State} {rs : List Request} {k n : Nat}
  {r : Request} {q : String}

/-! ### Reports and counts -/

/-- As many cycles were counted as were reported on the way, if `k` more were reported than counted. -/
def Balanced (k : Nat) (s t : State) : Prop :=
  t.reported + s.cycleBreaks = s.reported + t.cycleBreaks + k

theorem Balanced.trans {j : Nat} {u : State} (h : Balanced j s t) (h' : Balanced k t u) :
    Balanced (j + k) s u := by
  unfold Balanced at *
  omega

/-- A course reports the edges that it drops, and counts them afterwards. -/
theorem Course.balanced {g : Graph} (h : Course g plan s rs k t)
    (hr : ∀ {r : Request} {s t : State} {q : String}, (plan r).run s = (.ok q, t) →
      Balanced 0 s t) : Balanced k s t := by
  induction h with
  | refl => exact rfl
  | note _ warnings journal hw ih =>
    have hnone : warnings.countP reportsCycle = 0 := List.countP_eq_zero.2 (by simpa using hw)
    unfold Balanced State.reported at *
    rw [List.countP_append, hnone]
    exact ih
  | @drop _ k t _ id journal _ ih =>
    have hone : [inlineWarning id].countP reportsCycle = 1 := by simp
    unfold Balanced State.reported at *
    rw [List.countP_append, hone]
    dsimp only
    omega
  | count _ ih =>
    unfold Balanced State.reported at *
    dsimp only
    omega
  | own _ _ ih => exact ih
  | ask _ hrun ih => exact ih.trans (hr hrun)

/-- A plan counts the cycles that it reports. -/
theorem reported_planWithin (h : (planWithin scene n r).run s = (.ok q, t)) : Balanced 0 s t := by
  refine planWithin_induct (P := fun _ s _ t => Balanced 0 s t) ?_ h
  intro n r s t q ih h
  have hobtains {i : Item} {previous q : String} {s t : State}
      (h : Obtains scene (planWithin scene n) i previous s q t) : Balanced 0 s t := by
    cases h with
    | found => exact rfl
    | cycle =>
      have hone : [cycleWarning i.key].countP reportsCycle = 1 := by simp
      unfold Balanced State.reported
      rw [List.countP_append, hone]
      dsimp only
      omega
    | built _ _ hb =>
      obtain ⟨rs, hcourse, -⟩ := hb.course
      exact hcourse.balanced ih
  cases h with
  | answered h =>
    exact h.preserves (I := Balanced 0 s) (fun i _ _ _ _ _ ho hs => hs.trans (hobtains ho)) rfl
  | missing _ hw =>
    unfold Balanced State.reported
    rw [List.countP_append, List.countP_singleton, hw]
    rfl

/-! ### Plans without cycles -/

/-- What is being planned belongs to nodes downstream of a node. -/
def State.Downstream (g : Graph) (id : String) (s : State) : Prop :=
  ∀ key ∈ s.active, ∃ i : Item, i.In g ∧ i.key = key ∧ TransGen g.Feeds id i.node.id

/-- Stages refer to the stage before them only. -/
def RefersToPrevious (g : Graph) : Prop :=
  ∀ n ∈ g.nodeList, ∀ stage ∈ n.stages, ∀ reference ∈ Source.stageReferences stage.text,
    reference = .previous

instance (g : Graph) : Decidable (RefersToPrevious g) :=
  inferInstanceAs (Decidable (∀ n ∈ g.nodeList, ∀ stage ∈ n.stages,
    ∀ reference ∈ Source.stageReferences stage.text, reference = .previous))

/-- What is asked for on behalf of an item stands upstream of its node. -/
theorem Item.Wants.feeds {g : Graph} (hp : RefersToPrevious g) {i : Item} (hi : i.In g)
    (h : i.Wants g r) : TransGen g.Feeds r.node i.node.id := by
  cases i with
  | output => exact ReadsOutput.feeds h
  | stage node a =>
    rcases mem_stageRequests h with ⟨reference, hmem, hr⟩ | ⟨hfeeds, -⟩
    · rw [hp node hi.1 a hi.2.2 reference hmem] at hr
      cases hr
    · exact .single hfeeds

/-- A course drops no edge of an acyclic graph. -/
theorem Course.cycleBreaks_eq {g : Graph} (hg : g.Acyclic) (h : Course g plan s rs k t)
    (hr : ∀ r ∈ rs, ∀ {t u : State} {q : String}, (plan r).run t = (.ok q, u) →
      t.active = s.active → u.cycleBreaks = t.cycleBreaks ∧ u.active = t.active) :
    k = 0 ∧ t.cycleBreaks = s.cycleBreaks ∧ t.active = s.active := by
  induction h with
  | refl => exact ⟨rfl, rfl, rfl⟩
  | note _ _ _ _ ih => exact ih hr
  | drop _ _ hc => exact absurd hc (hg _)
  | count _ ih =>
    obtain ⟨hk, hbreaks, hactive⟩ := ih hr
    obtain ⟨hk, hj⟩ := Nat.add_eq_zero_iff.1 hk
    exact ⟨hk, by rw [hj, Nat.add_zero]; exact hbreaks, hactive⟩
  | own _ _ ih => exact ih hr
  | ask _ hrun ih =>
    obtain ⟨hk, hbreaks, hactive⟩ := ih fun r hm => hr r (List.mem_append_left _ hm)
    obtain ⟨hbreaks', hactive'⟩ := hr _ (List.mem_append_right _ List.mem_cons_self) hrun hactive
    exact ⟨hk, hbreaks'.trans hbreaks, hactive'.trans hactive⟩

/-- Without cycles a plan counts none, as long as what is being planned lies downstream of the request. -/
theorem cycleBreaks_planWithin (hg : scene.graph.Acyclic) (hp : RefersToPrevious scene.graph)
    (hk : KeysApart scene.graph) (h : (planWithin scene n r).run s = (.ok q, t))
    (hs : s.Downstream scene.graph r.node) : t.cycleBreaks = s.cycleBreaks := by
  suffices hall : s.Downstream scene.graph r.node → t.cycleBreaks = s.cycleBreaks ∧ t.active = s.active
    from (hall hs).1
  refine planWithin_induct (P := fun r s _ t => s.Downstream scene.graph r.node →
    t.cycleBreaks = s.cycleBreaks ∧ t.active = s.active) ?_ h
  intro n r s t q ih h hs
  cases h with
  | missing => exact ⟨rfl, rfl⟩
  | answered h =>
    refine h.preserves (I := fun t => t.cycleBreaks = s.cycleBreaks ∧ t.active = s.active)
      (fun i hi previous q u v ho hu => ?_) ⟨rfl, rfl⟩
    obtain ⟨hin, hid⟩ := Request.in_of_mem_items hi
    cases ho with
    | found => exact hu
    | cycle _ ha =>
      -- The key would belong to a node both upstream and downstream of the request.
      obtain ⟨j, hj, hkey, hpath⟩ := hs i.key (hu.2 ▸ ha)
      rw [Item.node_eq_of_key_eq hk hj hin hkey, hid] at hpath
      exact absurd hpath (hg _)
    | @built l passes t _ ha hb =>
      obtain ⟨rs, hcourse, hrs⟩ := hb.course
      obtain ⟨-, hbreaks, hactive⟩ := hcourse.cycleBreaks_eq hg fun r' hr' t u q hrun ht => by
        have hfeeds : TransGen scene.graph.Feeds r'.node r.node :=
          hid ▸ ((hrs r').1 hr').feeds hp hin
        refine ih hrun fun key hmem => ?_
        rw [ht, List.mem_append, List.mem_singleton] at hmem
        rcases hmem with hmem | rfl
        · obtain ⟨j, hj, hkey, hpath⟩ := hs key (hu.2 ▸ hmem)
          exact ⟨j, hj, hkey, hfeeds.trans hpath⟩
        · exact ⟨i, hin, rfl, hid ▸ hfeeds⟩
      exact ⟨hbreaks.trans hu.1, (erase_active ha hactive).trans hu.2⟩

end Plan

namespace Compile

variable {scene : Scene} {target : Target} {r : Result} {log : List Journal.Record}

/-- Every cycle that is counted is reported and every report is counted. A graph without cycles, whose
stages refer to no stage but the one before them and whose nodes have no key in common, is compiled
without either. -/
theorem cycles_counted (h : compile scene target = (.ok r, log)) (hf : r.failure = none) :
    (scene.graph.Acyclic → Plan.RefersToPrevious scene.graph → Plan.KeysApart scene.graph →
      r.stats.cycleBreaks = 0 ∧ ∀ w ∈ r.warnings, Plan.reportsCycle w = false) ∧
    r.stats.cycleBreaks = r.warnings.countP Plan.reportsCycle := by
  obtain ⟨node, q, s, hs⟩ := exists_shows h hf
  have hcount : r.stats.cycleBreaks = r.warnings.countP Plan.reportsCycle := by
    have hbalanced : Plan.Balanced 0 {} s := Plan.reported_planWithin hs.plan_eq
    rw [hs.cycleBreaks_eq, hs.warnings_eq]
    unfold Plan.Balanced Plan.State.reported at hbalanced
    simpa using hbalanced.symm
  refine ⟨fun hg hp hk => ?_, hcount⟩
  have hnone : r.stats.cycleBreaks = 0 := by
    have hstart : Plan.State.Downstream scene.graph (target.request node).node {} := by
      intro key hkey
      cases hkey
    rw [hs.cycleBreaks_eq]
    exact Plan.cycleBreaks_planWithin hg hp hk hs.plan_eq hstart
  refine ⟨hnone, fun w hw => ?_⟩
  rw [hcount, List.countP_eq_zero] at hnone
  simpa using hnone w hw

/-- A source that is read by a node and, through two stages, by another. -/
def diamond : Scene where
  graph := .ofLists
    [{ id := "a", outputs := [.ofId "o" .vec4] },
      { id := "b", kind := .multiStage, inputs := [.ofId "i" .sampler2D],
        stages := [
          { id := "s", source := some "void run(vec2 uv, sampler2D i, out vec4 c) \x7b c = texture(i, uv); \x7d" },
          { id := "t", source := some "void run(vec2 uv, out vec4 c) \x7b c = texture(u_prevPass, uv); \x7d" }] },
      { id := "c", inputs := [.ofId "i" .sampler2D], outputs := [.ofId "o" .vec4] },
      { id := "d", inputs := [.ofId "i" .sampler2D, .ofId "j" .vec4], outputs := [.ofId "o" .vec4] }]
    [{ source := "a", target := "b", sourcePort := some "o", targetPort := some "i" },
      { source := "a", target := "c", sourcePort := some "o", targetPort := some "i" },
      { source := "b", target := "d", sourcePort := none, targetPort := some "i" },
      { source := "c", target := "d", sourcePort := some "o", targetPort := some "j" }]
  config := {}

/-- The source of the diamond is asked for twice, and no cycle is reported. -/
theorem cycles_counted_diamond : ∃ r log,
    compile diamond { node := some "d" } = (.ok r, log) ∧ r.failure = none ∧
      r.passes.map (·.id) = ["a", "b_pass_s", "b_pass_t", "d"] ∧
      r.stats.cycleBreaks = 0 ∧ ∀ w ∈ r.warnings, Plan.reportsCycle w = false := by
  have hrun : succeedsWith diamond { node := some "d" } (fun r =>
      decide (r.passes.map (·.id) = ["a", "b_pass_s", "b_pass_t", "d"])) = true := by
    decide +kernel
  obtain ⟨r, log, hr, hf, htest⟩ := exists_of_succeedsWith hrun
  have hg : diamond.graph.Acyclic := by
    refine Graph.acyclic_of_rank (fun id => ["a", "b", "c", "d"].idxOf id) ?_
    decide +kernel
  have hp : Plan.RefersToPrevious diamond.graph := by decide +kernel
  have hk : Plan.KeysApart diamond.graph := by decide +kernel
  exact ⟨r, log, hr, hf, of_decide_eq_true htest, (cycles_counted hr hf).1 hg hp hk⟩

end Compile

end RenderGraph
