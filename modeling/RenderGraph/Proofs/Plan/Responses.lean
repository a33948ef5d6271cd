import RenderGraph.Proofs.Plan.Course

/-!
# How a plan responds to requests

A request is answered item by item. An item that is planned already is found; one that is being planned
is reported; any other is built, and its passes are added. Stages are given the answer for the stage
before them. Whatever is to be shown of a plan follows from these cases, by induction on the passes that
are being planned at the same time.

## Main definitions

* `Plan.Built`: the passes of an item have been built
* `Plan.Obtains`, `Plan.Rounds`, `Plan.Responds`: how items and requests are answered
* `Plan.Invariant`: what every part of a plan keeps

## Main results

* `Plan.Built.loop_eq`, `Plan.Built.iterations`, `Plan.Built.course`: what is known of passes that were built
* `Plan.responds_planWithin`: a plan responds to requests
* `Plan.planWithin_induct`: what follows from the responses holds of a plan
* `Plan.Invariant.planWithin`: what a plan keeps
-/

namespace RenderGraph.Plan

/-- The passes of an item have been built on the way from one state to another, after a previous pass. -/
inductive Built (scene : Scene) (plan : Request → PlanM String) (previous : String) (s : State) :
    Item → Loop → List RenderPass → State → Prop
  | output {node : Node} {port : Option String} {p : RenderPass} {t : State}
      (hr : (buildPass scene plan node port (passKey node port)).run s = (.ok p, t)) :
      Built scene plan previous s (.output node port) { base := passKey node port, count := 1 } [p] t
  | stage {node : Node} {a : Stage} {template : RenderPass} {l : Loop} {passes : List RenderPass}
      {t u : State}
      (hr : (buildStage scene plan node a (stageKey node a) previous).run s = (.ok (template, l), t))
      (hi : (iterations scene template l).run t = (.ok passes, u)) :
      Built scene plan previous s (.stage node a) l passes u

/-- An item is answered after a previous pass. -/
inductive Obtains (scene : Scene) (plan : Request → PlanM String) (i : Item) (previous : String)
    (s : State) : String → State → Prop
  /-- It has been planned. -/
  | found {q : String} (hg : s.generated.get? i.key = some q) : Obtains scene plan i previous s q s
  /-- It is being planned. -/
  | cycle (hg : s.generated.get? i.key = none) (ha : i.key ∈ s.active) :
      Obtains scene plan i previous s i.key { s with
        warnings := s.warnings ++ [cycleWarning i.key],
        journal := s.journal ++ [.warn (cycleWarning i.key)],
        cycleBreaks := s.cycleBreaks + 1 }
  /-- It is built while its key is active, and then its passes are added. -/
  | built {l : Loop} {passes : List RenderPass} {t : State} (hg : s.generated.get? i.key = none)
      (ha : i.key ∉ s.active)
      (hb : Built scene plan previous { s with active := s.active ++ [i.key] } i l passes t) :
      Obtains scene plan i previous s l.lastId
        ({ t with active := t.active.erase i.key }.add passes i.key l.lastId)

/-- Items are answered one after the other, each after the answer for the one before it. -/
inductive Rounds (scene : Scene) (plan : Request → PlanM String) :
    List Item → String → State → String → State → Prop
  | nil {last : String} {s : State} : Rounds scene plan [] last s last s
  | cons {i : Item} {is : List Item} {last q q' : String} {s t u : State}
      (hi : Obtains scene plan i last s q t) (h : Rounds scene plan is q t q' u) :
      Rounds scene plan (i :: is) last s q' u

/-- A request is answered. -/
inductive Responds (scene : Scene) (plan : Request → PlanM String) (r : Request) (s : State) :
    String → State → Prop
  | answered {q : String} {t : State} (h : Rounds scene plan (r.items scene.graph) "" s q t) :
      Responds scene plan r s q t
  /-- There is no such stage. -/
  | missing {message : String} (hi : r.items scene.graph = []) (hw : reportsCycle message = false) :
      Responds scene plan r s "" { s with
        warnings := s.warnings ++ [message], journal := s.journal ++ [.warn message] }

variable {scene : Scene} {plan : Request → PlanM String} {previous : String} {s t : State} {i : Item}
  {l : Loop} {passes : List RenderPass}

/-! ### What was built -/

/-- A pass draws an iteration of a loop. -/
structure IsPassOf (l : Loop) (k : Nat) (p : RenderPass) : Prop where
  id_eq : p.id = l.iterationId k
  loopIndex_eq : p.loopIndex = if l.isLoop then some k else none

theorem map_id_eq {ks : List Nat} (h : List.Forall₂ (IsPassOf l) ks passes) :
    passes.map (·.id) = ks.map fun k : Nat => l.iterationId k := by
  rw [eq_comm, ← List.forall₂_eq_eq_eq, List.forall₂_map_left_iff, List.forall₂_map_right_iff]
  exact h.imp fun k p hp => hp.id_eq.symm

/-- The iterations of a stage in order; only samplers are made on the way. -/
private theorem leads_iterations (template : RenderPass) (hb : l.base ≠ "") :
    Leads (iterations scene template l) (fun ps t =>
      List.Forall₂ (fun k p => IsPassOf l k p ∧ (k = 0 → p = firstIteration template l 0))
        (List.range l.count.toNat) ps ∧ ∃ owners, t = { s with owners }) s := by
  refine (ends_iterations_turns scene template hb).mono (fun ps t ⟨hps, ht⟩ => ?_) fun _ _ => False.elim
  refine ⟨hps.imp fun k p hp => ?_, t.owners, ht.eq⟩
  rcases Nat.eq_zero_or_pos k with rfl | hk
  · obtain rfl := hp.eq_firstIteration
    exact ⟨⟨rfl, rfl⟩, fun _ => rfl⟩
  · obtain ⟨fragment, -, rfl⟩ := hp.exists_eq hk
    exact ⟨⟨rfl, rfl⟩, fun h0 => absurd h0 (Nat.pos_iff_ne_zero.1 hk)⟩

namespace Built

theorem loop_eq (h : Built scene plan previous s i l passes t) : i.loop = .ok l := by
  cases h with
  | output => rfl
  | stage hr => exact ((leads_buildStage_course _ previous).of_run_ok hr).1

private theorem base_ne {node : Node} {a : Stage}
    (h : Built scene plan previous s (.stage node a) l passes t) : l.base ≠ "" := by
  rw [(Item.loop_eq_ok h.loop_eq).1]
  exact stageKey_ne node a

/-- There is a pass for each iteration. -/
theorem iterations (h : Built scene plan previous s i l passes t) :
    List.Forall₂ (IsPassOf l) (List.range l.count.toNat) passes := by
  cases h with
  | output hr =>
    obtain ⟨hid, hindex, -⟩ := (leads_buildPass_course (s := s) _ _).of_run_ok hr
    exact .cons ⟨hid, hindex⟩ .nil
  | stage hr hi => exact ((leads_iterations _ (stage hr hi).base_ne).of_run_ok hi).1.imp fun _ _ h => h.1

/-- The first pass of a stage is drawn by the template that was built for it. -/
theorem exists_template {node : Node} {a : Stage}
    (h : Built scene plan previous s (.stage node a) l passes t) :
    ∃ template u,
      (buildStage scene plan node a (stageKey node a) previous).run s = (.ok (template, l), u) ∧
      List.Forall₂ (fun k p => IsPassOf l k p ∧ (k = 0 → p = firstIteration template l 0))
        (List.range l.count.toNat) passes := by
  cases h with
  | stage hr hi => exact ⟨_, _, hr, ((leads_iterations _ (stage hr hi).base_ne).of_run_ok hi).1⟩

/-- What an item wants is asked for, and nothing else. -/
theorem course (h : Built scene plan previous s i l passes t) :
    ∃ rs, Course scene.graph plan s rs 0 t ∧ ∀ r, r ∈ rs ↔ i.Wants scene.graph r := by
  cases h with
  | output hr =>
    obtain ⟨-, -, hcourse⟩ := (leads_buildPass_course _ _).of_run_ok hr
    exact hcourse
  | stage hr hi =>
    have hcourse := ((leads_buildStage_course _ previous).of_run_ok hr).2
    obtain ⟨-, owners, rfl⟩ := (leads_iterations _ (stage hr hi).base_ne).of_run_ok hi
    exact ⟨_, hcourse.own owners, fun r => Iff.rfl⟩

end Built

/-! ### Responses -/

theorem leads_planOutput (node : Node) (port : Option String) (previous : String) :
    Leads (planOutput scene plan node port)
      (Obtains scene plan (.output node port) previous s) s := by
  unfold planOutput
  rw [Leads, ends_bind, ends_get]
  cases hg : s.generated.get? (passKey node port) with
  | some q => exact .found hg
  | none =>
    dsimp only
    by_cases ha : passKey node port ∈ s.active
    · rw [if_pos ha, ends_bind, ends_breakCycle, ends_pure]
      exact .cycle (i := .output node port) hg ha
    · rw [if_neg ha, ends_bind, ends_whileActive, ends_iff]
      refine ⟨fun p t hr => ?_, fun _ _ _ => trivial⟩
      rw [ends_bind, ends_addPasses, ends_pure]
      exact .built (i := .output node port) hg ha (.output hr)

/-- A round of a plan for stages. -/
private theorem leads_round (node : Node) (a : Stage) :
    Leads (do
        let key := stageKey node a
        let state ← get
        match state.generated.get? key with
        | some pass => pure pass
        | none =>
          if key ∈ state.active then
            breakCycle key
            pure key
          else whileActive key (planStage scene plan node a key previous))
      (Obtains scene plan (.stage node a) previous s) s := by
  rw [Leads, ends_bind, ends_get]
  cases hg : s.generated.get? (stageKey node a) with
  | some q => exact .found hg
  | none =>
    dsimp only
    by_cases ha : stageKey node a ∈ s.active
    · rw [if_pos ha, ends_bind, ends_breakCycle, ends_pure]
      exact .cycle (i := .stage node a) hg ha
    · rw [if_neg ha, ends_whileActive]
      unfold planStage
      rw [ends_bind, ends_iff]
      refine ⟨fun r t hr => ?_, fun _ _ _ => trivial⟩
      dsimp only
      rw [ends_bind, ends_iff]
      refine ⟨fun passes u hi => ?_, fun _ _ _ => trivial⟩
      rw [ends_bind, ends_addPasses, ends_pure]
      exact .built (i := .stage node a) hg ha (.stage hr hi)

private theorem leads_rounds (node : Node) (stages : List Stage) :
    Leads (stages.foldlM (fun last a => do
        let key := stageKey node a
        let state ← get
        match state.generated.get? key with
        | some pass => pure pass
        | none =>
          if key ∈ state.active then
            breakCycle key
            pure key
          else whileActive key (planStage scene plan node a key last)) previous)
      (Rounds scene plan (stages.map (.stage node)) previous s) s := by
  induction stages generalizing previous s with
  | nil => exact .nil
  | cons a stages ih =>
    rw [List.foldlM_cons, Leads, ends_bind]
    refine (leads_round node a).mono (fun q t hq => ?_) fun _ _ => id
    exact ih.mono (fun q' u hu => .cons hq hu) fun _ _ => id

/-- A plan responds to requests, and asks the plan with less fuel on the way. -/
theorem responds_planWithin {n : Nat} {r : Request} {q : String}
    (h : (planWithin scene (n + 1) r).run s = (.ok q, t)) :
    Responds scene (planWithin scene n) r s q t := by
  have hleads : Leads (planWithin scene (n + 1) r)
      (Responds scene (planWithin scene n) r s) s := by
    unfold planWithin
    rw [Leads, ends_bind, ends_lift, Graph.requireNode]
    cases hn : scene.graph.node? r.node with
    | none => trivial
    | some node =>
      rw [yields_ok]
      split
      · next hm =>
        have hitems : r.items scene.graph = (requestedStages node r.stage).map (.stage node) := by
          simp only [Request.items, hn, hm, if_true]
        unfold planStages
        dsimp only
        split
        · next hempty =>
          have hnone : requestedStages node r.stage = [] := List.isEmpty_iff.1 hempty
          rw [ends_bind, ends_warn, hnone, List.foldlM_nil, ends_pure]
          exact .missing (by rw [hitems, hnone]; rfl) (reportsCycle_missing _ _)
        · refine (leads_rounds node _).mono (fun q t hq => .answered ?_) fun _ _ => id
          rw [hitems]
          exact hq
      · next hm =>
        have hitems : r.items scene.graph = [.output node r.port] := by
          simp only [Request.items, hn, hm]
          rfl
        refine (leads_planOutput node r.port "").mono (fun q t hq => .answered ?_) fun _ _ => id
        rw [hitems]
        exact .cons hq .nil
  exact hleads.of_run_ok h

/-- What follows from the responses of a plan, given that it holds of the answers on the way, holds of
the plan. -/
theorem planWithin_induct {P : Request → State → String → State → Prop}
    (h : ∀ {n : Nat} {r : Request} {s t : State} {q : String},
      (∀ {r : Request} {s t : State} {q : String},
        (planWithin scene n r).run s = (.ok q, t) → P r s q t) →
      Responds scene (planWithin scene n) r s q t → P r s q t)
    {n : Nat} {r : Request} {q : String} (hr : (planWithin scene n r).run s = (.ok q, t)) :
    P r s q t := by
  induction n generalizing r s t q with
  | zero =>
    have hfail : Leads (planWithin scene 0 r) (fun _ _ => False) s := trivial
    exact (hfail.of_run_ok hr).elim
  | succ n ih => exact h ih (responds_planWithin hr)

/-! ### What a plan keeps -/

/-- Rounds keep what is kept by every answer. -/
theorem Rounds.preserves {I : State → Prop} {is : List Item} {last q : String}
    (h : Rounds scene plan is last s q t)
    (hi : ∀ i ∈ is, ∀ {previous q : String} {s t : State}, Obtains scene plan i previous s q t →
      I s → I t) (hs : I s) : I t := by
  induction h with
  | nil => exact hs
  | cons ho _ ih =>
    exact ih (fun j hj => hi j (List.mem_cons_of_mem _ hj)) (hi _ List.mem_cons_self ho hs)

/-- What is kept by quiet changes, when a key becomes active and when the passes of an item are added. -/
structure Invariant (scene : Scene) (I : State → Prop) : Prop where
  quiet : ∀ {s t : State}, I s → s.Quiet t → I t
  enter : ∀ {s : State} {key : String}, I s → s.generated.get? key = none → key ∉ s.active →
    I { s with active := s.active ++ [key] }
  add : ∀ {t : State} {i : Item} {l : Loop} {passes : List RenderPass} {rest : List String},
    I t → t.active = rest ++ [i.key] → i.key ∉ rest → i.In scene.graph → i.loop = .ok l →
    List.Forall₂ (IsPassOf l) (List.range l.count.toNat) passes →
    I ({ t with active := rest }.add passes i.key l.lastId)

namespace Invariant

variable {I : State → Prop} {previous q : String}

/-- An invariant of the plan holds when an item has been answered. -/
theorem obtains (hI : Invariant scene I)
    (hplan : ∀ {r : Request} {s t : State} {q : String}, (plan r).run s = (.ok q, t) → I s →
      I t ∧ t.active = s.active)
    (hi : i.In scene.graph) (h : Obtains scene plan i previous s q t) (hs : I s) :
    I t ∧ t.active = s.active := by
  cases h with
  | found => exact ⟨hs, rfl⟩
  | cycle => exact ⟨hI.quiet hs ⟨rfl, rfl, rfl, List.prefix_append _ _⟩, rfl⟩
  | @built l passes t hg ha hb =>
    obtain ⟨rs, hcourse, -⟩ := hb.course
    have ht := hcourse.preserves (I := fun t => I t ∧ t.active = s.active ++ [i.key])
      ⟨hI.enter hs hg ha, rfl⟩
      (fun h hquiet => ⟨hI.quiet h.1 hquiet, hquiet.active_eq.trans h.2⟩)
      (fun r _ t u q h hrun => ⟨(hplan hrun h.1).1, (hplan hrun h.1).2.trans h.2⟩)
    rw [erase_active ha ht.2]
    exact ⟨hI.add ht.1 ht.2 ha hi hb.loop_eq hb.iterations, rfl⟩

theorem rounds (hI : Invariant scene I)
    (hplan : ∀ {r : Request} {s t : State} {q : String}, (plan r).run s = (.ok q, t) → I s →
      I t ∧ t.active = s.active) {is : List Item} (hi : ∀ i ∈ is, i.In scene.graph)
    (h : Rounds scene plan is previous s q t) (hs : I s) : I t ∧ t.active = s.active := by
  refine h.preserves (I := fun t => I t ∧ t.active = s.active) (fun i hm _ _ u v ho hu => ?_)
    ⟨hs, rfl⟩
  obtain ⟨hv, hactive⟩ := hI.obtains hplan (hi i hm) ho hu.1
  exact ⟨hv, hactive.trans hu.2⟩

/-- An invariant holds as long as a plan runs. -/
theorem planWithin (hI : Invariant scene I) {n : Nat} {r : Request}
    (hr : (Plan.planWithin scene n r).run s = (.ok q, t)) (hs : I s) : I t ∧ t.active = s.active := by
  suffices hall : I s → I t ∧ t.active = s.active from hall hs
  refine planWithin_induct (P := fun _ s _ t => I s → I t ∧ t.active = s.active) ?_ hr
  intro n r s t q ih h hs
  cases h with
  | answered h => exact hI.rounds ih (fun i hi => (Request.in_of_mem_items hi).1) h hs
  | missing => exact ⟨hI.quiet hs ⟨rfl, rfl, rfl, List.prefix_append _ _⟩, rfl⟩

end Invariant

private theorem invariant_true (scene : Scene) : Invariant scene fun _ => True :=
  ⟨fun _ _ => trivial, fun _ _ _ => trivial, fun _ _ _ _ _ _ => trivial⟩

/-- The keys that are active stay so while a plan runs. -/
theorem active_planWithin {n : Nat} {r : Request} {q : String}
    (h : (planWithin scene n r).run s = (.ok q, t)) : t.active = s.active :=
  ((invariant_true scene).planWithin h trivial).2

theorem active_rounds {n : Nat} {is : List Item} {q : String} (hi : ∀ i ∈ is, i.In scene.graph)
    (h : Rounds scene (planWithin scene n) is previous s q t) : t.active = s.active :=
  ((invariant_true scene).rounds (invariant_true scene).planWithin hi h trivial).2

end RenderGraph.Plan
