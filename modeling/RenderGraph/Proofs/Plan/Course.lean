import RenderGraph.Proofs.Plan.Requests
import RenderGraph.Proofs.Shader.Warnings

/-!
# The course of a building

While a pass is being built, its state changes in a few ways: warnings are issued, dropped edges are
reported and later counted, samplers are made, and the plan is asked for other passes. `Course` records
these changes with the requests in their order. A search reports an edge only if it closes a cycle of
the graph, and it asks for the outputs that the pass reads, for no others and for all of them.

## Main definitions

* `Plan.reportsCycle`: the warning reports a cycle
* `Plan.Course`: what is done while a pass is being built
* `Plan.State.Quiet`: nothing was planned
* `Plan.Explores`: what a search does on the way from one state to another

## Main results

* `Plan.Course.induct`, `Plan.Course.preserves`: what a course keeps
* `Plan.leads_collect`: the course of a search
* `Plan.leads_buildPass_course`, `Plan.leads_buildStage_course`: the courses of buildings
-/

namespace RenderGraph.Plan

open Relation (ReflTransGen TransGen)

/-! ### Reports of cycles -/

/-- The warning reports a cycle, of nodes in one pass or of passes. -/
def reportsCycle (warning : String) : Bool :=
  "Inline Cycle detected".toList.isPrefixOf warning.toList ||
    "Pass Cycle detected".toList.isPrefixOf warning.toList

/-- What a search tells of an edge that it drops. -/
def inlineWarning (id : String) : String :=
  "Inline Cycle detected at node " ++ id ++ ". Breaking edge."

private theorem isPrefixOf_append (head rest : String) :
    head.toList.isPrefixOf (head ++ rest).toList = true := by
  rw [List.isPrefixOf_iff_prefix, String.toList_append]
  exact List.prefix_append _ _

@[simp]
theorem reportsCycle_cycleWarning (key : String) : reportsCycle (cycleWarning key) = true := by
  have hhead : "Pass Cycle detected at pass " = "Pass Cycle detected" ++ " at pass " := by
    decide +kernel
  have h := isPrefixOf_append "Pass Cycle detected" (" at pass " ++ key ++ ". Breaking loop.")
  rw [String.append_assoc, ← String.append_assoc, ← hhead, ← String.append_assoc] at h
  exact Bool.or_eq_true_iff.2 (Or.inr h)

@[simp]
theorem reportsCycle_inlineWarning (id : String) : reportsCycle (inlineWarning id) = true := by
  have hhead : "Inline Cycle detected at node " = "Inline Cycle detected" ++ " at node " := by
    decide +kernel
  have h := isPrefixOf_append "Inline Cycle detected" (" at node " ++ id ++ ". Breaking edge.")
  rw [String.append_assoc, ← String.append_assoc, ← hhead, ← String.append_assoc] at h
  exact Bool.or_eq_true_iff.2 (Or.inl h)

theorem reportsCycle_of_tellsOfElement {warning : String} (h : Shader.TellsOfElement warning) :
    reportsCycle warning = false := by
  obtain ⟨rest, rfl⟩ := h
  rw [reportsCycle, String.toList_append]
  rfl

/-- What is told of a missing stage is no report of a cycle. -/
theorem reportsCycle_missing (id node : String) :
    reportsCycle ("Target pass \"" ++ id ++ "\" not found in node " ++ node) = false := by
  simp only [reportsCycle, String.toList_append]
  rfl

theorem reportsCycle_dependency (id node : String) :
    reportsCycle ("Pass dependency \"" ++ id ++ "\" not found in node " ++ node) = false := by
  simp only [reportsCycle, String.toList_append]
  rfl

/-! ### Courses -/

/-- What is done on the way from one state to another while a pass is being built: the requests that
were made, and how many dropped edges were reported but not counted yet. -/
inductive Course (g : Graph) (plan : Request → PlanM String) (s : State) :
    List Request → Nat → State → Prop
  | refl : Course g plan s [] 0 s
  /-- Warnings are issued that report no cycle. -/
  | note {rs : List Request} {k : Nat} {t : State} (h : Course g plan s rs k t)
      (warnings : List String) (journal : List Journal.Record)
      (hw : ∀ w ∈ warnings, reportsCycle w = false) :
      Course g plan s rs k { t with warnings := t.warnings ++ warnings, journal }
  /-- An edge is dropped that closes a cycle of the graph. -/
  | drop {rs : List Request} {k : Nat} {t : State} (h : Course g plan s rs k t) {id : String}
      (journal : List Journal.Record) (hc : TransGen g.Feeds id id) :
      Course g plan s rs (k + 1)
        { t with warnings := t.warnings ++ [inlineWarning id], journal }
  /-- Dropped edges are counted. -/
  | count {rs : List Request} {k j : Nat} {t : State} (h : Course g plan s rs (k + j) t) :
      Course g plan s rs k { t with cycleBreaks := t.cycleBreaks + j }
  /-- Samplers are made. -/
  | own {rs : List Request} {k : Nat} {t : State} (h : Course g plan s rs k t)
      (owners : Keyed String) : Course g plan s rs k { t with owners }
  /-- The plan is asked. -/
  | ask {rs : List Request} {k : Nat} {t u : State} {r : Request} {q : String}
      (h : Course g plan s rs k t) (hr : (plan r).run t = (.ok q, u)) :
      Course g plan s (rs ++ [r]) k u

namespace Course

variable {g : Graph} {plan : Request → PlanM String} {s t u : State} {rs rs' : List Request}
  {k k' : Nat}

theorem trans (h : Course g plan s rs k t) (h' : Course g plan t rs' k' u) :
    Course g plan s (rs ++ rs') (k + k') u := by
  induction h' with
  | refl =>
    rw [List.append_nil]
    exact h
  | note _ warnings journal hw ih => exact ih.note warnings journal hw
  | drop _ journal hc ih => exact ih.drop journal hc
  | count _ ih =>
    rw [← Nat.add_assoc] at ih
    exact ih.count
  | own _ owners ih => exact ih.own owners
  | ask _ hr ih =>
    rw [← List.append_assoc]
    exact ih.ask hr

/-- A sampler is made on the way. -/
theorem sampler (h : Course g plan s rs k t) (config : Config) (pass : String)
    {E : Fault → State → Prop} :
    Ends (Plan.sampler config pass) (fun _ u => Course g plan s rs k u) E t := by
  rw [ends_sampler]
  split
  · exact h
  · exact h.own _

end Course

/-- One state comes from another without passes being planned. -/
structure State.Quiet (s t : State) : Prop where
  passes_eq : t.passes = s.passes
  generated_eq : t.generated = s.generated
  active_eq : t.active = s.active
  warnings : s.warnings <+: t.warnings

/-- What quiet changes and the answers to the requests of a course keep holds in the end, of all the
requests. -/
theorem Course.induct {g : Graph} {plan : Request → PlanM String} {s t : State}
    {rs : List Request} {k : Nat} {J : List Request → State → Prop} (h : Course g plan s rs k t)
    (hs : J [] s) (hq : ∀ {rs : List Request} {t u : State}, J rs t → t.Quiet u → J rs u)
    (hr : ∀ r ∈ rs, ∀ {done : List Request} {t u : State} {q : String}, J done t →
      (plan r).run t = (.ok q, u) → J (done ++ [r]) u) : J rs t := by
  induction h with
  | refl => exact hs
  | note _ warnings journal _ ih =>
    exact hq (ih hr) ⟨rfl, rfl, rfl, List.prefix_append _ _⟩
  | drop _ journal _ ih => exact hq (ih hr) ⟨rfl, rfl, rfl, List.prefix_append _ _⟩
  | count _ ih => exact hq (ih hr) ⟨rfl, rfl, rfl, List.prefix_refl _⟩
  | own _ owners ih => exact hq (ih hr) ⟨rfl, rfl, rfl, List.prefix_refl _⟩
  | ask _ hrun ih =>
    refine hr _ (List.mem_append_right _ List.mem_cons_self) (ih fun r hm => ?_) hrun
    exact hr r (List.mem_append_left _ hm)

/-- A course keeps what is kept by quiet changes and by the answers to its requests. -/
theorem Course.preserves {g : Graph} {plan : Request → PlanM String} {s t : State}
    {rs : List Request} {k : Nat} {I : State → Prop} (h : Course g plan s rs k t) (hs : I s)
    (hq : ∀ {t u : State}, I t → t.Quiet u → I u)
    (hr : ∀ r ∈ rs, ∀ {t u : State} {q : String}, I t → (plan r).run t = (.ok q, u) → I u) : I t :=
  h.induct (J := fun _ => I) hs hq fun r hm => hr r hm

/-! ### Searches -/

/-- What a search does while some nodes are being visited: the edges that it follows, with the nodes that
they lead to. -/
structure Explores (g : Graph) (plan : Request → PlanM String) (stack : List String) (root : String)
    (sub : Subgraph) (s : State) (followed : List (Node × Edge)) (sub' : Subgraph) (t : State) :
    Prop where
  /-- Every boundary among the edges is asked for, and nothing else. -/
  course : ∃ rs k, Course g plan s rs k t ∧ sub'.cycleBreaks = sub.cycleBreaks + k ∧
    ∀ r, r ∈ rs ↔ ∃ f ∈ followed, IsBoundaryEdge g f.1 f.2 ∧ r = edgeRequest f.2
  /-- All edges into the nodes that are added have been followed. -/
  order : ∃ added, sub'.order = sub.order ++ added ∧
    ∀ n ∈ added, n ∈ g.nodeList ∧ ∀ e ∈ g.incoming n.id, (n, e) ∈ followed
  /-- The edges are found from the root. -/
  reached : ∀ f ∈ followed, f.1 ∈ g.nodeList ∧ ReflTransGen (InlinesFrom g) root f.1.id
  /-- What is to be inlined has been added, unless it is being visited. -/
  inlined : ∀ f ∈ followed, IsInlineEdge g f.1 f.2 →
    f.2.source ∈ stack ∨ sub'.holds f.2.source = true

namespace Explores

variable {g : Graph} {plan : Request → PlanM String} {stack : List String} {root : String}
  {sub sub' sub'' : Subgraph} {s t u : State} {followed followed' : List (Node × Edge)}

theorem refl : Explores g plan stack root sub s [] sub s where
  course := ⟨[], 0, .refl, rfl, by simp⟩
  order := ⟨[], (List.append_nil _).symm, by simp⟩
  reached := by simp
  inlined := by simp

theorem holds (h : Explores g plan stack root sub s followed sub' t) {id : String}
    (hid : sub.holds id = true) : sub'.holds id = true := by
  obtain ⟨added, ho, -⟩ := h.order
  rw [Subgraph.holds, ho, List.any_append, Bool.or_eq_true]
  exact Or.inl hid

theorem trans (h : Explores g plan stack root sub s followed sub' t)
    (h' : Explores g plan stack root sub' t followed' sub'' u) :
    Explores g plan stack root sub s (followed ++ followed') sub'' u where
  course := by
    obtain ⟨rs, k, hc, hk, hrs⟩ := h.course
    obtain ⟨rs', k', hc', hk', hrs'⟩ := h'.course
    refine ⟨rs ++ rs', k + k', hc.trans hc', by omega, fun r => ?_⟩
    rw [List.mem_append, hrs, hrs']
    simp only [List.mem_append, or_and_right, exists_or]
  order := by
    obtain ⟨added, ho, hadded⟩ := h.order
    obtain ⟨added', ho', hadded'⟩ := h'.order
    refine ⟨added ++ added', by rw [ho', ho, List.append_assoc], fun n hn => ?_⟩
    rcases List.mem_append.1 hn with hn | hn
    · exact ⟨(hadded n hn).1, fun e he => List.mem_append_left _ ((hadded n hn).2 e he)⟩
    · exact ⟨(hadded' n hn).1, fun e he => List.mem_append_right _ ((hadded' n hn).2 e he)⟩
  reached f hf := (List.mem_append.1 hf).elim (h.reached f) (h'.reached f)
  inlined f hf hi :=
    (List.mem_append.1 hf).elim (fun hf => (h.inlined f hf hi).imp_right h'.holds)
      (h'.inlined f · hi)

/-- What a search does for the source of an edge it does for the node that the edge leads to. -/
theorem along {n : Node} {e : Edge} (hn : n ∈ g.nodeList) (he : IsInlineEdge g n e)
    (h : Explores g plan stack e.source sub s followed sub' t)
    (hs : e.source ∈ stack ∨ sub'.holds e.source = true) :
    Explores g plan stack n.id sub s ((n, e) :: followed) sub' t where
  course := by
    obtain ⟨rs, k, hc, hk, hrs⟩ := h.course
    refine ⟨rs, k, hc, hk, fun r => (hrs r).trans ?_⟩
    have hboundary : ¬ IsBoundaryEdge g n e := by
      rintro ⟨-, port, source, hp, hsource, hb⟩
      obtain ⟨-, source', hsource', hi⟩ := he
      obtain rfl : source = source' := Option.some.inj (hsource.symm.trans hsource')
      simp only [hp, hb] at hi
      cases hi
    simp [hboundary]
  order := by
    obtain ⟨added, ho, hadded⟩ := h.order
    refine ⟨added, ho, fun m hm => ⟨(hadded m hm).1, fun d hd => ?_⟩⟩
    exact List.mem_cons_of_mem _ ((hadded m hm).2 d hd)
  reached f hf := by
    rcases List.mem_cons.1 hf with rfl | hf
    · exact ⟨hn, .refl⟩
    · have hstep : InlinesFrom g n.id e.source := ⟨n, e, Graph.mem_nodeList_iff.1 hn, he, rfl⟩
      exact ⟨(h.reached f hf).1, .head hstep (h.reached f hf).2⟩
  inlined f hf hi := by
    rcases List.mem_cons.1 hf with rfl | hf
    · exact hs
    · exact h.inlined f hf hi

/-- A boundary is asked for. -/
theorem ask {n : Node} {e : Edge} (hn : n ∈ g.nodeList) (he : IsBoundaryEdge g n e)
    (hi : ¬ IsInlineEdge g n e) (textures : Keyed String)
    (hc : Course g plan s [edgeRequest e] 0 t) :
    Explores g plan stack n.id sub s [(n, e)] { sub with textures } t where
  course := ⟨[edgeRequest e], 0, hc, rfl, by simp [he]⟩
  order := ⟨[], (List.append_nil _).symm, by simp⟩
  reached := by simp [hn, ReflTransGen.refl]
  inlined := by simp [hi]

/-- An edge is left alone that is to be inlined no more than it is a boundary. -/
theorem skip {n : Node} {e : Edge} (hn : n ∈ g.nodeList) (he : ¬ IsBoundaryEdge g n e)
    (hi : ¬ IsInlineEdge g n e) : Explores g plan stack n.id sub s [(n, e)] sub s where
  course := ⟨[], 0, .refl, rfl, by simp [he]⟩
  order := ⟨[], (List.append_nil _).symm, by simp⟩
  reached := by simp [hn, ReflTransGen.refl]
  inlined := by simp [hi]

/-- A node is added when all edges into it have been followed. -/
theorem close {n : Node} (hn : n ∈ g.nodeList)
    (h : Explores g plan (n.id :: stack) n.id sub s followed sub' t)
    (hf : ∀ e ∈ g.incoming n.id, (n, e) ∈ followed) :
    Explores g plan stack n.id sub s followed { sub' with order := sub'.order ++ [n] } t where
  course := h.course
  order := by
    obtain ⟨added, ho, hadded⟩ := h.order
    refine ⟨added ++ [n], ?_, fun m hm => ?_⟩
    · show sub'.order ++ [n] = _
      rw [ho, List.append_assoc]
    · rcases List.mem_append.1 hm with hm | hm
      · exact hadded m hm
      · exact List.mem_singleton.1 hm ▸ ⟨hn, hf⟩
  reached := h.reached
  inlined f hf hi := by
    show f.2.source ∈ stack ∨ (sub'.order ++ [n]).any (·.id == f.2.source) = true
    rw [List.any_append, Bool.or_eq_true]
    rcases h.inlined f hf hi with hmem | hheld
    · rcases List.mem_cons.1 hmem with he | hmem
      · exact Or.inr (Or.inr (by simp [he]))
      · exact Or.inl hmem
    · exact Or.inr (Or.inl hheld)

end Explores

section Search

variable {scene : Scene} {plan : Request → PlanM String} {stack : List String} {sub : Subgraph}
  {s : State} {node : Node}

/-- A search explores from a node and collects it, unless it is being visited. -/
def Collects (scene : Scene) (plan : Request → PlanM String) (stack : List String) (id : String)
    (sub : Subgraph) (s : State) (sub' : Subgraph) (t : State) : Prop :=
  (∃ followed, Explores scene.graph plan stack id sub s followed sub' t) ∧
    (id ∈ stack ∨ sub'.holds id = true)

/-- An edge is followed. -/
private theorem leads_follow {visit : String → Subgraph → HostM State Subgraph} {e : Edge}
    (hn : node ∈ scene.graph.nodeList) (he : e ∈ scene.graph.incoming node.id)
    (hv : ∀ sub s, Leads (visit e.source sub) (Collects scene plan stack e.source sub s) s) :
    Leads (follow scene.graph (host scene plan) visit node e sub) (fun sub' t => ∃ followed,
      Explores scene.graph plan stack node.id sub s followed sub' t ∧ (node, e) ∈ followed) s := by
  have halong (hi : IsInlineEdge scene.graph node e) :
      Leads (visit e.source sub) (fun sub' t => ∃ followed,
        Explores scene.graph plan stack node.id sub s followed sub' t ∧ (node, e) ∈ followed) s := by
    refine (hv sub s).mono ?_ fun _ _ => id
    rintro sub' t ⟨⟨followed, h⟩, hheld⟩
    exact ⟨_, h.along hn hi hheld, List.mem_cons_self⟩
  unfold follow
  rw [Leads, ends_bind, ends_lift, Graph.requireNode]
  cases hs : scene.graph.node? e.source with
  | none => trivial
  | some source =>
    have hid : source.id = e.source := scene.graph.id_eq hs
    rw [yields_ok]
    cases hp : node.findInput e.targetPort with
    | none =>
      have hboundary : ¬ IsBoundaryEdge scene.graph node e := by
        rintro ⟨-, port, -, hp', -⟩
        rw [hp] at hp'
        cases hp'
      dsimp only
      rw [ends_bind, ends_lift, yields_iff]
      refine ⟨fun feeds hfeeds => ?_, fun _ _ => trivial⟩
      cases feeds with
      | true =>
        have hi : IsInlineEdge scene.graph node e := ⟨he, source, hs, by rw [hp]; exact hfeeds⟩
        rw [if_pos rfl, hid]
        exact halong hi
      | false =>
        have hi : ¬ IsInlineEdge scene.graph node e := by
          rintro ⟨-, source', hs', hi⟩
          rw [hs, Option.some.injEq] at hs'
          subst hs'
          rw [hp] at hi
          cases hfeeds.symm.trans hi
        exact ⟨_, .skip hn hboundary hi, List.mem_cons_self⟩
    | some port =>
      dsimp only
      split
      · next hb =>
        have hi : ¬ IsInlineEdge scene.graph node e := by
          rintro ⟨-, source', hs', hi⟩
          rw [hs, Option.some.injEq] at hs'
          subst hs'
          rw [hp] at hi
          exact Bool.false_ne_true (hi.symm.trans hb)
        show Leads ((plan { node := source.id, port := e.sourcePort } >>= sampler scene.config) >>= _)
          _ s
        rw [hid, Leads, ends_bind, ends_bind, ends_iff]
        refine ⟨fun q t hq => ?_, fun _ _ _ => trivial⟩
        have hcourse : Course scene.graph plan s [edgeRequest e] 0 t :=
          Course.ask (r := edgeRequest e) .refl hq
        refine (hcourse.sampler scene.config q).mono (fun name u hu => ?_) fun _ _ => id
        exact ⟨_, .ask hn ⟨he, port, source, hp, hs, hb⟩ hi _ hu, List.mem_cons_self⟩
      · next hb =>
        rw [Bool.not_eq_true] at hb
        have hi : IsInlineEdge scene.graph node e := ⟨he, source, hs, by rw [hp]; exact hb⟩
        rw [hid]
        exact halong hi

/-- Edges are followed one after the other. -/
private theorem leads_followAll (stack : List String)
    {visit : String → Subgraph → HostM State Subgraph} {es : List Edge}
    (hn : node ∈ scene.graph.nodeList) (he : ∀ e ∈ es, e ∈ scene.graph.incoming node.id)
    (hv : ∀ e ∈ es, ∀ sub s,
      Leads (visit e.source sub) (Collects scene plan stack e.source sub s) s) :
    Leads (es.foldlM (fun sub e => follow scene.graph (host scene plan) visit node e sub) sub)
      (fun sub' t => ∃ followed, Explores scene.graph plan stack node.id sub s followed sub' t ∧
        ∀ e ∈ es, (node, e) ∈ followed) s := by
  induction es generalizing sub s with
  | nil => exact ⟨[], .refl, by simp⟩
  | cons e es ih =>
    rw [List.foldlM_cons, Leads, ends_bind]
    refine (leads_follow hn (he e List.mem_cons_self) (hv e List.mem_cons_self)).mono ?_
      fun _ _ => id
    rintro sub' t ⟨followed, h, hmem⟩
    refine (ih (fun d hd => he d (List.mem_cons_of_mem e hd))
      fun d hd => hv d (List.mem_cons_of_mem e hd)).mono ?_ fun _ _ => id
    rintro sub'' u ⟨followed', h', hmem'⟩
    refine ⟨followed ++ followed', h.trans h', fun d hd => ?_⟩
    rcases List.mem_cons.1 hd with rfl | hd
    · exact List.mem_append_left _ hmem
    · exact List.mem_append_right _ (hmem' d hd)

/-- The course of a visit. The nodes being visited stand downstream, so that an edge that leads back to
one of them closes a cycle. -/
private theorem leads_visit {fuel : Nat} {id : String}
    (hst : ∀ m ∈ stack, TransGen scene.graph.Feeds id m) :
    Leads (visit scene.graph (host scene plan) fuel stack id sub)
      (Collects scene plan stack id sub s) s := by
  induction fuel generalizing stack id sub s with
  | zero => trivial
  | succ fuel ih =>
    unfold visit
    split
    · next hheld => exact ⟨⟨[], .refl⟩, Or.inr hheld⟩
    · split
      · next hmem =>
        refine ⟨⟨[], ?_⟩, Or.inl hmem⟩
        exact {
          course := ⟨[], 1, Course.refl.drop _ (hst id hmem), rfl, by simp⟩
          order := ⟨[], (List.append_nil _).symm, by simp⟩
          reached := by simp
          inlined := by simp }
      · rw [Leads, ends_bind, ends_lift, Graph.requireNode]
        cases hn : scene.graph.node? id with
        | none => trivial
        | some node =>
          obtain rfl : node.id = id := scene.graph.id_eq hn
          rw [yields_ok, ends_bind]
          refine (leads_followAll (node.id :: stack) (Graph.mem_nodeList_iff.2 hn)
            (fun _ => id) fun e he sub s => ?_).mono ?_ fun _ _ => id
          · have hfeeds := feeds_of_mem_incoming he
            refine ih fun m hm => ?_
            rcases List.mem_cons.1 hm with rfl | hm
            · exact .single hfeeds
            · exact .head hfeeds (hst m hm)
          · rintro sub' t ⟨followed, h, hall⟩
            refine ⟨⟨followed, h.close (Graph.mem_nodeList_iff.2 hn) hall⟩, Or.inr ?_⟩
            show (sub'.order ++ [node]).any (·.id == node.id) = true
            simp

/-- A search asks for what a pass reads, and counts the edges that it drops. -/
theorem leads_collect (root : String) :
    Leads (collect scene.graph (host scene plan) root) (fun sub t => ∃ rs,
      Course scene.graph plan s rs sub.cycleBreaks t ∧
        ∀ r, r ∈ rs ↔ ReadsOutput scene.graph root r) s := by
  refine (leads_visit (by simp)).mono ?_ fun _ _ => id
  rintro sub t ⟨⟨followed, h⟩, hroot⟩
  obtain ⟨rs, k, hcourse, hk, hrs⟩ := h.course
  obtain ⟨added, horder, hadded⟩ := h.order
  have hk' : sub.cycleBreaks = k := by
    rw [hk]
    exact Nat.zero_add k
  have horder' : sub.order = added := horder
  have hfollowed {n : Node} (hmem : n ∈ scene.graph.nodeList) (hheld : sub.holds n.id = true) :
      ∀ e ∈ scene.graph.incoming n.id, (n, e) ∈ followed := by
    obtain ⟨m, hm, hid⟩ := List.any_eq_true.1 hheld
    obtain ⟨hlist, hedges⟩ := hadded m (horder' ▸ hm)
    have hget : some m = some n := by
      rw [← Graph.mem_nodeList_iff.1 hlist, eq_of_beq hid, Graph.mem_nodeList_iff.1 hmem]
    exact Option.some.inj hget ▸ hedges
  -- All nodes that are taken in have been collected, since none is being visited any more.
  have hheld {id : String} (hreach : ReflTransGen (InlinesFrom scene.graph) root id) :
      sub.holds id = true := by
    induction hreach with
    | refl => exact hroot.resolve_left (by simp)
    | tail _ hstep ih =>
      obtain ⟨n, e, hget, he, rfl⟩ := hstep
      obtain rfl := scene.graph.id_eq hget
      have hf := hfollowed (Graph.mem_nodeList_iff.2 hget) ih e he.1
      exact (h.inlined (n, e) hf he).resolve_left (by simp)
  refine ⟨rs, hk' ▸ hcourse, fun r => (hrs r).trans ⟨?_, ?_⟩⟩
  · rintro ⟨f, hf, hb, rfl⟩
    exact ⟨f.1, f.2, (h.reached f hf).1, (h.reached f hf).2, hb, rfl⟩
  · rintro ⟨n, e, hmem, hreach, hb, rfl⟩
    exact ⟨(n, e), hfollowed hmem (hheld hreach) e hb.1, hb, rfl⟩

end Search

/-! ### Buildings -/

section Building

variable {scene : Scene} {plan : Request → PlanM String} {s t : State} {node : Node}
  {rs : List Request} {k : Nat}

private theorem leads_writeFragment_course (h : Course scene.graph plan s rs k t)
    (subgraph : Subgraph) (port : Port) :
    Leads (writeFragment scene subgraph node port)
      (fun _ u => Course scene.graph plan s rs k u) t := by
  unfold writeFragment
  rcases hr : (Shader.fragment scene subgraph.textures subgraph.order node port).run {} with
    ⟨result, calls⟩
  dsimp only
  cases result with
  | error => exact Leads.bind fun _ _ => trivial
  | ok program =>
    have hwarnings : Leads (calls.warnings.forM warn)
        (fun _ u => Course scene.graph plan s rs k u) t := by
      refine Ends.forM (I := Course scene.graph plan s rs k) (fun w hw u hu => ?_) h
      have hw' := reportsCycle_of_tellsOfElement (Shader.tellsOfElement_of_fragment hr w hw)
      exact hu.note [w] _ (by simpa using hw')
    rw [Leads, ends_bind]
    exact hwarnings.mono (fun _ _ hu => hu) fun _ _ => id

/-- The building of a pass of an output: it asks for what the pass reads, and all dropped edges have been
counted in the end. -/
theorem leads_buildPass_course (port : Option String) (key : String) :
    Leads (buildPass scene plan node port key) (fun p t => p.id = key ∧ p.loopIndex = none ∧
      ∃ rs, Course scene.graph plan s rs 0 t ∧
        ∀ r, r ∈ rs ↔ ReadsOutput scene.graph node.id r) s := by
  unfold buildPass
  rw [Leads, ends_bind]
  refine (leads_collect node.id).mono ?_ fun _ _ => id
  rintro sub t ⟨rs, hcourse, hrs⟩
  have hcount : Course scene.graph plan s rs 0
      { t with cycleBreaks := t.cycleBreaks + sub.cycleBreaks } :=
    Course.count (by rwa [Nat.zero_add])
  rw [ends_bind, ends_modify, ends_bind]
  refine (leads_writeFragment_course hcount sub _).mono ?_ fun _ _ => id
  intro program u hu
  rw [ends_bind, ends_bindings, ends_pure]
  exact ⟨rfl, rfl, rs, hu, hrs⟩

/-- A loop whose rounds make at most one request each. -/
private theorem leads_foldlM_course {α β : Type} {step : β → α → PlanM β}
    {request : α → Option Request} {l : List α} {b : β}
    (h : ∀ b, ∀ a ∈ l, ∀ {rs : List Request} {t : State}, Course scene.graph plan s rs 0 t →
      Leads (step b a) (fun _ u => Course scene.graph plan s (rs ++ (request a).toList) 0 u) t)
    (hs : Course scene.graph plan s rs 0 t) :
    Leads (l.foldlM step b)
      (fun _ u => Course scene.graph plan s (rs ++ l.filterMap request) 0 u) t := by
  induction l generalizing rs t b with
  | nil => simpa using hs
  | cons a l ih =>
    rw [List.foldlM_cons, Leads, ends_bind]
    refine (h b a List.mem_cons_self hs).mono (fun c u hu => ?_) fun _ _ => id
    have hrest := ih (b := c) (fun b a' ha => h b a' (List.mem_cons_of_mem a ha)) hu
    have hlist : (request a).toList ++ l.filterMap request = (a :: l).filterMap request := by
      cases hr : request a <;> simp [hr]
    rwa [List.append_assoc, hlist] at hrest

/-- A request for a texture. -/
private theorem leads_texture_course (h : Course scene.graph plan s rs 0 t) (r : Request) {β : Type}
    (f : String → β) :
    Leads (do
        let pass ← plan r
        let name ← sampler scene.config pass
        pure (f name)) (fun _ u => Course scene.graph plan s (rs ++ [r]) 0 u) t := by
  rw [Leads, ends_bind, ends_iff]
  refine ⟨fun q u hq => ?_, fun _ _ _ => trivial⟩
  rw [ends_bind]
  exact ((h.ask hq).sampler scene.config q).mono (fun _ _ hv => hv) fun _ _ => id

private theorem leads_referenceTextures_course (references : List Source.StageReference) :
    Leads (referenceTextures scene plan node references) (fun _ u =>
      Course scene.graph plan s (references.filterMap (referenceRequest? node)) 0 u) s := by
  have hstart : Course scene.graph plan s [] 0 s := .refl
  refine leads_foldlM_course (fun textures r _ rs t ht => ?_) hstart
  cases r with
  | named id =>
    dsimp only
    by_cases hid : id ∈ node.stages.map (·.id)
    · have hr : referenceRequest? node (.named id) = some { node := node.id, stage := some id } :=
        if_pos hid
      rw [if_pos hid, hr]
      exact leads_texture_course ht _ _
    · have hr : referenceRequest? node (.named id) = none := if_neg hid
      rw [if_neg hid, hr, Leads, ends_bind, ends_warn, ends_pure, Option.toList_none, List.append_nil]
      exact ht.note [_] _ (by simpa using reportsCycle_dependency id node.id)
  | first => exact leads_texture_course ht _ _
  | previous =>
    rw [Leads, ends_pure]
    simpa [referenceRequest?] using ht

private theorem leads_inputTextures_course (h : Course scene.graph plan s rs 0 t)
    (textures : Keyed String) :
    Leads (inputTextures scene plan node textures) (fun _ u => Course scene.graph plan s
      (rs ++ (scene.graph.incoming node.id).filterMap inputRequest?) 0 u) t := by
  refine leads_foldlM_course (fun textures e _ rs t ht => ?_) h
  split
  · next hp =>
    rw [Leads, ends_pure]
    simpa [inputRequest?, hp] using ht
  · next hp =>
    rw [Leads, ends_pure]
    simpa [inputRequest?, hp] using ht
  · next port hne hp =>
    have hr : inputRequest? e = some (edgeRequest e) := by
      rw [inputRequest?, hp, Option.getD_some, if_neg hne]
    rw [hr, Leads, ends_bind, ends_lift, yields_iff]
    exact ⟨fun _ _ => leads_texture_course ht _ _, fun _ _ => trivial⟩

/-- The interface of a body tells its references. -/
theorem references_eq {code : String} {io : Source.Interface} (h : Source.interface code = .ok io) :
    io.references = Source.stageReferences code := by
  obtain ⟨all, -, h⟩ := Fault.bind_eq_ok_iff.1 h
  dsimp only at h
  split at h <;> cases h <;> rfl

/-- The building of a stage: it asks for the stages to which the body refers and for what feeds the
node. -/
theorem leads_buildStage_course (stage : Stage) (previous : String) :
    Leads (buildStage scene plan node stage (stageKey node stage) previous) (fun r t =>
      (Item.stage node stage).loop = .ok r.2 ∧
        Course scene.graph plan s (stageRequests scene.graph node stage) 0 t) s := by
  unfold buildStage
  rw [Leads, ends_bind, ends_lift, yields_iff]
  refine ⟨fun io hio => ?_, fun _ _ => trivial⟩
  rw [ends_bind, references_eq hio]
  refine (leads_referenceTextures_course _).mono ?_ fun _ _ => id
  intro textures t ht
  rw [ends_bind]
  refine (leads_inputTextures_course ht textures).mono ?_ fun _ _ => id
  intro textures u hu
  have hprevious (isRead : Bool) : Leads (previousTexture scene node previous textures.firstInput isRead)
      (fun _ v => Course scene.graph plan s (stageRequests scene.graph node stage) 0 v) u := by
    unfold previousTexture
    split
    · rw [Leads, ends_bind]
      exact (hu.sampler scene.config previous).mono (fun _ _ hv => hv) fun _ _ => id
    · split <;> exact hu
  rw [ends_bind]
  refine (hprevious _).mono ?_ fun _ _ => id
  intro texture v hv
  rw [ends_bind, ends_lift, yields_iff]
  refine ⟨fun body hbody => ?_, fun _ _ => trivial⟩
  rw [ends_bind, ends_lift, yields_iff]
  refine ⟨fun count hcount => ?_, fun _ _ => trivial⟩
  have hloop : (Item.stage node stage).loop = .ok { base := stageKey node stage, count } :=
    Fault.bind_eq_ok_iff.2 ⟨body, hbody, Fault.bind_eq_ok_iff.2 ⟨count, hcount, rfl⟩⟩
  have hlog (warnings : List String) : Leads (warnings.forM fun w => log (.warn w))
      (fun _ w => Course scene.graph plan s (stageRequests scene.graph node stage) 0 w) v :=
    Ends.forM (I := Course scene.graph plan s (stageRequests scene.graph node stage) 0)
      (fun message _ w hw => by simpa using hw.note [] (w.journal ++ [.warn message]) (by simp)) hv
  dsimp only
  rw [ends_bind]
  refine (hlog _).mono ?_ fun _ _ => id
  intro _ w hw
  rw [ends_bind, ends_lift, yields_iff]
  exact ⟨fun program _ => ⟨hloop, hw⟩, fun _ _ => trivial⟩

end Building

end RenderGraph.Plan
