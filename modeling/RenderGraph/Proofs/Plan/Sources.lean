import RenderGraph.Proofs.Plan.Drawing
import RenderGraph.Proofs.Plan.PassIds

/-!
# Where bindings come from

A request is answered with the last pass of an item, or, while the item is being planned, with its first
one; then a cycle is reported. Whatever a pass reads was answered to it, but for the empty texture,
textures bound to inputs and the iteration before it. So a binding leads to a pass that was answered, or
else the sampler has the name of another one.

## Main definitions

* `Plan.IsAnswer`: the passes with which requests are answered
* `Plan.IsSource`: the samplers that a pass may read
* `Plan.Links`: where a binding of a pass comes from
* `Plan.Linked`: what holds of bindings at any time
* `Plan.OwnsSampler`: no other pass and no other texture has the sampler of a pass

## Main results

* `Plan.linked_planWithin`: all bindings of a plan come from answers
* `Plan.Item.eq_of_iterationId_eq`: names apart, the ids of iterations tell their item and number
* `Plan.Links.cases_of_iteration`: who is bound to an iteration
-/

namespace RenderGraph.Plan

/-! ### Answers and samplers -/

/-- A pass with which a request may be answered. -/
inductive IsAnswer (g : Graph) (warnings : List String) : String → Prop
  /-- There is nothing to read. -/
  | none : IsAnswer g warnings ""
  /-- The last pass of an item. -/
  | last {i : Item} {l : Loop} (hi : i.In g) (hl : i.loop = .ok l) : IsAnswer g warnings l.lastId
  /-- The first pass of an item that is being planned. -/
  | broken {i : Item} (hi : i.In g) (hw : cycleWarning i.key ∈ warnings) : IsAnswer g warnings i.key

/-- A sampler that a pass may read. -/
inductive IsSource (scene : Scene) (warnings : List String) : String → Prop
  | pass {q : String} (h : IsAnswer scene.graph warnings q) (hq : q ≠ "") :
      IsSource scene warnings (Shader.samplerName q)
  | empty : IsSource scene warnings scene.config.emptyTexture
  | bound {n : Node} {port : Port} (hn : n ∈ scene.graph.nodeList) (hp : port ∈ n.inputs) :
      IsSource scene warnings (n.uniformName port.id)

/-- Where a binding of a pass comes from. -/
inductive Links (scene : Scene) (warnings : List String) (p : RenderPass) (u q : String) : Prop
  /-- The pass reads a sampler, which is named after the pass that is bound to it. -/
  | source (hu : u = Shader.samplerName q) (hs : IsSource scene warnings u)
  /-- The pass is an iteration and reads the one before it. -/
  | previous {i : Item} {l : Loop} {k : Nat} (hi : i.In scene.graph) (hl : i.loop = .ok l)
      (hk : k + 1 < l.count.toNat) (hp : p.id = l.iterationId (k + 1 : Nat))
      (hq : q = l.iterationId k)

variable {scene : Scene} {plan : Request → PlanM String} {warnings warnings' : List String}

theorem IsAnswer.mono {g : Graph} {q : String} (h : IsAnswer g warnings q)
    (hw : warnings ⊆ warnings') : IsAnswer g warnings' q := by
  cases h with
  | none => exact .none
  | last hi hl => exact .last hi hl
  | broken hi hc => exact .broken hi (hw hc)

theorem IsSource.mono {u : String} (h : IsSource scene warnings u) (hw : warnings ⊆ warnings') :
    IsSource scene warnings' u := by
  cases h with
  | pass h hq => exact .pass (h.mono hw) hq
  | empty => exact .empty
  | bound hn hp => exact .bound hn hp

theorem Links.mono {p : RenderPass} {u q : String} (h : Links scene warnings p u q)
    (hw : warnings ⊆ warnings') : Links scene warnings' p u q := by
  cases h with
  | source hu hs => exact .source hu (hs.mono hw)
  | previous hi hl hk hp hq => exact .previous hi hl hk hp hq

/-! ### States -/

/-- What holds of bindings at any time. -/
structure Linked (scene : Scene) (s : State) : Prop where
  settled : Settled scene.graph s
  names : ∀ u q, s.owners.get? u = some q → u = Shader.samplerName q
  bindings : ∀ p ∈ s.passes, ∀ u q, p.bindings.get? u = some q → Links scene s.warnings p u q

theorem linked_initial (scene : Scene) : Linked scene {} where
  settled := settled_initial _
  names _ _ h := by simp at h
  bindings := by simp

/-- Run on, a state keeps its warnings, and bindings come from answers. -/
structure LinkedFrom (scene : Scene) (s t : State) : Prop where
  linked : Linked scene t
  warnings : s.warnings <+: t.warnings

/-- The plan answers requests and keeps what holds of bindings. -/
def PlansLinked (scene : Scene) (plan : Request → PlanM String) : Prop :=
  ∀ {r : Request} {s t : State} {q : String}, (plan r).run s = (.ok q, t) → Linked scene s →
    LinkedFrom scene s t ∧ IsAnswer scene.graph t.warnings q

variable {s t u : State} {q : String}

theorem LinkedFrom.refl (h : Linked scene s) : LinkedFrom scene s s :=
  ⟨h, List.prefix_refl _⟩

theorem LinkedFrom.trans (h : LinkedFrom scene s t) (h' : LinkedFrom scene t u) :
    LinkedFrom scene s u :=
  ⟨h'.linked, h.warnings.trans h'.warnings⟩

/-- Quiet changes keep what holds of bindings if samplers are named after their owners. -/
theorem Linked.quiet (h : Linked scene s) (hq : s.Quiet t)
    (hn : ∀ u q, t.owners.get? u = some q → u = Shader.samplerName q) : LinkedFrom scene s t where
  warnings := hq.warnings
  linked.settled i hi q hg := h.settled i hi q (hq.generated_eq ▸ hg)
  linked.names := hn
  linked.bindings p hp u q hb :=
    (h.bindings p (hq.passes_eq ▸ hp) u q hb).mono hq.warnings.subset

theorem Linked.note (h : Linked scene s) (hn : s.Notes t) : LinkedFrom scene s t := by
  obtain ⟨ws, js, k, rfl⟩ := hn
  exact h.quiet ⟨rfl, rfl, rfl, List.prefix_append _ _⟩ h.names

/-- A sampler is made for an answer. -/
theorem Linked.sampler (h : Linked scene s) (hq : IsAnswer scene.graph s.warnings q)
    {E : Fault → State → Prop} :
    Ends (Plan.sampler scene.config q) (fun u t => LinkedFrom scene s t ∧ IsSource scene t.warnings u)
      E s := by
  rw [ends_sampler]
  split
  · exact ⟨.refl h, .empty⟩
  · next hne =>
    refine ⟨h.quiet ⟨rfl, rfl, rfl, List.prefix_refl _⟩ fun u r hr => ?_, .pass hq hne⟩
    rw [Keyed.get?_insertNew] at hr
    split at hr
    · next hu =>
      subst hu
      cases ho : s.owners.get? (Shader.samplerName q) with
      | some r' => exact h.names _ _ (ho.trans (by rwa [ho] at hr))
      | none =>
        obtain rfl : q = r := by simpa [ho] using hr
        rfl
    · exact h.names u r hr

/-- Samplers are bound to their owners. -/
theorem mem_of_get?_bindings {samplers : List String} {owners : Keyed String} {u q : String}
    (h : (Keyed.ofList (samplers.filterMap fun u =>
      (owners.get? u).map fun pass => (u, pass))).get? u = some q) : u ∈ samplers := by
  obtain ⟨v, hv, he⟩ := List.mem_filterMap.1 (Keyed.mem_of_get?_ofList h)
  obtain ⟨pass, -, he⟩ := Option.map_eq_some_iff.1 he
  cases he
  exact hv

/-- Samplers that a pass may read are bound to what they are named after. -/
theorem Linked.bindings_of_sources (h : Linked scene s) {samplers : List String}
    (hs : ∀ u ∈ samplers, IsSource scene s.warnings u) {u q : String}
    (hb : (Keyed.ofList (samplers.filterMap fun u =>
      (s.owners.get? u).map fun pass => (u, pass))).get? u = some q) :
    u = Shader.samplerName q ∧ IsSource scene s.warnings u :=
  ⟨h.names u q (get?_of_get?_bindings hb), hs u (mem_of_get?_bindings hb)⟩

/-! ### Passes of outputs -/

/-- What a plan answers to a search are samplers that a pass may read. -/
theorem Answered.linked {answers : List Answer} (hplan : PlansLinked scene plan)
    (h : Answered scene plan s answers t) (hs : Linked scene s) :
    LinkedFrom scene s t ∧ ∀ a ∈ answers, IsSource scene t.warnings (a.sampler scene.config) := by
  induction h with
  | nil => exact ⟨.refl hs, by simp⟩
  | @warn answers t u message _ hw ih =>
    obtain ⟨ht, ha⟩ := ih
    have hnotes : Ends (Plan.warn message) (fun _ u => t.Notes u) (fun _ _ => True) t :=
      ⟨[message], [.warn message], 0, rfl⟩
    have hu := ht.linked.note (hnotes.of_run_ok hw)
    exact ⟨ht.trans hu, fun a hm => (ha a hm).mono hu.warnings.subset⟩
  | @answer answers t u v a _ _ hp hsampler ih =>
    obtain ⟨ht, ha⟩ := ih
    obtain ⟨hu, hanswer⟩ := hplan hp ht.linked
    obtain ⟨hv, hsource⟩ := (hu.linked.sampler hanswer (E := fun _ _ => True)).of_run_ok hsampler
    refine ⟨ht.trans (hu.trans hv), fun b hb => ?_⟩
    rcases List.mem_append.1 hb with hb | hb
    · exact (ha b hb).mono (hu.trans hv).warnings.subset
    · exact List.mem_singleton.1 hb ▸ hsource

/-- The bindings of the pass of an output come from answers. -/
theorem linked_buildPass {node : Node} {port : Option String} {p : RenderPass}
    (hplan : PlansLinked scene plan) (hn : scene.graph.Inlines node) (hs : Linked scene s)
    (h : (buildPass scene plan node port (passKey node port)).run s = (.ok p, t)) :
    LinkedFrom scene s t ∧ ∀ u q, p.bindings.get? u = some q →
      u = Shader.samplerName q ∧ IsSource scene t.warnings u := by
  obtain ⟨subgraph, answers, -, ⟨u, -, hanswered, hnotes⟩, hadds, -, -, htextures, hbindings⟩ :=
    exists_of_buildPass hn h
  obtain ⟨hu, hsources⟩ := hanswered.linked hplan hs
  have ht := hu.linked.note hnotes
  refine ⟨hu.trans ht, fun v q hq => ht.linked.bindings_of_sources ?_ (hbindings ▸ hq)⟩
  intro v hv
  obtain ⟨key, hkey⟩ := Keyed.exists_get?_of_mem_values hv
  rw [htextures, hadds.textures_eq, List.map_map] at hkey
  obtain ⟨a, ha, he⟩ := List.mem_map.1 (Keyed.mem_of_get?_ofList hkey)
  obtain rfl : a.sampler scene.config = v := congrArg Prod.snd he
  exact (hsources a ha).mono ht.warnings.subset

/-! ### Passes of stages -/

/-- The textures of a stage are samplers that a pass may read. -/
structure Textured (scene : Scene) (s : State) (textures : Keyed String) (t : State) : Prop where
  linked : LinkedFrom scene s t
  sources : ∀ key u, textures.get? key = some u → IsSource scene t.warnings u

theorem Textured.mono {textures : Keyed String} (h : Textured scene s textures t)
    (hu : LinkedFrom scene t u) : Textured scene s textures u :=
  ⟨h.linked.trans hu, fun key v hv => (h.sources key v hv).mono hu.warnings.subset⟩

theorem Textured.insert {textures : Keyed String} (h : Textured scene s textures t) (key : String)
    {name : String} (hn : IsSource scene t.warnings name) :
    Textured scene s (textures.insert key name) t :=
  ⟨h.linked, Keyed.forall_insert h.sources hn⟩

/-- A texture is asked for. -/
private theorem leads_request {α : Type} {r : Request} {f : String → α} {Q : α → State → Prop}
    (hplan : PlansLinked scene plan) (hs : Linked scene s)
    (h : ∀ name t, LinkedFrom scene s t → IsSource scene t.warnings name → Q (f name) t) :
    Leads (do
        let pass ← plan r
        let name ← sampler scene.config pass
        pure (f name)) Q s := by
  rw [Leads, ends_bind, ends_iff]
  refine ⟨fun q t hq => ?_, fun _ _ _ => trivial⟩
  obtain ⟨ht, hanswer⟩ := hplan hq hs
  rw [ends_bind]
  exact (ht.linked.sampler hanswer).mono (fun name u hu => h name u (ht.trans hu.1) hu.2) fun _ _ => id

variable {node : Node} {stage : Stage}

private theorem leads_referenceTextures (hplan : PlansLinked scene plan) (hs : Linked scene s)
    (references : List Source.StageReference) :
    Leads (referenceTextures scene plan node references) (Textured scene s) s := by
  have hstart : Textured scene s .empty s := ⟨.refl hs, by simp⟩
  refine Ends.foldlM (I := Textured scene s) (fun textures r _ t ht => ?_) hstart
  have hread (name stage : String) : Leads (do
      let pass ← plan { node := node.id, stage := some stage }
      pure (textures.insert name (← sampler scene.config pass))) (Textured scene s) t := by
    exact leads_request hplan ht.linked.linked fun sampler u hu hsource =>
      (ht.mono hu).insert name hsource
  cases r with
  | named id =>
    dsimp only
    split
    · exact hread _ id
    · rw [ends_bind, ends_warn, ends_pure]
      exact ht.mono (ht.linked.linked.note ⟨[_], [.warn _], 0, rfl⟩)
  | first => exact hread ..
  | previous => exact ht

private theorem leads_inputTextures {textures : Keyed String} (hplan : PlansLinked scene plan)
    (ht : Textured scene s textures t) :
    Leads (inputTextures scene plan node textures) (fun r u => Textured scene s r.all u ∧
      ∀ name, r.firstInput = some name → IsSource scene u.warnings name) t := by
  refine Ends.foldlM (I := fun (r : StageTextures) u => Textured scene s r.all u ∧
    ∀ name, r.firstInput = some name → IsSource scene u.warnings name)
    (fun r e _ u hu => ?_) ⟨ht, by simp⟩
  split
  · exact hu
  · exact hu
  · next port _ _ =>
    rw [ends_bind, ends_lift, yields_iff]
    refine ⟨fun _ _ => ?_, fun _ _ => trivial⟩
    refine leads_request hplan hu.1.linked.linked fun name v hv hsource => ?_
    refine ⟨(hu.1.mono hv).insert _ hsource, fun first hfirst => ?_⟩
    cases hr : r.firstInput with
    | none =>
      simp only [hr] at hfirst
      exact Option.some.inj hfirst ▸ hsource
    | some first' =>
      simp only [hr] at hfirst
      exact Option.some.inj hfirst ▸ (hu.2 first' hr).mono hv.warnings.subset

private theorem leads_previousTexture {previous : String} {firstInput : Option String}
    (hn : node ∈ scene.graph.nodeList) (hs : Linked scene s)
    (hp : IsAnswer scene.graph s.warnings previous)
    (hf : ∀ name, firstInput = some name → IsSource scene s.warnings name) (isRead : Bool) :
    Leads (previousTexture scene node previous firstInput isRead) (fun r t => LinkedFrom scene s t ∧
      ∀ name, r = some name → IsSource scene t.warnings name) s := by
  have hget {input : Option String} {bound : Option Port}
      (hi : ∀ name, input = some name → IsSource scene s.warnings name)
      (hb : ∀ port, bound = some port → port ∈ node.inputs) :
      IsSource scene s.warnings
        ((input <|> bound.map fun port => node.uniformName port.id).getD scene.config.emptyTexture) := by
    cases input with
    | some name => exact hi name rfl
    | none =>
      cases bound with
      | some port => exact .bound hn (hb port rfl)
      | none => exact .empty
  unfold previousTexture
  split
  · rw [Leads, ends_bind]
    refine (hs.sampler hp).mono (fun name t ht => ?_) fun _ _ => id
    exact ⟨ht.1, fun _ hname => Option.some.inj hname ▸ ht.2⟩
  · split
    · exact ⟨.refl hs, by simp⟩
    · refine ⟨.refl hs, fun name hname => ?_⟩
      obtain rfl := Option.some.inj hname
      refine hget (fun name hname => ?_) fun port hport => List.mem_of_find?_eq_some hport
      split at hname
      · cases hname
      · cases hname
      · exact hf name hname

/-- The bindings of the first pass of a stage come from answers, if the pass before it does. -/
theorem linked_buildStage {previous key : String} {r : RenderPass × Loop}
    (hplan : PlansLinked scene plan) (hn : node ∈ scene.graph.nodeList) (hs : Linked scene s)
    (hp : IsAnswer scene.graph s.warnings previous)
    (h : (buildStage scene plan node stage key previous).run s = (.ok r, t)) :
    LinkedFrom scene s t ∧ ∀ u q, r.1.bindings.get? u = some q →
      u = Shader.samplerName q ∧ IsSource scene t.warnings u := by
  have hleads : Leads (buildStage scene plan node stage key previous) (fun r t => LinkedFrom scene s t ∧
      ∀ u q, r.1.bindings.get? u = some q →
        u = Shader.samplerName q ∧ IsSource scene t.warnings u) s := by
    unfold buildStage
    rw [Leads, ends_bind, ends_lift, yields_iff]
    refine ⟨fun io _ => ?_, fun _ _ => trivial⟩
    rw [ends_bind]
    refine (leads_referenceTextures hplan hs _).mono (fun textures t ht => ?_) fun _ _ => id
    rw [ends_bind]
    refine (leads_inputTextures hplan ht).mono (fun textures u hu => ?_) fun _ _ => id
    obtain ⟨hu, hfirst⟩ := hu
    rw [ends_bind]
    refine (leads_previousTexture hn hu.linked.linked (hp.mono hu.linked.warnings.subset) hfirst _).mono
      (fun texture v hv => ?_) fun _ _ => id
    obtain ⟨hv, htexture⟩ := hv
    rw [ends_bind, ends_lift, yields_iff]
    refine ⟨fun body _ => ?_, fun _ _ => trivial⟩
    rw [ends_bind, ends_lift, yields_iff]
    refine ⟨fun count _ => ?_, fun _ _ => trivial⟩
    have hlog (warnings : List String) : Leads (warnings.forM fun w => log (.warn w))
        (fun _ w => v.Notes w) v :=
      Ends.forM (I := v.Notes) (fun message _ w hw => hw.trans ⟨[], [.warn message], 0, by simp⟩)
        (.refl v)
    dsimp only
    rw [ends_bind]
    refine (hlog _).mono (fun _ w hw => ?_) fun _ _ => id
    have hw := hv.linked.note hw
    have htextures := (hu.mono hv).mono hw
    rw [ends_bind, ends_lift, yields_iff]
    refine ⟨fun program _ => ?_, fun _ _ => trivial⟩
    rw [ends_bind, ends_bindings, ends_pure]
    refine ⟨htextures.linked, fun name q hq => hw.linked.bindings_of_sources (fun name hname => ?_) hq⟩
    obtain ⟨key, hkey⟩ := Keyed.exists_get?_of_mem_values hname
    split at hkey
    · exact htextures.sources key name hkey
    · exact htextures.sources key name hkey
    · refine (htextures.insert previousPass ?_).sources key name hkey
      exact (htexture _ rfl).mono hw.warnings.subset
  exact hleads.of_run_ok h

/-- The bindings of the passes of an item come from answers, or lead to the iteration before. -/
theorem Built.linked {i : Item} {l : Loop} {passes : List RenderPass} {previous : String}
    (hplan : PlansLinked scene plan) (hi : i.In scene.graph)
    (hp : IsAnswer scene.graph s.warnings previous) (hs : Linked scene s)
    (h : Built scene plan previous s i l passes t) :
    LinkedFrom scene s t ∧ ∀ p ∈ passes, ∀ u q, p.bindings.get? u = some q →
      Links scene t.warnings p u q := by
  have hl := h.loop_eq
  cases h with
  | output hr =>
    obtain ⟨ht, hlinks⟩ := linked_buildPass hplan hi hs hr
    refine ⟨ht, fun p hp u q hq => ?_⟩
    obtain rfl := List.mem_singleton.1 hp
    obtain ⟨hu, hsource⟩ := hlinks u q hq
    exact .source hu hsource
  | @stage node a template _ _ v _ hr hi' =>
    obtain ⟨hv, hlinks⟩ := linked_buildStage hplan hi.1 hs hp hr
    have hbase : l.base ≠ "" := (Item.loop_eq_ok hl).1 ▸ stageKey_ne node a
    obtain ⟨hpasses, howners⟩ := (ends_iterations scene template hbase).of_run_ok hi'
    have ht : LinkedFrom scene v t := by
      rw [howners.eq]
      exact hv.linked.quiet ⟨rfl, rfl, rfl, List.prefix_refl _⟩ fun u q hq =>
        (howners.new hq).elim (hv.linked.names u q) And.left
    refine ⟨hv.trans ht, fun p hp u q hq => ?_⟩
    obtain ⟨k, hk, hiter⟩ := exists_of_forall₂ hpasses hp
    have hlt := List.mem_range.1 hk
    rcases hiter.get?_bindings hq with hq | ⟨hpos, hq⟩
    · obtain ⟨hu, hsource⟩ := hlinks u q hq
      exact .source hu (hsource.mono ht.warnings.subset)
    · obtain ⟨k, rfl⟩ := Nat.exists_eq_succ_of_ne_zero hpos.ne'
      refine .previous hi hl hlt hiter.id_eq (hq.trans ?_)
      rw [Loop.previousId]
      congr 1
      omega

/-! ### Plans -/

section Names

variable (hnames : NamesApart scene.graph) (hplan : PlansLinked scene plan)

include hnames hplan

/-- Names apart, an item is answered with an answer. -/
theorem Obtains.linked {i : Item} {previous : String} (hi : i.In scene.graph)
    (hp : IsAnswer scene.graph s.warnings previous) (hs : Linked scene s)
    (h : Obtains scene plan i previous s q t) :
    LinkedFrom scene s t ∧ IsAnswer scene.graph t.warnings q := by
  cases h with
  | found hg =>
    obtain ⟨l, hl, rfl⟩ := hs.settled i hi q hg
    exact ⟨.refl hs, .last hi hl⟩
  | cycle =>
    have hnotes : s.Notes { s with
        warnings := s.warnings ++ [cycleWarning i.key],
        journal := s.journal ++ [.warn (cycleWarning i.key)],
        cycleBreaks := s.cycleBreaks + 1 } := ⟨[_], [_], 1, rfl⟩
    exact ⟨hs.note hnotes, .broken hi (List.mem_append_right _ List.mem_cons_self)⟩
  | @built l passes t hg ha hb =>
    have hstart : Linked scene { s with active := s.active ++ [i.key] } :=
      ⟨hs.settled, hs.names, hs.bindings⟩
    obtain ⟨ht, hlinks⟩ :=
      Built.linked (s := { s with active := s.active ++ [i.key] }) hplan hi hp hstart hb
    have hsettled : Settled scene.graph
        (State.add { t with active := [] } passes i.key l.lastId) :=
      (invariant_settled hnames).add (t := { t with active := [i.key] }) ht.linked.settled rfl
        List.not_mem_nil hi hb.loop_eq hb.iterations
    refine ⟨⟨⟨hsettled, ht.linked.names, fun p hp => ?_⟩, ht.warnings⟩, .last hi hb.loop_eq⟩
    rcases List.mem_append.1 hp with hp | hp
    · exact ht.linked.bindings p hp
    · exact hlinks p hp

theorem Rounds.linked {is : List Item} {previous : String} (hi : ∀ i ∈ is, i.In scene.graph)
    (hp : IsAnswer scene.graph s.warnings previous) (hs : Linked scene s)
    (h : Rounds scene plan is previous s q t) :
    LinkedFrom scene s t ∧ IsAnswer scene.graph t.warnings q := by
  induction h with
  | nil => exact ⟨.refl hs, hp⟩
  | cons ho _ ih =>
    obtain ⟨ht, hq⟩ := ho.linked hnames hplan (hi _ List.mem_cons_self) hp hs
    obtain ⟨hu, hq'⟩ := ih (fun j hj => hi j (List.mem_cons_of_mem _ hj)) hq ht.linked
    exact ⟨ht.trans hu, hq'⟩

omit hplan in
/-- Names apart, all bindings of a plan come from answers. -/
theorem linked_planWithin {n : Nat} : PlansLinked scene (planWithin scene n) := by
  intro r s t q h
  refine planWithin_induct (P := fun _ s q t => Linked scene s →
    LinkedFrom scene s t ∧ IsAnswer scene.graph t.warnings q) ?_ h
  intro n r s t q ih h hs
  cases h with
  | answered h =>
    exact h.linked hnames ih (fun i hi => (Request.in_of_mem_items hi).1) .none hs
  | missing => exact ⟨hs.note ⟨[_], [_], 0, rfl⟩, .none⟩

end Names

/-! ### Iterations that are read -/

section Iterations

variable {scene : Scene} {i j : Item} {l l' : Loop} {k k' : Nat}

/-- Names apart, no later iteration has the key of an item as its id. -/
theorem Item.iterationId_ne_key {g : Graph} (hr : RepeatsApart g) (hi : i.In g) (hj : j.In g)
    (hl : i.loop = .ok l) (hk : 0 < k) (hlt : k < l.count.toNat) : l.iterationId k ≠ j.key :=
  fun h => hr i.node hi.node_mem j.node hj.node_mem _ (hi.iterationId_mem hl hk hlt) (h ▸ hj.key_mem)

/-- Names apart, the ids of iterations tell their item and number. -/
theorem Item.eq_of_iterationId_eq {g : Graph} (hr : RepeatsApart g) (hi : i.In g) (hj : j.In g)
    (hl : i.loop = .ok l) (hl' : j.loop = .ok l') (hk : k < l.count.toNat) (hk' : k' < l'.count.toNat)
    (h : l.iterationId k = l'.iterationId k') : i.key = j.key ∧ k = k' := by
  have hbase := (Item.loop_eq_ok hl).1
  have hbase' := (Item.loop_eq_ok hl').1
  rcases Nat.eq_zero_or_pos k with rfl | hpos <;> rcases Nat.eq_zero_or_pos k' with rfl | hpos'
  · rw [Loop.iterationId_zero, Loop.iterationId_zero, hbase, hbase'] at h
    exact ⟨h, rfl⟩
  · rw [Loop.iterationId_zero, hbase] at h
    exact absurd h.symm (iterationId_ne_key hr hj hi hl' hpos' hk')
  · rw [Loop.iterationId_zero, hbase'] at h
    exact absurd h (iterationId_ne_key hr hi hj hl hpos hk)
  · obtain ⟨heq, rfl⟩ := Loop.iterationId_inj hpos hpos' h
    exact ⟨hbase.symm.trans (heq.trans hbase'), rfl⟩

/-- No other pass and no other texture has the sampler of a pass. -/
def OwnsSampler (scene : Scene) (q : String) : Prop :=
  Shader.samplerName q ≠ scene.config.emptyTexture ∧ ∀ n ∈ scene.graph.nodeList,
    (∀ port ∈ n.inputs, n.uniformName port.id ≠ Shader.samplerName q) ∧
    ∀ id ∈ plannedKeys n ++ repeatIds n, Shader.samplerName id = Shader.samplerName q → id = q

instance (scene : Scene) (q : String) : Decidable (OwnsSampler scene q) :=
  inferInstanceAs (Decidable (Shader.samplerName q ≠ scene.config.emptyTexture ∧
    ∀ n ∈ scene.graph.nodeList,
      (∀ port ∈ n.inputs, n.uniformName port.id ≠ Shader.samplerName q) ∧
      ∀ id ∈ plannedKeys n ++ repeatIds n, Shader.samplerName id = Shader.samplerName q → id = q))

/-- The passes with which requests are answered have keys or repeated ids. -/
theorem IsAnswer.mem_ids {g : Graph} {warnings : List String} {q : String}
    (h : IsAnswer g warnings q) (hq : q ≠ "") :
    ∃ n ∈ g.nodeList, q ∈ plannedKeys n ++ repeatIds n := by
  cases h with
  | none => exact absurd rfl hq
  | @last i l hi hl =>
    obtain ⟨hbase, hcount⟩ := Item.loop_eq_ok hl
    refine ⟨i.node, hi.node_mem, List.mem_append.2 ?_⟩
    rw [Loop.lastId_eq hcount]
    rcases Nat.eq_zero_or_pos (l.count.toNat - 1) with h0 | hpos
    · rw [h0, Loop.iterationId_zero, hbase]
      exact Or.inl hi.key_mem
    · exact Or.inr (hi.iterationId_mem hl hpos (by omega))
  | @broken i hi _ => exact ⟨i.node, hi.node_mem, List.mem_append_left _ hi.key_mem⟩

/-- A pass that has its sampler to itself is read under that name only as an answer. -/
theorem IsSource.isAnswer {warnings : List String} {u q : String} (h : IsSource scene warnings u)
    (hu : u = Shader.samplerName q) (ho : OwnsSampler scene q) :
    IsAnswer scene.graph warnings q := by
  cases h with
  | pass h hq =>
    obtain ⟨n, hn, hmem⟩ := h.mem_ids hq
    exact (ho.2 n hn).2 _ hmem hu ▸ h
  | empty => exact absurd hu.symm ho.1
  | bound hn hp => exact absurd hu ((ho.2 _ hn).1 _ hp)

/-- Names apart, an iteration that answers a request is the last one, or else the first one, of an item
that was being planned. -/
theorem IsAnswer.eq_last_or_broken {warnings : List String} (hnames : NamesApart scene.graph)
    (hi : i.In scene.graph) (hl : i.loop = .ok l) (hne : l.base ≠ "") (hk : k < l.count.toNat)
    (h : IsAnswer scene.graph warnings (l.iterationId k)) :
    l.iterationId k = l.lastId ∨ k = 0 ∧ cycleWarning i.key ∈ warnings := by
  generalize hq : l.iterationId k = q at h
  cases h with
  | none => exact absurd hq (iterationId_ne hne k)
  | @last j l' hj hl' =>
    have hcount := (Item.loop_eq_ok hl').2
    rw [Loop.lastId_eq hcount] at hq
    obtain ⟨hkey, -⟩ := Item.eq_of_iterationId_eq hnames.repeats hi hj hl hl' hk (by omega) hq
    have hloop := (Item.eq_of_key_eq hnames.keys hnames.stages hi hj hkey).2
    rw [hl, hl', Except.ok.injEq] at hloop
    exact Or.inl (hloop ▸ rfl)
  | @broken j hj hw =>
    rcases Nat.eq_zero_or_pos k with rfl | hpos
    · rw [Loop.iterationId_zero, (Item.loop_eq_ok hl).1] at hq
      exact Or.inr ⟨rfl, hq ▸ hw⟩
    · exact absurd hq (Item.iterationId_ne_key hnames.repeats hi hj hl hpos hk)

/-- Names apart, a pass that is bound to an iteration draws the next one, or it was answered with the last
one, or with the first one while the item was being planned, or the sampler is shared. -/
theorem Links.cases_of_iteration {warnings : List String} {p : RenderPass} {u : String}
    (hnames : NamesApart scene.graph) (hi : i.In scene.graph) (hl : i.loop = .ok l)
    (hne : l.base ≠ "") (hk : k < l.count.toNat) (h : Links scene warnings p u (l.iterationId k)) :
    (k + 1 < l.count.toNat ∧ p.id = l.iterationId (k + 1 : Nat)) ∨ l.iterationId k = l.lastId ∨
      (k = 0 ∧ cycleWarning i.key ∈ warnings) ∨ ¬ OwnsSampler scene (l.iterationId k) := by
  cases h with
  | source hu hs =>
    by_cases ho : OwnsSampler scene (l.iterationId k)
    · rcases (hs.isAnswer hu ho).eq_last_or_broken hnames hi hl hne hk with hlast | hbroken
      · exact Or.inr (Or.inl hlast)
      · exact Or.inr (Or.inr (Or.inl hbroken))
    · exact Or.inr (Or.inr (Or.inr ho))
  | @previous j l' k' hj hl' hk' hp hq =>
    obtain ⟨hkey, rfl⟩ := Item.eq_of_iterationId_eq hnames.repeats hi hj hl hl' hk (by omega) hq
    have hloop := (Item.eq_of_key_eq hnames.keys hnames.stages hi hj hkey).2
    rw [hl, hl', Except.ok.injEq] at hloop
    subst hloop
    exact Or.inl ⟨hk', hp⟩

end Iterations

end RenderGraph.Plan
