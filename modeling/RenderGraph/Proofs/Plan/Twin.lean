import RenderGraph.Compile.Result
import RenderGraph.Proofs.Plan.Operation
import RenderGraph.Proofs.Shader.TwinCalls

/-!
# The plans of twins

The plans of twins take the same steps: they search the same nodes, plan the same passes under the same
keys and issue the same warnings. Two passes that stand for each other differ at most in the values of
their uniforms and, where a capacity differs, in the fragment program. A value that is not contributed
by a node was given by the plan itself and is the same in both passes.

## Main definitions

* `Plan.Reserved`: the uniforms to which a plan gives values
* `Plan.UniformTwin`, `Plan.PassTwin`, `Plan.StateTwin`

## Main results

* `Plan.agrees_collect`: the searches of twins
* `Plan.agrees_buildPass`, `Plan.agrees_planOutput`: the passes of their outputs
-/

namespace RenderGraph.Plan

/-- A plan gives values to the uniforms of these names. -/
inductive Reserved : String → Prop
  | loopIndex : Reserved loopIndexUniform
  | loopCount : Reserved loopCountUniform
  | reference (r : Source.StageReference) : Reserved r.uniform

/-- Uniforms of one name in two passes that stand for each other: they have the same type, and the second
one is contributed by a node or both were given the same value by the plan. -/
structure UniformTwin (scene : Scene) (name : String) (u v : Uniform) : Prop where
  type_eq : v.type = u.type
  origin : scene.Contributes name v ∨ Reserved name ∧ v = u

/-- The passes differ at most in the values of their uniforms and, unless `sized`, in the fragment
program. -/
inductive PassTwin (sized : Prop) (scene : Scene) (p : RenderPass) : RenderPass → Prop
  | mk {fragment : String} {uniforms : Keyed Uniform} (hf : EqIf sized p.fragment fragment)
      (hu : p.uniforms.Match (UniformTwin scene) uniforms) :
      PassTwin sized scene p { p with fragment, uniforms }

/-- The plans differ at most in their passes, which stand for each other. -/
inductive StateTwin (sized : Prop) (scene : Scene) (s : State) : State → Prop
  | mk {passes : List RenderPass} (h : List.Forall₂ (PassTwin sized scene) s.passes passes) :
      StateTwin sized scene s { s with passes }

variable {sized : Prop} {scene : Scene} {α β : Type}

theorem PassTwin.id_eq {p q : RenderPass} (h : PassTwin sized scene p q) : q.id = p.id := by
  obtain ⟨-, -⟩ := h
  rfl

/-! ### Operations -/

theorem agrees_log (r : Journal.Record) :
    Agrees (StateTwin sized scene) (fun _ _ => True) (log r) (log r) :=
  .modify fun _ _ ⟨h⟩ => .mk h

theorem agrees_warn (message : String) :
    Agrees (StateTwin sized scene) (fun _ _ => True) (warn message) (warn message) :=
  .modify fun _ _ ⟨h⟩ => .mk h

theorem agrees_breakCycle (key : String) :
    Agrees (StateTwin sized scene) (fun _ _ => True) (breakCycle key) (breakCycle key) :=
  (agrees_warn _).bind fun _ _ _ => .modify fun _ _ ⟨h⟩ => .mk h

theorem agrees_whileActive {R : α → β → Prop} {x : PlanM α} {y : PlanM β} (key : String)
    (h : Agrees (StateTwin sized scene) R x y) :
    Agrees (StateTwin sized scene) R (whileActive key x) (whileActive key y) := by
  rintro s _ ⟨hs⟩
  have hr := h { s with active := s.active ++ [key] } _ (.mk hs)
  rw [run_whileActive, run_whileActive]
  dsimp only at hr ⊢
  generalize x.run _ = p at hr ⊢
  generalize y.run _ = q at hr ⊢
  cases hr with
  | ok h hs => exact .ok h (by obtain ⟨hs⟩ := hs; exact .mk hs)
  | fault f hs => exact .fault f (by obtain ⟨hs⟩ := hs; exact .mk hs)
  | left q h => exact .left _ h
  | right p h => exact .right _ h

theorem agrees_sampler (config : Config) (pass : String) :
    Agrees (StateTwin sized scene) Eq (sampler config pass) (sampler config pass) := by
  unfold sampler
  split
  · exact .pure rfl
  · exact (Agrees.modify fun _ _ ⟨h⟩ => .mk h).bind fun _ _ _ => .pure rfl

theorem agrees_bindings (samplers : List String) :
    Agrees (StateTwin sized scene) Eq (bindings samplers) (bindings samplers) := by
  refine Agrees.get.bind ?_
  rintro s _ ⟨-⟩
  exact .pure rfl

theorem agrees_addPasses {passes passes' : List RenderPass}
    (h : List.Forall₂ (PassTwin sized scene) passes passes') (key last : String) :
    Agrees (StateTwin sized scene) (fun _ _ => True) (addPasses passes key last)
      (addPasses passes' key last) := by
  refine (Agrees.forM h fun p q hpq => ?_).bind fun _ _ _ => .modify fun _ _ ⟨h⟩ => .mk h
  refine .modify ?_
  rintro s _ ⟨hs⟩
  dsimp only
  rw [hpq.id_eq]
  exact .mk (List.rel_append hs (.cons hpq .nil))

variable {config : Config} {g k : Graph} {n m : Node}

/-! ### Searches -/

/-- The searches differ at most in their nodes, which stand for each other. -/
inductive Subgraph.Twin (R : Node → Node → Prop) (s : Subgraph) : Subgraph → Prop
  | mk {order : List Node} (h : List.Forall₂ R s.order order) : Subgraph.Twin R s { s with order }

section Search

variable {σ : Type} {S : σ → σ → Prop} {host host' : Host σ}
  {visit visit' : String → Subgraph → HostM σ Subgraph}

theorem agrees_follow (hg : g.Twin config sized k) (hp : Graph.Paired config sized g k n m)
    (htexture : ∀ n m, Graph.Paired config sized g k n m → ∀ port,
      Agrees S Eq (host.texture n port) (host'.texture m port))
    (hvisit : ∀ id s t, s.Twin (Graph.Paired config sized g k) t →
      Agrees S (Subgraph.Twin (Graph.Paired config sized g k)) (visit id s) (visit' id t))
    (e : Edge) {s t : Subgraph} (h : s.Twin (Graph.Paired config sized g k) t) :
    Agrees S (Subgraph.Twin (Graph.Paired config sized g k)) (follow g host visit n e s)
      (follow k host' visit' m e t) := by
  unfold follow
  rw [hp.id_eq]
  refine (Agrees.lift (hg.requireNode e.source (some n.id))).bind fun source source' hsource => ?_
  have hfind : m.findInput e.targetPort = n.findInput e.targetPort := by
    obtain ⟨-, -, ⟨-, -, -⟩⟩ := hp
    rfl
  have hfeeds : feedsElement m source' e = feedsElement n source e := by
    obtain ⟨-, -, ⟨-, -, -⟩⟩ := hp
    obtain ⟨-, -, ⟨-, -, -⟩⟩ := hsource
    rfl
  have hboundary (port : Port) :
      isBoundary source' e.sourcePort port.type = isBoundary source e.sourcePort port.type := by
    obtain ⟨-, -, ⟨-, -, -⟩⟩ := hsource
    rfl
  rw [hfind, hfeeds, hsource.id_eq]
  split
  · refine (Agrees.lift (Agree.refl _)).bind ?_
    rintro feeds _ rfl
    split
    · exact hvisit _ s t h
    · exact .pure h
  · rw [hboundary]
    split
    · refine (htexture source source' hsource _).bind ?_
      rintro name _ rfl
      obtain ⟨h⟩ := h
      exact .pure (.mk h)
    · exact hvisit _ s t h

theorem agrees_visit (hg : g.Twin config sized k)
    (htexture : ∀ n m, Graph.Paired config sized g k n m → ∀ port,
      Agrees S Eq (host.texture n port) (host'.texture m port))
    (hwarn : ∀ message, Agrees S (fun _ _ => True) (host.warn message) (host'.warn message))
    (fuel : Nat) (stack : List String) (id : String) {s t : Subgraph}
    (h : s.Twin (Graph.Paired config sized g k) t) :
    Agrees S (Subgraph.Twin (Graph.Paired config sized g k)) (Plan.visit g host fuel stack id s)
      (Plan.visit k host' fuel stack id t) := by
  induction fuel generalizing stack id s t with
  | zero => exact .throw _
  | succ fuel ih =>
    have hholds : t.holds id = s.holds id := by
      obtain ⟨h⟩ := h
      exact (any_eq_of_forall₂ h fun n m hp => by rw [hp.id_eq]).symm
    unfold Plan.visit
    rw [hholds, hg.incoming_eq]
    split
    · exact .pure h
    · split
      · refine (hwarn _).bind fun _ _ _ => ?_
        obtain ⟨h⟩ := h
        exact .pure (.mk h)
      · refine (Agrees.lift (hg.requireNode id none)).bind fun n m hp => ?_
        refine (Agrees.foldlM (forall₂_self (g.incoming id)) ?_ h).bind fun s t h => ?_
        · rintro s t e _ h ⟨-, rfl⟩
          exact agrees_follow hg hp htexture (fun id s t h => ih _ id h) e h
        · obtain ⟨h⟩ := h
          exact .pure (.mk (List.rel_append h (.cons hp .nil)))

/-- The searches of twins find nodes that stand for each other. -/
theorem agrees_collect (hg : g.Twin config sized k)
    (htexture : ∀ n m, Graph.Paired config sized g k n m → ∀ port,
      Agrees S Eq (host.texture n port) (host'.texture m port))
    (hwarn : ∀ message, Agrees S (fun _ _ => True) (host.warn message) (host'.warn message))
    (root : String) :
    Agrees S (Subgraph.Twin (Graph.Paired config sized g k)) (collect g host root)
      (collect k host' root) := by
  unfold collect
  rw [hg.size_eq]
  exact agrees_visit hg htexture hwarn _ _ _ (.mk .nil)

end Search

/-! ### Passes of outputs -/

section Outputs

variable {plan plan' : Request → PlanM String}

/-- Programs with uniforms that stand for each other. -/
structure ProgramTwin (sized : Prop) (scene : Scene) (p q : String × Keyed Uniform) : Prop where
  text : EqIf sized p.1 q.1
  uniforms : p.2.Match (UniformTwin scene) q.2

/-- A result that is given after warnings have been issued. -/
theorem agrees_report {R : α → β → Prop} {p : Except Fault α × Shader.CallState}
    {q : Except Fault β × Shader.CallState} (h : EndAlike (Shader.CallState.Alike sized) R p q) :
    Agrees (StateTwin sized scene) R
      (do p.2.warnings.forM warn; (p.1 : Except Fault α) : PlanM α)
      (do q.2.warnings.forM warn; (q.1 : Except Fault β) : PlanM β) := by
  have hwarnings (warnings : List String) : Agrees (StateTwin sized scene) (fun _ _ => True)
      (warnings.forM warn) (warnings.forM warn) := by
    refine Agrees.forM (forall₂_self warnings) ?_
    rintro message _ ⟨-, rfl⟩
    exact agrees_warn message
  have hraise {γ : Type} (warnings : List String) {f : Fault} (hf : f.isCompilation = false) (s : State) :
      Ends (do warnings.forM warn; (.error f : Except Fault γ) : PlanM γ)
        (fun _ _ => False) (fun f _ => f.isCompilation = false) s := by
    have hforM : Ends (warnings.forM warn) (fun _ _ => True) (fun f _ => f.isCompilation = false) s :=
      Ends.forM (I := fun _ => True) (fun _ _ _ _ => trivial) trivial
    rw [ends_bind]
    refine hforM.mono (fun _ t _ => ?_) fun _ _ => id
    rw [ends_lift]
    exact hf
  cases h with
  | ok h hs =>
    dsimp only
    rw [hs.warnings_eq]
    exact (hwarnings _).bind fun _ _ _ => .lift (.ok h)
  | fault f hs =>
    dsimp only
    rw [hs.warnings_eq]
    exact (hwarnings _).bind fun _ _ _ => .lift (.fault f)
  | left q hf => exact .of_left (hraise _ hf)
  | right p hf => exact .of_right (hraise _ hf)

theorem agrees_writeFragment (hg : g.Twin config sized k) (hp : Graph.Paired config sized g k n m)
    {s t : Subgraph} (h : s.Twin (Graph.Paired config sized g k) t) (port : Port) :
    Agrees (StateTwin sized { graph := k, config }) (ProgramTwin sized { graph := k, config })
      (writeFragment { graph := g, config } s n port)
      (writeFragment { graph := k, config } t m port) := by
  obtain ⟨h⟩ := h
  have hr := Shader.agrees_fragment hg s.textures h hp port {} {} ⟨fun _ => rfl, rfl⟩
  refine (agrees_report hr).mono fun p q hpq => ⟨hpq.1, hpq.2.imp fun name u v _ _ hu => ?_⟩
  exact ⟨hu.1, Or.inl hu.2⟩

theorem agrees_buildPass (hg : g.Twin config sized k) (hp : Graph.Paired config sized g k n m)
    (hplan : ∀ r, Agrees (StateTwin sized { graph := k, config }) Eq (plan r) (plan' r))
    (port : Option String) (key : String) :
    Agrees (StateTwin sized { graph := k, config }) (PassTwin sized { graph := k, config })
      (buildPass { graph := g, config } plan n port key)
      (buildPass { graph := k, config } plan' m port key) := by
  unfold buildPass
  rw [hp.id_eq]
  refine (agrees_collect hg (fun n m hp port => ?_) agrees_warn n.id).bind fun s t hst => ?_
  · refine Agrees.bind (R := Eq) (hp.id_eq ▸ hplan _) ?_
    rintro pass _ rfl
    exact agrees_sampler _ _
  · have hport : m.outputPort port = n.outputPort port := by
      obtain ⟨-, -, ⟨-, -, -⟩⟩ := hp
      rfl
    have hwrite := agrees_writeFragment hg hp hst (n.outputPort port)
    obtain ⟨hst⟩ := hst
    rw [hport]
    refine (Agrees.modify fun _ _ ⟨h⟩ => .mk h).bind fun _ _ _ => ?_
    refine hwrite.bind fun program program' hprogram => ?_
    refine (agrees_bindings _).bind ?_
    rintro bindings _ rfl
    exact .pure (.mk hprogram.text hprogram.uniforms)

theorem agrees_planOutput (hg : g.Twin config sized k) (hp : Graph.Paired config sized g k n m)
    (hplan : ∀ r, Agrees (StateTwin sized { graph := k, config }) Eq (plan r) (plan' r))
    (port : Option String) :
    Agrees (StateTwin sized { graph := k, config }) Eq
      (planOutput { graph := g, config } plan n port)
      (planOutput { graph := k, config } plan' m port) := by
  have hkey : passKey m port = passKey n port := by
    obtain ⟨-, -, ⟨-, -, -⟩⟩ := hp
    rfl
  unfold planOutput
  rw [hkey]
  refine Agrees.get.bind ?_
  rintro s _ ⟨-⟩
  dsimp only
  split
  · exact .pure rfl
  · split
    · exact (agrees_breakCycle _).bind fun _ _ _ => .pure rfl
    · refine (agrees_whileActive _ (agrees_buildPass hg hp hplan port _)).bind fun p q hpq => ?_
      exact (agrees_addPasses (.cons hpq .nil) _ _).bind fun _ _ _ => .pure rfl

end Outputs

end RenderGraph.Plan
