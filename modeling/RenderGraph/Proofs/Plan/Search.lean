import Mathlib.Data.List.Nodup
import Mathlib.Data.List.Perm.Subperm
import RenderGraph.Plan.Subgraph
import RenderGraph.Proofs.Cause
import RenderGraph.Proofs.Outcome

/-!
# What a search for the nodes of a pass finds

A search asks its host for a texture at each boundary that feeds an input of a collected node, and at
no other place. It goes on as long as the host does: it fails where its host fails, where the source of
an edge is missing and where a handle cannot be read. It does not run out of fuel, since the nodes
being visited are distinct.

## Main definitions

* `Plan.Read`: a texture that a search asked for
* `Plan.Asks`: what a search asked of its host on the way from one state to another
* `Plan.Adds`: what a search adds to a subgraph

## Main results

* `Plan.ends_collect`: how a search ends
* `Plan.leads_visit_holds`: it collects the node from which it starts
-/

namespace RenderGraph.Plan

/-- A texture that a search asked for: the input that it feeds, and the output that it shows. -/
structure Read where
  node : Node
  port : Port
  source : Node
  sourcePort : Option String
  sampler : String

namespace Read

/-- The entry of a subgraph that a texture makes. -/
def entry (r : Read) : String × String :=
  (Shader.textureKey r.node.id r.port.id, r.sampler)

/-- The texture is read because of an edge. -/
structure Crosses (g : Graph) (e : Edge) (r : Read) : Prop where
  mem : e ∈ g.incoming r.node.id
  port_eq : r.node.findInput e.targetPort = some r.port
  source_eq : g.node? e.source = some r.source
  sourcePort_eq : r.sourcePort = e.sourcePort
  boundary : isBoundary r.source e.sourcePort r.port.type = true

end Read

variable {σ : Type} {g : Graph} {host : Host σ}

/-! ### What is asked of a host -/

/-- On the way from one state to another, a search asked its host for textures of nodes of the graph. -/
inductive Asks (g : Graph) (host : Host σ) (s : σ) : List Read → σ → Prop
  | nil : Asks g host s [] s
  | warn {reads : List Read} {t u : σ} {message : String} (h : Asks g host s reads t)
      (hw : (host.warn message).run t = (.ok (), u)) : Asks g host s reads u
  | read {reads : List Read} {t u : σ} {r : Read} (h : Asks g host s reads t)
      (hs : r.source ∈ g.nodeList)
      (hr : (host.texture r.source r.sourcePort).run t = (.ok r.sampler, u)) :
      Asks g host s (reads ++ [r]) u

theorem Asks.trans {s t u : σ} {reads reads' : List Read} (h : Asks g host s reads t)
    (h' : Asks g host t reads' u) : Asks g host s (reads ++ reads') u := by
  induction h' with
  | nil =>
    rw [List.append_nil]
    exact h
  | warn _ hw ih => exact ih.warn hw
  | read _ hs hr ih =>
    rw [← List.append_assoc]
    exact ih.read hs hr

/-- Whatever was asked before, the host answers or fails in `C`. -/
def Answers (g : Graph) (host : Host σ) (C : Fault → Prop) (s : σ) : Prop :=
  ∀ {reads : List Read} {t : σ}, Asks g host s reads t →
    (∀ source ∈ g.nodeList, ∀ port,
      Ends (host.texture source port) (fun _ _ => True) (fun f _ => C f) t) ∧
    ∀ message, Ends (host.warn message) (fun _ _ => True) (fun f _ => C f) t

theorem Answers.of_asks {C : Fault → Prop} {s t : σ} {reads : List Read}
    (h : Answers g host C s) (ha : Asks g host s reads t) : Answers g host C t :=
  fun ha' => h (ha.trans ha')

/-- Faults of the edges of a graph are among those in `C`. -/
structure Covers (g : Graph) (C : Fault → Prop) : Prop where
  source : ∀ e ∈ g.edges, g.node? e.source = none → C (.nodeNotFound e.source (some e.target))
  handle : ∀ e ∈ g.edges, ∀ f, e.arrayElement = .error f → C f

/-! ### What a search adds -/

/-- The search has asked for the texture that an edge into a node may need. -/
def Served (g : Graph) (n : Node) (e : Edge) (reads : List Read) : Prop :=
  ∀ port source, n.findInput e.targetPort = some port → g.node? e.source = some source →
    isBoundary source e.sourcePort port.type = true →
      ∃ r ∈ reads, r.node = n ∧ r.Crosses g e

/-- Two textures feed different inputs. -/
def Read.Apart (r r' : Read) : Prop :=
  ¬ (r.node.id = r'.node.id ∧ r.port.id = r'.port.id)

/-- A search adds nodes and textures to a subgraph while it visits a node, some of whose edges it has
followed. -/
structure Adds (g : Graph) (stack : List String) (visiting : List Node) (followed : List Edge)
    (s s' : Subgraph) (added : List Node) (reads : List Read) : Prop where
  order_eq : s'.order = s.order ++ added
  textures_eq : s'.textures = s.textures.insertAll (reads.map Read.entry)
  inlined : ∀ n ∈ added, g.Inlines n
  /-- Nodes are added that were not there and are not being visited. -/
  fresh : ∀ n ∈ added, s.holds n.id = false ∧ n.id ∉ stack
  /-- Textures are read at boundaries only. -/
  crosses : ∀ r ∈ reads, ∃ e, r.Crosses g e ∧ (r.node ∈ added ∨ r.node ∈ visiting ∧ e ∈ followed)
  /-- Every input reads at most one texture. -/
  apart : reads.Pairwise Read.Apart
  /-- Every boundary of a node that was added is read. -/
  served : ∀ n ∈ added, ∀ e ∈ g.incoming n.id, Served g n e reads
  /-- So is every boundary among the edges that were followed. -/
  followed : ∀ n ∈ visiting, ∀ e ∈ followed, Served g n e reads

theorem Served.mono {n : Node} {e : Edge} {reads reads' : List Read} (h : Served g n e reads)
    (hs : ∀ r ∈ reads, r ∈ reads') : Served g n e reads' := by
  intro port source hp hsrc hb
  obtain ⟨r, hr, hc⟩ := h port source hp hsrc hb
  exact ⟨r, hs r hr, hc⟩

namespace Adds

variable {stack : List String} {visiting : List Node} {es es' : List Edge} {s s' s'' : Subgraph}
  {added added' : List Node} {reads reads' : List Read}

theorem refl (g : Graph) (s : Subgraph) : Adds g stack visiting [] s s [] [] where
  order_eq := (List.append_nil _).symm
  textures_eq := rfl
  inlined := by simp
  fresh := by simp
  crosses := by simp
  apart := .nil
  served := by simp
  followed := by simp

/-- What is added is held afterwards. -/
theorem holds (h : Adds g stack visiting es s s' added reads) {n : Node} (hn : n ∈ added) :
    s'.holds n.id = true := by
  refine List.any_eq_true.2 ⟨n, ?_, by simp⟩
  rw [h.order_eq]
  exact List.mem_append_right _ hn

theorem not_holds (h : Adds g stack visiting es s s' added reads) {id : String}
    (hn : s'.holds id = false) : s.holds id = false := by
  rw [Subgraph.holds, h.order_eq, List.any_append, Bool.or_eq_false_iff] at hn
  exact hn.1

theorem trans (h : Adds g stack visiting es s s' added reads)
    (h' : Adds g stack visiting es' s' s'' added' reads') (hv : ∀ n ∈ visiting, n.id ∈ stack)
    (he : ∀ e ∈ es, ∀ e' ∈ es', e.targetPort ≠ e'.targetPort) :
    Adds g stack visiting (es ++ es') s s'' (added ++ added') (reads ++ reads') where
  order_eq := by
    rw [h'.order_eq, h.order_eq, List.append_assoc]
  textures_eq := by
    rw [h'.textures_eq, h.textures_eq, List.map_append]
    exact (List.foldl_append ..).symm
  inlined := by
    intro n hn
    exact (List.mem_append.1 hn).elim (h.inlined n) (h'.inlined n)
  fresh := by
    intro n hn
    rcases List.mem_append.1 hn with hn | hn
    · exact h.fresh n hn
    · exact ⟨h.not_holds (h'.fresh n hn).1, (h'.fresh n hn).2⟩
  crosses := by
    intro r hr
    rcases List.mem_append.1 hr with hr | hr
    · obtain ⟨e, hc, hm⟩ := h.crosses r hr
      exact ⟨e, hc, hm.imp (List.mem_append_left _) fun hm => ⟨hm.1, List.mem_append_left _ hm.2⟩⟩
    · obtain ⟨e, hc, hm⟩ := h'.crosses r hr
      exact ⟨e, hc, hm.imp (List.mem_append_right _) fun hm => ⟨hm.1, List.mem_append_right _ hm.2⟩⟩
  apart := by
    refine List.pairwise_append.2 ⟨h.apart, h'.apart, ?_⟩
    rintro r hr r' hr' ⟨hid, hport⟩
    obtain ⟨e, hc, hm⟩ := h.crosses r hr
    obtain ⟨e', hc', hm'⟩ := h'.crosses r' hr'
    rcases hm with hm | ⟨hm, hmem⟩ <;> rcases hm' with hm' | ⟨hm', hmem'⟩
    · -- The later node was not there, but the earlier one is.
      have hfresh := (h'.fresh _ hm').1
      rw [← hid, h.holds hm] at hfresh
      cases hfresh
    · exact (h.fresh _ hm).2 (hid ▸ hv _ hm')
    · exact (h'.fresh _ hm').2 (hid ▸ hv _ hm)
    · refine he e hmem e' hmem' ?_
      rw [(Node.findInput_eq_some hc.port_eq).1, (Node.findInput_eq_some hc'.port_eq).1, hport]
  served := by
    intro n hn e he
    rcases List.mem_append.1 hn with hn | hn
    · exact (h.served n hn e he).mono fun r => List.mem_append_left _
    · exact (h'.served n hn e he).mono fun r => List.mem_append_right _
  followed := by
    intro n hn e he
    rcases List.mem_append.1 he with he | he
    · exact (h.followed n hn e he).mono fun r => List.mem_append_left _
    · exact (h'.followed n hn e he).mono fun r => List.mem_append_right _

/-- What a search adds on its own it also adds while a node is being visited, if the edge that led to
it is no boundary. -/
theorem along (h : Adds g stack [] [] s s' added reads) {n : Node} {e : Edge}
    (he : Served g n e []) : Adds g stack [n] [e] s s' added reads where
  order_eq := h.order_eq
  textures_eq := h.textures_eq
  inlined := h.inlined
  fresh := h.fresh
  crosses := by
    intro r hr
    obtain ⟨e, hc, hm⟩ := h.crosses r hr
    exact ⟨e, hc, Or.inl (hm.resolve_right (by simp))⟩
  apart := h.apart
  served := h.served
  followed := by
    intro m hm d hd
    rw [List.mem_singleton] at hm hd
    subst hm hd
    exact he.mono (by simp)

/-- A node is added when all its edges have been followed. -/
theorem close {n : Node} (h : Adds g (n.id :: stack) [n] (g.incoming n.id) s s' added reads)
    (hn : g.Inlines n) (hs : s.holds n.id = false) (hstack : n.id ∉ stack) :
    Adds g stack [] [] s { s' with order := s'.order ++ [n] } (added ++ [n]) reads where
  order_eq := by
    show s'.order ++ [n] = _
    rw [h.order_eq, List.append_assoc]
  textures_eq := h.textures_eq
  inlined := by
    intro m hm
    rcases List.mem_append.1 hm with hm | hm
    · exact h.inlined m hm
    · exact List.mem_singleton.1 hm ▸ hn
  fresh := by
    intro m hm
    rcases List.mem_append.1 hm with hm | hm
    · obtain ⟨hheld, hmem⟩ := h.fresh m hm
      exact ⟨hheld, fun hm => hmem (List.mem_cons_of_mem _ hm)⟩
    · exact List.mem_singleton.1 hm ▸ ⟨hs, hstack⟩
  crosses := by
    intro r hr
    obtain ⟨e, hc, hm⟩ := h.crosses r hr
    exact ⟨e, hc, Or.inl (List.mem_append.2 (hm.imp_right And.left))⟩
  apart := h.apart
  served := by
    intro m hm e he
    rcases List.mem_append.1 hm with hm | hm
    · exact h.served m hm e he
    · rw [List.mem_singleton] at hm
      subst hm
      exact h.followed m List.mem_cons_self e he
  followed := by simp

end Adds

/-! ### Following edges -/

section Search

variable {C : Fault → Prop} {node : Node} {stack : List String} {s : Subgraph} {t : σ}

/-- What a search does with an edge that is no boundary. -/
private theorem served_of_not {e : Edge} {port : Port} {source : Node}
    (hp : node.findInput e.targetPort = some port) (hs : g.node? e.source = some source)
    (hb : isBoundary source e.sourcePort port.type = false) : Served g node e [] := by
  intro port' source' hp' hs' hb'
  rw [hp, Option.some.injEq] at hp'
  rw [hs, Option.some.injEq] at hs'
  subst hp' hs'
  rw [hb] at hb'
  cases hb'

private theorem isMultiStage_of_not {source : Node} {port : Option String} {type : DataType}
    (h : isBoundary source port type = false) : source.isMultiStage = false :=
  (Bool.or_eq_false_iff.1 h).1

/-- An edge is followed if its source can be visited. -/
theorem ends_follow {visit : String → Subgraph → HostM σ Subgraph} {e : Edge} (hc : Covers g C)
    (hv : ∀ source, g.Inlines source → ∀ s t, Answers g host C t →
      Ends (visit source.id s)
        (fun s' t' => ∃ added reads, Adds g stack [] [] s s' added reads ∧ Asks g host t reads t')
        (fun f _ => C f) t)
    (he : e ∈ g.incoming node.id) (ha : Answers g host C t) :
    Ends (follow g host visit node e s)
      (fun s' t' => ∃ added reads, Adds g stack [node] [e] s s' added reads ∧ Asks g host t reads t')
      (fun f _ => C f) t := by
  obtain ⟨hedge, htarget⟩ : e ∈ g.edges ∧ e.target = node.id := by
    simpa using List.mem_filter.1 he
  unfold follow Graph.requireNode
  cases hs : g.node? e.source with
  | none =>
    have hfault := hc.source e hedge hs
    rw [htarget] at hfault
    exact hfault
  | some source =>
    have hmem : source ∈ g.nodeList := Graph.mem_nodeList_of_node? hs
    have hvisit (hm : source.isMultiStage = false) (hserved : Served g node e []) :
        Ends (visit source.id s)
          (fun s' t' => ∃ added reads, Adds g stack [node] [e] s s' added reads ∧
            Asks g host t reads t') (fun f _ => C f) t := by
      refine (hv source ⟨hmem, hm⟩ s t ha).mono ?_ fun _ _ => id
      rintro s' t' ⟨added, reads, hadds, hasks⟩
      exact ⟨added, reads, hadds.along hserved, hasks⟩
    rw [ends_bind, ends_lift, yields_ok]
    cases hp : node.findInput e.targetPort with
    | none =>
      have hserved : Served g node e [] := by
        intro port source hp'
        rw [hp] at hp'
        cases hp'
      dsimp only
      rw [ends_bind, ends_lift]
      unfold feedsElement
      rw [yields_bind, yields_iff]
      refine ⟨fun element _ => ?_, fun f hf => hc.handle e hedge f hf⟩
      cases element.bind fun r => node.findInput (some r.1) with
      | none =>
        exact ⟨[], [], (Adds.refl g s).along hserved, .nil⟩
      | some base =>
        dsimp only
        rw [yields_pure]
        split
        · next hf =>
          have hm : source.isMultiStage = false := by
            simpa using (Bool.and_eq_true_iff.1 hf).2
          exact hvisit hm hserved
        · exact ⟨[], [], (Adds.refl g s).along hserved, .nil⟩
    | some port =>
      dsimp only
      split
      · next hb =>
        rw [ends_bind]
        refine (((ha .nil).1 source hmem e.sourcePort).and_run).mono ?_ fun _ _ => id
        rintro sampler u ⟨-, hrun⟩
        -- The edge is a boundary: the texture becomes a read of the node.
        let r : Read := { node, port, source, sourcePort := e.sourcePort, sampler }
        have hr : r.Crosses g e := ⟨he, hp, hs, rfl, hb⟩
        rw [ends_pure]
        refine ⟨[], [r], ?_, .read (r := r) .nil hmem hrun⟩
        exact {
          order_eq := (List.append_nil _).symm
          textures_eq := rfl
          inlined := by simp
          fresh := by simp
          crosses := by
            intro r' hr'
            rw [List.mem_singleton] at hr'
            subst hr'
            exact ⟨e, hr, Or.inr ⟨List.mem_cons_self, List.mem_cons_self⟩⟩
          apart := List.pairwise_singleton _ _
          served := by simp
          followed := by
            intro n hn d hd
            rw [List.mem_singleton] at hn hd
            subst hn hd
            intro _ _ _ _ _
            exact ⟨r, List.mem_cons_self, rfl, hr⟩ }
      · next hb =>
        rw [Bool.not_eq_true] at hb
        exact hvisit (isMultiStage_of_not hb) (served_of_not hp hs hb)

/-- No two edges into a node end at one input. -/
private theorem pairwise_incoming (g : Graph) (id : String) :
    (g.incoming id).Pairwise fun d e => d.targetPort ≠ e.targetPort := by
  refine (g.single.sublist List.filter_sublist).imp_of_mem ?_
  intro d e hd he hne hport
  have hdt : d.target = id := by simpa using (List.mem_filter.1 hd).2
  have het : e.target = id := by simpa using (List.mem_filter.1 he).2
  exact hne (Edge.goesTo_iff.2 ⟨het.trans hdt.symm, hport.symm⟩)

/-- Edges are followed one after the other. -/
theorem ends_followAll {visit : String → Subgraph → HostM σ Subgraph} {es : List Edge}
    (hc : Covers g C)
    (hv : ∀ source, g.Inlines source → ∀ s t, Answers g host C t →
      Ends (visit source.id s)
        (fun s' t' => ∃ added reads, Adds g stack [] [] s s' added reads ∧ Asks g host t reads t')
        (fun f _ => C f) t)
    (hn : node.id ∈ stack) (he : ∀ e ∈ es, e ∈ g.incoming node.id)
    (hd : es.Pairwise fun d e => d.targetPort ≠ e.targetPort) (ha : Answers g host C t) :
    Ends (es.foldlM (fun s e => follow g host visit node e s) s)
      (fun s' t' => ∃ added reads, Adds g stack [node] es s s' added reads ∧ Asks g host t reads t')
      (fun f _ => C f) t := by
  induction es generalizing s t with
  | nil => exact ⟨[], [], Adds.refl g s, .nil⟩
  | cons e es ih =>
    obtain ⟨hde, hd⟩ := List.pairwise_cons.1 hd
    rw [List.foldlM_cons, ends_bind]
    refine (ends_follow hc hv (he e List.mem_cons_self) ha).mono ?_ fun _ _ => id
    rintro s' t' ⟨added, reads, hadds, hasks⟩
    refine (ih (fun d hd => he d (List.mem_cons_of_mem e hd)) hd (ha.of_asks hasks)).mono ?_
      fun _ _ => id
    rintro s'' t'' ⟨added', reads', hadds', hasks'⟩
    refine ⟨added ++ added', reads ++ reads', hadds.trans hadds' ?_ ?_, hasks.trans hasks'⟩
    · intro m hm
      exact List.mem_singleton.1 hm ▸ hn
    · intro d hd' d' hd''
      exact List.mem_singleton.1 hd' ▸ hde d' hd''

/-- A visit ends with what it added. The nodes being visited are distinct, so that they are fewer than
the fuel. -/
theorem ends_visit (hc : Covers g C) {fuel : Nat} (hn : g.Inlines node)
    (hnodup : stack.Nodup) (hsub : stack ⊆ g.nodes.keys) (hfuel : g.size < fuel + stack.length)
    (ha : Answers g host C t) :
    Ends (visit g host fuel stack node.id s)
      (fun s' t' => ∃ added reads, Adds g stack [] [] s s' added reads ∧ Asks g host t reads t')
      (fun f _ => C f) t := by
  induction fuel generalizing stack node s t with
  | zero =>
    have hle := (List.subperm_of_subset hnodup hsub).length_le
    rw [Keyed.length_keys] at hle
    exact absurd hle (by unfold Graph.size at hfuel; omega)
  | succ fuel ih =>
    unfold visit
    split
    · exact ⟨[], [], Adds.refl g s, .nil⟩
    · next hheld =>
      rw [Bool.not_eq_true] at hheld
      split
      · rw [ends_bind]
        refine (((ha .nil).2 _).and_run).mono ?_ fun _ _ => id
        rintro ⟨⟩ u ⟨-, hrun⟩
        exact ⟨[], [], ⟨by simp, rfl, by simp, by simp, by simp, .nil, by simp, by simp⟩,
          .warn .nil hrun⟩
      · next hmem =>
        have hnode : g.requireNode node.id = .ok node := by
          rw [Graph.requireNode, Graph.mem_nodeList_iff.1 hn.1]
        rw [ends_bind, hnode, ends_lift, yields_ok, ends_bind]
        have hself : node.id ∈ node.id :: stack := List.mem_cons_self
        refine (ends_followAll hc ?_ hself (fun _ => id) (pairwise_incoming g _) ha).mono ?_
          fun _ _ => id
        · intro source hs s t ha
          refine ih hs (List.nodup_cons.2 ⟨hmem, hnodup⟩) ?_ ?_ ha
          · exact List.cons_subset.2 ⟨Graph.id_mem_keys hn.1, hsub⟩
          · rw [List.length_cons]
            omega
        · rintro s' t' ⟨added, reads, hadds, hasks⟩
          rw [ends_pure]
          exact ⟨added ++ [node], reads, hadds.close hn hheld hmem, hasks⟩

/-- A search fails where its host fails and for faults of the edges of the graph. If it succeeds, it has
read the boundaries of the nodes that it collected. -/
theorem ends_collect (hc : Covers g C) (hn : g.Inlines node) (ha : Answers g host C t) :
    Ends (collect g host node.id)
      (fun s' t' => ∃ reads, Adds g [] [] [] {} s' s'.order reads ∧ Asks g host t reads t')
      (fun f _ => C f) t := by
  refine (ends_visit hc hn List.nodup_nil (by simp) (by simp) ha).mono ?_ fun _ _ => id
  rintro s' t' ⟨added, reads, hadds, hasks⟩
  have horder : s'.order = added := hadds.order_eq
  exact ⟨reads, horder ▸ hadds, hasks⟩

/-- A visit collects its node, unless the node is being visited. -/
theorem leads_visit_holds {fuel : Nat} {id : String} (h : id ∉ stack) :
    Leads (visit g host fuel stack id s) (fun s' _ => s'.holds id = true) t := by
  cases fuel with
  | zero => trivial
  | succ fuel =>
    unfold visit
    split
    · next hheld => exact hheld
    · rw [Leads, ends_bind, ends_lift, yields_iff]
      refine ⟨fun node hnode => Leads.bind fun s' t' => ?_, fun _ _ => trivial⟩
      have hid : node.id = id := by
        unfold Graph.requireNode at hnode
        split at hnode
        · next hget =>
          cases hnode
          exact g.id_eq hget
        · cases hnode
      show (s'.order ++ [node]).any (·.id == id) = true
      simp [hid]

end Search

end RenderGraph.Plan
