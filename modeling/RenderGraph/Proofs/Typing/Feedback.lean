import Mathlib.Data.Set.Card
import Mathlib.Logic.Relation
import RenderGraph.Proofs.Typing.Rounds

/-!
# Inference without feedback

A node that inference changes takes its types from other nodes: an input proxy from what it feeds, an
output proxy from what feeds it, a node that is typed automatically from what feeds it or, if nothing
does, from what it feeds, and the owner of a proxy from the proxy.

Where no node takes types from itself, not even through others, the nodes settle one after the other. A
node of which all that it takes types from has settled takes its final types in the next round, and
from then on no step has anything to do at it. So there are at most as many rounds as nodes.

## Main definitions

* `Typing.TakesFrom`, `Typing.Depends`: which nodes a node takes its types from
* `Typing.FeedbackFree`: no node takes types from itself
* `Typing.Settling`: what is known while the steps of a round are taken

## Main results

* `Typing.Phase.idle_congr`: what a step does at a node depends on what this takes types from
* `Typing.Settling.exchange`, `Typing.Steps.settling`: one step and all steps of a round
* `Typing.settled_of_reaches`: the nodes that have settled after so many rounds
* `Typing.exists_reaches_of_feedbackFree`: all nodes have settled after as many rounds as nodes
-/

namespace RenderGraph.Typing

variable {g h : Graph} {nodes nodes' : Keyed Node} {n m : Node} {x y : String} {phase : Phase} {b : Bool}
  {done : List (Phase × String)} {ids : Set String}

/-! ### What nodes take types from -/

/-- No known node feeds the node. -/
def Unfed (g : Graph) (n : Node) : Prop :=
  ∀ e ∈ g.edges, e.target = n.id → g.contains e.source = false

/-- The node takes types from the nodes that it feeds. -/
def LooksAhead (g : Graph) (n : Node) : Prop :=
  n.kind = .graphInput ∨ Typed n ∧ Unfed g n

/-- The node takes types from the nodes that feed it. -/
def LooksBack (n : Node) : Prop :=
  n.kind = .graphOutput ∨ Typed n

/-- A node takes types from another. -/
def TakesFrom (g : Graph) (n m : Node) : Prop :=
  (LooksAhead g n ∧ ∃ e ∈ g.edges, e.source = n.id ∧ e.target = m.id) ∨
    (LooksBack n ∧ ∃ e ∈ g.edges, e.target = n.id ∧ e.source = m.id) ∨ OwnedBy n.id m

instance (g : Graph) (n : Node) : Decidable (Unfed g n) :=
  inferInstanceAs (Decidable (∀ e ∈ g.edges, _ → _))

instance (g : Graph) (n : Node) : Decidable (LooksAhead g n) :=
  inferInstanceAs (Decidable (_ ∨ _))

instance (n : Node) : Decidable (LooksBack n) :=
  inferInstanceAs (Decidable (_ ∨ _))

instance (g : Graph) (n m : Node) : Decidable (TakesFrom g n m) :=
  inferInstanceAs (Decidable (_ ∨ _ ∨ _))

/-- The node with one id takes types from that with another. -/
def Depends (g : Graph) (x y : String) : Prop :=
  ∃ n ∈ g.nodeList, ∃ m ∈ g.nodeList, n.id = x ∧ m.id = y ∧ TakesFrom g n m

/-- No node takes types from itself, not even through others. -/
def FeedbackFree (g : Graph) : Prop :=
  ∀ id, ¬ Relation.TransGen (Depends g) id id

theorem Kept.get?_eq_none (hk : Kept g nodes) (hx : g.nodes.get? x = none) : nodes.get? x = none := by
  cases hm : nodes.get? x with
  | none => rfl
  | some m =>
    obtain ⟨n, hn, -⟩ := hk.adjusted hm
    cases hx.symm.trans hn

/-- The nodes that a node takes types from do not change while it is adjusted. -/
theorem Adjusted.takesFrom {n' m' : Node} (hn : Adjusted n n') (hm : Adjusted m m')
    (ht : TakesFrom g n' m') : TakesFrom g n m := by
  obtain ⟨⟩ := hn
  rw [TakesFrom, hm.id_eq, hm.ownedBy_iff] at ht
  exact ht

theorem Kept.depends (hk : Kept g nodes) (hn : nodes.get? x = some n) (hm : nodes.get? y = some m)
    (ht : TakesFrom g n m) : Depends g x y := by
  obtain ⟨n₀, hn₀, han⟩ := hk.adjusted hn
  obtain ⟨m₀, hm₀, ham⟩ := hk.adjusted hm
  exact ⟨n₀, Graph.mem_nodeList_of_node? hn₀, m₀, Graph.mem_nodeList_of_node? hm₀, g.id_eq hn₀,
    g.id_eq hm₀, han.takesFrom ham ht⟩

/-! ### What a step looks at -/

section Congr

variable (hk : Kept g nodes) (hk' : Kept g nodes') (hn : nodes.get? n.id = some n)
  (hsame : ∀ y, Depends g n.id y → nodes.get? y = nodes'.get? y)
include hk hk' hn hsame

theorem get?_eq_of_takesFrom (hy : ∀ m, nodes.get? y = some m → TakesFrom g n m) :
    nodes.get? y = nodes'.get? y := by
  cases hm : nodes.get? y with
  | some m => rw [← hsame y (hk.depends hn hm (hy m hm)), hm]
  | none =>
    cases hg : g.nodes.get? y with
    | none => rw [hk'.get?_eq_none hg]
    | some k =>
      obtain ⟨m, hm', -⟩ := hk.exists_adjusted hg
      cases hm.symm.trans hm'

theorem edgeTargetType?_congr (hl : LooksAhead g n) {e : Edge} (he : e ∈ g.edges)
    (hs : e.source = n.id) : edgeTargetType? nodes e = edgeTargetType? nodes' e := by
  rw [edgeTargetType?, edgeTargetType?, get?_eq_of_takesFrom hk hk' hn hsame]
  exact fun m hm => Or.inl ⟨hl, e, he, hs, (hk.id_eq hm).symm⟩

theorem edgeSourceType?_congr (hl : LooksBack n) {e : Edge} (he : e ∈ g.edges)
    (ht : e.target = n.id) : edgeSourceType? nodes e = edgeSourceType? nodes' e := by
  rw [edgeSourceType?, edgeSourceType?, get?_eq_of_takesFrom hk hk' hn hsame]
  exact fun m hm => Or.inr (Or.inl ⟨hl, e, he, ht, (hk.id_eq hm).symm⟩)

theorem wanted?_congr {side : Side} (hside : n.kind = side.kind) :
    side.wanted? g nodes n.id = side.wanted? g nodes' n.id := by
  funext port
  cases side with
  | input =>
    have htypes : (g.outgoing n.id (some port)).filterMap (edgeTargetType? nodes) =
        (g.outgoing n.id (some port)).filterMap (edgeTargetType? nodes') := by
      refine List.filterMap_congr fun e he => ?_
      obtain ⟨he, hs⟩ := List.mem_filter.1 he
      rw [Bool.and_eq_true, beq_iff_eq] at hs
      exact edgeTargetType?_congr hk hk' hn hsame (Or.inl hside) he hs.1
    simp only [Side.wanted?, demanded?, htypes]
  | output =>
    simp only [Side.wanted?, arriving?]
    cases he : g.edgeInto n.id (some port) with
    | none => rfl
    | some e =>
      obtain ⟨htarget, -⟩ := Graph.target_of_edgeInto he
      exact edgeSourceType?_congr hk hk' hn hsame (Or.inl hside) (List.mem_of_find?_eq_some he) htarget

theorem outcome_congr_of_depends (ht : Typed n) : outcome g nodes n = outcome g nodes' n := by
  have hcontains (id : String) : nodes.contains id = nodes'.contains id := by
    rw [hk.contains_eq, hk'.contains_eq]
  have hsees : SeesSame g n.id nodes nodes' := by
    refine ⟨hcontains, fun e he => ?_⟩
    obtain ⟨he, htarget⟩ := List.mem_filter.1 he
    exact edgeSourceType?_congr hk hk' hn hsame (Or.inr ht) he (beq_iff_eq.1 htarget)
  by_cases hin : knownIncoming g nodes n.id = []
  · -- The edges from the node decide.
    have hunfed : Unfed g n := by
      intro e he htarget
      rw [Graph.contains, ← hk.contains_eq, Bool.eq_false_iff]
      intro hsource
      have hmem : e ∈ knownIncoming g nodes n.id :=
        List.mem_filter.2 ⟨List.mem_filter.2 ⟨he, beq_iff_eq.2 htarget⟩, hsource⟩
      rw [hin] at hmem
      cases hmem
    have htypes : (knownOutgoing g nodes n.id).filterMap (edgeTargetType? nodes) =
        (knownOutgoing g nodes n.id).filterMap (edgeTargetType? nodes') := by
      refine List.filterMap_congr fun e he => ?_
      obtain ⟨he, -⟩ := List.mem_filter.1 he
      obtain ⟨he, hs⟩ := List.mem_filter.1 he
      rw [Bool.and_eq_true, beq_iff_eq] at hs
      exact edgeTargetType?_congr hk hk' hn hsame (Or.inr ⟨ht, hunfed⟩) he hs.1
    have hconnection : connection g nodes n.id = connection g nodes' n.id := by
      simp only [connection, ← hsees.knownIncoming_eq, ← hsees.knownOutgoing_eq, hin, htypes,
        List.isEmpty_nil, if_true]
    have hedges (nodes : Keyed Node) (hd : (connection g nodes n.id).driven = false) :
        drivingEdges g nodes n.id = [] := by
      rw [drivingEdges, hd, if_neg Bool.false_ne_true]
    have hdriven : (connection g nodes n.id).driven = false := by
      simp [connection, hin]
    simp only [outcome, choice?, hedges nodes hdriven, hedges nodes' (hconnection ▸ hdriven),
      ← hconnection]
    rfl
  · exact outcome_congr hsees fun hempty => absurd hempty hin

/-- What a step does at a node depends on the nodes that this takes types from. -/
theorem Phase.idle_congr : phase.Idle g nodes n ↔ phase.Idle g nodes' n := by
  cases phase with
  | proxies side =>
    refine forall_congr' fun hside => ?_
    rw [Side.Met, Side.Met, wanted?_congr hk hk' hn hsame hside]
  | auto =>
    refine forall_congr' fun ht => ?_
    rw [outcome_congr_of_depends hk hk' hn hsame ht]

end Congr

/-! ### Names of inputs -/

/-- The nodes that are typed automatically have inputs with distinct names. -/
def NamesDistinct (nodes : Keyed Node) : Prop :=
  ∀ id n, nodes.get? id = some n → Typed n → Distinct n

theorem Distinct.of_inputs (hd : Distinct n) (hs : m.source = n.source)
    (hi : (m.inputs.map (·.id)).Nodup) : Distinct m :=
  ⟨hi, fun hall => hd.overloads (hs ▸ hall)⟩

/-- A node that was fitted has the names of its own inputs or of those of an overload. -/
theorem distinct_of_outcome (hd : Distinct n) (ho : outcome g nodes n = .ok (some m)) :
    Distinct m := by
  refine hd.of_inputs (adjusted_of_outcome ho).source_eq ?_
  rw [outcome] at ho
  split at ho
  · obtain ⟨all, hall, ho⟩ := Fault.bind_eq_ok_iff.1 ho
    obtain ⟨r, -, rfl⟩ := exists_of_fit ho
    cases hc : choice? g nodes n.id all with
    | none => exact hd.inputs
    | some o => exact hd.overloads hall o (mem_of_select? hc)
  · cases ho

theorem distinct_retyped {side : Side} {updates : Keyed DataType} (hd : Distinct n) :
    Distinct (side.retyped updates n) := by
  refine hd.of_inputs (side.adjusted_retyped updates n).source_eq ?_
  cases side with
  | input => exact hd.inputs
  | output =>
    show ((retype n.inputs updates).map (·.id)).Nodup
    rw [map_id_retype]
    exact hd.inputs

theorem distinct_of_mirrored {side : Side} {updates : Keyed DataType} {c c' : Node} (hd : Distinct c)
    (hc : side.mirrored updates c = .ok c') : Distinct c' := by
  refine hd.of_inputs (Side.adjusted_of_mirrored hc).source_eq ?_
  cases side with
  | input =>
    have hshown : c'.inputs = retype c.inputs updates := Side.shown_of_mirrored hc
    rw [hshown, map_id_retype]
    exact hd.inputs
  | output =>
    cases hc
    exact hd.inputs

theorem NamesDistinct.insert (hd : NamesDistinct nodes) (hn : nodes.get? x = some n)
    (ha : Adjusted n m) (hm : Distinct n → Distinct m) : NamesDistinct (nodes.insert x m) :=
  Keyed.forall_insert hd fun ht => hm (hd x n hn (ha.typed_iff.1 ht))

/-- A step keeps the names distinct. -/
theorem NamesDistinct.exchange (hd : NamesDistinct nodes) (hk : Kept g nodes)
    (hn : nodes.get? n.id = some n) (he : Exchange g nodes n phase nodes') : NamesDistinct nodes' := by
  cases he with
  | alone => exact hd.insert hn (Side.adjusted_retyped _ _ _) distinct_retyped
  | @mirrored side c c' _ _ ho hc =>
    have hadj := side.adjusted_retyped (side.updates g nodes n) n
    have howner := (hk.insert hn hadj).get?_of_owner? ho
    exact (hd.insert hn hadj distinct_retyped).insert howner (Side.adjusted_of_mirrored hc)
      (distinct_of_mirrored · hc)
  | fitted _ ho => exact hd.insert hn (adjusted_of_outcome ho) (distinct_of_outcome · ho)

/-! ### The steps of a round -/

/-- No step has anything to do at the nodes with some ids. -/
def Settled (g : Graph) (ids : Set String) : Prop :=
  ∀ id n, g.nodes.get? id = some n → id ∈ ids → ∀ phase : Phase, phase.Idle g g.nodes n

/-- All that the node takes types from has one of some ids. -/
def Supplied (g : Graph) (ids : Set String) (id : String) : Prop :=
  ∀ y, Depends g id y → y ∈ ids

/-- What is known of the nodes when some steps of a round were taken, if the nodes with some ids had
settled before. -/
structure Settling (g : Graph) (ids : Set String) (done : List (Phase × String))
    (nodes : Keyed Node) : Prop where
  frozen : ∀ {id : String}, id ∈ ids → nodes.get? id = g.nodes.get? id
  /-- After its step, a node that takes types from settled nodes only has settled. -/
  idle : ∀ {id : String} {n : Node} {phase : Phase}, Supplied g ids id → (phase, id) ∈ done →
    nodes.get? id = some n → phase.Idle g nodes n
  distinct : NamesDistinct nodes

theorem settling_start (hd : NamesDistinct g.nodes) : Settling g ids [] g.nodes where
  frozen _ := rfl
  idle _ hdone := by cases hdone
  distinct := hd

/-- A step that has nothing to do. -/
theorem Settling.pass (hs : Settling g ids done nodes) (hn : nodes.get? n.id = some n)
    (hi : phase.Idle g nodes n) : Settling g ids (done ++ [(phase, n.id)]) nodes where
  frozen := hs.frozen
  idle := by
    intro id m phase' hsupplied hdone hm
    rcases List.mem_append.1 hdone with hdone | hdone
    · exact hs.idle hsupplied hdone hm
    · cases List.mem_singleton.1 hdone
      cases hn.symm.trans hm
      exact hi
  distinct := hs.distinct

section Exchange

variable (hclosed : ∀ id ∈ ids, Supplied g ids id) (hsettled : Settled g ids) (hk : Kept g nodes)
  (hn : nodes.get? n.id = some n) (he : Exchange g nodes n phase nodes')
  (hs : Settling g ids done nodes)
include hclosed hsettled hk hn he hs

/-- No step exchanges a node that has settled. -/
theorem Settling.notMem : n.id ∉ ids := by
  intro hmem
  have hn₀ : g.nodes.get? n.id = some n := (hs.frozen hmem).symm.trans hn
  refine he.not_idle ((Phase.idle_congr (Kept.refl g) hk hn₀ fun y hy => ?_).1
    (hsettled _ n hn₀ hmem phase))
  exact (hs.frozen (hclosed _ hmem y hy)).symm

theorem Settling.not_ownedBy (hx : Supplied g ids x) (hm : nodes.get? x = some m) :
    ¬ OwnedBy x n := by
  intro ho
  refine hs.notMem hclosed hsettled hk hn he (hx _ (hk.depends hm hn (Or.inr (Or.inr ?_))))
  rwa [hk.id_eq hm]

/-- The nodes that have settled are kept. -/
theorem Settling.get?_eq (hx : x ∈ ids) : nodes'.get? x = nodes.get? x := by
  cases hm : nodes.get? x with
  | none =>
    refine (hk.exchange hn he).get?_eq_none ?_
    rw [← hs.frozen hx, hm]
  | some m =>
    rw [hk.get?_of_exchange hn he, hm]
    · rintro rfl
      exact hs.notMem hclosed hsettled hk hn he hx
    · exact hs.not_ownedBy hclosed hsettled hk hn he (hclosed x hx) hm

/-- After a step, the node that it exchanged has what is wanted of it. -/
theorem Settling.idle_self (hx : Supplied g ids n.id) (hm : nodes'.get? n.id = some m)
    (phase' : Phase) : phase'.Idle g nodes' m := by
  have hk' := hk.exchange hn he
  have hmid : m.id = n.id := hk'.id_eq hm
  have hsame (y : String) (hy : Depends g n.id y) : nodes'.get? y = nodes.get? y :=
    hs.get?_eq hclosed hsettled hk hn he (hx y hy)
  rw [Phase.idle_congr hk' hk (hmid ▸ hm) (by rwa [hmid])]
  have hself := hk.get?_self_of_exchange hn he (hs.not_ownedBy hclosed hsettled hk hn he hx hn)
  by_cases hcovers : phase'.Covers m
  · rcases hself with ⟨side, rfl, -, hret⟩ | ⟨rfl, k, ho, hout⟩
    · cases hm.symm.trans hret
      have hside : (Phase.proxies side).Covers (side.retyped (side.updates g nodes n) n) :=
        (side.adjusted_retyped _ n).kind_eq.trans he.covers
      cases Phase.eq_of_covers hcovers hside
      intro _
      rw [Side.Met, side.ports_retyped, (side.adjusted_retyped _ n).id_eq]
      exact meets_retype_collect _ _
    · cases hm.symm.trans hout
      have htyped : Phase.auto.Covers m := (adjusted_of_outcome ho).typed_iff.2 he.covers
      cases Phase.eq_of_covers hcovers htyped
      intro _
      exact outcome_of_outcome (hs.distinct _ n hn he.covers) ho
  · exact Phase.idle_of_not_covers hcovers g nodes

/-- A step that exchanges nodes. -/
theorem Settling.exchange : Settling g ids (done ++ [(phase, n.id)]) nodes' where
  frozen hx := (hs.get?_eq hclosed hsettled hk hn he hx).trans (hs.frozen hx)
  idle := by
    intro id m phase' hsupplied hdone hm
    by_cases hid : id = n.id
    · subst hid
      exact hs.idle_self hclosed hsettled hk hn he hsupplied hm phase'
    · -- The node stays, and so does all that it takes types from.
      have hk' := hk.exchange hn he
      obtain ⟨k, hgk, -⟩ := hk'.adjusted hm
      obtain ⟨m₀, hm₀, -⟩ := hk.exists_adjusted hgk
      have hown := hs.not_ownedBy hclosed hsettled hk hn he hsupplied hm₀
      have hold : nodes.get? id = some m := (hk.get?_of_exchange hn he hid hown).symm.trans hm
      have hdone' : (phase', id) ∈ done := by
        refine (List.mem_append.1 hdone).resolve_right fun hlast => hid ?_
        cases List.mem_singleton.1 hlast
        rfl
      obtain rfl : m.id = id := hk.id_eq hold
      refine (Phase.idle_congr hk hk' hold fun y hy => ?_).1 (hs.idle hsupplied hdone' hold)
      exact (hs.get?_eq hclosed hsettled hk hn he (hsupplied y hy)).symm
  distinct := hs.distinct.exchange hk hn he

end Exchange

theorem Steps.settling (hclosed : ∀ id ∈ ids, Supplied g ids id) (hsettled : Settled g ids)
    (hd : NamesDistinct g.nodes) (hsteps : Steps g done b nodes) : Settling g ids done nodes := by
  induction hsteps with
  | start => exact settling_start hd
  | idle _ hn hi ih => exact ih.pass hn hi
  | exchange hsteps hn he ih => exact ih.exchange hclosed hsettled hsteps.kept hn he

/-! ### Rounds one after the other -/

/-- What there is to do depends on the edges of a graph. -/
theorem Phase.idle_of_edges_eq (hedges : h.edges = g.edges) :
    phase.Idle h nodes n ↔ phase.Idle g nodes n := by
  cases phase with
  | proxies side =>
    have hwanted : side.wanted? h = side.wanted? g := by
      funext nodes id port
      cases side with
      | input =>
        have hout : h.outgoing id (some port) = g.outgoing id (some port) := by
          rw [Graph.outgoing, Graph.outgoing, hedges]
        rw [Side.wanted?, demanded?, hout]
        rfl
      | output => simp only [Side.wanted?, arriving?, Graph.edgeInto, hedges]
    simp only [Phase.Idle, Side.Met, hwanted]
  | auto => simp only [Phase.Idle, outcome_of_edges_eq hedges]

/-- After a round, the nodes have settled that take types from settled nodes only. -/
theorem Settled.round (hclosed : ∀ id ∈ ids, Supplied g ids id) (hsettled : Settled g ids)
    (hd : NamesDistinct g.nodes) (hrun : (run g).1 = .ok (some h)) :
    Settled h {id | Supplied g ids id} ∧ NamesDistinct h.nodes := by
  obtain ⟨hsteps, hedges⟩ := steps_of_round hrun
  have hs := hsteps.settling hclosed hsettled hd
  refine ⟨fun id n hn hsupplied phase => ?_, hs.distinct⟩
  rw [Phase.idle_of_edges_eq hedges]
  refine hs.idle hsupplied (mem_schedule phase ?_) hn
  rw [← hsteps.kept.keys_eq]
  exact Keyed.mem_keys_of_get? hn

theorem depends_of_kept (hk : Kept g h.nodes) (hedges : h.edges = g.edges) (hxy : Depends h x y) :
    Depends g x y := by
  obtain ⟨n, hn, m, hm, rfl, rfl, ht⟩ := hxy
  refine hk.depends (Graph.mem_nodeList_iff.1 hn) (Graph.mem_nodeList_iff.1 hm) ?_
  have hcontains (id : String) : h.contains id = g.contains id := hk.contains_eq id
  simpa only [TakesFrom, LooksAhead, Unfed, hedges, hcontains] using ht

/-- The nodes have settled of which a rank that falls along dependencies is below the number of
rounds. -/
theorem settled_of_reaches {rank : String → Nat} (hrank : ∀ x y, Depends g x y → rank y < rank x)
    (hd : NamesDistinct g.nodes) {k : Nat} (hr : Reaches g k h) :
    Settled h {id | rank id < k} ∧ NamesDistinct h.nodes := by
  induction hr with
  | start => exact ⟨fun _ _ _ hid => absurd hid (Nat.not_lt_zero _), hd⟩
  | @round k h h' hr hrun ih =>
    obtain ⟨hkept, hedges⟩ := hr.kept
    have hlt (x y : String) (hxy : Depends h x y) : rank y < rank x :=
      hrank x y (depends_of_kept hkept hedges hxy)
    obtain ⟨hsettled, hd'⟩ := ih.1.round (fun x hx y hxy => (hlt x y hxy).trans hx) ih.2 hrun
    refine ⟨fun id n hn hid => hsettled id n hn fun y hy => ?_, hd'⟩
    exact (hlt id y hy).trans_le (Nat.lt_succ_iff.1 hid)

/-! ### Ranks -/

theorem mem_keys_of_depends (hxy : Depends g x y) : y ∈ g.nodes.keys := by
  obtain ⟨_, _, m, hm, _, rfl, _⟩ := hxy
  exact Graph.id_mem_keys hm

/-- Without feedback, the number of nodes that a node takes types from falls along dependencies, and it
is less than the number of all nodes. -/
theorem FeedbackFree.exists_rank (hf : FeedbackFree g) :
    ∃ rank : String → Nat, (∀ x y, Depends g x y → rank y < rank x) ∧
      ∀ x ∈ g.nodes.keys, rank x < g.size := by
  let below (x : String) : Set String := {y | Relation.TransGen (Depends g) x y}
  have hkeys (x : String) : below x ⊆ {id | id ∈ g.nodes.keys} := by
    rintro y hy
    obtain ⟨_, _, hlast⟩ := Relation.TransGen.tail'_iff.1 hy
    exact mem_keys_of_depends hlast
  have hfinite : {id | id ∈ g.nodes.keys}.Finite := List.finite_toSet _
  refine ⟨fun x => (below x).ncard, fun x y hxy => ?_, fun x hx => ?_⟩
  · refine Set.ncard_lt_ncard ⟨fun z hz => .head hxy hz, fun hsub => ?_⟩ (hfinite.subset (hkeys x))
    exact hf y (hsub (.single hxy))
  · have hlt : (below x).ncard < {id | id ∈ g.nodes.keys}.ncard :=
      Set.ncard_lt_ncard ⟨hkeys x, fun hsub => hf x (hsub hx)⟩ hfinite
    refine hlt.trans_le ?_
    rw [← List.coe_toFinset, Set.ncard_coe_finset, Graph.size, ← Keyed.length_keys]
    exact List.toFinset_card_le _

/-- Rounds that return go on until nothing changes. -/
theorem exists_reaches {k : Nat} (hq : ∀ j h, Reaches g j h → ∃ r, (run h).1 = .ok r)
    (hk : ∀ h, Reaches g k h → (run h).1 = .ok none) :
    ∃ j ≤ k, ∃ h, Reaches g j h ∧ (run h).1 = .ok none := by
  have hgo (i : Nat) : (∃ j ≤ i, ∃ h, Reaches g j h ∧ (run h).1 = .ok none) ∨ ∃ h, Reaches g i h := by
    induction i with
    | zero => exact Or.inr ⟨g, .start⟩
    | succ i ih =>
      rcases ih with ⟨j, hj, hend⟩ | ⟨h, hr⟩
      · exact Or.inl ⟨j, Nat.le_succ_of_le hj, hend⟩
      · obtain ⟨_ | h', hrun⟩ := hq i h hr
        · exact Or.inl ⟨i, Nat.le_succ i, h, hr, hrun⟩
        · exact Or.inr ⟨h', hr.round hrun⟩
  rcases hgo k with hend | ⟨h, hr⟩
  · exact hend
  · exact ⟨k, Nat.le_refl k, h, hr, hk h hr⟩

/-- Without feedback, nothing changes any more after as many rounds as there are nodes. -/
theorem exists_reaches_of_feedbackFree (hf : FeedbackFree g) (hd : NamesDistinct g.nodes)
    (hq : ∀ j h, Reaches g j h → ∃ r, (run h).1 = .ok r) :
    ∃ j ≤ g.size, ∃ h, Reaches g j h ∧ (run h).1 = .ok none := by
  obtain ⟨rank, hrank, hsize⟩ := hf.exists_rank
  refine exists_reaches hq fun h hr => run_eq_none_of_idle fun {id n} hn => ?_
  refine (settled_of_reaches hrank hd hr).1 id n hn (hsize id ?_)
  rw [← hr.kept.1.keys_eq]
  exact Keyed.mem_keys_of_get? hn

end RenderGraph.Typing
