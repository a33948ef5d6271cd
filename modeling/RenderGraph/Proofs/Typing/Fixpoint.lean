import RenderGraph.Proofs.Source.Signature
import RenderGraph.Proofs.Typing.Step

/-!
# Inference reaches a fixpoint in one sweep

In a graph without proxies, inference fits the nodes that are typed automatically, one after the other.
If the nodes that feed such a node stand before it, then it sees their final types, and what comes after
it does not disturb it. So one sweep is enough: inference has nothing to do on what it returned.

## Main definitions

* `Typing.Forward`: a graph without proxies in which types flow forward
* `Typing.Swept`: some nodes have been fitted for good

## Main results

* `Typing.Swept.step`: one step of the sweep
* `Typing.leads_autoSweep`: the whole sweep
* `Typing.run_rounds_cons`, `Typing.run_of_sweeps`: sweeps round by round, and inference sweep by sweep
* `Typing.run_of_run_forward`: inference changes nothing the second time
-/

namespace RenderGraph.Typing

variable {g : Graph} {nodes : Keyed Node} {n m : Node} {s t : State}

/-! ### Steps of the sweep -/

/-- The node is typed automatically. -/
def Typed (n : Node) : Prop :=
  n.autoType = true ∧ (n.kind = .standard ∨ n.kind = .compound)

instance (n : Node) : Decidable (Typed n) :=
  inferInstanceAs (Decidable (_ ∧ _))

theorem Refitted.typed_iff (h : Refitted n m) : Typed m ↔ Typed n := by
  rw [Typed, Typed, h.autoType_eq, h.kind_eq]

/-- A step passes over the other nodes. -/
private theorem passed_over_iff :
    (!n.autoType || (n.kind ≠ .standard && n.kind ≠ .compound)) = true ↔ ¬ Typed n := by
  cases ha : n.autoType <;> simp [Typed, ha]

theorem run_autoStep_of_not_typed (h : ¬ Typed n) (g : Graph) (s : State) :
    (autoStep g n).run s = (.ok false, s) := by
  unfold autoStep
  rw [if_pos (passed_over_iff.2 h)]
  rfl

theorem run_autoStep_of_typed (h : Typed n) (g : Graph) (s : State) :
    ∃ warnings, (autoStep g n).run s =
      match outcome g s.nodes n with
      | .ok none => (.ok false, { s with warnings })
      | .ok (some m) => (.ok true, { nodes := s.nodes.insert m.id m, warnings })
      | .error f => (.error f, { s with warnings }) := by
  obtain ⟨warnings, hrun⟩ := run_autoNode g n s
  refine ⟨warnings, ?_⟩
  unfold autoStep
  rw [if_neg fun hskip => passed_over_iff.1 hskip h, run_bind, hrun]
  rcases outcome g s.nodes n with f | _ | m <;> rfl

theorem run_autoStep_of_outcome (h : Typed n) (ho : outcome g s.nodes n = .ok (some m)) :
    ∃ warnings, (autoStep g n).run s = (.ok true, { nodes := s.nodes.insert m.id m, warnings }) := by
  obtain ⟨warnings, hrun⟩ := run_autoStep_of_typed h g s
  rw [ho] at hrun
  exact ⟨warnings, hrun⟩

/-- All that a step can do: it leaves the nodes as they are, or exchanges its node for the outcome. -/
theorem autoStep_cases {b : Bool} (h : (autoStep g n).run s = (.ok b, t)) :
    (t.nodes = s.nodes ∧ (Typed n → outcome g s.nodes n = .ok none)) ∨
      ∃ m, Typed n ∧ outcome g s.nodes n = .ok (some m) ∧ t.nodes = s.nodes.insert m.id m := by
  by_cases hn : Typed n
  · obtain ⟨warnings, hrun⟩ := run_autoStep_of_typed hn g s
    rw [hrun] at h
    rcases ho : outcome g s.nodes n with f | _ | m <;> rw [ho] at h <;> cases h
    · exact Or.inl ⟨rfl, fun _ => rfl⟩
    · exact Or.inr ⟨m, hn, rfl, rfl⟩
  · rw [run_autoStep_of_not_typed hn] at h
    cases h
    exact Or.inl ⟨rfl, fun ht => absurd ht hn⟩

/-! ### Graphs in which types flow forward -/

/-- A graph without proxies in which types flow forward: a node that is typed automatically stands
behind all known nodes that feed it, and it feeds known nodes only if known nodes feed it. -/
structure Forward (g : Graph) : Prop where
  plain : ∀ n ∈ g.nodeList, n.kind ≠ .graphInput ∧ n.kind ≠ .graphOutput
  driven : ∀ n ∈ g.nodeList, Typed n →
    (∃ e ∈ g.edges, e.source = n.id ∧ g.contains e.target = true) →
    ∃ e ∈ g.edges, e.target = n.id ∧ g.contains e.source = true
  before : ∀ n ∈ g.nodeList, Typed n → ∀ e ∈ g.edges, e.target = n.id →
    g.contains e.source = true → g.nodes.keys.idxOf e.source < g.nodes.keys.idxOf n.id
  distinct : ∀ n ∈ g.nodeList, Typed n → Distinct n

instance (g : Graph) : Decidable (Forward g) :=
  decidable_of_iff (_ ∧ _ ∧ _ ∧ _)
    ⟨fun ⟨hp, hd, hb, hn⟩ => ⟨hp, hd, hb, hn⟩, fun h => ⟨h.plain, h.driven, h.before, h.distinct⟩⟩

theorem Forward.driven_of_contains (hg : Forward g) (hn : n ∈ g.nodeList) (ht : Typed n)
    (hk : ∀ id, nodes.contains id = g.nodes.contains id) : Driven g nodes n.id := by
  intro hin
  rw [knownOutgoing, List.filter_eq_nil_iff]
  intro e he htarget
  obtain ⟨hmem, hsource⟩ := List.mem_filter.1 he
  rw [hk] at htarget
  obtain ⟨d, hd, hdt, hds⟩ := hg.driven n hn ht ⟨e, hmem, by simpa using hsource, htarget⟩
  have hknown : d ∈ knownIncoming g nodes n.id :=
    List.mem_filter.2 ⟨List.mem_filter.2 ⟨hd, by simpa using hdt⟩, by rwa [hk]⟩
  rw [hin] at hknown
  cases hknown

/-- The nodes with some ids have been fitted for good; the others are as they were. -/
structure Swept (g : Graph) (done : List String) (nodes : Keyed Node) : Prop where
  known : ∀ id, nodes.contains id = g.nodes.contains id
  kept : ∀ {id : String}, id ∉ done → nodes.get? id = g.nodes.get? id
  refitted : ∀ {id : String} {m : Node}, nodes.get? id = some m →
    ∃ n, g.nodes.get? id = some n ∧ Refitted n m
  settled : ∀ {id : String} {m : Node}, id ∈ done → nodes.get? id = some m → Typed m →
    outcome g nodes m = .ok none

theorem Swept.refl (g : Graph) : Swept g [] g.nodes where
  known _ := rfl
  kept _ := rfl
  refitted h := ⟨_, h, rfl, rfl, rfl, rfl⟩
  settled h := by cases h

variable {done rest : List String} {id : String}

theorem Swept.id_eq (h : Swept g done nodes) (hm : nodes.get? id = some m) : m.id = id := by
  obtain ⟨n, hn, hr⟩ := h.refitted hm
  rw [hr.id_eq, g.id_eq hn]

theorem mem_of_split {keys : List String} (hkeys : keys = done ++ id :: rest) : id ∈ keys :=
  hkeys ▸ List.mem_append_right _ List.mem_cons_self

theorem notMem_of_split {keys : List String} (h : keys.Nodup) (hkeys : keys = done ++ id :: rest) :
    id ∉ done := by
  rw [hkeys, List.nodup_append] at h
  exact fun hid => h.2.2 id hid id List.mem_cons_self rfl

/-- Among distinct ids, one that was passed does not stand behind the present one. -/
theorem idxOf_le_of_split {keys : List String} (h : keys.Nodup) (hkeys : keys = done ++ id :: rest)
    {k : String} (hk : k ∈ done ++ [id]) : keys.idxOf k ≤ keys.idxOf id := by
  have hid : keys.idxOf id = done.length := by
    rw [hkeys, List.idxOf_append_of_notMem (notMem_of_split h hkeys), List.idxOf_cons_self]
    rfl
  rw [hid]
  rcases List.mem_append.1 hk with hk | hk
  · rw [hkeys, List.idxOf_append_of_mem hk]
    exact Nat.le_of_lt (List.idxOf_lt_length_of_mem hk)
  · rw [List.mem_singleton.1 hk]
    exact Nat.le_of_eq hid

/-- A fitted node does not see a change of a node that stands behind it. -/
theorem Swept.seesSame_insert (hg : Forward g) (hs : Swept g done nodes)
    (hkeys : g.nodes.keys = done ++ id :: rest) {k : String} (hk : k ∈ done ++ [id])
    (hn : g.nodes.get? k = some n) (ht : Typed n) (m : Node) :
    SeesSame g k nodes (nodes.insert id m) := by
  have hcontains : g.nodes.contains id = true := by
    obtain ⟨_, hget⟩ := Keyed.exists_get?_of_mem_keys (mem_of_split hkeys)
    rw [Keyed.contains_eq_isSome, hget]
    rfl
  refine ⟨fun j => ?_, fun e he => ?_⟩
  · by_cases hj : j = id
    · subst hj
      rw [hs.known, hcontains, Keyed.contains_eq_isSome, Keyed.get?_insert, if_pos rfl]
      rfl
    · rw [Keyed.contains_eq_isSome, Keyed.contains_eq_isSome, Keyed.get?_insert, if_neg hj]
  · obtain ⟨hedge, htarget⟩ := List.mem_filter.1 he
    have htarget : e.target = n.id := (beq_iff_eq.1 htarget).trans (g.id_eq hn).symm
    have hne : e.source ≠ id := by
      rintro rfl
      -- The place of the changed node is not before that of the fitted one.
      have hlt := hg.before n (Graph.mem_nodeList_of_node? hn) ht e hedge htarget hcontains
      rw [g.id_eq hn] at hlt
      exact absurd (idxOf_le_of_split g.nodes.nodup hkeys hk) (Nat.not_le.2 hlt)
    rw [edgeSourceType?, edgeSourceType?, Keyed.get?_insert, if_neg hne]

/-- So its outcome is the same after the change. -/
theorem Swept.outcome_insert (hg : Forward g) (hs : Swept g done nodes)
    (hkeys : g.nodes.keys = done ++ id :: rest) {k : String} {p q : Node} (hk : k ∈ done ++ [id])
    (hp : g.nodes.get? k = some p) (hpq : Refitted p q) (ht : Typed q) (m : Node) :
    outcome g (nodes.insert id m) q = outcome g nodes q := by
  have htp := hpq.typed_iff.1 ht
  refine (outcome_congr ?_ ?_).symm
  · rw [hpq.id_eq, g.id_eq hp]
    exact hs.seesSame_insert hg hkeys hk hp htp m
  · rw [hpq.id_eq]
    exact hg.driven_of_contains (Graph.mem_nodeList_of_node? hp) htp hs.known

/-- A step that leaves the nodes as they are. -/
theorem Swept.pass (hs : Swept g done nodes) (hn : nodes.get? id = some n)
    (h : Typed n → outcome g nodes n = .ok none) : Swept g (done ++ [id]) nodes where
  known := hs.known
  kept hid := hs.kept fun hmem => hid (List.mem_append_left _ hmem)
  refitted := hs.refitted
  settled := by
    intro k m hk hm ht
    rcases List.mem_append.1 hk with hk | hk
    · exact hs.settled hk hm ht
    · cases List.mem_singleton.1 hk
      cases hn.symm.trans hm
      exact h ht

/-- A step that exchanges its node for the outcome. -/
theorem Swept.exchange (hg : Forward g) (hs : Swept g done nodes)
    (hkeys : g.nodes.keys = done ++ id :: rest) (hn : g.nodes.get? id = some n) (ht : Typed n)
    (h : outcome g nodes n = .ok (some m)) : Swept g (done ++ [id]) (nodes.insert id m) := by
  have hself : id ∈ done ++ [id] := List.mem_append_right _ List.mem_cons_self
  have hfit := refitted_of_outcome h
  refine ⟨fun k => ?_, fun {k} hk => ?_, fun {k p} hp => ?_, fun {k p} hk hp htp => ?_⟩
  · rw [← (hs.seesSame_insert hg hkeys hself hn ht m).contains_eq]
    exact hs.known k
  · rw [List.mem_append, List.mem_singleton, not_or] at hk
    rw [Keyed.get?_insert, if_neg hk.2]
    exact hs.kept hk.1
  · rw [Keyed.get?_insert] at hp
    split at hp
    · next heq =>
      cases hp
      exact ⟨n, heq ▸ hn, hfit⟩
    · exact hs.refitted hp
  · rw [Keyed.get?_insert] at hp
    split at hp
    · cases hp
      rw [hs.outcome_insert hg hkeys hself hn hfit htp]
      exact outcome_of_outcome (hg.distinct n (Graph.mem_nodeList_of_node? hn) ht) h
    · next hne =>
      obtain ⟨q, hq, hqp⟩ := hs.refitted hp
      rw [hs.outcome_insert hg hkeys hk hq hqp htp]
      refine hs.settled ?_ hp htp
      exact (List.mem_append.1 hk).resolve_right fun hk => hne (List.mem_singleton.1 hk)

/-- One step of the sweep. -/
theorem Swept.step (hg : Forward g) (hs : Swept g done s.nodes)
    (hkeys : g.nodes.keys = done ++ id :: rest) (hn : s.nodes.get? id = some n) {b : Bool}
    (hr : (autoStep g n).run s = (.ok b, t)) : Swept g (done ++ [id]) t.nodes := by
  have hn' : g.nodes.get? id = some n := hs.kept (notMem_of_split g.nodes.nodup hkeys) ▸ hn
  rcases autoStep_cases hr with ⟨heq, hsettled⟩ | ⟨m, ht, hm, heq⟩
  · rw [heq]
    exact hs.pass hn hsettled
  · rw [heq, (refitted_of_outcome hm).id_eq, g.id_eq hn']
    exact hs.exchange hg hkeys hn' ht hm

/-! ### Sweeps -/

/-- The round of a sweep at an id. -/
def round (step : Node → TypingM Bool) (changed : Bool) (id : String) : TypingM Bool := do
  match (← get).nodes.get? id with
  | some node =>
    let now ← step node
    pure (changed || now)
  | none => pure changed

theorem sweep_eq (step : Node → TypingM Bool) :
    sweep step = (do (← get).nodes.keys.foldlM (round step) false) :=
  rfl

theorem run_sweep (step : Node → TypingM Bool) (s : State) :
    (sweep step).run s = (s.nodes.keys.foldlM (round step) false).run s := by
  rw [sweep_eq, run_bind]
  rfl

section Rounds

variable {step : Node → TypingM Bool}

/-- The round at the id of a node takes the step at the node. -/
theorem run_round (changed : Bool) (id : String) (s : State) :
    (round step changed id).run s =
      match s.nodes.get? id with
      | some n => (do let now ← step n; pure (changed || now) : TypingM Bool).run s
      | none => (.ok changed, s) := by
  rw [round, run_bind]
  show (ExceptT.run (match s.nodes.get? id with
    | some node => do
      let now ← step node
      pure (changed || now)
    | none => pure changed) : StateM State _) s = _
  cases s.nodes.get? id <;> rfl

theorem run_round_of_step {b : Bool} (hn : s.nodes.get? id = some n) (h : (step n).run s = (.ok b, t))
    (changed : Bool) : (round step changed id).run s = (.ok (changed || b), t) := by
  rw [run_round, hn]
  dsimp only
  rw [run_bind, h]
  rfl

/-- The first round, and the rounds at the other ids. -/
theorem run_rounds_cons {b : Bool} (hn : s.nodes.get? id = some n) (h : (step n).run s = (.ok b, t))
    (ids : List String) (changed : Bool) :
    ((id :: ids).foldlM (round step) changed).run s =
      (ids.foldlM (round step) (changed || b)).run t := by
  rw [List.foldlM_cons, run_bind, run_round_of_step hn h]

/-- A sweep whose steps do nothing does nothing. -/
theorem exists_run_sweep
    (h : ∀ {id : String} {n : Node}, nodes.get? id = some n → ∀ w, ∃ w',
      (step n).run { nodes, warnings := w } = (.ok false, { nodes, warnings := w' }))
    (w : List String) :
    ∃ w', (sweep step).run { nodes, warnings := w } = (.ok false, { nodes, warnings := w' }) := by
  have hround (id : String) (w : List String) : ∃ w',
      (round step false id).run { nodes, warnings := w } = (.ok false, { nodes, warnings := w' }) := by
    cases hn : nodes.get? id with
    | none =>
      rw [run_round, hn]
      exact ⟨w, rfl⟩
    | some n =>
      obtain ⟨w', hw'⟩ := h hn w
      exact ⟨w', run_round_of_step hn hw' false⟩
  rw [run_sweep]
  generalize nodes.keys = ids
  induction ids generalizing w with
  | nil => exact ⟨w, rfl⟩
  | cons id ids ih =>
    obtain ⟨w', hw'⟩ := hround id w
    rw [List.foldlM_cons, run_bind, hw']
    exact ih w'

end Rounds

private theorem Swept.leads_round (hg : Forward g) (hs : Swept g done s.nodes)
    (hkeys : g.nodes.keys = done ++ id :: rest) (changed : Bool) :
    Leads (round (autoStep g) changed id) (fun _ t => Swept g (done ++ [id]) t.nodes) s := by
  unfold round
  rw [Leads, ends_bind, ends_get]
  cases hn : s.nodes.get? id with
  | some n =>
    dsimp only
    rw [ends_bind, ends_iff]
    exact ⟨fun _ _ hr => hs.step hg hkeys hn hr, fun _ _ _ => trivial⟩
  | none =>
    -- The id has a node.
    rw [hs.kept (notMem_of_split g.nodes.nodup hkeys)] at hn
    obtain ⟨_, hget⟩ := Keyed.exists_get?_of_mem_keys (mem_of_split hkeys)
    cases hget.symm.trans hn

/-- The second sweep fits all nodes for good. -/
theorem leads_autoSweep (hg : Forward g) (warnings : List String) :
    Leads (autoSweep g) (fun _ t => Swept g g.nodes.keys t.nodes) { nodes := g.nodes, warnings } := by
  -- The induction is on the ids that are left.
  have hrounds (rest done : List String) (hkeys : g.nodes.keys = done ++ rest) (changed : Bool)
      (s : State) (hs : Swept g done s.nodes) :
      Leads (rest.foldlM (round (autoStep g)) changed) (fun _ t => Swept g g.nodes.keys t.nodes)
        s := by
    induction rest generalizing done changed s with
    | nil =>
      rw [List.append_nil] at hkeys
      exact hkeys ▸ hs
    | cons id rest ih =>
      rw [List.foldlM_cons, Leads, ends_bind]
      refine Ends.mono (hs.leads_round hg hkeys changed) (fun b t ht => ?_) fun _ _ h => h
      exact ih (done ++ [id]) (by rw [hkeys, List.append_assoc, List.singleton_append]) b t ht
  rw [autoSweep, sweep_eq, Leads, ends_bind, ends_get]
  exact hrounds g.nodes.keys [] rfl false _ (Swept.refl g)

/-! ### Graphs without proxies -/

/-- None of the nodes is a proxy. -/
def Plain (nodes : Keyed Node) : Prop :=
  ∀ {id : String} {n : Node}, nodes.get? id = some n → n.kind ≠ .graphInput ∧ n.kind ≠ .graphOutput

theorem exists_run_inputSweep (hp : Plain nodes) (g : Graph) (w : List String) :
    ∃ w', (inputSweep g).run { nodes, warnings := w } = (.ok false, { nodes, warnings := w' }) := by
  refine exists_run_sweep (fun hn w => ⟨w, ?_⟩) w
  unfold inputStep
  rw [if_pos (hp hn).1]
  rfl

theorem exists_run_outputSweep (hp : Plain nodes) (g : Graph) (w : List String) :
    ∃ w', (outputSweep g).run { nodes, warnings := w } = (.ok false, { nodes, warnings := w' }) := by
  refine exists_run_sweep (fun hn w => ⟨w, ?_⟩) w
  unfold outputStep
  rw [if_pos (hp hn).2]
  rfl

/-- Without proxies, inference is its second sweep: it gives the graph with the nodes that this leaves,
if anything changed. -/
theorem exists_run_eq (hp : Plain g.nodes)
    (hauto : ∀ w, Leads (autoSweep g) (fun _ t => Plain t.nodes) { nodes := g.nodes, warnings := w }) :
    ∃ w, (run g).1 =
      match (autoSweep g).run { nodes := g.nodes, warnings := w } with
      | (.ok changed, t) => .ok (if changed then some (g.replaceNodes t.nodes) else none)
      | (.error f, _) => .error f := by
  obtain ⟨w, hinput⟩ := exists_run_inputSweep hp g []
  refine ⟨w, ?_⟩
  unfold run infer
  rw [run_bind, hinput]
  dsimp only
  rw [run_bind]
  rcases ha : (autoSweep g).run { nodes := g.nodes, warnings := w } with ⟨f | changed, t⟩
  · rfl
  · obtain ⟨w', houtput⟩ := exists_run_outputSweep ((hauto w).of_run_ok ha) g t.warnings
    dsimp only
    rw [run_bind, houtput]
    cases changed <;> rfl

/-- The second sweep changes nothing if the nodes that are typed automatically are as their connections
want them. -/
theorem exists_run_autoSweep (h : ∀ {id : String} {n : Node}, nodes.get? id = some n →
    Typed n → outcome g nodes n = .ok none) (w : List String) :
    ∃ w', (autoSweep g).run { nodes, warnings := w } = (.ok false, { nodes, warnings := w' }) := by
  refine exists_run_sweep (fun {_ n} hn w => ?_) w
  by_cases ht : Typed n
  · obtain ⟨w', hrun⟩ := run_autoStep_of_typed ht g { nodes, warnings := w }
    rw [h hn ht] at hrun
    exact ⟨w', hrun⟩
  · exact ⟨w, run_autoStep_of_not_typed ht g _⟩

/-- Inference changes nothing in a graph without proxies whose automatically typed nodes are as their
connections want them. -/
theorem run_eq_none (hp : Plain g.nodes) (h : ∀ {id : String} {n : Node}, g.nodes.get? id = some n →
    Typed n → outcome g g.nodes n = .ok none) : (run g).1 = .ok none := by
  obtain ⟨w, hrun⟩ := exists_run_eq hp fun w => by
    obtain ⟨w', hw'⟩ := exists_run_autoSweep h w
    exact Ends.of_run_eq_ok hw' hp
  obtain ⟨w', hw'⟩ := exists_run_autoSweep h w
  rw [hrun, hw']
  rfl

/-- Sweeps that succeed leave the nodes of the new graph. -/
theorem run_of_sweeps {b₁ b₂ b₃ : Bool} {s₁ s₂ s₃ : State}
    (hinput : (inputSweep g).run { nodes := g.nodes } = (.ok b₁, s₁))
    (hauto : (autoSweep g).run s₁ = (.ok b₂, s₂)) (houtput : (outputSweep g).run s₂ = (.ok b₃, s₃)) :
    (run g).1 = .ok (if b₁ || b₂ || b₃ then some (g.replaceNodes s₃.nodes) else none) := by
  unfold run infer
  rw [run_bind, hinput]
  dsimp only
  rw [run_bind, hauto]
  dsimp only
  rw [run_bind, houtput]
  cases b₁ <;> cases b₂ <;> cases b₃ <;> rfl

/-! ### The fixpoint -/

theorem outcome_of_edges_eq {g' : Graph} (h : g'.edges = g.edges) (nodes : Keyed Node) (n : Node) :
    outcome g' nodes n = outcome g nodes n := by
  have hin : knownIncoming g' nodes n.id = knownIncoming g nodes n.id := by
    rw [knownIncoming, Graph.incoming, h, ← Graph.incoming, ← knownIncoming]
  have hout : knownOutgoing g' nodes n.id = knownOutgoing g nodes n.id := by
    rw [knownOutgoing, Graph.outgoing, h, ← Graph.outgoing, ← knownOutgoing]
  have hc : connection g' nodes n.id = connection g nodes n.id := by
    rw [connection, hin, hout, ← connection]
  simp only [outcome, choice?, drivingEdges, hc, hin]

theorem Swept.plain (hg : Forward g) (hs : Swept g done nodes) : Plain nodes := by
  intro id m hm
  obtain ⟨n, hn, hr⟩ := hs.refitted hm
  rw [hr.kind_eq]
  exact hg.plain n (Graph.mem_nodeList_of_node? hn)

/-- Inference finds nothing to do in the graph that a sweep left. -/
theorem Swept.run_replaceNodes (hg : Forward g) (hs : Swept g g.nodes.keys nodes) :
    (run (g.replaceNodes nodes)).1 = .ok none := by
  have hget (id : String) : (g.replaceNodes nodes).nodes.get? id = nodes.get? id := by
    rw [Graph.get?_replaceNodes hs.id_eq]
    have hknown := hs.known id
    rw [Keyed.contains_eq_isSome, Keyed.contains_eq_isSome] at hknown
    cases hn : g.nodes.get? id with
    | none =>
      rw [hn] at hknown
      exact (Option.isNone_iff_eq_none.1 (Option.isSome_eq_false_iff.1 hknown)).symm
    | some n =>
      rw [hn] at hknown
      obtain ⟨m, hm⟩ := Option.isSome_iff_exists.1 hknown
      rw [hm]
      rfl
  refine run_eq_none (fun hn => ?_) fun {id m} hm ht => ?_
  · rw [hget] at hn
    exact hs.plain hg hn
  · rw [hget] at hm
    rw [outcome_of_edges_eq (g.edges_replaceNodes nodes)]
    obtain ⟨n, hn, hr⟩ := hs.refitted hm
    have hnode := Graph.mem_nodeList_of_node? hn
    have hsees : SeesSame g m.id nodes (g.replaceNodes nodes).nodes := by
      refine ⟨fun k => ?_, fun e _ => ?_⟩
      · rw [Keyed.contains_eq_isSome, Keyed.contains_eq_isSome, hget]
      · rw [edgeSourceType?, edgeSourceType?, hget]
    have hdriven : Driven g nodes m.id := by
      rw [hr.id_eq]
      exact hg.driven_of_contains hnode (hr.typed_iff.1 ht) hs.known
    rw [← outcome_congr hsees hdriven]
    exact hs.settled (g.id_eq hn ▸ Graph.id_mem_keys hnode) hm ht

/-- In a graph without proxies in which types flow forward, inference has nothing to do on the graph
that it returned. -/
theorem run_of_run_forward (hg : Forward g) {g' : Graph} (h : (run g).1 = .ok (some g')) :
    (run g').1 = .ok none := by
  have hplain : Plain g.nodes := fun hn => hg.plain _ (Graph.mem_nodeList_of_node? hn)
  obtain ⟨w, hrun⟩ := exists_run_eq hplain fun w =>
    Ends.mono (leads_autoSweep hg w) (fun _ _ hs => hs.plain hg) fun _ _ h => h
  rw [hrun] at h
  rcases ha : (autoSweep g).run { nodes := g.nodes, warnings := w } with ⟨f | changed, t⟩
  · rw [ha] at h
    cases h
  · rw [ha] at h
    have hswept := (leads_autoSweep hg w).of_run_ok ha
    cases changed with
    | false => cases h
    | true =>
      cases h
      exact hswept.run_replaceNodes hg

/-- A body with overloads for numbers and for colours. -/
def polymorphic : String :=
  "void run(vec2 uv, float x, out float y) \x7b\x7d\nvoid run(vec2 uv, vec3 x, out vec3 y) \x7b\x7d"

/-- The overloads of that body. -/
def polymorphicOverloads : List Source.Overload :=
  [{ inputs := [.ofId "x" .float], outputs := [.ofId "y" .float] },
    { inputs := [.ofId "x" .vec3], outputs := [.ofId "y" .vec3], index := 1 }]

theorem overloads_polymorphic : Source.overloads polymorphic = .ok polymorphicOverloads := by
  rw [Source.overloads, Source.tokenize_stripComments, polymorphic, String.toList_ofList]
  decide +kernel

/-- A node with that body, typed for numbers so far, with a bound value. -/
def link (id : String) : Node where
  id
  source := polymorphic
  inputs := [.ofId "x" .float]
  outputs := [.ofId "y" .float]
  outputType := .float
  uniforms := .ofList [("x", { type := .float, value := .int 1 })]
  autoType := true

theorem distinct_link (id : String) : Distinct (link id) where
  inputs := List.pairwise_singleton _ _
  overloads := by
    intro all hall
    cases overloads_polymorphic.symm.trans hall
    decide

/-- The same node, typed for colours. -/
def colourLink (id : String) : Node :=
  { link id with
    inputs := [.ofId "x" .vec3]
    outputs := [.ofId "y" .vec3]
    outputType := .vec3
    uniforms := .ofList [("x", { type := .vec3, value := .list [.int 1, .int 1, .int 1] })] }

/-- A colour that passes through two such nodes. -/
def chain : Graph :=
  .ofLists [{ id := "a", outputs := [.ofId "o" .vec3] }, link "b", link "c"]
    [{ source := "a", sourcePort := some "o", target := "b", targetPort := some "x" },
      { source := "b", sourcePort := some "y", target := "c", targetPort := some "x" }]

theorem forward_chain : Forward chain where
  plain := by decide
  driven := by decide
  before := by decide
  distinct := by
    intro n hn ht
    rcases List.mem_cons.1 hn with rfl | hn
    · cases ht.1
    · rcases List.mem_pair.1 hn with rfl | rfl <;> exact distinct_link _

/-- The nodes of the chain when both have become colours. -/
def colourNodes : Keyed Node :=
  (chain.nodes.insert "b" (colourLink "b")).insert "c" (colourLink "c")

/-- The nodes become colours one after the other. -/
theorem exists_run_autoSweep_chain : ∃ w, (autoSweep chain).run { nodes := chain.nodes } =
    (.ok true, { nodes := colourNodes, warnings := w }) := by
  have hfirst : outcome chain chain.nodes (link "b") = .ok (some (colourLink "b")) := by
    rw [outcome, show (link "b").source = polymorphic from rfl, overloads_polymorphic]
    rfl
  have hsecond : outcome chain (chain.nodes.insert "b" (colourLink "b")) (link "c") =
      .ok (some (colourLink "c")) := by
    rw [outcome, show (link "c").source = polymorphic from rfl, overloads_polymorphic]
    rfl
  have htyped (id : String) : Typed (link id) := ⟨rfl, Or.inl rfl⟩
  have hsource : ¬ Typed { id := "a", outputs := [.ofId "o" .vec3] } := by decide
  obtain ⟨w, hb⟩ := run_autoStep_of_outcome (s := { nodes := chain.nodes }) (htyped "b") hfirst
  obtain ⟨w', hc⟩ := run_autoStep_of_outcome
    (s := { nodes := chain.nodes.insert "b" (colourLink "b"), warnings := w }) (htyped "c") hsecond
  have hkeys : chain.nodes.keys = ["a", "b", "c"] := rfl
  refine ⟨w', ?_⟩
  rw [autoSweep, run_sweep]
  dsimp only
  rw [hkeys, run_rounds_cons rfl (run_autoStep_of_not_typed hsource chain _), run_rounds_cons rfl hb]
  exact run_rounds_cons rfl hc [] true

/-- Both nodes become colours in one run, and the next run changes nothing. -/
theorem run_of_run_chain : Forward chain ∧ ∃ g', (run chain).1 = .ok (some g') ∧
    (g'.nodeList.map fun n => n.outputs.map (·.type)) = [[.vec3], [.vec3], [.vec3]] ∧
    (run g').1 = .ok none := by
  have hinput : (inputSweep chain).run { nodes := chain.nodes } = (.ok false, { nodes := chain.nodes }) :=
    rfl
  obtain ⟨w, hauto⟩ := exists_run_autoSweep_chain
  have houtput : (outputSweep chain).run { nodes := colourNodes, warnings := w } =
      (.ok false, { nodes := colourNodes, warnings := w }) :=
    rfl
  have hrun := run_of_sweeps hinput hauto houtput
  exact ⟨forward_chain, _, hrun, rfl, run_of_run_forward forward_chain hrun⟩

end RenderGraph.Typing
