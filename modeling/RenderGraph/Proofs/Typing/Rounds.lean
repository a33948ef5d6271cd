import RenderGraph.Proofs.Typing.Exchange

/-!
# Rounds of inference

A round of inference is a sequence of steps: one for each sweep and each node, in order. Each step has
nothing to do or exchanges its node. The nodes keep their ids and their order, and all that changes of
a node are its ports and its bound values.

## Main definitions

* `Typing.Kept`: the nodes are those of a graph, adjusted
* `Typing.schedule`, `Typing.Steps`: the steps of a round, and what they do one after the other
* `Typing.sweptNodes`: the nodes as the three sweeps leave them
* `Typing.Reaches`: the graphs after so many rounds

## Main results

* `Typing.steps_of_run`: a run of inference takes the steps of its schedule
* `Typing.Steps.kept`: what all steps keep
* `Typing.run_eq_none_of_idle`: inference changes nothing where no step has anything to do
-/

namespace RenderGraph.Typing

variable {g g' : Graph} {nodes nodes' : Keyed Node} {n m : Node} {s t : State} {id : String}
  {phase : Phase} {b : Bool}

/-! ### Nodes that were adjusted -/

/-- The nodes are those of the graph, adjusted. -/
structure Kept (g : Graph) (nodes : Keyed Node) : Prop where
  keys_eq : nodes.keys = g.nodes.keys
  adjusted : ∀ {id : String} {m : Node}, nodes.get? id = some m →
    ∃ n, g.nodes.get? id = some n ∧ Adjusted n m

namespace Kept

theorem refl (g : Graph) : Kept g g.nodes :=
  ⟨rfl, fun h => ⟨_, h, Adjusted.refl _⟩⟩

theorem id_eq (h : Kept g nodes) (hn : nodes.get? id = some n) : n.id = id := by
  obtain ⟨k, hk, ha⟩ := h.adjusted hn
  rw [ha.id_eq, g.id_eq hk]

theorem exists_get? (h : Kept g nodes) (hid : id ∈ g.nodes.keys) : ∃ m, nodes.get? id = some m :=
  Keyed.exists_get?_of_mem_keys (h.keys_eq ▸ hid)

/-- The adjusted form of a node. -/
theorem exists_adjusted (h : Kept g nodes) (hn : g.nodes.get? id = some n) :
    ∃ m, nodes.get? id = some m ∧ Adjusted n m := by
  obtain ⟨m, hm⟩ := h.exists_get? (Keyed.mem_keys_of_get? hn)
  obtain ⟨k, hk, ha⟩ := h.adjusted hm
  cases hn.symm.trans hk
  exact ⟨m, hm, ha⟩

theorem contains_eq (h : Kept g nodes) (id : String) : nodes.contains id = g.nodes.contains id := by
  have hkeys (m : Keyed Node) : m.contains id = true ↔ id ∈ m.keys := by
    simp [Keyed.contains, Keyed.keys]
  rw [Bool.eq_iff_iff, hkeys, hkeys, h.keys_eq]

theorem insert (h : Kept g nodes) (hn : nodes.get? id = some n) (ha : Adjusted n m) :
    Kept g (nodes.insert id m) where
  keys_eq := by rw [Keyed.keys_insert, if_pos (Keyed.mem_keys_of_get? hn), h.keys_eq]
  adjusted := by
    intro k p hp
    rw [Keyed.get?_insert] at hp
    split at hp
    · next heq =>
      cases hp
      obtain ⟨n', hn', ha'⟩ := h.adjusted hn
      exact ⟨n', heq ▸ hn', ha'.trans ha⟩
    · exact h.adjusted hp

/-- Exchanging the nodes of the graph for these gives a graph with these nodes. -/
theorem nodes_replaceNodes (h : Kept g nodes) : (g.replaceNodes nodes).nodes = nodes := by
  refine Keyed.ext_get? ?_ fun id => ?_
  · rw [Graph.keys_replaceNodes h.id_eq, h.keys_eq]
  · rw [Graph.get?_replaceNodes h.id_eq]
    cases hn : g.nodes.get? id with
    | some n =>
      obtain ⟨m, hm, -⟩ := h.exists_adjusted hn
      rw [hm]
      rfl
    | none =>
      cases hm : nodes.get? id with
      | none => rfl
      | some m =>
        obtain ⟨n, hn', -⟩ := h.adjusted hm
        cases hn.symm.trans hn'

end Kept

/-! ### Steps -/

/-- The owner of a proxy is the node that its scope names. -/
theorem owner?_eq_some_iff {c : Node} :
    owner? nodes n = some c ↔ ∃ scope, n.scope = some scope ∧ scope ≠ "" ∧ nodes.get? scope = some c := by
  rw [owner?]
  split
  · next h => simp [h]
  · next h => simp [h]
  · next scope hne h =>
    constructor
    · exact fun hc => ⟨scope, h, hne, hc⟩
    · rintro ⟨_, hs, -, hc⟩
      cases h.symm.trans hs
      exact hc

namespace Kept

/-- An owner stands under the id that the scope of its proxy names. -/
theorem get?_of_owner? {c : Node} (h : Kept g nodes) (ho : owner? nodes n = some c) :
    nodes.get? c.id = some c := by
  obtain ⟨scope, -, -, hc⟩ := owner?_eq_some_iff.1 ho
  rw [h.id_eq hc]
  exact hc

theorem ownedBy_of_owner? {c : Node} (h : Kept g nodes) (hp : IsProxy n)
    (ho : owner? nodes n = some c) : OwnedBy c.id n := by
  obtain ⟨scope, hs, hne, hc⟩ := owner?_eq_some_iff.1 ho
  rw [h.id_eq hc]
  exact ⟨hp, hs, hne⟩

section Exchange

variable (h : Kept g nodes) (hn : nodes.get? n.id = some n) (he : Exchange g nodes n phase nodes')
include h hn he

theorem exchange : Kept g nodes' := by
  cases he with
  | alone hk hm ho => exact h.insert hn (Side.adjusted_retyped _ _ _)
  | @mirrored side c c' hk hm ho hc =>
    have h' := h.insert hn (side.adjusted_retyped (side.updates g nodes n) n)
    exact h'.insert (h'.get?_of_owner? ho) (Side.adjusted_of_mirrored hc)
  | fitted ht hm => exact h.insert hn (adjusted_of_outcome hm)

/-- A step exchanges its node and the owner of its node; it keeps all others. -/
theorem get?_of_exchange (hid : id ≠ n.id) (hown : ¬ OwnedBy id n) :
    nodes'.get? id = nodes.get? id := by
  cases he with
  | alone => rw [Keyed.get?_insert, if_neg hid]
  | @mirrored side c c' hk hm ho hc =>
    have h' := h.insert hn (side.adjusted_retyped (side.updates g nodes n) n)
    have hc : id ≠ c.id := by
      rintro rfl
      exact hown (h'.ownedBy_of_owner? (isProxy_of_kind hk) ho)
    rw [Keyed.get?_insert, if_neg hc, Keyed.get?_insert, if_neg hid]
  | fitted => rw [Keyed.get?_insert, if_neg hid]

/-- What a step exchanges its node for, if this is not its own owner. -/
theorem get?_self_of_exchange (hown : ¬ OwnedBy n.id n) :
    (∃ side, phase = .proxies side ∧ ¬ side.Met g nodes n ∧
        nodes'.get? n.id = some (side.retyped (side.updates g nodes n) n)) ∨
      (phase = .auto ∧ ∃ m, outcome g nodes n = .ok (some m) ∧ nodes'.get? n.id = some m) := by
  cases he with
  | alone hk hm => exact Or.inl ⟨_, rfl, hm, by rw [Keyed.get?_insert, if_pos rfl]⟩
  | @mirrored side c c' hk hm ho hc =>
    have h' := h.insert hn (side.adjusted_retyped (side.updates g nodes n) n)
    have hc : n.id ≠ c.id := by
      intro heq
      exact hown (heq ▸ h'.ownedBy_of_owner? (isProxy_of_kind hk) ho)
    refine Or.inl ⟨side, rfl, hm, ?_⟩
    rw [Keyed.get?_insert, if_neg hc, Keyed.get?_insert, if_pos rfl]
  | fitted ht hm => exact Or.inr ⟨rfl, _, hm, by rw [Keyed.get?_insert, if_pos rfl]⟩

end Exchange

end Kept

/-- The steps of a round: each sweep goes over all nodes in order. -/
def schedule (g : Graph) : List (Phase × String) :=
  [.proxies .input, .auto, .proxies .output].flatMap fun phase => g.nodes.keys.map (phase, ·)

/-- What steps do one after the other: the steps taken, whether any of them exchanged nodes, and the
nodes after them. -/
inductive Steps (g : Graph) : List (Phase × String) → Bool → Keyed Node → Prop
  | start : Steps g [] false g.nodes
  | idle {done : List (Phase × String)} {b : Bool} {nodes : Keyed Node} {phase : Phase} {n : Node}
      (h : Steps g done b nodes) (hn : nodes.get? n.id = some n) (hi : phase.Idle g nodes n) :
      Steps g (done ++ [(phase, n.id)]) b nodes
  | exchange {done : List (Phase × String)} {b : Bool} {nodes nodes' : Keyed Node} {phase : Phase}
      {n : Node} (h : Steps g done b nodes) (hn : nodes.get? n.id = some n)
      (he : Exchange g nodes n phase nodes') : Steps g (done ++ [(phase, n.id)]) true nodes'

namespace Steps

variable {done : List (Phase × String)}

theorem kept (h : Steps g done b nodes) : Kept g nodes := by
  induction h with
  | start => exact Kept.refl g
  | idle _ _ _ ih => exact ih
  | exchange _ hn he ih => exact ih.exchange hn he

/-- The nodes are as they were if no step exchanged any. -/
theorem nodes_eq (h : Steps g done false nodes) : nodes = g.nodes := by
  generalize hb : false = b at h
  induction h with
  | start => rfl
  | idle _ _ _ ih => exact ih hb
  | exchange => cases hb

/-- One more step. -/
theorem step {b' : Bool} (h : Steps g done b s.nodes) (hn : s.nodes.get? n.id = some n)
    (hr : (phase.step g n).run s = (.ok b', t)) :
    Steps g (done ++ [(phase, n.id)]) (b || b') t.nodes := by
  rcases Phase.step_cases hr with ⟨rfl, heq, hi⟩ | ⟨rfl, he⟩
  · rw [heq, Bool.or_false]
    exact h.idle hn hi
  · rw [Bool.or_true]
    exact h.exchange hn he

/-- One more sweep. -/
theorem sweep (phase : Phase) {b' : Bool} (h : Steps g done b s.nodes)
    (hr : (sweep (phase.step g)).run s = (.ok b', t)) :
    Steps g (done ++ g.nodes.keys.map (phase, ·)) (b || b') t.nodes := by
  -- The induction is on the ids that are left.
  have hrounds (ids : List String) (done : List (Phase × String)) (changed : Bool) (s : State)
      (hids : ∀ id ∈ ids, id ∈ g.nodes.keys) (h : Steps g done (b || changed) s.nodes)
      (hr : (ids.foldlM (round (phase.step g)) changed).run s = (.ok b', t)) :
      Steps g (done ++ ids.map (phase, ·)) (b || b') t.nodes := by
    induction ids generalizing done changed s with
    | nil =>
      cases hr
      rw [List.map_nil, List.append_nil]
      exact h
    | cons id ids ih =>
      rw [List.foldlM_cons] at hr
      obtain ⟨changed', u, hround, hr⟩ := exists_of_run_bind hr
      obtain ⟨n, hn⟩ := h.kept.exists_get? (hids id List.mem_cons_self)
      obtain rfl := h.kept.id_eq hn
      obtain ⟨s', _, hget, hround⟩ := exists_of_run_bind hround
      cases hget
      rw [hn] at hround
      obtain ⟨now, _, hstep, hround⟩ := exists_of_run_bind hround
      cases hround
      have hnext := h.step hn hstep
      rw [Bool.or_assoc] at hnext
      rw [List.map_cons, List.append_cons]
      exact ih _ _ _ (fun id hid => hids id (List.mem_cons_of_mem _ hid)) hnext hr
  rw [sweep_eq] at hr
  obtain ⟨s', _, hget, hr⟩ := exists_of_run_bind hr
  cases hget
  rw [h.kept.keys_eq] at hr
  exact hrounds _ done false s (fun _ => id) (by rwa [Bool.or_false]) hr

end Steps

/-- The nodes as the three sweeps leave them. -/
def sweptNodes (g : Graph) : Keyed Node :=
  ((infer g).run { nodes := g.nodes }).2.nodes

/-- A run of inference that returns takes the steps of its schedule. It gives the graph with the nodes
that these leave if any of them exchanged nodes. -/
theorem steps_of_run {r : Option Graph} (h : (run g).1 = .ok r) :
    ∃ b, Steps g (schedule g) b (sweptNodes g) ∧
      r = if b then some (g.replaceNodes (sweptNodes g)) else none := by
  obtain ⟨t, ht⟩ : ∃ t, (infer g).run { nodes := g.nodes } = (.ok r, t) := ⟨_, Prod.ext h rfl⟩
  rw [sweptNodes, ht]
  obtain ⟨b₁, t₁, hinput, ht⟩ := exists_of_run_bind ht
  obtain ⟨b₂, t₂, hauto, ht⟩ := exists_of_run_bind ht
  obtain ⟨b₃, t₃, houtput, ht⟩ := exists_of_run_bind ht
  have h₁ := Steps.sweep (s := { nodes := g.nodes }) (.proxies .input) Steps.start hinput
  have h₂ := h₁.sweep .auto hauto
  have h₃ := h₂.sweep (.proxies .output) houtput
  have hschedule : [] ++ g.nodes.keys.map (Phase.proxies .input, ·) ++ g.nodes.keys.map (Phase.auto, ·) ++
      g.nodes.keys.map (Phase.proxies .output, ·) = schedule g := by
    simp [schedule]
  rw [hschedule, Bool.false_or] at h₃
  cases hb : b₁ || b₂ || b₃ <;> rw [hb] at ht h₃ <;> cases ht
  · exact ⟨false, h₃, rfl⟩
  · exact ⟨true, h₃, rfl⟩

/-- Inference changes nothing where no step has anything to do. -/
theorem run_eq_none_of_idle (h : ∀ {id : String} {n : Node}, g.nodes.get? id = some n →
    ∀ phase : Phase, phase.Idle g g.nodes n) : (run g).1 = .ok none := by
  have hsweep (phase : Phase) (w : List String) : ∃ w', (sweep (phase.step g)).run
      { nodes := g.nodes, warnings := w } = (.ok false, { nodes := g.nodes, warnings := w' }) :=
    exists_run_sweep (fun hn w => Phase.exists_run_step_of_idle (h hn phase) w) w
  obtain ⟨w₁, hinput⟩ : ∃ w', (inputSweep g).run { nodes := g.nodes } =
      (.ok false, { nodes := g.nodes, warnings := w' }) := hsweep (.proxies .input) []
  obtain ⟨w₂, hauto⟩ : ∃ w', (autoSweep g).run { nodes := g.nodes, warnings := w₁ } =
      (.ok false, { nodes := g.nodes, warnings := w' }) := hsweep .auto w₁
  obtain ⟨w₃, houtput⟩ : ∃ w', (outputSweep g).run { nodes := g.nodes, warnings := w₂ } =
      (.ok false, { nodes := g.nodes, warnings := w' }) := hsweep (.proxies .output) w₂
  show ((infer g).run { nodes := g.nodes }).1 = _
  rw [infer, run_bind, hinput]
  dsimp only
  rw [run_bind, hauto]
  dsimp only
  rw [run_bind, houtput]
  rfl

/-! ### Rounds one after the other -/

/-- A graph reaches another in a number of rounds that each change something. -/
inductive Reaches (g : Graph) : Nat → Graph → Prop
  | start : Reaches g 0 g
  | round {k : Nat} {h h' : Graph} (hr : Reaches g k h) (hrun : (run h).1 = .ok (some h')) :
      Reaches g (k + 1) h'

/-- A round takes the steps of its schedule and keeps the edges. -/
theorem steps_of_round (h : (run g).1 = .ok (some g')) :
    Steps g (schedule g) true g'.nodes ∧ g'.edges = g.edges := by
  obtain ⟨b, hsteps, heq⟩ := steps_of_run h
  cases b with
  | false => cases heq
  | true =>
    cases heq
    rw [hsteps.kept.nodes_replaceNodes]
    exact ⟨hsteps, g.edges_replaceNodes _⟩

theorem Kept.trans (h : Kept g g'.nodes) (h' : Kept g' nodes) : Kept g nodes where
  keys_eq := h'.keys_eq.trans h.keys_eq
  adjusted hm := by
    obtain ⟨n, hn, hnm⟩ := h'.adjusted hm
    obtain ⟨k, hgk, hkn⟩ := h.adjusted hn
    exact ⟨k, hgk, hkn.trans hnm⟩

/-- Rounds keep the edges and adjust the nodes. -/
theorem Reaches.kept {k : Nat} (h : Reaches g k g') : Kept g g'.nodes ∧ g'.edges = g.edges := by
  induction h with
  | start => exact ⟨Kept.refl g, rfl⟩
  | round _ hrun ih =>
    obtain ⟨hsteps, hedges⟩ := steps_of_round hrun
    exact ⟨ih.1.trans hsteps.kept, hedges.trans ih.2⟩

theorem mem_schedule (phase : Phase) (hid : id ∈ g.nodes.keys) : (phase, id) ∈ schedule g := by
  refine List.mem_flatMap.2 ⟨phase, ?_, List.mem_map.2 ⟨id, hid, rfl⟩⟩
  rcases phase with side | _
  · cases side <;> simp
  · simp

/-! ### A compound with proxies -/

/-- A compound of numbers around a node of colours, with a proxy on either side and a bound value. What
the compound gives feeds a node that is typed automatically. -/
def nest : Graph :=
  .ofLists
    [{ id := "c", kind := .compound, inputs := [.ofId "a" .float], outputs := [.ofId "r" .float],
       outputType := .float, uniforms := .ofList [("a", { type := .float, value := .int 1 })] },
      { id := "p", kind := .graphInput, outputs := [.ofId "a" .float], scope := some "c" },
      { id := "i", inputs := [.ofId "x" .vec3], outputs := [.ofId "y" .vec3], scope := some "c" },
      { id := "q", kind := .graphOutput, inputs := [.ofId "r" .float], scope := some "c" },
      link "l"]
    [{ source := "p", sourcePort := some "a", target := "i", targetPort := some "x" },
      { source := "i", sourcePort := some "y", target := "q", targetPort := some "r" },
      { source := "c", sourcePort := some "r", target := "l", targetPort := some "x" }]

theorem distinct_nest : ∀ n ∈ nest.nodeList, Typed n → Distinct n := by
  intro n hn ht
  have htyped : ∀ n ∈ nest.nodeList, Typed n → n.id = "l" := by decide
  have hlast : nest.node? "l" = some n := htyped n hn ht ▸ Graph.mem_nodeList_iff.1 hn
  obtain rfl : link "l" = n := Option.some.inj hlast
  exact distinct_link "l"

/-- The types of the inputs and outputs of all nodes. -/
def types (g : Graph) : List (List DataType × List DataType) :=
  g.nodeList.map fun n => (n.inputs.map (·.type), n.outputs.map (·.type))

/-- Inference gives the compound and its proxies the types of the node inside. -/
theorem exists_run_nest : ∃ g', (run nest).1 = .ok (some g') ∧
    types g' = [([.vec3], [.vec3]), ([], [.vec3]), ([.vec3], [.vec3]), ([.vec3], []),
      ([.float], [.float])] ∧
    ∃ c ∈ g'.nodeList, c.kind = .compound ∧ c.id ≠ "" ∧ c.inputs.map (·.type) = [.vec3] := by
  have hrun : ((run nest).1.toOption.join.any fun g' =>
      types g' = [([.vec3], [.vec3]), ([], [.vec3]), ([.vec3], [.vec3]), ([.vec3], []),
        ([.float], [.float])] ∧
      ∃ c ∈ g'.nodeList, c.kind = .compound ∧ c.id ≠ "" ∧ c.inputs.map (·.type) = [.vec3]) = true := by
    decide +kernel
  rcases hr : (run nest).1 with f | _ | g' <;> rw [hr] at hrun
  · cases hrun
  · cases hrun
  · exact ⟨g', rfl, of_decide_eq_true hrun⟩

end RenderGraph.Typing
