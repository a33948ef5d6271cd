import Mathlib.Logic.Relation
import RenderGraph.Proofs.Plan.Drawing

/-!
# What passes ask for

Passes are planned for items: for outputs of nodes, and for stages of multi-stage nodes. The pass of an
output asks for the outputs at the boundaries of the nodes that it inlines. The pass of a stage asks for
the stages to which its body refers and for what feeds its node. The items are told apart by their keys
only, and a stage that is repeated has passes whose ids are no keys; as long as none of these names
coincide, a key tells what is asked for on its behalf.

## Main definitions

* `Plan.Item`, `Plan.Item.key`, `Plan.Item.loop`: what is planned under a key, and how often it is drawn
* `Plan.Item.Wants`: the requests that are made on behalf of an item
* `Plan.Request.items`: the items that answer a request
* `Plan.Needs`: what stands under one key asks for what stands under another
* `Plan.plannedKeys`, `Plan.repeatIds`: the keys of a node, and the ids of its repeated passes
* `Plan.KeysApart`, `Plan.StagesApart`, `Plan.RepeatsApart`, `Plan.NamesApart`: names that do not coincide

## Main results

* `Plan.Item.eq_of_key_eq`: names apart, a key tells what is asked for and how often it is drawn
* `Plan.Request.nodup_keys`: names apart, a request is answered by items with distinct keys
-/

namespace RenderGraph

/-- An edge goes from one node to another. -/
def Graph.Feeds (g : Graph) (source target : String) : Prop :=
  ∃ e ∈ g.edges, e.source = source ∧ e.target = target

/-- The nodes of a graph are told apart by their ids. -/
theorem Graph.eq_of_id_eq {g : Graph} {n m : Node} (hn : n ∈ g.nodeList) (hm : m ∈ g.nodeList)
    (h : n.id = m.id) : n = m := by
  have hget := Graph.mem_nodeList_iff.1 hn
  rw [h, Graph.mem_nodeList_iff.1 hm] at hget
  exact (Option.some.inj hget).symm

namespace Plan

/-! ### Items -/

/-- What is planned under a key: an output of a node, or a stage. -/
inductive Item
  | output (node : Node) (port : Option String)
  | stage (node : Node) (stage : Stage)

namespace Item

/-- The node that an item belongs to. -/
def node : Item → Node
  | output node _ => node
  | stage node _ => node

/-- The key under which an item is planned. -/
def key : Item → String
  | output node port => passKey node port
  | stage node a => stageKey node a

/-- How often an item is drawn. -/
def loop : Item → Except Fault Loop
  | output node port => .ok { base := passKey node port, count := 1 }
  | stage node a => do
    let body ← a.body
    let count ← a.loopCount body
    pure { base := stageKey node a, count }

/-- An item that may be planned for a graph. -/
def In (g : Graph) : Item → Prop
  | output node _ => node ∈ g.nodeList ∧ node.isMultiStage = false
  | stage node a => node ∈ g.nodeList ∧ node.isMultiStage = true ∧ a ∈ node.stages

theorem In.node_mem {g : Graph} {i : Item} (h : i.In g) : i.node ∈ g.nodeList := by
  cases i <;> exact h.1

/-- The stages of a node may be planned if one of them may. -/
theorem In.of_mem_stages {g : Graph} {node : Node} {a : Stage} (h : (stage node a).In g) {i : Item}
    (hi : i ∈ node.stages.map (stage node)) : i.In g := by
  obtain ⟨b, hb, rfl⟩ := List.mem_map.1 hi
  exact ⟨h.1, h.2.1, hb⟩

/-- An item is drawn at least once, under its key. -/
theorem loop_eq_ok {i : Item} {l : Loop} (h : i.loop = .ok l) : l.base = i.key ∧ 1 ≤ l.count := by
  cases i with
  | output =>
    cases h
    exact ⟨rfl, Int.le_refl 1⟩
  | stage node stage =>
    obtain ⟨body, -, h⟩ := Fault.bind_eq_ok_iff.1 h
    obtain ⟨count, hc, h⟩ := Fault.bind_eq_ok_iff.1 h
    cases h
    have hc' : (1 : Int) ≤ count := by exact_mod_cast one_le_loopCount hc
    exact ⟨rfl, hc'⟩

end Item

/-- The items that answer a request, in order. -/
def Request.items (g : Graph) (r : Request) : List Item :=
  match g.node? r.node with
  | none => []
  | some node =>
    if node.isMultiStage then (requestedStages node r.stage).map (.stage node)
    else [.output node r.port]

theorem mem_of_mem_requestedStages {node : Node} {id : Option String} {stage : Stage}
    (h : stage ∈ requestedStages node id) : stage ∈ node.stages := by
  unfold requestedStages at h
  split at h
  · exact h
  · exact h
  · exact (List.mem_filter.1 h).1

theorem Request.in_of_mem_items {g : Graph} {r : Request} {i : Item} (h : i ∈ r.items g) :
    i.In g ∧ i.node.id = r.node := by
  unfold Request.items at h
  split at h
  · cases h
  · next node hn =>
    have hmem := Graph.mem_nodeList_of_node? hn
    split at h
    · next hm =>
      obtain ⟨stage, hs, rfl⟩ := List.mem_map.1 h
      exact ⟨⟨hmem, hm, mem_of_mem_requestedStages hs⟩, g.id_eq hn⟩
    · next hm =>
      obtain rfl := List.mem_singleton.1 h
      exact ⟨⟨hmem, by simpa using hm⟩, g.id_eq hn⟩

/-- A stage answers a request for some stages of its node. -/
theorem Request.items_eq_of_stage_mem {g : Graph} {r : Request} {node : Node} {a : Stage}
    (h : Item.stage node a ∈ r.items g) :
    a ∈ requestedStages node r.stage ∧ r.items g = (requestedStages node r.stage).map (.stage node) := by
  unfold Request.items at h ⊢
  split at h
  · cases h
  · split at h
    · next hm =>
      obtain ⟨b, hb, he⟩ := List.mem_map.1 h
      cases he
      exact ⟨hb, if_pos hm⟩
    · cases List.mem_singleton.1 h

/-! ### Requests -/

/-- An edge into a node brings something that is written in the same pass. -/
def IsInlineEdge (g : Graph) (n : Node) (e : Edge) : Prop :=
  e ∈ g.incoming n.id ∧ ∃ source, g.node? e.source = some source ∧
    match n.findInput e.targetPort with
    | none => feedsElement n source e = .ok true
    | some port => isBoundary source e.sourcePort port.type = false

/-- The pass of a node takes another node in, too. -/
def InlinesFrom (g : Graph) (id source : String) : Prop :=
  ∃ n e, g.node? id = some n ∧ IsInlineEdge g n e ∧ e.source = source

/-- The output from which an edge comes. -/
def edgeRequest (e : Edge) : Request :=
  { node := e.source, port := e.sourcePort }

/-- The pass of a node reads an output: it stands at a boundary of a node that is taken in. -/
def ReadsOutput (g : Graph) (root : String) (r : Request) : Prop :=
  ∃ n e, n ∈ g.nodeList ∧ Relation.ReflTransGen (InlinesFrom g) root n.id ∧ IsBoundaryEdge g n e ∧
    r = edgeRequest e

/-- The request for a stage to which a body refers. -/
def referenceRequest? (node : Node) : Source.StageReference → Option Request
  | .named id =>
    if id ∈ node.stages.map (·.id) then some { node := node.id, stage := some id } else none
  | .first => some { node := node.id, stage := some ((node.stages.map (·.id)).headD "") }
  | .previous => none

/-- The request for what feeds an input of a multi-stage node. -/
def inputRequest? (e : Edge) : Option Request :=
  if e.targetPort.getD "" = "" then none else some (edgeRequest e)

/-- The requests of a stage, in order. -/
def stageRequests (g : Graph) (node : Node) (stage : Stage) : List Request :=
  (Source.stageReferences stage.text).filterMap (referenceRequest? node) ++
    (g.incoming node.id).filterMap inputRequest?

/-- A request that is made on behalf of an item. -/
def Item.Wants (g : Graph) : Item → Request → Prop
  | .output node _, r => ReadsOutput g node.id r
  | .stage node a, r => r ∈ stageRequests g node a

/-- What stands under a key asks for what stands under another. -/
def Needs (g : Graph) (key key' : String) : Prop :=
  ∃ i : Item, i.In g ∧ i.key = key ∧ ∃ r, i.Wants g r ∧ ∃ j ∈ r.items g, j.key = key'

theorem mem_incoming {g : Graph} {e : Edge} {id : String} (h : e ∈ g.incoming id) :
    e ∈ g.edges ∧ e.target = id := by
  simpa using List.mem_filter.1 h

theorem feeds_of_mem_incoming {g : Graph} {e : Edge} {id : String} (h : e ∈ g.incoming id) :
    g.Feeds e.source id :=
  ⟨e, (mem_incoming h).1, rfl, (mem_incoming h).2⟩

theorem InlinesFrom.feeds {g : Graph} {id source : String} (h : InlinesFrom g id source) :
    g.Feeds source id := by
  obtain ⟨n, e, hn, he, rfl⟩ := h
  exact g.id_eq hn ▸ feeds_of_mem_incoming he.1

/-- What a pass reads stands upstream of its node. -/
theorem ReadsOutput.feeds {g : Graph} {root : String} {r : Request} (h : ReadsOutput g root r) :
    Relation.TransGen g.Feeds r.node root := by
  obtain ⟨n, e, -, hreach, he, rfl⟩ := h
  have hfirst : g.Feeds e.source n.id := feeds_of_mem_incoming he.1
  have hrest : Relation.ReflTransGen g.Feeds n.id root := by
    refine Relation.reflTransGen_swap.1 (Relation.ReflTransGen.mono ?_ _ _ hreach)
    exact fun _ _ hi => hi.feeds
  exact Relation.TransGen.head' hfirst hrest

/-- What a stage asks for belongs to its own node, or feeds it. -/
theorem mem_stageRequests {g : Graph} {node : Node} {stage : Stage} {r : Request}
    (h : r ∈ stageRequests g node stage) :
    (∃ reference ∈ Source.stageReferences stage.text, referenceRequest? node reference = some r) ∨
      g.Feeds r.node node.id ∧ r.stage = none := by
  rcases List.mem_append.1 h with h | h
  · exact Or.inl (List.mem_filterMap.1 h)
  · obtain ⟨e, he, hr⟩ := List.mem_filterMap.1 h
    refine Or.inr ?_
    unfold inputRequest? at hr
    split at hr
    · cases hr
    · cases hr
      exact ⟨feeds_of_mem_incoming he, rfl⟩

/-! ### Names -/

/-- The keys under which passes of a node are planned. -/
def plannedKeys (node : Node) : List String :=
  if node.isMultiStage then node.stages.map (stageKey node)
  else passKey node none :: node.outputs.map fun p => passKey node (some p.id)

/-- The ids of the passes of a node that repeat a stage. -/
def repeatIds (node : Node) : List String :=
  if node.isMultiStage then
    node.stages.flatMap fun stage =>
      match (Item.stage node stage).loop with
      | .ok l => (List.range (l.count.toNat - 1)).map fun i => l.iterationId (i + 1 : Nat)
      | .error _ => []
  else []

/-- No two nodes have a key in common. -/
def KeysApart (g : Graph) : Prop :=
  ∀ n ∈ g.nodeList, ∀ m ∈ g.nodeList, ∀ key ∈ plannedKeys n, key ∈ plannedKeys m → n.id = m.id

/-- No two stages of a node have one id. -/
def StagesApart (g : Graph) : Prop :=
  ∀ n ∈ g.nodeList, (n.stages.map (·.id)).Nodup

/-- No repeated pass has the key of an output or of a stage as its id. -/
def RepeatsApart (g : Graph) : Prop :=
  ∀ n ∈ g.nodeList, ∀ m ∈ g.nodeList, ∀ id ∈ repeatIds n, id ∉ plannedKeys m

instance (g : Graph) : Decidable (KeysApart g) :=
  inferInstanceAs (Decidable (∀ n ∈ g.nodeList, ∀ m ∈ g.nodeList, ∀ key ∈ plannedKeys n,
    key ∈ plannedKeys m → n.id = m.id))

instance (g : Graph) : Decidable (StagesApart g) :=
  inferInstanceAs (Decidable (∀ n ∈ g.nodeList, (n.stages.map (·.id)).Nodup))

instance (g : Graph) : Decidable (RepeatsApart g) :=
  inferInstanceAs (Decidable (∀ n ∈ g.nodeList, ∀ m ∈ g.nodeList, ∀ id ∈ repeatIds n,
    id ∉ plannedKeys m))

/-- The names of a graph do not coincide. -/
structure NamesApart (g : Graph) : Prop where
  keys : KeysApart g
  stages : StagesApart g
  repeats : RepeatsApart g

instance (g : Graph) : Decidable (NamesApart g) :=
  decidable_of_iff (KeysApart g ∧ StagesApart g ∧ RepeatsApart g)
    ⟨fun h => ⟨h.1, h.2.1, h.2.2⟩, fun h => ⟨h.keys, h.stages, h.repeats⟩⟩

/-- An output that a node does not list is its default output. -/
private theorem outputPort_eq_default {node : Node} {id : String}
    (h : ∀ p ∈ node.outputs, p.id ≠ id) : node.outputPort (some id) = node.defaultOutput := by
  have hnone : Port.find? node.outputs id = none :=
    List.find?_eq_none.2 fun p hp he => h p hp (by simpa using he)
  unfold Node.outputPort
  split
  · rfl
  · rfl
  · next he =>
    cases he
    rw [hnone]
    rfl

namespace Item

variable {g : Graph} {i j : Item}

theorem In.key_mem (h : i.In g) : i.key ∈ plannedKeys i.node := by
  cases i with
  | stage node stage =>
    obtain ⟨-, hm, hs⟩ := h
    show stageKey node stage ∈ plannedKeys node
    rw [plannedKeys, if_pos hm]
    exact List.mem_map.2 ⟨stage, hs, rfl⟩
  | output node port =>
    show passKey node port ∈ plannedKeys node
    rw [plannedKeys, if_neg (by simp [h.2])]
    cases port with
    | none => exact List.mem_cons_self
    | some id =>
      by_cases hid : ∃ p ∈ node.outputs, p.id = id
      · obtain ⟨p, hp, rfl⟩ := hid
        exact List.mem_cons_of_mem _ (List.mem_map.2 ⟨p, hp, rfl⟩)
      · have hkey : passKey node (some id) = passKey node none := by
          rw [passKey, outputPort_eq_default fun p hp he => hid ⟨p, hp, he⟩]
          rfl
        rw [hkey]
        exact List.mem_cons_self

/-- A pass that repeats an item has a repeated id. -/
theorem In.iterationId_mem (h : i.In g) {l : Loop} (hl : i.loop = .ok l) {k : Nat} (hk : 0 < k)
    (hlt : k < l.count.toNat) : l.iterationId k ∈ repeatIds i.node := by
  cases i with
  | output =>
    cases hl
    simp only [Int.toNat_one] at hlt
    omega
  | stage node stage =>
    obtain ⟨-, hm, hs⟩ := h
    show l.iterationId k ∈ repeatIds node
    rw [repeatIds, if_pos hm]
    refine List.mem_flatMap.2 ⟨stage, hs, ?_⟩
    rw [hl]
    exact List.mem_map.2 ⟨k - 1, List.mem_range.2 (by omega), by rw [Nat.sub_add_cancel hk]⟩

/-- Names apart, the stages of a node are told apart by their keys. -/
theorem stage_eq_of_key_eq (hs : StagesApart g) {node : Node} (hn : node ∈ g.nodeList)
    {a b : Stage} (ha : a ∈ node.stages) (hb : b ∈ node.stages)
    (h : stageKey node a = stageKey node b) : a = b := by
  have hid : a.id = b.id := by simpa [stageKey] using h
  exact List.inj_on_of_nodup_map (hs node hn) ha hb hid

/-- Names apart, items with one key belong to one node. -/
theorem node_eq_of_key_eq (hk : KeysApart g) (hi : i.In g) (hj : j.In g) (h : i.key = j.key) :
    i.node = j.node := by
  have hid := hk _ hi.node_mem _ hj.node_mem _ hi.key_mem (h ▸ hj.key_mem)
  exact Graph.eq_of_id_eq hi.node_mem hj.node_mem hid

/-- Names apart, the key of a stage tells the stage. -/
theorem eq_stage_of_key_eq (hk : KeysApart g) (hs : StagesApart g) {node : Node} {a : Stage}
    (hi : i.In g) (ha : (stage node a).In g) (h : i.key = stageKey node a) : i = stage node a := by
  have hnode := node_eq_of_key_eq hk hi ha h
  cases i with
  | output n port =>
    obtain rfl : n = node := hnode
    exact absurd (hi.2.symm.trans ha.2.1) Bool.false_ne_true
  | stage n b =>
    obtain rfl : n = node := hnode
    rw [stage_eq_of_key_eq hs ha.1 hi.2.2 ha.2.2 h]

/-- Names apart, a key tells what is asked for and how often it is drawn. -/
theorem eq_of_key_eq (hk : KeysApart g) (hs : StagesApart g) (hi : i.In g) (hj : j.In g)
    (h : i.key = j.key) : i.Wants g = j.Wants g ∧ i.loop = j.loop := by
  cases j with
  | stage m b =>
    obtain rfl := eq_stage_of_key_eq hk hs hi hj h
    exact ⟨rfl, rfl⟩
  | output m port' =>
    cases i with
    | stage n a => cases eq_stage_of_key_eq hk hs hj hi h.symm
    | output n port =>
      obtain rfl : n = m := node_eq_of_key_eq hk hi hj h
      have hkey : passKey n port = passKey n port' := h
      refine ⟨rfl, ?_⟩
      simp only [loop, hkey]

end Item

theorem requestedStages_of_getD {node : Node} {id : Option String} (h : id.getD "" = "") :
    requestedStages node id = node.stages := by
  cases id with
  | none => rfl
  | some id =>
    obtain rfl : id = "" := h
    rfl

/-- Names apart, a stage that is asked for is one of all, or else the only one, by its name. -/
theorem requestedStages_of_mem {node : Node} {id : Option String} {b : Stage}
    (h : (node.stages.map (·.id)).Nodup) (hb : b ∈ requestedStages node id) :
    requestedStages node id = node.stages ∨ id = some b.id ∧ requestedStages node id = [b] := by
  unfold requestedStages at hb ⊢
  split at hb
  · exact Or.inl rfl
  · exact Or.inl rfl
  · next id _ =>
    obtain ⟨hmem, hid⟩ := List.mem_filter.1 hb
    obtain rfl : b.id = id := by simpa using hid
    refine Or.inr ⟨rfl, List.perm_singleton.1 ?_⟩
    rw [List.perm_ext_iff_of_nodup (h.of_map.filter _) (List.nodup_singleton b)]
    intro c
    rw [List.mem_filter, List.mem_singleton]
    constructor
    · rintro ⟨hc, he⟩
      exact List.inj_on_of_nodup_map h hc hmem (by simpa using he)
    · rintro rfl
      exact ⟨hmem, hid⟩

/-- Names apart, the stages of a node have distinct keys. -/
theorem nodup_stageKeys {g : Graph} (hs : StagesApart g) {node : Node} (hn : node ∈ g.nodeList) :
    (node.stages.map (stageKey node)).Nodup :=
  List.Nodup.map_on (fun _ ha _ hb => Item.stage_eq_of_key_eq hs hn ha hb)
    (List.Nodup.of_map _ (hs node hn))

/-- Names apart, the items that answer a request have distinct keys. -/
theorem Request.nodup_keys {g : Graph} (hs : StagesApart g) (r : Request) :
    ((r.items g).map Item.key).Nodup := by
  unfold Request.items
  split
  · exact .nil
  · next node hn =>
    have hmem := Graph.mem_nodeList_of_node? hn
    split
    · have hsub : (requestedStages node r.stage).Sublist node.stages := by
        unfold requestedStages
        split
        · exact .refl _
        · exact .refl _
        · exact List.filter_sublist
      rw [List.map_map]
      exact (nodup_stageKeys hs hmem).sublist (hsub.map _)
    · exact List.nodup_singleton _

end Plan

end RenderGraph
