import RenderGraph.Graph.Node
import RenderGraph.Graph.Edge

/-!
# Graphs

A graph is a snapshot of nodes and edges. Node ids are distinct, and at most one edge goes to each
port of each node: a later edge supersedes an earlier one.

## Main definitions

* `Graph`, `Graph.ofLists`, `Graph.ofValue`
* `Graph.node?`, `Graph.requireNode`
* `Graph.incoming`, `Graph.outgoing`, `Graph.edgeInto`, `Graph.children`
* `Graph.connect`, `Graph.replaceNodes`: new snapshots

## Main results

* `Graph.mem_of_mem_supersede`: superseding only drops edges
* `Graph.pairwise_supersede`: no two of the edges that are left go to one port
* `Graph.mem_nodeList_iff`: the nodes are what their ids lead to
* `Graph.edges_replaceNodes`, `Graph.get?_replaceNodes`, `Graph.keys_replaceNodes`: exchanging nodes
  keeps the edges and ids
-/

namespace RenderGraph

/-- A snapshot of nodes and edges. -/
structure Graph where
  nodes : Keyed Node
  edges : List Edge
  /-- Every node stands under its own id. -/
  id_eq : ∀ {id : String} {n : Node}, nodes.get? id = some n → n.id = id
  /-- No two edges go to one port. -/
  single : edges.Pairwise fun d e => ¬ e.goesTo d.target d.targetPort

namespace Graph

/-! ### Snapshots of lists -/

/-- The edges without those that a later edge into the same port supersedes. -/
def supersede : List Edge → List Edge
  | [] => []
  | e :: es =>
    if es.any (·.goesTo e.target e.targetPort) then supersede es else e :: supersede es

theorem mem_of_mem_supersede {e : Edge} {es : List Edge} (h : e ∈ supersede es) : e ∈ es := by
  induction es with
  | nil => simp [supersede] at h
  | cons d es ih =>
    unfold supersede at h
    split at h
    · exact List.mem_cons_of_mem _ (ih h)
    · rcases List.mem_cons.mp h with rfl | h
      · exact List.mem_cons_self
      · exact List.mem_cons_of_mem _ (ih h)

/-- Of the edges that are left, no two go to one port. -/
theorem pairwise_supersede (es : List Edge) :
    (supersede es).Pairwise fun d e => ¬ e.goesTo d.target d.targetPort := by
  induction es with
  | nil => exact List.Pairwise.nil
  | cons d es ih =>
    rw [supersede]
    split
    · exact ih
    · next h =>
      refine List.pairwise_cons.2 ⟨fun e he hg => h ?_, ih⟩
      exact List.any_eq_true.2 ⟨e, mem_of_mem_supersede he, hg⟩

/-- Nothing is superseded where no two edges go to one port. -/
theorem supersede_eq_self {es : List Edge}
    (h : es.Pairwise fun d e => ¬ e.goesTo d.target d.targetPort) : supersede es = es := by
  induction es with
  | nil => rfl
  | cons d es ih =>
    obtain ⟨hd, hes⟩ := List.pairwise_cons.1 h
    have hany : es.any (·.goesTo d.target d.targetPort) = false := by
      simpa [List.any_eq_false] using hd
    rw [supersede, hany, if_neg Bool.false_ne_true, ih hes]

/-- Nodes under their ids; of two nodes with one id the later counts. -/
def keyNodes (nodes : List Node) : Keyed Node :=
  Keyed.ofList (nodes.map fun n => (n.id, n))

theorem id_eq_of_get?_keyNodes {nodes : List Node} {id : String} {n : Node}
    (h : (keyNodes nodes).get? id = some n) : n.id = id := by
  obtain ⟨m, -, hm⟩ := List.mem_map.1 (Keyed.mem_of_get?_ofList h)
  cases hm
  rfl

/-- The graph of some nodes and edges. -/
def ofLists (nodes : List Node) (edges : List Edge) : Graph where
  nodes := keyNodes nodes
  edges := supersede edges
  id_eq := id_eq_of_get?_keyNodes
  single := pairwise_supersede edges

/-- The graph that a document describes. -/
def ofValue (v : Value) : Except Fault Graph := do
  let list (name : String) : Except Fault (List Value) := do
    match ← v.field? name with
    | some items => items.parts
    | none => pure []
  let nodes ← (← list "nodes").mapM Node.ofValue
  let edges ← (← list "edges").mapM Edge.ofValue
  pure (ofLists nodes edges)

variable (g : Graph)

/-! ### Nodes -/

/-- The nodes, in order. -/
def nodeList : List Node :=
  g.nodes.values

/-- The number of nodes. -/
def size : Nat :=
  g.nodes.size

def contains (id : String) : Bool :=
  g.nodes.contains id

/-- The node with a given id. -/
def node? (id : String) : Option Node :=
  g.nodes.get? id

/-- The nodes are what their ids lead to. -/
theorem mem_nodeList_iff {g : Graph} {n : Node} : n ∈ g.nodeList ↔ g.node? n.id = some n := by
  unfold nodeList node? Keyed.values
  rw [← Keyed.mem_entries_iff, List.mem_map]
  constructor
  · rintro ⟨⟨id, n⟩, hn, rfl⟩
    have hid := g.id_eq (Keyed.mem_entries_iff.1 hn)
    exact hid ▸ hn
  · intro hn
    exact ⟨_, hn, rfl⟩

theorem mem_nodeList_of_node? {g : Graph} {id : String} {n : Node} (h : g.node? id = some n) :
    n ∈ g.nodeList :=
  mem_nodeList_iff.2 (g.id_eq h ▸ h)

theorem id_mem_keys {g : Graph} {n : Node} (h : n ∈ g.nodeList) : n.id ∈ g.nodes.keys :=
  List.mem_map.2 ⟨(n.id, n), Keyed.mem_entries_iff.2 (mem_nodeList_iff.1 h), rfl⟩

/-- The node with a given id, which has to exist. -/
def requireNode (id : String) (referrer : Option String := none) : Except Fault Node :=
  match g.node? id with
  | some n => .ok n
  | none => .error (.nodeNotFound id referrer)

/-- The nodes that stand inside a scope. -/
def children (scope : Option String) : List Node :=
  g.nodeList.filter (·.scope == scope)

/-! ### Edges -/

/-- The edges into a node. -/
def incoming (id : String) : List Edge :=
  g.edges.filter (·.target == id)

/-- The edges from a node, or from one of its ports. -/
def outgoing (id : String) (port : Option String := none) : List Edge :=
  g.edges.filter fun e => e.source == id && (port.isNone || e.sourcePort == port)

/-- The edge into a port. -/
def edgeInto (id : String) (port : Option String) : Option Edge :=
  g.edges.find? (·.goesTo id port)

/-- The edge into a port goes there. -/
theorem target_of_edgeInto {g : Graph} {id : String} {port : Option String} {e : Edge}
    (h : g.edgeInto id port = some e) : e.target = id ∧ e.targetPort = port := by
  have hgoes := List.find?_some h
  exact Edge.goesTo_iff.1 hgoes

/-- An edge is the edge into its port. -/
theorem edgeInto_eq_some {g : Graph} {e : Edge} (he : e ∈ g.edges) :
    g.edgeInto e.target e.targetPort = some e := by
  obtain ⟨before, after, hsplit⟩ := List.append_of_mem he
  refine List.find?_eq_some_iff_append.2 ⟨e.goesTo_self, before, after, hsplit, ?_⟩
  intro d hd
  have hsingle := g.single
  rw [hsplit, List.pairwise_append] at hsingle
  have hne := hsingle.2.2 d hd e List.mem_cons_self
  rw [Bool.not_eq_true', Bool.eq_false_iff]
  intro hgoes
  exact hne (Edge.goesTo_comm d e ▸ hgoes)

/-! ### New snapshots -/

/-- The graph with one more edge, which supersedes the edge into the same port. -/
def connect (e : Edge) : Graph :=
  { g with edges := supersede (g.edges ++ [e]), single := pairwise_supersede _ }

/-- The graph with some nodes exchanged. -/
def replaceNodes (replacements : Keyed Node) : Graph :=
  ofLists (g.nodeList.map fun n => (replacements.get? n.id).getD n) g.edges

@[simp]
theorem edges_replaceNodes (replacements : Keyed Node) :
    (g.replaceNodes replacements).edges = g.edges :=
  supersede_eq_self g.single

/-- A node is exchanged for one with the same id. -/
theorem id_replacement {replacements : Keyed Node}
    (h : ∀ {id : String} {n : Node}, replacements.get? id = some n → n.id = id) (n : Node) :
    ((replacements.get? n.id).getD n).id = n.id := by
  cases hr : replacements.get? n.id with
  | none => rfl
  | some m => exact h hr

/-- The nodes of the graph with some nodes exchanged, if these stand under their own ids. -/
theorem get?_replaceNodes {g : Graph} {replacements : Keyed Node}
    (h : ∀ {id : String} {n : Node}, replacements.get? id = some n → n.id = id) (id : String) :
    (g.replaceNodes replacements).nodes.get? id =
      (g.nodes.get? id).map fun n => (replacements.get? id).getD n := by
  have hid (n : Node) : ((replacements.get? n.id).getD n).id = n.id := id_replacement h n
  have hmem {n : Node} (hn : n ∈ g.nodeList) : g.nodes.get? n.id = some n := mem_nodeList_iff.1 hn
  show (keyNodes (g.nodeList.map fun n => (replacements.get? n.id).getD n)).get? id = _
  cases hn : g.nodes.get? id with
  | none =>
    cases hm : (keyNodes (g.nodeList.map fun n => (replacements.get? n.id).getD n)).get? id with
    | none => rfl
    | some m =>
      obtain ⟨m, hm, heq⟩ := List.mem_map.1 (Keyed.mem_of_get?_ofList hm)
      obtain ⟨n, hn', rfl⟩ := List.mem_map.1 hm
      cases heq
      rw [hid, hmem hn'] at hn
      cases hn
  | some n =>
    have hnid := g.id_eq hn
    refine Keyed.get?_insertAll_of_forall (List.mem_map.2 ⟨_, List.mem_map.2 ⟨n, ?_, rfl⟩, ?_⟩) ?_
    · exact mem_nodeList_of_node? hn
    · rw [hid, hnid]
    · rintro e he rfl
      obtain ⟨m, hm, rfl⟩ := List.mem_map.1 he
      obtain ⟨k, hk, rfl⟩ := List.mem_map.1 hm
      dsimp only at hn ⊢
      rw [hid, hmem hk] at hn
      cases hn
      rw [hid]

/-- Exchanging nodes keeps the ids and their order. -/
theorem keys_replaceNodes {g : Graph} {replacements : Keyed Node}
    (h : ∀ {id : String} {n : Node}, replacements.get? id = some n → n.id = id) :
    (g.replaceNodes replacements).nodes.keys = g.nodes.keys := by
  have hkeys : ((g.nodeList.map fun n => (replacements.get? n.id).getD n).map
      fun n => (n.id, n)).map (·.1) = g.nodes.keys := by
    rw [nodeList, Keyed.values, Keyed.keys, List.map_map, List.map_map, List.map_map]
    refine List.map_congr_left fun e he => ?_
    exact (id_replacement h e.2).trans (g.id_eq (Keyed.mem_entries_iff.1 he))
  show (keyNodes _).keys = _
  rw [keyNodes, Keyed.keys_ofList, hkeys]
  rw [hkeys]
  exact g.nodes.nodup

end Graph

end RenderGraph
