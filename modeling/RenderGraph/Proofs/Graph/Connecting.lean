import Mathlib.Data.List.Induction
import RenderGraph.Graph.Basic

/-!
# Connecting edges one after the other

A graph can be made of all its edges at once, or without edges that are then connected one after the other.
Both ways lead to the same graph. A new edge drops the edge into its port and stands last. So the edges that
are left are those at the last place of their port in the list, and one pass over the list finds these
places.

## Main definitions

* `Graph.lastPlace?`, `Graph.atLastPlaces`: where the last edge into a port stands, found in one pass
* `Graph.IsLast`: no later edge goes to the same port
* `Graph.LeftOf`: what is left of edges that were connected one after the other

## Main results

* `Graph.edges_connect`: what one new edge does to the edges
* `Graph.foldl_connect`: connecting some edges is making the graph anew with these edges in addition
* `Graph.supersede_eq_atLastPlaces`: the edges that are left are those at the last places
* `Graph.filter_supersede`: only the last edge into a port is left
* `Graph.connected_in_turn`: graphs made at once and edge by edge
-/

namespace RenderGraph.Graph

variable {es : List Edge} {node : String} {port : Option String}

/-! ### One more edge -/

/-- One more edge drops the edge into its port and stands last. -/
theorem supersede_append_singleton (es : List Edge) (e : Edge) :
    supersede (es ++ [e]) = (supersede es).filter (!·.goesTo e.target e.targetPort) ++ [e] := by
  induction es with
  | nil => rfl
  | cons d es ih =>
    rw [List.cons_append, supersede, supersede, ih, List.any_append]
    cases hlater : es.any (·.goesTo d.target d.targetPort) with
    | true => simp
    | false =>
      -- The first edge is left until the new one comes, and then only if that goes to another port.
      have hfirst : (d :: supersede es).filter (!·.goesTo e.target e.targetPort) =
          (if e.goesTo d.target d.targetPort then [] else [d]) ++
            (supersede es).filter (!·.goesTo e.target e.targetPort) := by
        rw [List.filter_cons, Edge.goesTo_comm d e]
        cases e.goesTo d.target d.targetPort <;> rfl
      rw [if_neg Bool.false_ne_true, hfirst]
      cases he : e.goesTo d.target d.targetPort <;> simp [he]

/-- What a new edge does to the edges: the one into its port goes, and the new one stands last. -/
theorem edges_connect (g : Graph) (e : Edge) :
    (g.connect e).edges = g.edges.filter (!·.goesTo e.target e.targetPort) ++ [e] := by
  show supersede (g.edges ++ [e]) = _
  rw [supersede_append_singleton, supersede_eq_self g.single]

/-! ### Graphs made anew -/

@[ext]
theorem ext {g h : Graph} (hnodes : g.nodes = h.nodes) (hedges : g.edges = h.edges) : g = h := by
  cases g
  cases h
  cases hnodes
  cases hedges
  rfl

/-- The nodes of a graph are those that it lists, under their ids. -/
theorem keyNodes_nodeList (g : Graph) : keyNodes g.nodeList = g.nodes := by
  have hempty {id : String} {n : Node} (h : (∅ : Keyed Node).get? id = some n) : n.id = id := by
    cases h
  have hnodes : (g.replaceNodes ∅).nodes = g.nodes := by
    refine Keyed.ext_get? (keys_replaceNodes hempty) fun id => ?_
    rw [get?_replaceNodes hempty]
    exact Option.map_id' ▸ rfl
  have hsame : (g.nodeList.map fun n => ((∅ : Keyed Node).get? n.id).getD n) = g.nodeList :=
    List.map_id' _
  rw [← hnodes, replaceNodes, hsame]
  rfl

/-- A graph is the graph of its nodes and edges. -/
theorem ofLists_nodeList_edges (g : Graph) : ofLists g.nodeList g.edges = g :=
  ext (keyNodes_nodeList g) (supersede_eq_self g.single)

/-- Connecting an edge to the graph of some edges puts it behind them. -/
theorem connect_ofLists (nodes : List Node) (es : List Edge) (e : Edge) :
    (ofLists nodes es).connect e = ofLists nodes (es ++ [e]) := by
  refine ext rfl ?_
  rw [edges_connect]
  exact (supersede_append_singleton es e).symm

/-- Connecting some edges is making the graph anew with these edges in addition. -/
theorem foldl_connect (g : Graph) (es : List Edge) :
    es.foldl connect g = ofLists g.nodeList (g.edges ++ es) := by
  induction es using List.reverseRecOn with
  | nil => rw [List.foldl_nil, List.append_nil, ofLists_nodeList_edges]
  | append_singleton es e ih =>
    rw [List.foldl_append, ih, List.foldl_cons, List.foldl_nil, connect_ofLists, List.append_assoc]

/-- A graph made at once is the one that is made edge by edge. -/
theorem ofLists_eq_foldl_connect (nodes : List Node) (es : List Edge) :
    ofLists nodes es = es.foldl connect (ofLists nodes []) := by
  rw [foldl_connect]
  exact ext (keyNodes_nodeList (ofLists nodes [])).symm rfl

/-! ### The last places -/

/-- Where the last edge into a port stands, found in one pass: a later place replaces an earlier one. -/
def lastPlace? (es : List Edge) (node : String) (port : Option String) : Option Nat :=
  es.zipIdx.foldl (fun found p => if p.1.goesTo node port then some p.2 else found) none

/-- The edges that stand at the last place of their port, with the places. -/
def atLastPlaces (es : List Edge) : List (Edge × Nat) :=
  es.zipIdx.filter fun p => lastPlace? es p.1.target p.1.targetPort == some p.2

/-- No edge behind a place goes to the port of the edge that stands there. -/
def IsLast (es : List Edge) (i : Nat) : Prop :=
  ∃ e, es[i]? = some e ∧ ∀ d ∈ es.drop (i + 1), d.goesTo e.target e.targetPort = false

theorem lastPlace?_append_singleton (es : List Edge) (e : Edge) :
    lastPlace? (es ++ [e]) node port =
      if e.goesTo node port then some es.length else lastPlace? es node port := by
  simp [lastPlace?, List.zipIdx_append, List.foldl_append]

/-- The pass finds the edge into the port behind which there is no other. -/
theorem lastPlace?_eq_some_iff {i : Nat} : lastPlace? es node port = some i ↔
    ∃ e, es[i]? = some e ∧ e.goesTo node port = true ∧
      ∀ d ∈ es.drop (i + 1), d.goesTo node port = false := by
  induction es using List.reverseRecOn with
  | nil => simp [lastPlace?]
  | append_singleton es e ih =>
    rw [lastPlace?_append_singleton]
    rcases Nat.lt_trichotomy i es.length with hi | rfl | hi
    · rw [List.getElem?_append_left hi, List.drop_append_of_le_length hi]
      cases he : e.goesTo node port with
      | true => simp [he, Nat.ne_of_gt hi]
      | false => simp [ih, or_imp, forall_and, he]
    · cases he : e.goesTo node port with
      | true => simp [he]
      | false => simp [he, ih]
    · have hnone : (es ++ [e])[i]? = none := by
        rw [List.getElem?_eq_none_iff, List.length_append]
        exact hi
      cases he : e.goesTo node port with
      | true => simp [hnone, Nat.ne_of_lt hi]
      | false => simp [ih, hnone, Nat.le_of_lt hi]

theorem mem_atLastPlaces_iff {p : Edge × Nat} : p ∈ atLastPlaces es ↔
    es[p.2]? = some p.1 ∧ ∀ d ∈ es.drop (p.2 + 1), d.goesTo p.1.target p.1.targetPort = false := by
  rw [atLastPlaces, List.mem_filter, List.mem_zipIdx_iff_getElem?, beq_iff_eq, lastPlace?_eq_some_iff]
  constructor
  · rintro ⟨hp, -, -, -, hlater⟩
    exact ⟨hp, hlater⟩
  · rintro ⟨hp, hlater⟩
    exact ⟨hp, p.1, hp, p.1.goesTo_self, hlater⟩

/-- One more edge takes the last place, and the edge into its port loses its own. -/
theorem atLastPlaces_append_singleton (es : List Edge) (e : Edge) :
    atLastPlaces (es ++ [e]) =
      (atLastPlaces es).filter (!·.1.goesTo e.target e.targetPort) ++ [(e, es.length)] := by
  have hbefore : es.zipIdx.filter (fun p =>
      lastPlace? (es ++ [e]) p.1.target p.1.targetPort == some p.2) =
        (atLastPlaces es).filter (!·.1.goesTo e.target e.targetPort) := by
    rw [atLastPlaces, List.filter_filter]
    refine List.filter_congr fun p hp => ?_
    have hplace : es.length ≠ p.2 := Nat.ne_of_gt (List.snd_lt_of_mem_zipIdx hp)
    rw [lastPlace?_append_singleton, Edge.goesTo_comm]
    cases p.1.goesTo e.target e.targetPort <;> simp [hplace]
  rw [atLastPlaces, List.zipIdx_append, List.filter_append, hbefore]
  simp [lastPlace?_append_singleton, e.goesTo_self]

/-- The edges that are left are those at the last places. -/
theorem supersede_eq_atLastPlaces (es : List Edge) : supersede es = (atLastPlaces es).map (·.1) := by
  induction es using List.reverseRecOn with
  | nil => rfl
  | append_singleton es e ih =>
    rw [supersede_append_singleton, atLastPlaces_append_singleton, List.map_append, ih,
      List.filter_map]
    rfl

/-! ### What is left -/

/-- Of the edges into a port, only the last one is left. -/
theorem filter_supersede (es : List Edge) (node : String) (port : Option String) :
    (supersede es).filter (·.goesTo node port) =
      (es.filter (·.goesTo node port)).getLast?.toList := by
  induction es using List.reverseRecOn with
  | nil => rfl
  | append_singleton es e ih =>
    rw [supersede_append_singleton, List.filter_append, List.filter_append, List.filter_filter]
    cases he : e.goesTo node port with
    | true =>
      obtain ⟨rfl, rfl⟩ := Edge.goesTo_iff.1 he
      simp [he]
    | false =>
      -- No edge into this port goes to the port of the new one.
      have hother (d : Edge) :
          (d.goesTo node port && !d.goesTo e.target e.targetPort) = d.goesTo node port := by
        cases hd : d.goesTo node port with
        | false => rfl
        | true =>
          obtain ⟨rfl, rfl⟩ := Edge.goesTo_iff.1 hd
          rw [Edge.goesTo_comm, he]
          rfl
      simp only [hother, ih, List.filter_cons, he, List.filter_nil, List.append_nil,
        Bool.false_eq_true, if_false]

/-- The edges of a graph are what is left of edges that were connected one after the other. -/
structure LeftOf (es : List Edge) (g : Graph) : Prop where
  /-- At most one edge goes to a port. -/
  single : ∀ node port, (g.edges.filter (·.goesTo node port)).length ≤ 1
  /-- It is the last one that was connected there. -/
  last : ∀ node port, g.edgeInto node port = (es.filter (·.goesTo node port)).getLast?
  /-- The edges that are the last ones of their ports stand in the order of their connection. -/
  inOrder : ∃ places : List Nat, places.Pairwise (· < ·) ∧ (∀ i, i ∈ places ↔ IsLast es i) ∧
    g.edges.map some = places.map (es[·]?)

theorem leftOf_ofLists (nodes : List Node) (es : List Edge) : LeftOf es (ofLists nodes es) where
  single node port := by
    show ((supersede es).filter _).length ≤ 1
    rw [filter_supersede, Option.length_toList]
    cases (es.filter (·.goesTo node port)).getLast? <;> simp
  last node port := by
    show (supersede es).find? _ = _
    rw [← List.head?_filter, filter_supersede, Option.head?_toList]
  inOrder := by
    refine ⟨(atLastPlaces es).map (·.2), ?_, fun i => ?_, ?_⟩
    · have hplaces : es.zipIdx.map (·.2) = List.range' 0 es.length := List.zipIdx_map_snd 0 es
      refine List.Pairwise.sublist (List.filter_sublist.map _) ?_
      rw [hplaces]
      exact List.pairwise_lt_range'
    · simp [mem_atLastPlaces_iff, IsLast]
    · show (supersede es).map some = _
      rw [supersede_eq_atLastPlaces, List.map_map, List.map_map]
      exact List.map_congr_left fun p hp => (mem_atLastPlaces_iff.1 hp).1.symm

/-- A graph made of all its edges at once is the one that is made by connecting them one after the other.
At every point at most one edge goes to each port, it is the last one that was connected there, and the
edges that are left stand in the order of their connection. -/
theorem connected_in_turn (nodes : List Node) (es : List Edge) :
    ofLists nodes es = es.foldl connect (ofLists nodes []) ∧
      ∀ n, LeftOf (es.take n) ((es.take n).foldl connect (ofLists nodes [])) := by
  refine ⟨ofLists_eq_foldl_connect nodes es, fun n => ?_⟩
  rw [← ofLists_eq_foldl_connect]
  exact leftOf_ofLists nodes (es.take n)

/-- An edge does not take the place of the one that it supersedes. -/
example (r s t : String) :
    (ofLists [] [{ source := r, target := "m", targetPort := some "a" },
      { source := s, target := "m" }, { source := t, target := "m", targetPort := some "a" }]).edges =
    [{ source := s, target := "m" }, { source := t, target := "m", targetPort := some "a" }] :=
  rfl

end RenderGraph.Graph
