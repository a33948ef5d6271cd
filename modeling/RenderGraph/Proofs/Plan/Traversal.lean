import Mathlib.Data.List.Flatten
import Mathlib.Data.List.Perm.Basic
import RenderGraph.Proofs.Plan.Course

/-!
# The traversal of a search

A search visits the nodes that a pass inlines depth first, and adds a node when all edges into it have
been followed. Every edge into a node is followed once: a boundary makes one call to the host, and an
inline edge leads to a node that was added before, is added now, or is still being visited. Only in the
last case the edge is dropped. A node that is being visited is added later, so that the dropped edges are
those whose source does not stand before their target.

What a search asks of its host is read off a host that notes down the calls.

## Main definitions

* `Plan.Call`, `Plan.Host.logged`: the calls to a host, and a host that notes them down
* `Plan.crosses`, `Plan.inlines`, `Plan.precedes`, `Plan.isBack`: edges of an order of nodes
* `Plan.EdgeFault`, `Plan.StopsAt`: the faults of a search
* `Plan.Traversal`: the order that a search finds, and the calls that it makes
* `Plan.Traverses`: what a part of a search does

## Main results

* `Plan.ends_collect_logged`: how a search ends
* `Plan.run_collect_logged`: noting down calls does not change a search
-/

namespace RenderGraph

/-! ### Handles -/

theorem Numeral.failsIn_read (digits : List Char) : FailsIn (Numeral.read digits) (· = .longNumeral) := by
  unfold Numeral.read
  split
  · trivial
  · exact rfl

theorem Edge.failsIn_arrayElement (e : Edge) : FailsIn e.arrayElement (· = .longNumeral) := by
  unfold Edge.arrayElement RenderGraph.arrayElement
  split
  · trivial
  · split
    · trivial
    · exact (Numeral.failsIn_read _).map _

/-- A handle cannot be read if its index has too many digits. -/
theorem arrayElement_replicate {digits : Nat} (h : Numeral.greatestLength < digits) :
    arrayElement ("i__" ++ String.ofList (List.replicate digits '1')) = .error .longNumeral := by
  have hdigits : handleDigits? ('_' :: '_' :: List.replicate digits '1') =
      some (List.replicate digits '1') := by
    have hone : Text.isDigit '1' = true := by decide
    have hne : digits ≠ 0 := by omega
    simp [handleDigits?, Text.after?, hone, hne]
  have hlist : ("i__" ++ String.ofList (List.replicate digits '1')).toList =
      'i' :: '_' :: '_' :: List.replicate digits '1' := by
    simp
  have hsplit : splitHandle ("i__" ++ String.ofList (List.replicate digits '1')).toList =
      some (['i'], List.replicate digits '1') := by
    rw [hlist, splitHandle, if_neg (by decide), hdigits]
  rw [arrayElement, hsplit]
  simp only [Numeral.read, List.length_replicate, if_neg (Nat.not_le.2 h)]
  rfl

namespace Plan

open Relation (ReflTransGen)

variable {σ α β : Type}

/-! ### Calls -/

/-- A call that a search makes to its host. -/
inductive Call
  | texture (source : Node) (port : Option String)
  | warning (message : String)

namespace Call

/-- The output for whose texture a call asks. -/
def request? : Call → Option Request
  | texture source port => some { node := source.id, port }
  | warning _ => none

/-- The warning that a call passes on. -/
def warning? : Call → Option String
  | texture .. => none
  | warning message => some message

end Call

/-- A computation of a host that notes down a call, whatever comes of it. -/
def noted (c : Call) (x : HostM σ α) : HostM (σ × List Call) α :=
  ExceptT.mk fun u => ((x.run u.1).1, (x.run u.1).2, u.2 ++ [c])

/-- The host, which notes down the calls that it gets. -/
def Host.logged (host : Host σ) : Host (σ × List Call) where
  texture source port := noted (.texture source port) (host.texture source port)
  warn message := noted (.warning message) (host.warn message)

theorem ends_noted {c : Call} {x : HostM σ α} {Q : α → σ × List Call → Prop}
    {E : Fault → σ × List Call → Prop} {u : σ × List Call} :
    Ends (noted c x) Q E u ↔
      Ends x (fun a t => Q a (t, u.2 ++ [c])) (fun f t => E f (t, u.2 ++ [c])) u.1 := by
  have hrun : (noted c x).run u = ((x.run u.1).1, (x.run u.1).2, u.2 ++ [c]) := rfl
  rw [Ends, Ends, hrun]
  rcases x.run u.1 with ⟨_ | _, t⟩ <;> exact Iff.rfl

/-- The host answers every call. -/
structure Host.Total (host : Host σ) : Prop where
  texture : ∀ source port s, Ends (host.texture source port) (fun _ _ => True) (fun _ _ => False) s
  warn : ∀ message s, Ends (host.warn message) (fun _ _ => True) (fun _ _ => False) s

/-! ### Edges -/

/-- An edge, with the node that it goes into, needs a pass of its own for its source. -/
def crosses (g : Graph) (f : Node × Edge) : Bool :=
  match g.node? f.2.source, f.1.findInput f.2.targetPort with
  | some source, some port => isBoundary source f.2.sourcePort port.type
  | _, _ => false

/-- An edge, with the node that it goes into, brings something that is written in the same pass. -/
def inlines (g : Graph) (f : Node × Edge) : Bool :=
  match g.node? f.2.source, f.1.findInput f.2.targetPort with
  | some source, some port => !isBoundary source f.2.sourcePort port.type
  | some source, none => (feedsElement f.1 source f.2).toOption == some true
  | none, _ => false

theorem isInlineEdge_iff {g : Graph} {n : Node} {e : Edge} :
    IsInlineEdge g n e ↔ e ∈ g.incoming n.id ∧ inlines g (n, e) = true := by
  refine and_congr_right fun _ => ?_
  unfold inlines
  cases g.node? e.source with
  | none => simp
  | some source =>
    cases n.findInput e.targetPort with
    | some port => simp
    | none => cases hf : feedsElement n source e <;> simp [hf, Except.toOption]

/-- The edges into some nodes, each with its node. -/
def edgesInto (g : Graph) (nodes : List Node) : List (Node × Edge) :=
  nodes.flatMap fun n => (g.incoming n.id).map (n, ·)

theorem edgesInto_append (g : Graph) (ns ms : List Node) :
    edgesInto g (ns ++ ms) = edgesInto g ns ++ edgesInto g ms :=
  List.flatMap_append

theorem mem_edgesInto {g : Graph} {nodes : List Node} {n : Node} {e : Edge} :
    (n, e) ∈ edgesInto g nodes ↔ n ∈ nodes ∧ e ∈ g.incoming n.id := by
  simp only [edgesInto, List.mem_flatMap, List.mem_map, Prod.mk.injEq]
  constructor
  · rintro ⟨m, hm, d, hd, rfl, rfl⟩
    exact ⟨hm, hd⟩
  · rintro ⟨hn, he⟩
    exact ⟨n, hn, e, he, rfl, rfl⟩

/-- In an order of nodes, one id stands strictly before another. An id that is missing stands behind
all others. -/
def precedes (order : List Node) (id id' : String) : Bool :=
  (order.map (·.id)).idxOf id < (order.map (·.id)).idxOf id'

/-- An inline edge leads back: its source does not stand before its target. -/
def isBack (g : Graph) (order : List Node) (f : Node × Edge) : Bool :=
  inlines g f && !precedes order f.2.source f.1.id

/-- What stands before a node of an order does not change when nodes are added. -/
theorem precedes_append_of_mem {order : List Node} {id' : String} (h : id' ∈ order.map (·.id))
    (added : List Node) (id : String) :
    precedes (order ++ added) id id' = precedes order id id' := by
  have hlt := List.idxOf_lt_length_of_mem h
  unfold precedes
  rw [List.map_append, List.idxOf_append, List.idxOf_append, if_pos h]
  by_cases hid : id ∈ order.map (·.id)
  · rw [if_pos hid]
  · rw [if_neg hid, List.idxOf_eq_length hid]
    simp only [decide_eq_decide]
    omega

/-- Before an id that is missing stands whatever is not. -/
theorem precedes_of_notMem {order : List Node} {id' : String} (h : id' ∉ order.map (·.id))
    (id : String) : precedes order id id' = decide (id ∈ order.map (·.id)) := by
  rw [precedes, List.idxOf_eq_length h, decide_eq_decide]
  exact List.idxOf_lt_length_iff

/-- What is missing may stay so while nodes are added. -/
theorem precedes_append {order added : List Node} {id id' : String}
    (h : id ∈ order.map (·.id) ∨ id ∉ added.map (·.id))
    (h' : id' ∈ order.map (·.id) ∨ id' ∉ added.map (·.id)) :
    precedes (order ++ added) id id' = precedes order id id' := by
  by_cases hid' : id' ∈ order.map (·.id)
  · exact precedes_append_of_mem hid' added id
  · have hadded : id' ∉ (order ++ added).map (·.id) := by
      rw [List.map_append, List.mem_append, not_or]
      exact ⟨hid', h'.resolve_left hid'⟩
    rw [precedes_of_notMem hid', precedes_of_notMem hadded, decide_eq_decide, List.map_append,
      List.mem_append]
    exact or_iff_left_of_imp fun hid => h.resolve_right (not_not_intro hid)

/-- Before a node that is missing stands what stands in the order, whether it is added or not. -/
theorem precedes_append_self {order : List Node} {n : Node} (hn : n.id ∉ order.map (·.id))
    (id : String) : precedes (order ++ [n]) id n.id = precedes order id n.id := by
  unfold precedes
  rw [List.map_append, List.idxOf_append, List.idxOf_append, if_neg hn, List.idxOf_eq_length hn]
  by_cases hid : id ∈ order.map (·.id)
  · rw [if_pos hid]
    simp
  · rw [if_neg hid, List.idxOf_eq_length hid]
    simp

/-! ### Faults -/

/-- An edge into a node stops a search. -/
inductive EdgeFault (g : Graph) (n : Node) (e : Edge) : Fault → Prop
  /-- The source of the edge is missing. -/
  | source (h : g.node? e.source = none) : EdgeFault g n e (.nodeNotFound e.source (some n.id))
  /-- The edge goes into no input, and it cannot be told whether it goes to an element of one. -/
  | handle (h : (g.node? e.source).isSome) (hp : n.findInput e.targetPort = none)
      (he : e.arrayElement = .error .longNumeral) : EdgeFault g n e .longNumeral

/-- A search from a node stops in a fault. -/
inductive StopsAt (g : Graph) (root : String) : Fault → Prop
  | root (h : g.node? root = none) : StopsAt g root (.nodeNotFound root none)
  | edge {n : Node} {e : Edge} {f : Fault} (hn : n ∈ g.nodeList)
      (hr : ReflTransGen (InlinesFrom g) root n.id) (he : e ∈ g.incoming n.id)
      (hf : EdgeFault g n e f) : StopsAt g root f

/-- Whether an edge feeds an element is unknown only if its handle cannot be read. -/
theorem failsIn_feedsElement (n source : Node) (e : Edge) :
    FailsIn (feedsElement n source e) (e.arrayElement = .error ·) := by
  unfold feedsElement
  rw [FailsIn, yields_bind, yields_iff]
  refine ⟨fun element _ => ?_, fun f hf => hf⟩
  split <;> trivial

/-- What stops a search from the source of an inline edge stops a search from its target. -/
theorem StopsAt.along {g : Graph} {id source : String} {f : Fault} (h : StopsAt g source f)
    (hi : InlinesFrom g id source) (hs : (g.node? source).isSome = true) : StopsAt g id f := by
  cases h with
  | root h =>
    rw [h] at hs
    cases hs
  | edge hn hr he hf => exact .edge hn (.head hi hr) he hf

/-! ### Parts of a search -/

/-- What a search that started from a node does on the way from one subgraph to another, while some
nodes are being visited: the nodes that it adds, the edges that it follows, and the calls that it
makes. -/
structure Traverses (g : Graph) (stack : List String) (start : String) (s s' : Subgraph)
    (added : List Node) (followed : List (Node × Edge)) (calls : List Call) : Prop where
  order_eq : s'.order = s.order ++ added
  breaks_eq : s'.cycleBreaks = s.cycleBreaks + (calls.filterMap Call.warning?).length
  reached : ∀ n ∈ added, n ∈ g.nodeList ∧ ReflTransGen (InlinesFrom g) start n.id
  /-- Nodes are added that were not there and are not being visited. -/
  fresh : ∀ n ∈ added, s.holds n.id = false ∧ n.id ∉ stack
  nodup : (added.map (·.id)).Nodup
  /-- Edges are followed into nodes that have been added or are being visited. -/
  placed : ∀ f ∈ followed, s'.holds f.1.id = true ∨ f.1.id ∈ stack
  /-- So are the sources of the inline edges among them. -/
  closed : ∀ f ∈ followed, inlines g f = true → s'.holds f.2.source = true ∨ f.2.source ∈ stack
  sound : ∀ f ∈ followed, ∀ x, ¬ EdgeFault g f.1 f.2 x
  asked : (calls.filterMap Call.request?).Perm
    ((followed.filter (crosses g)).map fun f => edgeRequest f.2)
  warned : (calls.filterMap Call.warning?).Perm
    ((followed.filter (isBack g s'.order)).map fun f => inlineWarning f.2.source)

theorem Subgraph.holds_iff {s : Subgraph} {id : String} :
    s.holds id = true ↔ id ∈ s.order.map (·.id) := by
  simp [Subgraph.holds]

theorem Subgraph.not_holds_iff {s : Subgraph} {id : String} :
    s.holds id = false ↔ id ∉ s.order.map (·.id) := by
  rw [← s.holds_iff, Bool.not_eq_true]

namespace Traverses

variable {g : Graph} {stack : List String} {start : String} {s s' s'' : Subgraph}
  {added added' : List Node} {followed followed' : List (Node × Edge)} {calls calls' : List Call}

theorem refl : Traverses g stack start s s [] [] [] where
  order_eq := (List.append_nil _).symm
  breaks_eq := rfl
  reached := by simp
  fresh := by simp
  nodup := .nil
  placed := by simp
  closed := by simp
  sound := by simp
  asked := .nil
  warned := .nil

theorem holds (h : Traverses g stack start s s' added followed calls) {id : String}
    (hid : s.holds id = true) : s'.holds id = true := by
  rw [Subgraph.holds_iff, h.order_eq, List.map_append]
  exact List.mem_append_left _ (Subgraph.holds_iff.1 hid)

/-- What is being visited is not added. -/
theorem not_holds (h : Traverses g stack start s s' added followed calls) {id : String}
    (hid : s.holds id = false) (hmem : id ∈ stack) : s'.holds id = false := by
  rw [Subgraph.not_holds_iff, h.order_eq, List.map_append, List.mem_append, not_or]
  refine ⟨Subgraph.not_holds_iff.1 hid, fun hm => ?_⟩
  obtain ⟨n, hn, rfl⟩ := List.mem_map.1 hm
  exact (h.fresh n hn).2 hmem

/-- Whether an edge leads back does not depend on what is added after it has been followed. -/
theorem isBack_eq (h : Traverses g stack start s s' added followed calls) {f : Node × Edge}
    (hn : s.holds f.1.id = true ∨ f.1.id ∈ stack)
    (hs : inlines g f = true → s.holds f.2.source = true ∨ f.2.source ∈ stack) :
    isBack g s'.order f = isBack g s.order f := by
  have hkept {id : String} (hid : s.holds id = true ∨ id ∈ stack) :
      id ∈ s.order.map (·.id) ∨ id ∉ added.map (·.id) := by
    refine hid.imp Subgraph.holds_iff.1 fun hmem hadd => ?_
    obtain ⟨n, hn, rfl⟩ := List.mem_map.1 hadd
    exact (h.fresh n hn).2 hmem
  unfold isBack
  cases hi : inlines g f with
  | false => rfl
  | true => rw [h.order_eq, precedes_append (hkept (hs hi)) (hkept hn)]

theorem of_perm (h : Traverses g stack start s s' added followed calls)
    (hp : followed.Perm followed') : Traverses g stack start s s' added followed' calls where
  order_eq := h.order_eq
  breaks_eq := h.breaks_eq
  reached := h.reached
  fresh := h.fresh
  nodup := h.nodup
  placed f hf := h.placed f (hp.mem_iff.2 hf)
  closed f hf := h.closed f (hp.mem_iff.2 hf)
  sound f hf := h.sound f (hp.mem_iff.2 hf)
  asked := h.asked.trans ((hp.filter _).map _)
  warned := h.warned.trans ((hp.filter _).map _)

theorem trans (h : Traverses g stack start s s' added followed calls)
    (h' : Traverses g stack start s' s'' added' followed' calls') :
    Traverses g stack start s s'' (added ++ added') (followed ++ followed') (calls ++ calls') where
  order_eq := by rw [h'.order_eq, h.order_eq, List.append_assoc]
  breaks_eq := by
    rw [h'.breaks_eq, h.breaks_eq, List.filterMap_append, List.length_append, Nat.add_assoc]
  reached n hn := (List.mem_append.1 hn).elim (h.reached n) (h'.reached n)
  fresh n hn := by
    rcases List.mem_append.1 hn with hn | hn
    · exact h.fresh n hn
    · refine ⟨?_, (h'.fresh n hn).2⟩
      rw [← Bool.not_eq_true]
      intro hheld
      exact Bool.noConfusion ((h'.fresh n hn).1.symm.trans (h.holds hheld))
  nodup := by
    rw [List.map_append]
    refine h.nodup.append h'.nodup fun id hid hid' => ?_
    obtain ⟨n, hn, rfl⟩ := List.mem_map.1 hid'
    have hheld : s'.holds n.id = true := by
      rw [Subgraph.holds_iff, h.order_eq, List.map_append]
      exact List.mem_append_right _ hid
    exact Bool.noConfusion ((h'.fresh n hn).1.symm.trans hheld)
  placed f hf := by
    rcases List.mem_append.1 hf with hf | hf
    · exact (h.placed f hf).imp_left h'.holds
    · exact h'.placed f hf
  closed f hf hi := by
    rcases List.mem_append.1 hf with hf | hf
    · exact (h.closed f hf hi).imp_left h'.holds
    · exact h'.closed f hf hi
  sound f hf := (List.mem_append.1 hf).elim (h.sound f) (h'.sound f)
  asked := by
    rw [List.filterMap_append, List.filter_append, List.map_append]
    exact h.asked.append h'.asked
  warned := by
    have hback : followed.filter (isBack g s''.order) = followed.filter (isBack g s'.order) :=
      List.filter_congr fun f hf => h'.isBack_eq (h.placed f hf) (h.closed f hf)
    rw [List.filterMap_append, List.filter_append, List.map_append, hback]
    exact h.warned.append h'.warned

/-- An edge is followed that leads to no new nodes. -/
theorem of_edge {f : Node × Edge} (hf : f.1.id ∈ stack)
    (hc : inlines g f = true → s'.holds f.2.source = true ∨ f.2.source ∈ stack)
    (hs : ∀ x, ¬ EdgeFault g f.1 f.2 x) (ho : s'.order = s.order)
    (hb : s'.cycleBreaks = s.cycleBreaks + (calls.filterMap Call.warning?).length)
    (ha : calls.filterMap Call.request? = if crosses g f then [edgeRequest f.2] else [])
    (hw : calls.filterMap Call.warning? =
      if isBack g s.order f then [inlineWarning f.2.source] else []) :
    Traverses g stack start s s' [] [f] calls where
  order_eq := by rw [ho, List.append_nil]
  breaks_eq := hb
  reached := by simp
  fresh := by simp
  nodup := .nil
  placed d hd := Or.inr (List.mem_singleton.1 hd ▸ hf)
  closed d hd := List.mem_singleton.1 hd ▸ hc
  sound d hd := List.mem_singleton.1 hd ▸ hs
  asked := by
    rw [ha, List.filter_singleton]
    cases crosses g f <;> exact .rfl
  warned := by
    rw [hw, ho, List.filter_singleton]
    cases isBack g s.order f <;> exact .rfl

/-- A node is added when all edges into it have been followed. -/
theorem close {n : Node} (hn : n ∈ g.nodeList) (hs : s.holds n.id = false) (hstack : n.id ∉ stack)
    (h : Traverses g (n.id :: stack) n.id s s' added
      (edgesInto g added ++ (g.incoming n.id).map (n, ·)) calls) :
    Traverses g stack n.id s { s' with order := s'.order ++ [n] } (added ++ [n])
      (edgesInto g (added ++ [n])) calls := by
  have hself : s'.holds n.id = false := h.not_holds hs List.mem_cons_self
  have hedges : edgesInto g (added ++ [n]) =
      edgesInto g added ++ (g.incoming n.id).map (n, ·) := by
    simp [edgesInto]
  -- What was being visited or held is held now, or else is still being visited.
  have hnow {id : String} (hid : s'.holds id = true ∨ id ∈ n.id :: stack) :
      Subgraph.holds { s' with order := s'.order ++ [n] } id = true ∨ id ∈ stack := by
    show (s'.order ++ [n]).any (·.id == id) = true ∨ id ∈ stack
    rw [List.any_append, Bool.or_eq_true]
    rcases hid with hid | hid
    · exact Or.inl (Or.inl hid)
    · rcases List.mem_cons.1 hid with rfl | hid
      · exact Or.inl (Or.inr (by simp))
      · exact Or.inr hid
  have hback {f : Node × Edge} (hf : f ∈ edgesInto g added ++ (g.incoming n.id).map (n, ·)) :
      isBack g (s'.order ++ [n]) f = isBack g s'.order f := by
    obtain ⟨m, e⟩ := f
    unfold isBack
    rcases List.mem_append.1 hf with hf | hf
    · have hm : m.id ∈ s'.order.map (·.id) := by
        rw [h.order_eq, List.map_append]
        exact List.mem_append_right _ (List.mem_map_of_mem (mem_edgesInto.1 hf).1)
      rw [precedes_append_of_mem hm]
    · obtain ⟨e, -, he⟩ := List.mem_map.1 hf
      obtain ⟨rfl, rfl⟩ := Prod.mk.inj he
      rw [precedes_append_self (Subgraph.not_holds_iff.1 hself)]
  rw [hedges]
  exact {
    order_eq := by
      show s'.order ++ [n] = _
      rw [h.order_eq, List.append_assoc]
    breaks_eq := h.breaks_eq
    reached := by
      intro m hm
      rcases List.mem_append.1 hm with hm | hm
      · exact h.reached m hm
      · obtain rfl := List.mem_singleton.1 hm
        exact ⟨hn, .refl⟩
    fresh := by
      intro m hm
      rcases List.mem_append.1 hm with hm | hm
      · exact ⟨(h.fresh m hm).1, fun hmem => (h.fresh m hm).2 (List.mem_cons_of_mem _ hmem)⟩
      · obtain rfl := List.mem_singleton.1 hm
        exact ⟨hs, hstack⟩
    nodup := by
      rw [List.map_append]
      refine h.nodup.append (List.nodup_singleton _) fun id hid hid' => ?_
      obtain ⟨m, hm, rfl⟩ := List.mem_map.1 hid
      refine (h.fresh m hm).2 ?_
      rw [List.map_singleton, List.mem_singleton] at hid'
      exact hid' ▸ List.mem_cons_self
    placed := fun f hf => hnow (h.placed f hf)
    closed := fun f hf hi => hnow (h.closed f hf hi)
    sound := h.sound
    asked := h.asked
    warned := by
      dsimp only
      rw [List.filter_congr fun f hf => hback hf]
      exact h.warned }

end Traverses

/-! ### Visits -/

/-- What a visit of a node does: it adds nodes until the node is held, or it drops the edge that led to
the node. -/
inductive Visits (g : Graph) (stack : List String) (id : String) (s : Subgraph) :
    Subgraph → List Call → Prop
  | adds {s' : Subgraph} {added : List Node} {calls : List Call}
      (h : Traverses g stack id s s' added (edgesInto g added) calls) (hid : s'.holds id = true)
      (hlast : s.holds id = true ∨ s'.order.getLast?.map (·.id) = some id) : Visits g stack id s s' calls
  | drops (hid : s.holds id = false) (hmem : id ∈ stack) :
      Visits g stack id s { s with cycleBreaks := s.cycleBreaks + 1 } [.warning (inlineWarning id)]

theorem crosses_of_inlines {g : Graph} {f : Node × Edge} (h : inlines g f = true) :
    crosses g f = false := by
  unfold inlines at h
  unfold crosses
  cases hs : g.node? f.2.source <;> cases hp : f.1.findInput f.2.targetPort <;>
    simp_all

/-- An inline edge is followed. -/
theorem Visits.along {g : Graph} {stack : List String} {s s' : Subgraph} {calls : List Call}
    {n : Node} {e : Edge} (h : Visits g stack e.source s s' calls) (hn : n ∈ g.nodeList)
    (he : e ∈ g.incoming n.id) (hi : inlines g (n, e) = true) (hf : ∀ x, ¬ EdgeFault g n e x)
    (hmem : n.id ∈ stack) (hs : s.holds n.id = false) :
    ∃ added, Traverses g stack n.id s s' added (edgesInto g added ++ [(n, e)]) calls := by
  have hstep : InlinesFrom g n.id e.source :=
    ⟨n, e, Graph.mem_nodeList_iff.1 hn, isInlineEdge_iff.2 ⟨he, hi⟩, rfl⟩
  cases h with
  | @adds _ added _ h hid _ =>
    have hahead : precedes s'.order e.source n.id = true := by
      rw [precedes_of_notMem (Subgraph.not_holds_iff.1 (h.not_holds hs hmem)), decide_eq_true_iff]
      exact Subgraph.holds_iff.1 hid
    have hfrom : Traverses g stack n.id s s' added (edgesInto g added) calls :=
      { h with reached := fun m hm => ⟨(h.reached m hm).1, .head hstep (h.reached m hm).2⟩ }
    have hedge : Traverses g stack n.id s' s' [] [(n, e)] [] :=
      .of_edge hmem (fun _ => Or.inl hid) hf rfl rfl (by simp [crosses_of_inlines hi])
        (by simp [isBack, hahead])
    exact ⟨added, by simpa using hfrom.trans hedge⟩
  | drops hid hsource =>
    have hback : isBack g s.order (n, e) = true := by
      simp [isBack, hi, precedes_of_notMem (Subgraph.not_holds_iff.1 hs),
        Subgraph.not_holds_iff.1 hid]
    refine ⟨[], .of_edge hmem (fun _ => Or.inr hsource) hf rfl rfl ?_ ?_⟩
    · simp [crosses_of_inlines hi, Call.request?]
    · simp [hback, Call.warning?]

section Search

variable {g : Graph} {host : Host σ} {stack : List String} {s : Subgraph} {u : σ × List Call}
  {node : Node}

/-- The search made calls and visited a node. -/
def VisitsBy (g : Graph) (stack : List String) (id : String) (s : Subgraph) (u : σ × List Call)
    (s' : Subgraph) (u' : σ × List Call) : Prop :=
  ∃ calls, u'.2 = u.2 ++ calls ∧ Visits g stack id s s' calls

/-- The search made calls and followed edges into a node. -/
def FollowsBy (g : Graph) (stack : List String) (n : Node) (es : List Edge) (s : Subgraph)
    (u : σ × List Call) (s' : Subgraph) (u' : σ × List Call) : Prop :=
  ∃ added calls, u'.2 = u.2 ++ calls ∧
    Traverses g stack n.id s s' added (edgesInto g added ++ es.map (n, ·)) calls

/-- An edge is followed. -/
private theorem ends_follow_logged {visit : String → Subgraph → HostM (σ × List Call) Subgraph}
    {e : Edge} (hh : host.Total)
    (hv : ∀ source ∈ g.nodeList, ∀ s u, Ends (visit source.id s) (VisitsBy g stack source.id s u)
      (fun f _ => StopsAt g source.id f) u)
    (hn : node ∈ g.nodeList) (he : e ∈ g.incoming node.id) (hmem : node.id ∈ stack)
    (hs : s.holds node.id = false) :
    Ends (follow g host.logged visit node e s) (FollowsBy g stack node [e] s u)
      (fun f _ => StopsAt g node.id f) u := by
  unfold follow
  rw [ends_bind, ends_lift, Graph.requireNode]
  cases hsource : g.node? e.source with
  | none => exact .edge hn .refl he (.source hsource)
  | some source =>
    obtain hid : source.id = e.source := g.id_eq hsource
    have hlist : source ∈ g.nodeList := Graph.mem_nodeList_of_node? hsource
    have hvisit (hi : inlines g (node, e) = true) (hf : ∀ x, ¬ EdgeFault g node e x) :
        Ends (visit source.id s) (FollowsBy g stack node [e] s u)
          (fun f _ => StopsAt g node.id f) u := by
      refine (hv source hlist s u).mono ?_ fun f _ hstop => ?_
      · rintro s' u' ⟨calls, hcalls, hvisits⟩
        rw [hid] at hvisits
        obtain ⟨added, h⟩ := hvisits.along hn he hi hf hmem hs
        exact ⟨added, calls, hcalls, h⟩
      · refine hstop.along ⟨node, e, Graph.mem_nodeList_iff.1 hn, isInlineEdge_iff.2 ⟨he, hi⟩, ?_⟩ ?_
        · exact hid.symm
        · rw [hid, hsource]
          rfl
    rw [yields_ok]
    cases hp : node.findInput e.targetPort with
    | none =>
      have hcross : crosses g (node, e) = false := by simp [crosses, hsource, hp]
      dsimp only
      rw [ends_bind, ends_lift]
      cases hr : e.arrayElement with
      | error f =>
        obtain rfl := failsIn_iff.1 (e.failsIn_arrayElement) f hr
        rw [feedsElement, hr]
        exact .edge hn .refl he (.handle (by simp [hsource]) hp hr)
      | ok element =>
        have hf (x : Fault) : ¬ EdgeFault g node e x := by
          rintro (h | ⟨-, -, h⟩)
          · rw [hsource] at h
            cases h
          · rw [hr] at h
            cases h
        obtain ⟨feeds, hfeeds⟩ : ∃ feeds, feedsElement node source e = .ok feeds := by
          cases hfeeds : feedsElement node source e with
          | ok feeds => exact ⟨feeds, rfl⟩
          | error f => cases hr.symm.trans (failsIn_iff.1 (failsIn_feedsElement node source e) f hfeeds)
        have hi : inlines g (node, e) = feeds := by
          simp [inlines, hsource, hp, hfeeds, Except.toOption]
        rw [hfeeds, yields_ok]
        cases feeds with
        | true => exact hvisit hi hf
        | false =>
          refine ⟨[], [], (List.append_nil _).symm, ?_⟩
          exact .of_edge hmem (by simp [hi]) hf rfl rfl (by simp [hcross]) (by simp [isBack, hi])
    | some port =>
      have hf (x : Fault) : ¬ EdgeFault g node e x := by
        rintro (h | ⟨-, h, -⟩)
        · rw [hsource] at h
          cases h
        · rw [hp] at h
          cases h
      have hcross : crosses g (node, e) = isBoundary source e.sourcePort port.type := by
        simp [crosses, hsource, hp]
      have hi : inlines g (node, e) = !isBoundary source e.sourcePort port.type := by
        simp [inlines, hsource, hp]
      dsimp only
      split
      · next hb =>
        rw [hb] at hi hcross
        rw [ends_bind]
        show Ends (noted _ _) _ _ u
        rw [ends_noted]
        refine (hh.texture source e.sourcePort u.1).mono (fun sampler t _ => ?_) fun _ _ => False.elim
        rw [ends_pure]
        refine ⟨[], [.texture source e.sourcePort], rfl, .of_edge hmem ?_ hf rfl rfl ?_ ?_⟩
        · simp [hi]
        · simp [hcross, Call.request?, edgeRequest, hid]
        · simp [isBack, hi, Call.warning?]
      · next hb =>
        rw [Bool.not_eq_true] at hb
        rw [hb] at hi
        exact hvisit hi hf

/-- Edges are followed one after the other. -/
private theorem ends_followAll_logged {visit : String → Subgraph → HostM (σ × List Call) Subgraph}
    {es : List Edge} (hh : host.Total)
    (hv : ∀ source ∈ g.nodeList, ∀ s u, Ends (visit source.id s) (VisitsBy g stack source.id s u)
      (fun f _ => StopsAt g source.id f) u)
    (hn : node ∈ g.nodeList) (he : ∀ e ∈ es, e ∈ g.incoming node.id) (hmem : node.id ∈ stack)
    (hs : s.holds node.id = false) :
    Ends (es.foldlM (fun s e => follow g host.logged visit node e s) s)
      (FollowsBy g stack node es s u) (fun f _ => StopsAt g node.id f) u := by
  induction es generalizing s u with
  | nil => exact ⟨[], [], (List.append_nil _).symm, .refl⟩
  | cons e es ih =>
    rw [List.foldlM_cons, ends_bind]
    refine (ends_follow_logged hh hv hn (he e List.mem_cons_self) hmem hs).mono ?_ fun _ _ => id
    rintro s' u' ⟨added, calls, hcalls, h⟩
    refine (ih (fun d hd => he d (List.mem_cons_of_mem e hd)) (h.not_holds hs hmem)).mono ?_
      fun _ _ => id
    rintro s'' u'' ⟨added', calls', hcalls', h'⟩
    refine ⟨added ++ added', calls ++ calls', by rw [hcalls', hcalls, List.append_assoc], ?_⟩
    refine (h.trans h').of_perm ?_
    rw [edgesInto_append, List.append_assoc, List.append_assoc]
    refine List.Perm.append_left _ ?_
    exact List.perm_append_comm_assoc _ _ _

/-- A visit ends with what it added. The nodes being visited are distinct, so that they are fewer than
the fuel. -/
private theorem ends_visit_logged (hh : host.Total) {fuel : Nat} (hn : node ∈ g.nodeList)
    (hnodup : stack.Nodup) (hsub : stack ⊆ g.nodes.keys) (hfuel : g.size < fuel + stack.length) :
    Ends (visit g host.logged fuel stack node.id s) (VisitsBy g stack node.id s u)
      (fun f _ => StopsAt g node.id f) u := by
  induction fuel generalizing stack node s u with
  | zero =>
    have hle := (List.subperm_of_subset hnodup hsub).length_le
    rw [Keyed.length_keys] at hle
    exact absurd hle (by unfold Graph.size at hfuel; omega)
  | succ fuel ih =>
    unfold visit
    split
    · next hheld =>
      exact ⟨[], (List.append_nil _).symm, .adds .refl hheld (Or.inl hheld)⟩
    · next hheld =>
      rw [Bool.not_eq_true] at hheld
      split
      · next hmem =>
        rw [ends_bind]
        show Ends (noted _ _) _ _ u
        rw [ends_noted]
        refine (hh.warn _ u.1).mono (fun _ t _ => ?_) fun _ _ => False.elim
        exact ⟨_, rfl, .drops hheld hmem⟩
      · next hmem =>
        have hnode : g.requireNode node.id = .ok node := by
          rw [Graph.requireNode, Graph.mem_nodeList_iff.1 hn]
        rw [ends_bind, hnode, ends_lift, yields_ok, ends_bind]
        refine (ends_followAll_logged hh (fun source hsource s u => ih hsource ?_ ?_ ?_) hn
          (fun _ => id) List.mem_cons_self hheld).mono ?_ fun _ _ => id
        · exact List.nodup_cons.2 ⟨hmem, hnodup⟩
        · exact List.cons_subset.2 ⟨Graph.id_mem_keys hn, hsub⟩
        · rw [List.length_cons]
          omega
        · rintro s' u' ⟨added, calls, hcalls, h⟩
          refine ⟨calls, hcalls, .adds (h.close hn hheld hmem) ?_ (Or.inr ?_)⟩
          · simp [Subgraph.holds]
          · simp

end Search

/-! ### Whole searches -/

/-- The order that a search from a node finds, and the calls that it makes on the way. -/
structure Traversal (g : Graph) (root : String) (found : Subgraph) (calls : List Call) : Prop where
  nodes : ∀ n ∈ found.order, n ∈ g.nodeList
  nodup : (found.order.map (·.id)).Nodup
  last : found.order.getLast?.map (·.id) = some root
  /-- The nodes are those that are taken in, directly or through others. -/
  mem_iff : ∀ id, id ∈ found.order.map (·.id) ↔ ReflTransGen (InlinesFrom g) root id
  /-- Every boundary is asked for once. -/
  asked : (calls.filterMap Call.request?).Perm
    (((edgesInto g found.order).filter (crosses g)).map fun f => edgeRequest f.2)
  /-- There is a warning for every edge that leads back. -/
  warned : (calls.filterMap Call.warning?).Perm
    (((edgesInto g found.order).filter (isBack g found.order)).map fun f =>
      inlineWarning f.2.source)
  breaks_eq : found.cycleBreaks = (calls.filterMap Call.warning?).length

variable {g : Graph} {root : String}

/-- A node of the graph stands in the order if its id does. -/
theorem Traversal.mem_of_id {found : Subgraph} {calls : List Call}
    (h : Traversal g root found calls) {n : Node} (hn : n ∈ g.nodeList)
    (hr : ReflTransGen (InlinesFrom g) root n.id) : n ∈ found.order := by
  obtain ⟨m, hm, hid⟩ := List.mem_map.1 ((h.mem_iff n.id).2 hr)
  exact Graph.eq_of_id_eq (h.nodes m hm) hn hid ▸ hm

/-- A visit that drops no edge on the way to its node finds an order, and nothing could have stopped
it. -/
theorem Visits.traversal {found : Subgraph} {calls : List Call}
    (h : Visits g [] root {} found calls) :
    Traversal g root found calls ∧ ∀ f, ¬ StopsAt g root f := by
  cases h with
  | drops _ hmem => cases hmem
  | @adds _ added _ h hid hlast =>
    have horder : found.order = added := h.order_eq
    have hreach {id : String} (hr : ReflTransGen (InlinesFrom g) root id) :
        id ∈ found.order.map (·.id) := by
      induction hr with
      | refl => exact Subgraph.holds_iff.1 hid
      | tail _ hstep ih =>
        obtain ⟨n, e, hn, he, rfl⟩ := hstep
        obtain ⟨m, hm, hmid⟩ := List.mem_map.1 ih
        obtain ⟨hmem, hi⟩ := isInlineEdge_iff.1 he
        have hlist := (h.reached m (horder ▸ hm)).1
        obtain rfl : m = n :=
          Graph.eq_of_id_eq hlist (Graph.mem_nodeList_of_node? hn) (hmid.trans (g.id_eq hn).symm)
        have hf : (m, e) ∈ edgesInto g added := mem_edgesInto.2 ⟨horder ▸ hm, hmem⟩
        exact Subgraph.holds_iff.1 ((h.closed (m, e) hf hi).resolve_right (by simp))
    subst horder
    have ht : Traversal g root found calls := {
      nodes := fun n hn => (h.reached n hn).1
      nodup := h.nodup
      last := hlast.resolve_left (by simp [Subgraph.holds])
      mem_iff := by
        refine fun id => ⟨fun hid => ?_, hreach⟩
        obtain ⟨n, hn, rfl⟩ := List.mem_map.1 hid
        exact (h.reached n hn).2
      asked := h.asked
      warned := h.warned
      breaks_eq := h.breaks_eq.trans (Nat.zero_add _) }
    refine ⟨ht, fun f hf => ?_⟩
    cases hf with
    | root hnone =>
      obtain ⟨n, hn, rfl⟩ := List.mem_map.1 (Subgraph.holds_iff.1 hid)
      cases hnone.symm.trans (Graph.mem_nodeList_iff.1 (ht.nodes n hn))
    | @edge n e _ hn hr he hf =>
      exact h.sound (n, e) (mem_edgesInto.2 ⟨ht.mem_of_id hn hr, he⟩) f hf

/-- One computation is another that also notes down calls. -/
def Projects (x : HostM (σ × List Call) α) (y : HostM σ α) : Prop :=
  ∀ u, y.run u.1 = ((x.run u).1, (x.run u).2.1)

namespace Projects

theorem pure (a : α) : Projects (pure a : HostM (σ × List Call) α) (pure a) :=
  fun _ => rfl

theorem lift (x : Except Fault α) : Projects (liftM x : HostM (σ × List Call) α) (liftM x) := by
  intro u
  cases x <;> rfl

theorem noted (c : Call) (x : HostM σ α) : Projects (noted c x) x :=
  fun _ => rfl

theorem bind {x : HostM (σ × List Call) α} {y : HostM σ α} {f : α → HostM (σ × List Call) β}
    {f' : α → HostM σ β} (h : Projects x y) (hf : ∀ a, Projects (f a) (f' a)) :
    Projects (x >>= f) (y >>= f') := by
  intro u
  have hu := h u
  rw [run_bind, run_bind]
  rcases hx : x.run u with ⟨_ | a, v⟩
  · rw [hu, hx]
  · rw [hu, hx]
    exact hf a v

theorem foldlM {f : β → α → HostM (σ × List Call) β} {f' : β → α → HostM σ β} {l : List α}
    (h : ∀ b, ∀ a ∈ l, Projects (f b a) (f' b a)) (b : β) :
    Projects (l.foldlM f b) (l.foldlM f' b) := by
  induction l generalizing b with
  | nil => exact pure b
  | cons a l ih =>
    rw [List.foldlM_cons, List.foldlM_cons]
    exact (h b a List.mem_cons_self).bind fun c => ih (fun b a ha => h b a (List.mem_cons_of_mem _ ha)) c

end Projects

section Logged

variable (host : Host σ)

theorem projects_follow {visit : String → Subgraph → HostM (σ × List Call) Subgraph}
    {visit' : String → Subgraph → HostM σ Subgraph} (h : ∀ id s, Projects (visit id s) (visit' id s))
    (node : Node) (e : Edge) (s : Subgraph) :
    Projects (follow g host.logged visit node e s) (follow g host visit' node e s) := by
  unfold follow
  refine (Projects.lift _).bind fun source => ?_
  split
  · refine (Projects.lift _).bind fun feeds => ?_
    cases feeds with
    | true => exact h source.id s
    | false => exact .pure s
  · split
    · exact (Projects.noted _ _).bind fun sampler => .pure _
    · exact h source.id s

theorem projects_visit (fuel : Nat) (stack : List String) (id : String) (s : Subgraph) :
    Projects (visit g host.logged fuel stack id s) (visit g host fuel stack id s) := by
  induction fuel generalizing stack id s with
  | zero => exact fun _ => rfl
  | succ fuel ih =>
    unfold visit
    split
    · exact .pure s
    · split
      · exact (Projects.noted _ _).bind fun _ => .pure _
      · refine (Projects.lift _).bind fun node => ?_
        refine (Projects.foldlM (fun s e _ => ?_) s).bind fun s => .pure _
        exact projects_follow host (ih (id :: stack)) node e s

/-- Noting down calls does not change a search. -/
theorem run_collect_logged (u : σ × List Call) :
    (collect g host root).run u.1 =
      (((collect g host.logged root).run u).1, ((collect g host.logged root).run u).2.1) :=
  projects_visit host _ _ _ _ u

end Logged

/-- How a search of a host that answers every call ends: it finds the order of the nodes that are taken
in, or else an edge into one of them stops it. -/
theorem ends_collect_logged (g : Graph) {host : Host σ} (hh : host.Total) (root : String) (s : σ) :
    Ends (collect g host.logged root)
      (fun found u => (collect g host root).run s = (.ok found, u.1) ∧
        (∀ f, ¬ StopsAt g root f) ∧ Traversal g root found u.2)
      (fun f u => (collect g host root).run s = (.error f, u.1) ∧ StopsAt g root f) (s, []) := by
  have hrun : (collect g host root).run s = (((collect g host.logged root).run (s, [])).1,
      ((collect g host.logged root).run (s, [])).2.1) := run_collect_logged host (s, [])
  have hends : Ends (collect g host.logged root) (VisitsBy g [] root {} (s, []))
      (fun f _ => StopsAt g root f) (s, []) := by
    cases hroot : g.node? root with
    | some node =>
      obtain rfl := g.id_eq hroot
      exact ends_visit_logged hh (Graph.mem_nodeList_of_node? hroot) List.nodup_nil (by simp) (by simp)
    | none =>
      unfold collect visit Graph.requireNode
      rw [if_neg (by simp [Subgraph.holds]), if_neg (by simp), hroot]
      exact .root hroot
  rw [ends_iff]
  refine ⟨fun found u hu => ?_, fun f u hu => ?_⟩
  · rw [hu] at hrun
    obtain ⟨calls, hcalls, hvisits⟩ := hends.of_run_ok hu
    rw [List.nil_append] at hcalls
    obtain ⟨htraversal, hsound⟩ := hvisits.traversal
    exact ⟨hrun, hsound, hcalls ▸ htraversal⟩
  · rw [hu] at hrun
    exact ⟨hrun, hends.of_run_error hu⟩

/-! ### A search on a fixed graph -/

/-- A host without a state, which names the textures after their nodes. -/
def namingHost : Host Unit where
  texture source _ := pure source.id
  warn _ := pure ()

theorem total_namingHost : namingHost.Total where
  texture _ _ _ := trivial
  warn _ _ := trivial

/-- Two nodes that feed each other. -/
def ring : Graph :=
  .ofLists
    [{ id := "a", inputs := [.ofId "x" .float], outputs := [.ofId "o" .float] },
      { id := "b", inputs := [.ofId "x" .float], outputs := [.ofId "o" .float] }]
    [{ source := "b", target := "a", sourcePort := some "o", targetPort := some "x" },
      { source := "a", target := "b", sourcePort := some "o", targetPort := some "x" }]

/-- A ring is opened at one edge. -/
theorem ends_collect_logged_ring :
    namingHost.Total ∧ ∃ found u, (collect ring namingHost.logged "a").run ((), []) = (.ok found, u) ∧
      Traversal ring "a" found u.2 := by
  refine ⟨total_namingHost, ?_⟩
  obtain ⟨found, u, hrun⟩ : ∃ found u,
      (collect ring namingHost.logged "a").run ((), []) = (.ok found, u) :=
    exists_run_of_isOk (by decide +kernel)
  have hends := ends_collect_logged ring total_namingHost "a" ()
  exact ⟨found, u, hrun, (hends.of_run_ok hrun).2.2⟩

/-- Two nodes without inputs, with an edge to an element of an input that does not exist. -/
def stray (digits : Nat) : Graph :=
  .ofLists [{ id := "a", outputs := [.ofId "o" .vec4] }, { id := "b", outputs := [.ofId "o" .vec4] }]
    [{ source := "a", target := "b", sourcePort := some "o",
       targetPort := some ("i__" ++ String.ofList (List.replicate digits '1')) }]

private theorem collect_stray {digits : Nat} (h : Numeral.greatestLength < digits) :
    namingHost.Total ∧ (stray digits).contains "b" = true ∧
      (∀ e ∈ (stray digits).edges, (stray digits).contains e.source = true) ∧
      ((collect (stray digits) namingHost "b").run ()).1 = .error .longNumeral := by
  have hends : Ends (collect (stray digits) namingHost "b") (fun _ _ => False)
      (fun f _ => f = .longNumeral) () := by
    unfold collect visit
    rw [if_neg (by decide), if_neg (by decide), ends_bind, ends_lift]
    show Ends (List.foldlM _ _ [_] >>= _) _ _ ()
    rw [List.foldlM_cons, bind_assoc, ends_bind]
    unfold follow
    rw [ends_bind, ends_lift]
    show Ends (liftM (feedsElement _ _ _) >>= _) _ _ ()
    rw [ends_bind, ends_lift]
    unfold feedsElement
    rw [yields_bind]
    show Yields (arrayElement ("i__" ++ String.ofList (List.replicate digits '1'))) _ _
    rw [arrayElement_replicate h]
    exact rfl
  refine ⟨total_namingHost, rfl, ?_, ?_⟩
  · rintro e (_ | ⟨_, ⟨⟩⟩)
    exact rfl
  · rcases hrun : (collect (stray digits) namingHost "b").run () with ⟨f | found, u⟩
    · exact congrArg Except.error (hends.of_run_error hrun)
    · exact (hends.of_run_ok hrun).elim

/-- A search fails though nothing is missing: the index of an edge that leads nowhere is read all the
same. -/
theorem collect_stray_eq_error :
    namingHost.Total ∧ (stray 4301).contains "b" = true ∧
      (∀ e ∈ (stray 4301).edges, (stray 4301).contains e.source = true) ∧
      ((collect (stray 4301) namingHost "b").run ()).1 = .error .longNumeral :=
  collect_stray (by decide)

end Plan

end RenderGraph
