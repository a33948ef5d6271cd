import Mathlib.Data.List.Perm.Subperm
import Mathlib.Logic.Relation
import RenderGraph.Shader.Compound

/-!
# The order of calls inside a compound

A compound calls its nodes in the order in which a search from its output proxies leaves them. A node
is left after the nodes of the scope that feed it, except for those that are still being visited: the
search drops an edge that closes a cycle, and the source of the edge is then left later.

## Main definitions

* `Shader.Feeds`: one node of a scope feeds another
* `Shader.CallSearch.Sound`: what holds of a search while some nodes are being visited

## Main results

* `Shader.CallSearch.Visited`, `Shader.visited_visitCalls`: what a visit does to a search
* `Shader.mem_of_callOrder_split`: what stands before a node in the order of calls
* `Shader.mem_callOrder_of_feeds`: the order of calls holds what feeds its nodes
-/

namespace RenderGraph.Shader

open Relation (TransGen)

variable {scene : Scene} {scope : List Node}

/-- A node of a scope feeds a node: an edge leads from the one to the other. -/
def Feeds (g : Graph) (scope : List Node) (source target : String) : Prop :=
  source ∈ scope.map Node.id ∧ ∃ e ∈ g.incoming target, e.source = source

/-- What holds of a search while some nodes are being visited. -/
structure CallSearch.Sound (g : Graph) (scope : List Node) (stack : List String) (s : CallSearch) :
    Prop where
  mem : ∀ n ∈ s.order, n ∈ scope
  ids_eq : s.order.map Node.id = s.finished.reverse
  /-- What feeds a node stands before it, or it is fed by the node in turn. -/
  earlier : ∀ before n after, s.order = before ++ n :: after → ∀ m, Feeds g scope m n.id →
    m ∈ before.map Node.id ∨ TransGen (Feeds g scope) n.id m
  /-- What feeds a node has been left, or it is being visited. -/
  sources : ∀ n ∈ s.order, ∀ m, Feeds g scope m n.id → m ∈ s.finished ∨ m ∈ stack

namespace CallSearch

variable {g : Graph} {stack : List String} {s s' s'' : CallSearch} {id : String}

theorem sound_empty (g : Graph) (scope : List Node) : Sound g scope [] {} where
  mem := by simp
  ids_eq := rfl
  earlier := by simp
  sources := by simp

theorem Sound.mem_ids (h : s.Sound g scope stack) : id ∈ s.order.map Node.id ↔ id ∈ s.finished := by
  rw [h.ids_eq, List.mem_reverse]

theorem Sound.push (h : s.Sound g scope stack) (id : String) : s.Sound g scope (id :: stack) :=
  { h with sources := fun n hn m hm => (h.sources n hn m hm).imp_right (List.mem_cons_of_mem id) }

/-- A node is left when everything that feeds it has been left or is being visited. -/
theorem Sound.leave {n : Node} (h : s.Sound g scope (n.id :: stack)) (hn : n ∈ scope)
    (hs : ∀ m, Feeds g scope m n.id → m ∈ s.finished ∨ m ∈ n.id :: stack)
    (hpath : ∀ m ∈ stack, TransGen (Feeds g scope) n.id m) :
    Sound g scope stack { finished := n.id :: s.finished, order := s.order ++ [n] } where
  mem := by
    intro m hm
    rcases List.mem_append.1 hm with hm | hm
    · exact h.mem m hm
    · exact List.mem_singleton.1 hm ▸ hn
  ids_eq := by
    rw [List.map_append, h.ids_eq, List.reverse_cons]
    rfl
  earlier := by
    intro before k after hk m hm
    rcases List.eq_nil_or_concat after with rfl | ⟨after, last, rfl⟩
    · obtain ⟨rfl, hkn⟩ := List.append_inj' hk rfl
      obtain rfl : n = k := by simpa using hkn
      rcases hs m hm with hf | hstack
      · exact Or.inl (h.mem_ids.2 hf)
      · rcases List.mem_cons.1 hstack with rfl | hstack
        · exact Or.inr (.single hm)
        · exact Or.inr (hpath m hstack)
    · rw [List.concat_eq_append, ← List.cons_append, ← List.append_assoc] at hk
      exact h.earlier before k after (List.append_inj' hk rfl).1 m hm
  sources := by
    intro k hk m hm
    have hor : m ∈ s.finished ∨ m ∈ n.id :: stack := by
      rcases List.mem_append.1 hk with hk | hk
      · exact h.sources k hk m hm
      · rw [List.mem_singleton.1 hk] at hm
        exact hs m hm
    rw [List.mem_cons] at hor ⊢
    rcases hor with hf | rfl | hstack
    · exact Or.inl (Or.inr hf)
    · exact Or.inl (Or.inl rfl)
    · exact Or.inr hstack

/-- A search goes on, and what it was to visit has been left or is being visited. -/
structure Visited (g : Graph) (scope : List Node) (stack ids : List String) (s s' : CallSearch) :
    Prop where
  sound : s'.Sound g scope stack
  keeps : s.finished ⊆ s'.finished
  found : ∀ id ∈ ids, id ∈ s'.finished ∨ id ∈ stack

theorem Visited.refl (h : s.Sound g scope stack) : Visited g scope stack [] s s :=
  ⟨h, fun _ => id, by simp⟩

theorem Visited.trans {ids ids' : List String} (h : Visited g scope stack ids s s')
    (h' : Visited g scope stack ids' s' s'') : Visited g scope stack (ids ++ ids') s s'' where
  sound := h'.sound
  keeps := fun _ hid => h'.keeps (h.keeps hid)
  found := fun id hid => (List.mem_append.1 hid).elim
    (fun hid => (h.found id hid).imp_left fun hf => h'.keeps hf) (h'.found id)

end CallSearch

open CallSearch (Sound Visited)

variable {stack : List String} {s : CallSearch} {id : String}

private theorem any_iff : scope.any (·.id == id) = true ↔ id ∈ scope.map Node.id := by
  simp only [List.any_eq_true, beq_iff_eq, List.mem_map]

/-- The edges into a node are followed to nodes of the scope only. -/
theorem visited_followAll (visit : String → CallSearch → CallSearch) (es : List Edge)
    (hv : ∀ source ∈ scope.map Node.id, source ∈ es.map Edge.source → ∀ s,
      s.Sound scene.graph scope stack → Visited scene.graph scope stack [source] s (visit source s))
    (h : s.Sound scene.graph scope stack) :
    Visited scene.graph scope stack ((es.map Edge.source).filter (· ∈ scope.map Node.id)) s
      (es.foldl (fun s e => if scope.any (·.id == e.source) then visit e.source s else s) s) := by
  induction es generalizing s with
  | nil => exact .refl h
  | cons e es ih =>
    have hrest : ∀ source ∈ scope.map Node.id, source ∈ es.map Edge.source → ∀ s,
        s.Sound scene.graph scope stack →
          Visited scene.graph scope stack [source] s (visit source s) :=
      fun source hs hm => hv source hs (List.mem_cons_of_mem _ hm)
    rw [List.foldl_cons, List.map_cons]
    by_cases hs : e.source ∈ scope.map Node.id
    · rw [if_pos (any_iff.2 hs), List.filter_cons_of_pos (by simpa using hs)]
      have hfirst := hv e.source hs List.mem_cons_self s h
      exact hfirst.trans (ih hrest hfirst.sound)
    · rw [if_neg (mt any_iff.1 hs), List.filter_cons_of_neg (by simpa using hs)]
      exact ih hrest h

/-- A visit leaves its node, unless the node is being visited. The nodes being visited are distinct, so
that they are fewer than the fuel; each of them is fed by the node. -/
theorem visited_visitCalls {fuel : Nat} (hfuel : scope.length < fuel + stack.length)
    (hnodup : stack.Nodup) (hsub : stack ⊆ scope.map Node.id) (hid : id ∈ scope.map Node.id)
    (hpath : ∀ m ∈ stack, TransGen (Feeds scene.graph scope) id m)
    (h : s.Sound scene.graph scope stack) :
    Visited scene.graph scope stack [id] s (visitCalls scene scope fuel stack id s) := by
  induction fuel generalizing stack id s with
  | zero =>
    have hle := (List.subperm_of_subset hnodup hsub).length_le
    rw [List.length_map] at hle
    omega
  | succ fuel ih =>
    unfold visitCalls
    split
    · next hseen => exact ⟨h, List.Subset.refl _, by simpa using hseen⟩
    · next hseen =>
      obtain ⟨-, hstack⟩ := not_or.1 hseen
      obtain ⟨n, hn⟩ : ∃ n, scope.find? (·.id == id) = some n :=
        Option.isSome_iff_exists.1 (List.find?_isSome.2 (List.any_eq_true.1 (any_iff.2 hid)))
      obtain rfl : n.id = id := by simpa using List.find?_some hn
      have hfollowed := visited_followAll (visitCalls scene scope fuel (n.id :: stack))
        (scene.graph.incoming n.id) (fun source hs hm t ht => ?_) (h.push n.id)
      · rw [hn]
        refine ⟨hfollowed.sound.leave (List.mem_of_find?_eq_some hn) ?_ hpath,
          fun _ hf => List.mem_cons_of_mem _ (hfollowed.keeps hf), by simp⟩
        rintro m ⟨hm, e, he, rfl⟩
        exact hfollowed.found _ (List.mem_filter.2 ⟨List.mem_map_of_mem he, by simpa using hm⟩)
      · obtain ⟨e, he, rfl⟩ := List.mem_map.1 hm
        have hfeeds : Feeds scene.graph scope e.source n.id := ⟨hs, e, he, rfl⟩
        refine ih ?_ (List.nodup_cons.2 ⟨hstack, hnodup⟩) (List.cons_subset.2 ⟨hid, hsub⟩) hs ?_ ht
        · rw [List.length_cons]
          omega
        · exact List.forall_mem_cons.2 ⟨.single hfeeds, fun m hm => .head hfeeds (hpath m hm)⟩

/-- The search for the order of calls is sound when it ends. -/
theorem exists_sound_callOrder (scene : Scene) (scope : List Node) :
    ∃ s : CallSearch, s.order = callOrder scene scope ∧ s.Sound scene.graph scope [] := by
  refine ⟨_, rfl, ?_⟩
  have hall (proxies : List Node) (hp : ∀ p ∈ proxies, p ∈ scope) (s : CallSearch)
      (hs : s.Sound scene.graph scope []) :
      (proxies.foldl (fun s proxy => visitCalls scene scope (scope.length + 1) [] proxy.id s) s).Sound
        scene.graph scope [] := by
    induction proxies generalizing s with
    | nil => exact hs
    | cons p proxies ih =>
      obtain ⟨hmem, hp⟩ := List.forall_mem_cons.1 hp
      refine ih hp _ (visited_visitCalls ?_ List.nodup_nil (List.nil_subset _)
        (List.mem_map_of_mem hmem) (by simp) hs).sound
      simp
  exact hall _ (fun p hp => (List.mem_filter.1 hp).1) {} (CallSearch.sound_empty ..)

theorem mem_of_mem_callOrder {n : Node} (h : n ∈ callOrder scene scope) : n ∈ scope := by
  obtain ⟨s, hs, hsound⟩ := exists_sound_callOrder scene scope
  exact hsound.mem n (hs ▸ h)

/-- What feeds a node stands before it in the order of calls, or it is fed by the node in turn. -/
theorem mem_of_callOrder_split {before after : List Node} {n : Node} {m : String}
    (h : callOrder scene scope = before ++ n :: after) (hm : Feeds scene.graph scope m n.id) :
    m ∈ before.map Node.id ∨ TransGen (Feeds scene.graph scope) n.id m := by
  obtain ⟨s, hs, hsound⟩ := exists_sound_callOrder scene scope
  exact hsound.earlier before n after (hs.trans h) m hm

/-- The order of calls holds what feeds its nodes. -/
theorem mem_callOrder_of_feeds {n : Node} {m : String} (h : n ∈ callOrder scene scope)
    (hm : Feeds scene.graph scope m n.id) : m ∈ (callOrder scene scope).map Node.id := by
  obtain ⟨s, hs, hsound⟩ := exists_sound_callOrder scene scope
  rw [← hs] at h ⊢
  exact hsound.mem_ids.2 ((hsound.sources n h m hm).resolve_right List.not_mem_nil)

end RenderGraph.Shader
