import RenderGraph.Proofs.Agreement
import RenderGraph.Shader.Body
import RenderGraph.Shader.Uniform

/-!
# Graphs that differ in values only

An edit of values changes what is bound to inputs and the values of globals, and nothing else: two
graphs are variants of each other when they differ at most there. They are twins when also the lengths
of the uniforms that carry the values are the same. How far the capacities of array inputs are the same
is kept apart, since an input may be bound to a value of another type.

## Main definitions

* `Keyed.Match`: maps with the same keys and related values
* `BoundValue.Variant`, `Node.Variant`, `Graph.Variant`
* `BoundValue.Twin`, `Node.Twin`, `Graph.Twin`
* `Graph.Paired`: the nodes of twins that stand for each other

## Main results

* `Graph.Twin.requireNode`, `Graph.Twin.nodeList`, `Graph.Twin.children`: looking up twins
-/

namespace RenderGraph

variable {α β : Type}

/-! ### Lists that are related item by item -/

section Forall₂

variable {R : α → β → Prop} {l : List α} {m : List β}

theorem forall₂_mem (h : List.Forall₂ R l m) :
    List.Forall₂ (fun a b => a ∈ l ∧ b ∈ m ∧ R a b) l m := by
  induction h with
  | nil => exact .nil
  | cons hab _ ih =>
    refine .cons ⟨List.mem_cons_self, List.mem_cons_self, hab⟩ (ih.imp ?_)
    rintro a b ⟨ha, hb, h⟩
    exact ⟨List.mem_cons_of_mem _ ha, List.mem_cons_of_mem _ hb, h⟩

theorem forall₂_filter {p : α → Bool} {q : β → Bool} (h : List.Forall₂ R l m)
    (hpq : ∀ a b, R a b → p a = q b) : List.Forall₂ R (l.filter p) (m.filter q) :=
  List.rel_filter (fun a b hab => by simp [hpq a b hab]) h

theorem forall₂_find? {p : α → Bool} {q : β → Bool} (h : List.Forall₂ R l m)
    (hpq : ∀ a b, R a b → p a = q b) : Option.Rel R (l.find? p) (m.find? q) := by
  induction h with
  | nil => exact .none
  | cons hab _ ih =>
    rw [List.find?_cons, List.find?_cons, hpq _ _ hab]
    split
    · exact .some hab
    · exact ih

theorem map_eq_of_forall₂ {γ : Type} {f : α → γ} {g : β → γ} (h : List.Forall₂ R l m)
    (hfg : ∀ a b, R a b → f a = g b) : l.map f = m.map g := by
  induction h with
  | nil => rfl
  | cons hab _ ih => rw [List.map_cons, List.map_cons, hfg _ _ hab, ih]

theorem any_eq_of_forall₂ {p : α → Bool} {q : β → Bool} (h : List.Forall₂ R l m)
    (hpq : ∀ a b, R a b → p a = q b) : l.any p = m.any q := by
  induction h with
  | nil => rfl
  | cons hab _ ih => rw [List.any_cons, List.any_cons, hpq _ _ hab, ih]

end Forall₂

/-! ### Maps with the same keys -/

namespace Keyed

variable {R R' : String → α → β → Prop} {m : Keyed α} {k : Keyed β} {key : String} {a : α} {b : β}

/-- The maps have the same keys in the same order, and their values are related. -/
def Match (R : String → α → β → Prop) (m : Keyed α) (k : Keyed β) : Prop :=
  List.Forall₂ (fun e d => e.1 = d.1 ∧ R e.1 e.2 d.2) m.entries k.entries

namespace Match

/-- Under a key both maps have a value or none has. -/
theorem get? (h : m.Match R k) (key : String) : Option.Rel (R key) (m.get? key) (k.get? key) := by
  have hf := forall₂_find? (forall₂_mem h) (p := (·.1 == key)) (q := (·.1 == key))
    fun e d hed => by rw [hed.2.2.1]
  unfold Keyed.get?
  generalize hm : m.entries.find? (·.1 == key) = e at hf ⊢
  generalize k.entries.find? (·.1 == key) = d at hf ⊢
  cases hf with
  | none => exact .none
  | some hed =>
    have hkey := List.find?_some hm
    rw [beq_iff_eq] at hkey
    exact .some (hkey ▸ hed.2.2.2)

theorem contains_eq (h : m.Match R k) (key : String) : m.contains key = k.contains key :=
  any_eq_of_forall₂ h fun _ _ hed => by rw [hed.1]

theorem insert (h : m.Match R k) (hab : R key a b) : (m.insert key a).Match R (k.insert key b) := by
  obtain ⟨es, _⟩ := m
  obtain ⟨ds, _⟩ := k
  show List.Forall₂ _ (insertEntry key a es) (insertEntry key b ds)
  change List.Forall₂ _ es ds at h
  induction h with
  | nil => exact .cons ⟨rfl, hab⟩ .nil
  | @cons e d es ds hed hes ih =>
    rw [insertEntry, insertEntry, ← hed.1]
    split
    · exact .cons ⟨rfl, hab⟩ hes
    · exact .cons hed (ih (List.nodup_cons.1 ‹_›).2 (List.nodup_cons.1 ‹_›).2)

/-- A relation may be exchanged for one that follows where both maps have a value. -/
theorem imp (h : m.Match R k)
    (hR : ∀ key a b, m.get? key = some a → k.get? key = some b → R key a b → R' key a b) :
    m.Match R' k := by
  refine (forall₂_mem h).imp ?_
  rintro ⟨key, a⟩ ⟨key', b⟩ ⟨ha, hb, hkey, hab⟩
  obtain rfl : key = key' := hkey
  exact ⟨rfl, hR key a b (mem_entries_iff.1 ha) (mem_entries_iff.1 hb) hab⟩

/-- The values of the first map may be changed. -/
theorem mapWithKey {γ : Type} {R' : String → γ → β → Prop} {f : String → α → γ} (h : m.Match R k)
    (hf : ∀ key a b, R key a b → R' key (f key a) b) : (m.mapWithKey f).Match R' k :=
  List.forall₂_map_left_iff.2 (List.Forall₂.imp (fun _ _ hed => ⟨hed.1, hf _ _ _ hed.2⟩) h)

theorem eq {m k : Keyed α} (h : m.Match (fun _ => Eq) k) : m = k := by
  obtain ⟨es, _⟩ := m
  obtain ⟨ds, _⟩ := k
  have hes : es = ds := List.forall₂_eq_eq_eq ▸ List.Forall₂.imp (fun _ _ hed => Prod.ext hed.1 hed.2) h
  subst hes
  rfl

theorem refl {R : String → α → α → Prop} (m : Keyed α)
    (h : ∀ key a, m.get? key = some a → R key a a) : m.Match R m :=
  List.forall₂_same.2 fun e he => ⟨rfl, h e.1 e.2 (mem_entries_iff.1 he)⟩

end Match

theorem match_empty : (empty : Keyed α).Match R (empty : Keyed β) :=
  .nil

end Keyed

/-! ### Variants -/

/-- The bound values differ at most in the value and in the settings of the widget. -/
structure BoundValue.Variant (b c : BoundValue) : Prop where
  type_eq : c.type = b.type
  widget_eq : c.widget = b.widget

/-- The nodes differ at most in the bound values and in the global value. -/
inductive Node.Variant (n : Node) : Node → Prop
  | mk {uniforms : Keyed BoundValue} (globalValue : Value)
      (h : n.uniforms.Match (fun _ => BoundValue.Variant) uniforms) :
      Node.Variant n { n with uniforms, globalValue }

/-- The graphs differ at most in the bound values and in the global values of their nodes. -/
structure Graph.Variant (g k : Graph) : Prop where
  nodes : g.nodes.Match (fun _ => Node.Variant) k.nodes
  edges_eq : k.edges = g.edges

/-! ### Twins -/

/-- The bound values have the same type, and their uniforms have the same length. -/
structure BoundValue.Twin (fallback : Number) (b c : BoundValue) : Prop where
  type_eq : c.type = b.type
  length_eq : declaredLength b.type (some b) b.value fallback =
    declaredLength c.type (some c) c.value fallback

/-- The nodes differ at most in the bound values, which are twins, and in the global value, whose uniform
has the same length. Under `sized` their array inputs have the same capacities. -/
inductive Node.Twin (fallback : Number) (sized : Prop) (n : Node) : Node → Prop
  | mk {uniforms : Keyed BoundValue} {globalValue : Value}
      (bound : n.uniforms.Match (fun _ => BoundValue.Twin fallback) uniforms)
      (global : n.kind = .globalVar →
        BoundValue.declaredLength n.outputType (n.uniforms.get? "value") n.globalValue fallback =
          BoundValue.declaredLength n.outputType (uniforms.get? "value") globalValue fallback)
      (capacity : sized → ∀ port ∈ n.inputs, port.type.isArray = true →
        Shader.portCapacity port n.uniforms fallback = Shader.portCapacity port uniforms fallback) :
      Node.Twin fallback sized n { n with uniforms, globalValue }

/-- The graphs have the same edges, and their nodes are twins. -/
structure Graph.Twin (config : Config) (sized : Prop) (g k : Graph) : Prop where
  nodes : g.nodes.Match (fun _ => Node.Twin config.defaultArrayLength sized) k.nodes
  edges_eq : k.edges = g.edges

/-- The nodes stand for each other in two graphs. -/
structure Graph.Paired (config : Config) (sized : Prop) (g k : Graph) (n m : Node) : Prop where
  left : n ∈ g.nodeList
  right : m ∈ k.nodeList
  twin : n.Twin config.defaultArrayLength sized m

namespace Graph.Paired

variable {config : Config} {sized : Prop} {g k : Graph} {n m : Node}

theorem id_eq (h : Paired config sized g k n m) : m.id = n.id := by
  obtain ⟨-, -, ⟨-, -, -⟩⟩ := h
  rfl

theorem kind_eq (h : Paired config sized g k n m) : m.kind = n.kind := by
  obtain ⟨-, -, ⟨-, -, -⟩⟩ := h
  rfl

theorem inputs_eq (h : Paired config sized g k n m) : m.inputs = n.inputs := by
  obtain ⟨-, -, ⟨-, -, -⟩⟩ := h
  rfl

theorem outputs_eq (h : Paired config sized g k n m) : m.outputs = n.outputs := by
  obtain ⟨-, -, ⟨-, -, -⟩⟩ := h
  rfl

theorem title_eq (h : Paired config sized g k n m) : m.title = n.title := by
  obtain ⟨-, -, ⟨-, -, -⟩⟩ := h
  rfl

theorem uniformName_eq (h : Paired config sized g k n m) (port : String) :
    m.uniformName port = n.uniformName port := by
  obtain ⟨-, -, ⟨-, -, -⟩⟩ := h
  rfl

theorem uniforms (h : Paired config sized g k n m) :
    n.uniforms.Match (fun _ => BoundValue.Twin config.defaultArrayLength) m.uniforms := by
  obtain ⟨-, -, ⟨bound, -, -⟩⟩ := h
  exact bound

/-- A value of a type is bound to an input of both nodes or of none. -/
theorem any_type_eq (h : Paired config sized g k n m) (key : String) (t : DataType) :
    (m.uniforms.get? key).any (·.type = t) = (n.uniforms.get? key).any (·.type = t) := by
  have hrel := h.uniforms.get? key
  generalize n.uniforms.get? key = b at hrel ⊢
  generalize m.uniforms.get? key = c at hrel ⊢
  cases hrel with
  | none => rfl
  | some hbc => rw [Option.any_some, Option.any_some, hbc.type_eq]

end Graph.Paired

namespace Graph.Twin

variable {config : Config} {sized : Prop} {g k : Graph}

theorem refl (g : Graph) : g.Twin config sized g where
  nodes := Keyed.Match.refl _ fun _ n _ =>
    .mk (Keyed.Match.refl n.uniforms fun _ _ _ => ⟨rfl, rfl⟩) (fun _ => rfl) fun _ _ _ _ => rfl
  edges_eq := rfl

theorem size_eq (h : g.Twin config sized k) : k.size = g.size :=
  (List.Forall₂.length_eq h.nodes).symm

theorem nodeList (h : g.Twin config sized k) :
    List.Forall₂ (Paired config sized g k) g.nodeList k.nodeList := by
  have hmap : List.Forall₂ (Node.Twin config.defaultArrayLength sized) g.nodeList k.nodeList :=
    List.rel_map (fun _ _ hed => hed.2) h.nodes
  exact (forall₂_mem hmap).imp fun n m ⟨hn, hm, hnm⟩ => ⟨hn, hm, hnm⟩

/-- The nodes of twins are found under the same ids. -/
theorem node? (h : g.Twin config sized k) (id : String) :
    Option.Rel (Paired config sized g k) (g.node? id) (k.node? id) := by
  have hrel := h.nodes.get? id
  show Option.Rel _ (g.nodes.get? id) (k.nodes.get? id)
  generalize hn : g.nodes.get? id = n at hrel ⊢
  generalize hm : k.nodes.get? id = m at hrel ⊢
  cases hrel with
  | none => exact .none
  | some hnm => exact .some ⟨mem_nodeList_of_node? hn, mem_nodeList_of_node? hm, hnm⟩

theorem requireNode (h : g.Twin config sized k) (id : String) (referrer : Option String) :
    Agree (Paired config sized g k) (g.requireNode id referrer) (k.requireNode id referrer) := by
  have hrel := h.node? id
  unfold Graph.requireNode
  generalize g.node? id = n at hrel ⊢
  generalize k.node? id = m at hrel ⊢
  cases hrel with
  | none => exact .fault _
  | some hnm => exact .ok hnm

theorem children (h : g.Twin config sized k) (scope : Option String) :
    List.Forall₂ (Paired config sized g k) (g.children scope) (k.children scope) := by
  refine forall₂_filter h.nodeList ?_
  rintro n _ ⟨-, -, ⟨-, -, -⟩⟩
  rfl

theorem incoming_eq (h : g.Twin config sized k) (id : String) : k.incoming id = g.incoming id := by
  rw [Graph.incoming, Graph.incoming, h.edges_eq]

theorem edgeInto_eq (h : g.Twin config sized k) (id : String) (port : Option String) :
    k.edgeInto id port = g.edgeInto id port := by
  rw [Graph.edgeInto, Graph.edgeInto, h.edges_eq]

end Graph.Twin

end RenderGraph
