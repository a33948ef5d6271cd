import RenderGraph.Proofs.Typing.Fixpoint

/-!
# What the steps of inference exchange

A step of inference leaves the nodes as they are or exchanges its node for an adjusted one, which
differs from it in its ports and its bound values only. The step of a proxy also exchanges the node
inside which the proxy stands.

The steps of input and of output proxies are the same up to the side: the ports of the proxy take the
types that are wanted of them, and the ports of the same names on the owner take these types too.

## Main definitions

* `Typing.Adjusted`: a node with other ports and values
* `Typing.Meets`, `Typing.collect`: ports that have the types that are wanted, and the types that are
  still missing
* `Typing.Side`: what input and output proxies differ in
* `Typing.Phase`: the three sweeps
* `Typing.Exchange`: all that a step can do where it does anything

## Main results

* `Typing.Side.run_step`: what the step of a proxy does
* `Typing.Phase.step_cases`: what any step does
* `Typing.Exchange.not_idle`: a step does something only if there is something to do
-/

namespace RenderGraph.Typing

variable {g : Graph} {nodes nodes' : Keyed Node} {n m : Node} {s t : State}

/-! ### Adjusted nodes -/

/-- One node has come from another by a change of its ports and its bound values. -/
inductive Adjusted (n : Node) : Node → Prop
  | intro (inputs outputs : List Port) (outputType : DataType) (uniforms : Keyed BoundValue) :
      Adjusted n { n with inputs, outputs, outputType, uniforms }

namespace Adjusted

theorem refl (n : Node) : Adjusted n n :=
  ⟨n.inputs, n.outputs, n.outputType, n.uniforms⟩

theorem trans {k : Node} (h : Adjusted n m) (h' : Adjusted m k) : Adjusted n k := by
  obtain ⟨⟩ := h
  obtain ⟨⟩ := h'
  exact ⟨_, _, _, _⟩

theorem id_eq (h : Adjusted n m) : m.id = n.id := by
  obtain ⟨⟩ := h
  rfl

theorem kind_eq (h : Adjusted n m) : m.kind = n.kind := by
  obtain ⟨⟩ := h
  rfl

theorem scope_eq (h : Adjusted n m) : m.scope = n.scope := by
  obtain ⟨⟩ := h
  rfl

theorem source_eq (h : Adjusted n m) : m.source = n.source := by
  obtain ⟨⟩ := h
  rfl

theorem typed_iff (h : Adjusted n m) : Typed m ↔ Typed n := by
  obtain ⟨⟩ := h
  rfl

end Adjusted

theorem adjusted_of_outcome (h : outcome g nodes n = .ok (some m)) : Adjusted n m := by
  rw [outcome] at h
  split at h
  · obtain ⟨all, -, h⟩ := Fault.bind_eq_ok_iff.1 h
    obtain ⟨r, -, rfl⟩ := exists_of_fit h
    cases choice? g nodes n.id all <;> exact ⟨_, _, _, _⟩
  · cases h

/-! ### Ports that take the types that are wanted -/

/-- The ports have the types that are wanted of them. -/
def Meets (wanted : String → Option DataType) (ports : List Port) : Prop :=
  ∀ p ∈ ports, ∀ t, wanted p.id = some t → p.type = t

instance (wanted : String → Option DataType) (ports : List Port) : Decidable (Meets wanted ports) :=
  decidable_of_iff (∀ p ∈ ports, ∀ t ∈ wanted p.id, p.type = t) Iff.rfl

/-- The types that ports have to take to have those that are wanted. -/
def collect (wanted : String → Option DataType) (ports : List Port) : Keyed DataType :=
  ports.foldl (fun updates port =>
    match wanted port.id with
    | some t => if t = port.type then updates else updates.insert port.id t
    | none => updates) .empty

section Collect

variable {wanted : String → Option DataType} {ports : List Port} {id : String}

/-- What is collected is what is wanted of the ports that have another type. -/
theorem get?_collect (wanted : String → Option DataType) (ports : List Port) (id : String) :
    (collect wanted ports).get? id =
      if ∃ p ∈ ports, p.id = id ∧ wanted id ≠ some p.type then wanted id else none := by
  have hfold (ports : List Port) (updates : Keyed DataType) :
      (ports.foldl (fun updates port =>
        match wanted port.id with
        | some t => if t = port.type then updates else updates.insert port.id t
        | none => updates) updates).get? id =
      if ∃ p ∈ ports, p.id = id ∧ wanted id ≠ some p.type ∧ wanted id ≠ none then wanted id
      else updates.get? id := by
    induction ports generalizing updates with
    | nil => simp
    | cons p ports ih =>
      rw [List.foldl_cons, ih]
      by_cases hrest : ∃ q ∈ ports, q.id = id ∧ wanted id ≠ some q.type ∧ wanted id ≠ none
      · obtain ⟨q, hq, hrest⟩ := hrest
        rw [if_pos ⟨q, hq, hrest⟩, if_pos ⟨q, List.mem_cons_of_mem _ hq, hrest⟩]
      · rw [if_neg hrest]
        simp only [List.exists_mem_cons_iff, hrest, or_false]
        by_cases hp : p.id = id
        · subst hp
          rcases hw : wanted p.id with _ | t
          · simp
          · by_cases ht : t = p.type <;> simp [ht]
        · rcases hw : wanted p.id with _ | t
          · simp [hp]
          · by_cases ht : t = p.type <;> simp [ht, hp, Ne.symm hp]
  rw [collect, hfold]
  rcases hw : wanted id with _ | t <;> simp

theorem collect_eq_empty_iff : (collect wanted ports).size = 0 ↔ Meets wanted ports := by
  rw [Keyed.size_eq_zero_iff]
  simp only [get?_collect]
  constructor
  · intro h p hp t ht
    by_contra hne
    have hp' : ∃ q ∈ ports, q.id = p.id ∧ wanted p.id ≠ some q.type :=
      ⟨p, hp, rfl, by rw [ht]; exact fun heq => hne (Option.some.inj heq).symm⟩
    have hnone := h p.id
    rw [if_pos hp', ht] at hnone
    cases hnone
  · intro h id
    rw [ite_eq_right_iff]
    rintro ⟨p, hp, rfl, hne⟩
    rcases hw : wanted p.id with _ | t
    · rfl
    · exact absurd (h p hp t hw ▸ hw) hne

theorem retype_eq (ports : List Port) (updates : Keyed DataType) :
    retype ports updates = ports.map fun p => { p with type := (updates.get? p.id).getD p.type } := by
  refine List.map_congr_left fun p _ => ?_
  cases updates.get? p.id <;> rfl

/-- Ports that take the types that are wanted have them. -/
theorem meets_retype_collect (wanted : String → Option DataType) (ports : List Port) :
    Meets wanted (retype ports (collect wanted ports)) := by
  intro q hq t ht
  rw [retype_eq] at hq
  obtain ⟨p, hp, rfl⟩ := List.mem_map.1 hq
  dsimp only at ht ⊢
  rw [get?_collect]
  by_cases hne : wanted p.id = some p.type
  · have htype : t = p.type := Option.some.inj (ht.symm.trans hne)
    split
    · rw [ht]
      rfl
    · exact htype.symm
  · rw [if_pos ⟨p, hp, rfl, hne⟩, ht]
    rfl

theorem retype_collect_ne (h : ¬ Meets wanted ports) :
    retype ports (collect wanted ports) ≠ ports := by
  intro heq
  exact h (heq ▸ meets_retype_collect wanted ports)

end Collect

/-! ### Proxies of either side -/

/-- The type that is wanted of an output of a node. -/
def demanded? (g : Graph) (nodes : Keyed Node) (id port : String) : Option DataType :=
  let rank := maxRank 0 ((g.outgoing id (some port)).filterMap (edgeTargetType? nodes))
  if 0 < rank then some (DataType.ofRank rank) else none

/-- The type that arrives at an input of a node. -/
def arriving? (g : Graph) (nodes : Keyed Node) (id port : String) : Option DataType :=
  (g.edgeInto id (some port)).bind (edgeSourceType? nodes)

/-- What a proxy shows: the inputs or the outputs of the node inside which it stands. -/
inductive Side
  | input
  | output
  deriving DecidableEq, Repr

namespace Side

instance {P : Side → Prop} [DecidablePred P] : Decidable (∀ side, P side) :=
  decidable_of_iff (P input ∧ P output) ⟨fun h side => Side.rec h.1 h.2 side, fun h => ⟨h _, h _⟩⟩

/-- The kind of the proxies that show this side. -/
def kind : Side → NodeKind
  | input => .graphInput
  | output => .graphOutput

theorem eq_of_kind {side other : Side} (h : side.kind = other.kind) : side = other := by
  cases side <;> cases other <;> first | rfl | cases h

/-- The ports of a proxy. -/
def ports : Side → Node → List Port
  | input, n => n.outputs
  | output, n => n.inputs

/-- The ports of its owner that a proxy shows. -/
def shown : Side → Node → List Port
  | input, n => n.inputs
  | output, n => n.outputs

/-- The type that is wanted of a port of a proxy. -/
def wanted? : Side → Graph → Keyed Node → String → String → Option DataType
  | input => demanded?
  | output => arriving?

/-- The proxy has nothing to do: its ports have the types that are wanted of them. -/
def Met (side : Side) (g : Graph) (nodes : Keyed Node) (n : Node) : Prop :=
  Meets (side.wanted? g nodes n.id) (side.ports n)

/-- The types that the ports of a proxy have to take. -/
def updates (side : Side) (g : Graph) (nodes : Keyed Node) (n : Node) : Keyed DataType :=
  collect (side.wanted? g nodes n.id) (side.ports n)

/-- The proxy with new types. -/
def retyped (side : Side) (updates : Keyed DataType) (n : Node) : Node :=
  match side with
  | input => { n with outputs := retype n.outputs updates }
  | output => { n with inputs := retype n.inputs updates }

/-- The owner with new types on the side that a proxy shows. -/
def mirrored (side : Side) (updates : Keyed DataType) (c : Node) : Except Fault Node :=
  match side with
  | input => do
    let uniforms ← migrateInputs updates c.inputs c.uniforms
    pure { c with inputs := retype c.inputs updates, uniforms }
  | output =>
    let outputs := retype c.outputs updates
    pure { c with outputs, outputType := (outputs.head?.map (·.type)).getD c.outputType }

/-- The step at a proxy of this side. -/
def step : Side → Graph → Node → TypingM Bool
  | input => inputStep
  | output => outputStep

theorem inputUpdates_eq (g : Graph) (nodes : Keyed Node) (n : Node) :
    inputUpdates g nodes n = input.updates g nodes n := by
  rw [inputUpdates, updates, collect]
  congr 1
  funext updates port
  simp only [demand, wanted?, demanded?]
  by_cases hrank : 0 < maxRank 0 ((g.outgoing n.id (some port.id)).filterMap (edgeTargetType? nodes))
  · simp [hrank]
  · simp [hrank]

/-- The step at a proxy: it and its owner take the types that are wanted of it. -/
theorem run_step (side : Side) (g : Graph) (n : Node) (s : State) :
    (side.step g n).run s =
      if n.kind = side.kind ∧ (side.updates g s.nodes n).size ≠ 0 then
        let nodes := s.nodes.insert n.id (side.retyped (side.updates g s.nodes n) n)
        match owner? nodes n with
        | none => (.ok true, { s with nodes })
        | some c =>
          match side.mirrored (side.updates g s.nodes n) c with
          | .ok c' => (.ok true, { s with nodes := nodes.insert c.id c' })
          | .error f => (.error f, { s with nodes })
      else (.ok false, s) := by
  cases side with
  | input =>
    show (inputStep g n).run s = _
    rw [inputStep, ← inputUpdates_eq]
    by_cases hk : n.kind = .graphInput
    · rw [if_neg (not_not.2 hk), run_bind]
      show (if (inputUpdates g s.nodes n).size = 0 then pure false else _ : TypingM Bool).run s = _
      by_cases hu : (inputUpdates g s.nodes n).size = 0
      · rw [if_pos hu, if_neg fun h => h.2 hu]
        rfl
      · rw [if_neg hu, if_pos ⟨hk, hu⟩, run_bind]
        show (match owner? (s.nodes.insert n.id (input.retyped (inputUpdates g s.nodes n) n)) n with
          | none => _
          | some c => _ : TypingM Bool).run
            { s with nodes := s.nodes.insert n.id (input.retyped (inputUpdates g s.nodes n) n) } = _
        dsimp only
        generalize s.nodes.insert n.id (input.retyped (inputUpdates g s.nodes n) n) = nodes
        cases owner? nodes n with
        | none => rfl
        | some c =>
          dsimp only [mirrored]
          rw [run_bind]
          cases migrateInputs (inputUpdates g s.nodes n) c.inputs c.uniforms <;> rfl
    · rw [if_pos hk, if_neg fun h => hk h.1]
      rfl
  | output =>
    show (outputStep g n).run s = _
    rw [outputStep]
    by_cases hk : n.kind = .graphOutput
    · rw [if_neg (not_not.2 hk), run_bind]
      show (if (outputUpdates g s.nodes n).size = 0 then pure false else _ : TypingM Bool).run s = _
      by_cases hu : (outputUpdates g s.nodes n).size = 0
      · rw [if_pos hu, if_neg fun h => h.2 hu]
        rfl
      · rw [if_neg hu, if_pos ⟨hk, hu⟩, run_bind]
        show (match owner? (s.nodes.insert n.id (output.retyped (output.updates g s.nodes n) n)) n with
          | none => _
          | some c => _ : TypingM Bool).run
            { s with nodes := s.nodes.insert n.id (output.retyped (output.updates g s.nodes n) n) } = _
        dsimp only
        generalize s.nodes.insert n.id (output.retyped (output.updates g s.nodes n) n) = nodes
        cases owner? nodes n <;> rfl
    · rw [if_pos hk, if_neg fun h => hk h.1]
      rfl

theorem size_updates_eq_zero_iff {side : Side} :
    (side.updates g nodes n).size = 0 ↔ side.Met g nodes n :=
  collect_eq_empty_iff

theorem adjusted_retyped (side : Side) (updates : Keyed DataType) (n : Node) :
    Adjusted n (side.retyped updates n) := by
  cases side <;> exact ⟨_, _, _, _⟩

theorem adjusted_of_mirrored {side : Side} {updates : Keyed DataType} {c c' : Node}
    (h : side.mirrored updates c = .ok c') : Adjusted c c' := by
  cases side with
  | input =>
    obtain ⟨uniforms, -, h⟩ := Fault.bind_eq_ok_iff.1 h
    cases h
    exact ⟨_, _, _, _⟩
  | output =>
    cases h
    exact ⟨_, _, _, _⟩

theorem ports_retyped (side : Side) (updates : Keyed DataType) (n : Node) :
    side.ports (side.retyped updates n) = retype (side.ports n) updates := by
  cases side <;> rfl

theorem shown_of_mirrored {side : Side} {updates : Keyed DataType} {c c' : Node}
    (h : side.mirrored updates c = .ok c') : side.shown c' = retype (side.shown c) updates := by
  cases side with
  | input =>
    obtain ⟨uniforms, -, h⟩ := Fault.bind_eq_ok_iff.1 h
    cases h
    rfl
  | output =>
    cases h
    rfl

end Side

/-- The node is a proxy. -/
def IsProxy (n : Node) : Prop :=
  n.kind = .graphInput ∨ n.kind = .graphOutput

instance (n : Node) : Decidable (IsProxy n) :=
  inferInstanceAs (Decidable (_ ∨ _))

theorem isProxy_of_kind {side : Side} (h : n.kind = side.kind) : IsProxy n := by
  cases side with
  | input => exact Or.inl h
  | output => exact Or.inr h

theorem IsProxy.kind_ne (h : IsProxy n) : n.kind ≠ .standard ∧ n.kind ≠ .compound := by
  rcases h with h | h <;> rw [h] <;> exact ⟨nofun, nofun⟩

theorem IsProxy.not_typed (h : IsProxy n) : ¬ Typed n :=
  fun ht => ht.2.elim h.kind_ne.1 h.kind_ne.2

/-- The node with an id is the owner of a proxy. -/
structure OwnedBy (id : String) (p : Node) : Prop where
  proxy : IsProxy p
  scope : p.scope = some id
  /-- The empty scope stands for none. -/
  named : id ≠ ""

instance (id : String) (p : Node) : Decidable (OwnedBy id p) :=
  decidable_of_iff (_ ∧ _ ∧ _)
    ⟨fun ⟨hp, hs, hn⟩ => ⟨hp, hs, hn⟩, fun h => ⟨h.proxy, h.scope, h.named⟩⟩

theorem Adjusted.ownedBy_iff {id : String} (h : Adjusted n m) : OwnedBy id m ↔ OwnedBy id n := by
  obtain ⟨⟩ := h
  exact ⟨fun h => ⟨h.proxy, h.scope, h.named⟩, fun h => ⟨h.proxy, h.scope, h.named⟩⟩

/-! ### Steps -/

/-- The three sweeps: those of the proxies, and between them that of the nodes that are typed
automatically. -/
inductive Phase
  | proxies (side : Side)
  | auto
  deriving DecidableEq, Repr

/-- All that a step can do where it does anything. -/
inductive Exchange (g : Graph) (nodes : Keyed Node) (n : Node) : Phase → Keyed Node → Prop
  /-- A proxy without an owner. -/
  | alone {side : Side} (hk : n.kind = side.kind) (hm : ¬ side.Met g nodes n)
      (ho : owner? (nodes.insert n.id (side.retyped (side.updates g nodes n) n)) n = none) :
      Exchange g nodes n (.proxies side)
        (nodes.insert n.id (side.retyped (side.updates g nodes n) n))
  /-- A proxy and its owner. -/
  | mirrored {side : Side} {c c' : Node} (hk : n.kind = side.kind) (hm : ¬ side.Met g nodes n)
      (ho : owner? (nodes.insert n.id (side.retyped (side.updates g nodes n) n)) n = some c)
      (hc : side.mirrored (side.updates g nodes n) c = .ok c') :
      Exchange g nodes n (.proxies side)
        ((nodes.insert n.id (side.retyped (side.updates g nodes n) n)).insert c.id c')
  /-- A node that is typed automatically. -/
  | fitted {m : Node} (ht : Typed n) (h : outcome g nodes n = .ok (some m)) :
      Exchange g nodes n .auto (nodes.insert n.id m)

namespace Phase

/-- The step of a sweep. -/
def step : Phase → Graph → Node → TypingM Bool
  | proxies side => side.step
  | auto => autoStep

/-- The nodes at which a sweep does something. -/
def Covers : Phase → Node → Prop
  | proxies side, n => n.kind = side.kind
  | auto, n => Typed n

/-- The sweep has nothing to do at the node. -/
def Idle (phase : Phase) (g : Graph) (nodes : Keyed Node) (n : Node) : Prop :=
  match phase with
  | proxies side => n.kind = side.kind → side.Met g nodes n
  | auto => Typed n → outcome g nodes n = .ok none

/-- At most one sweep does something at a node. -/
theorem eq_of_covers {phase phase' : Phase} (h : phase.Covers n) (h' : phase'.Covers n) :
    phase = phase' := by
  rcases phase with side | _ <;> rcases phase' with side' | _
  · rw [Side.eq_of_kind (h.symm.trans h')]
  · exact absurd h' (isProxy_of_kind h).not_typed
  · exact absurd h (isProxy_of_kind h').not_typed
  · rfl

/-- A sweep has nothing to do at the other nodes. -/
theorem idle_of_not_covers {phase : Phase} (h : ¬ phase.Covers n) (g : Graph)
    (nodes : Keyed Node) : phase.Idle g nodes n := by
  cases phase <;> exact fun hc => absurd hc h

/-- A step leaves the nodes as they are if it has nothing to do. -/
theorem exists_run_step_of_idle {phase : Phase} (h : phase.Idle g nodes n) (w : List String) :
    ∃ w', (phase.step g n).run { nodes, warnings := w } = (.ok false, { nodes, warnings := w' }) := by
  cases phase with
  | proxies side =>
    refine ⟨w, ?_⟩
    show (side.step g n).run _ = _
    rw [side.run_step, if_neg]
    exact fun hn => hn.2 (Side.size_updates_eq_zero_iff.2 (h hn.1))
  | auto =>
    by_cases ht : Typed n
    · obtain ⟨w', hrun⟩ := run_autoStep_of_typed ht g { nodes, warnings := w }
      rw [h ht] at hrun
      exact ⟨w', hrun⟩
    · exact ⟨w, run_autoStep_of_not_typed ht g _⟩

/-- A step has nothing to do, or it exchanges its node. -/
theorem step_cases {phase : Phase} {b : Bool} (h : (phase.step g n).run s = (.ok b, t)) :
    (b = false ∧ t.nodes = s.nodes ∧ phase.Idle g s.nodes n) ∨
      (b = true ∧ Exchange g s.nodes n phase t.nodes) := by
  cases phase with
  | proxies side =>
    change (side.step g n).run s = _ at h
    rw [side.run_step] at h
    by_cases hn : n.kind = side.kind ∧ (side.updates g s.nodes n).size ≠ 0
    · rw [if_pos hn] at h
      obtain ⟨hk, hu⟩ := hn
      rw [Ne, Side.size_updates_eq_zero_iff] at hu
      dsimp only at h
      split at h
      · next ho =>
        cases h
        exact Or.inr ⟨rfl, .alone hk hu ho⟩
      · next c ho =>
        split at h
        · next c' hc =>
          cases h
          exact Or.inr ⟨rfl, .mirrored hk hu ho hc⟩
        · cases h
    · rw [if_neg hn] at h
      cases h
      refine Or.inl ⟨rfl, rfl, fun hk => Side.size_updates_eq_zero_iff.1 ?_⟩
      exact of_not_not fun hu => hn ⟨hk, hu⟩
  | auto =>
    change (autoStep g n).run s = _ at h
    by_cases ht : Typed n
    · obtain ⟨warnings, hrun⟩ := run_autoStep_of_typed ht g s
      rw [hrun] at h
      rcases ho : outcome g s.nodes n with f | _ | m <;> rw [ho] at h <;> cases h
      · exact Or.inl ⟨rfl, rfl, fun _ => ho⟩
      · exact Or.inr ⟨rfl, (adjusted_of_outcome ho).id_eq ▸ .fitted ht ho⟩
    · rw [run_autoStep_of_not_typed ht] at h
      cases h
      exact Or.inl ⟨rfl, rfl, fun h => absurd h ht⟩

end Phase

namespace Exchange

variable {phase : Phase}

theorem covers (h : Exchange g nodes n phase nodes') : phase.Covers n := by
  cases h with
  | alone hk => exact hk
  | mirrored hk => exact hk
  | fitted ht => exact ht

theorem not_idle (h : Exchange g nodes n phase nodes') : ¬ phase.Idle g nodes n := by
  intro hi
  cases h with
  | alone hk hm => exact hm (hi hk)
  | mirrored hk hm => exact hm (hi hk)
  | fitted ht hm => cases (hi ht).symm.trans hm

end Exchange

end RenderGraph.Typing
