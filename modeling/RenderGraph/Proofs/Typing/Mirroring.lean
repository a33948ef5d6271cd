import RenderGraph.Proofs.Typing.Changes

/-!
# Compounds and their proxies keep the same types

A compound shows outside what its proxies show inside: ports of one name have one type on both, and a
value that is bound to an input has the type of that input. Inference changes a proxy and its compound
one after the other, in steps between which other nodes are changed. Each step takes both along, so the
types stay the same on both.

The proxy finds its compound by its scope, and the empty scope stands for none. So a compound with the
empty id is left behind when its proxies change.

## Main definitions

* `Typing.Mirrored`: a compound has the types of its proxies and of its values
* `Typing.WellNested`: compounds that have their types from their proxies only

## Main results

* `Typing.type_of_migrateInputs`: the values of a compound follow its inputs
* `Typing.Reflects.exchange`, `Typing.Steps.reflects`: one step and all steps
* `Typing.mirrored_of_run`: compounds stay mirrored
* `Typing.unnamed_compound_left`: one without a name does not
-/

namespace RenderGraph.Typing

variable {g : Graph} {nodes nodes' : Keyed Node} {n m : Node} {id : String} {phase : Phase} {b : Bool}
  {done : List (Phase × String)}

/-! ### Ports and values of the same types -/

/-- Ports of the same name have the same type. -/
def Agree (ps qs : List Port) : Prop :=
  ∀ p ∈ ps, ∀ q ∈ qs, p.id = q.id → p.type = q.type

instance (ps qs : List Port) : Decidable (Agree ps qs) :=
  inferInstanceAs (Decidable (∀ p ∈ ps, ∀ q ∈ qs, _ → _))

/-- Ports agree after they have taken the same types. -/
theorem Agree.retype {ps qs : List Port} (h : Agree ps qs) (updates : Keyed DataType) :
    Agree (retype ps updates) (retype qs updates) := by
  intro p' hp' q' hq' hid
  rw [retype_eq] at hp' hq'
  obtain ⟨p, hp, rfl⟩ := List.mem_map.1 hp'
  obtain ⟨q, hq, rfl⟩ := List.mem_map.1 hq'
  have hpq : p.id = q.id := hid
  dsimp only
  rw [h p hp q hq hpq, hpq]

/-- The values that are bound to inputs have the types of these. -/
def ValuesTyped (inputs : List Port) (uniforms : Keyed BoundValue) : Prop :=
  ∀ port ∈ inputs, ∀ b ∈ uniforms.get? port.id, b.type = port.type

instance (inputs : List Port) (uniforms : Keyed BoundValue) :
    Decidable (ValuesTyped inputs uniforms) :=
  inferInstanceAs (Decidable (∀ port ∈ inputs, ∀ b ∈ uniforms.get? port.id, _))

/-- The value of one input is migrated if its type changes. -/
private def migrateInput (updates : Keyed DataType) (uniforms : Keyed BoundValue) (port : Port) :
    Except Fault (Keyed BoundValue) :=
  match updates.get? port.id with
  | some t =>
    if t = port.type then pure uniforms
    else do
      let bound ← BoundValue.migrate (uniforms.get? port.id) t
      pure (uniforms.insert port.id bound)
  | none => pure uniforms

private theorem migrateInput_spec {updates : Keyed DataType} {uniforms r : Keyed BoundValue}
    {port : Port} (hv : ∀ b ∈ uniforms.get? port.id, b.type = port.type)
    (h : migrateInput updates uniforms port = .ok r) :
    (∀ b ∈ r.get? port.id, b.type = (updates.get? port.id).getD port.type) ∧
      ∀ id ≠ port.id, r.get? id = uniforms.get? id := by
  rw [migrateInput] at h
  split at h
  · next t ht =>
    rw [ht]
    split at h
    · next heq =>
      cases h
      rw [heq]
      exact ⟨hv, fun _ _ => rfl⟩
    · obtain ⟨bound, hbound, h⟩ := Fault.bind_eq_ok_iff.1 h
      cases h
      refine ⟨fun b hb => ?_, fun id hid => ?_⟩
      · rw [Keyed.get?_insert, if_pos rfl] at hb
        cases hb
        have hc := BoundValue.conforms_of_migrate hbound
        rw [BoundValue.conforms, Bool.and_eq_true, decide_eq_true_eq] at hc
        exact hc.1
      · rw [Keyed.get?_insert, if_neg hid]
  · next ht =>
    cases h
    rw [ht]
    exact ⟨hv, fun _ _ => rfl⟩

private theorem migrateInputs_spec {updates : Keyed DataType} {inputs : List Port}
    {uniforms r : Keyed BoundValue} (hd : (inputs.map (·.id)).Nodup) (hv : ValuesTyped inputs uniforms)
    (h : inputs.foldlM (migrateInput updates) uniforms = .ok r) :
    (∀ port ∈ inputs, ∀ b ∈ r.get? port.id, b.type = (updates.get? port.id).getD port.type) ∧
      ∀ id ∉ inputs.map (·.id), r.get? id = uniforms.get? id := by
  induction inputs generalizing uniforms with
  | nil =>
    cases h
    exact ⟨fun _ hport => absurd hport List.not_mem_nil, fun _ _ => rfl⟩
  | cons port inputs ih =>
    rw [List.foldlM_cons] at h
    obtain ⟨next, hnext, h⟩ := Fault.bind_eq_ok_iff.1 h
    rw [List.map_cons, List.nodup_cons] at hd
    obtain ⟨hport, hother⟩ := migrateInput_spec (hv port List.mem_cons_self) hnext
    have hrest : ValuesTyped inputs next := by
      intro p hp b hb
      have hne : p.id ≠ port.id := fun heq => hd.1 (heq ▸ List.mem_map_of_mem hp)
      rw [hother p.id hne] at hb
      exact hv p (List.mem_cons_of_mem _ hp) b hb
    obtain ⟨htypes, hkept⟩ := ih hd.2 hrest h
    refine ⟨fun p hp => ?_, fun id hid => ?_⟩
    · rcases List.mem_cons.1 hp with rfl | hp
      · rw [hkept p.id hd.1]
        exact hport
      · exact htypes p hp
    · rw [List.map_cons, List.mem_cons, not_or] at hid
      rw [hkept id hid.2, hother id hid.1]

/-- The values of a compound follow its inputs. -/
theorem type_of_migrateInputs {updates : Keyed DataType} {inputs : List Port}
    {uniforms r : Keyed BoundValue} (hd : (inputs.map (·.id)).Nodup) (hv : ValuesTyped inputs uniforms)
    (h : migrateInputs updates inputs uniforms = .ok r) : ValuesTyped (retype inputs updates) r := by
  intro p' hp' b hb
  rw [retype_eq] at hp'
  obtain ⟨p, hp, rfl⟩ := List.mem_map.1 hp'
  exact (migrateInputs_spec hd hv h).1 p hp b hb

/-! ### Compounds and proxies -/

/-- A compound has the types of its proxies and of the values that are bound to its inputs. -/
structure Mirrored (nodes : List Node) (c : Node) : Prop where
  agree : ∀ side : Side, ∀ p ∈ nodes, p.kind = side.kind → p.scope = some c.id →
    Agree (side.shown c) (side.ports p)
  values : ValuesTyped c.inputs c.uniforms

instance (nodes : List Node) (c : Node) : Decidable (Mirrored nodes c) :=
  decidable_of_iff (_ ∧ _) ⟨fun h => ⟨h.1, h.2⟩, fun h => ⟨h.agree, h.values⟩⟩

/-- Compounds have their types from their proxies only. -/
structure WellNested (g : Graph) : Prop where
  housed : Housed g
  fixed : ∀ c ∈ g.nodeList, c.kind = .compound → ¬ Typed c
  /-- A compound has at most one proxy on each side. -/
  single : ∀ c ∈ g.nodeList, c.kind = .compound → ∀ p ∈ g.nodeList, ∀ q ∈ g.nodeList,
    IsProxy p → q.kind = p.kind → p.scope = some c.id → q.scope = some c.id → p.id = q.id
  distinct : ∀ c ∈ g.nodeList, c.kind = .compound → (c.inputs.map (·.id)).Nodup

instance (g : Graph) : Decidable (WellNested g) :=
  decidable_of_iff (_ ∧ _ ∧ _ ∧ _)
    ⟨fun ⟨hh, hf, hs, hd⟩ => ⟨hh, hf, hs, hd⟩, fun h => ⟨h.housed, h.fixed, h.single, h.distinct⟩⟩

/-- The compounds that a scope can name are mirrored, and their inputs have distinct names. -/
def Reflects (nodes : Keyed Node) : Prop :=
  ∀ {id : String} {c : Node}, nodes.get? id = some c → c.kind = .compound → id ≠ "" →
    Mirrored nodes.values c ∧ (c.inputs.map (·.id)).Nodup

/-- A change on one side of a compound leaves the other side as it is. -/
theorem Side.shown_of_mirrored_ne {side other : Side} {updates : Keyed DataType} {c c' : Node}
    (h : side.mirrored updates c = .ok c') (hne : other ≠ side) : other.shown c' = other.shown c := by
  rcases side with _ | _ <;> rcases other with _ | _
  · exact absurd rfl hne
  · obtain ⟨uniforms, -, h⟩ := Fault.bind_eq_ok_iff.1 h
    cases h
    rfl
  · cases h
    rfl
  · exact absurd rfl hne

/-- A compound takes its values along. -/
theorem Side.valuesTyped_of_mirrored {side : Side} {updates : Keyed DataType} {c c' : Node}
    (h : side.mirrored updates c = .ok c') (hd : (c.inputs.map (·.id)).Nodup)
    (hv : ValuesTyped c.inputs c.uniforms) :
    ValuesTyped c'.inputs c'.uniforms ∧ (c'.inputs.map (·.id)).Nodup := by
  cases side with
  | input =>
    obtain ⟨uniforms, hu, h⟩ := Fault.bind_eq_ok_iff.1 h
    cases h
    refine ⟨type_of_migrateInputs hd hv hu, ?_⟩
    rwa [map_id_retype]
  | output =>
    cases h
    exact ⟨hv, hd⟩

/-- At most one proxy of each kind stands inside a compound. -/
theorem WellNested.id_unique {c p q : Node} {side : Side} (hg : WellNested g) (hk : Kept g nodes)
    (hc : nodes.get? c.id = some c) (hckind : c.kind = .compound) (hp : nodes.get? p.id = some p)
    (hq : nodes.get? q.id = some q) (hpkind : p.kind = side.kind) (hqkind : q.kind = side.kind)
    (hpscope : p.scope = some c.id) (hqscope : q.scope = some c.id) : p.id = q.id := by
  obtain ⟨p₀, hp₀, hap⟩ := hk.adjusted hp
  obtain ⟨q₀, hq₀, haq⟩ := hk.adjusted hq
  obtain ⟨c₀, hc₀, hac⟩ := hk.adjusted hc
  rw [hap.kind_eq] at hpkind
  rw [haq.kind_eq] at hqkind
  rw [hap.scope_eq, hac.id_eq] at hpscope
  rw [haq.scope_eq, hac.id_eq] at hqscope
  rw [hap.id_eq, haq.id_eq]
  exact hg.single c₀ (Graph.mem_nodeList_of_node? hc₀) (hac.kind_eq.symm.trans hckind) p₀
    (Graph.mem_nodeList_of_node? hp₀) q₀ (Graph.mem_nodeList_of_node? hq₀) (isProxy_of_kind hpkind)
    (hqkind.trans hpkind.symm) hpscope hqscope

section Exchange

variable (hg : WellNested g) (hk : Kept g nodes) (hn : nodes.get? n.id = some n)
  (he : Exchange g nodes n phase nodes')
include hg hk hn he

/-- The step of a compound does nothing. -/
theorem WellNested.ne_of_exchange {c : Node} (hc : nodes.get? id = some c)
    (hkind : c.kind = .compound) : id ≠ n.id := by
  rintro rfl
  cases hn.symm.trans hc
  obtain ⟨k, hgk, ha⟩ := hk.adjusted hn
  cases phase with
  | proxies side => exact (isProxy_of_kind he.covers).kind_ne.2 hkind
  | auto =>
    refine hg.fixed k (Graph.mem_nodeList_of_node? hgk) (ha.kind_eq.symm.trans hkind) ?_
    exact ha.typed_iff.1 he.covers

/-- Proxies at which no step was taken are as they were. -/
theorem WellNested.get?_proxy_of_exchange (hid : id ≠ n.id) (hm : nodes'.get? id = some m)
    (hp : IsProxy m) : nodes.get? id = some m := by
  obtain ⟨k, hk₀, hkm⟩ := (hk.exchange hn he).adjusted hm
  obtain ⟨m₀, hm₀, hkm₀⟩ := hk.exists_adjusted hk₀
  have hp₀ : IsProxy m₀ := by rwa [IsProxy, hkm₀.kind_eq, ← hkm.kind_eq]
  rw [← hm, hg.housed.get?_proxy hk hn he hid hm₀ hp₀, hm₀]

/-- A compound that does not own the node of a step stays mirrored: its proxies are kept too. -/
theorem Mirrored.of_not_ownedBy {c : Node} (h : Mirrored nodes.values c) (hid : c.id ≠ "")
    (hown : ¬ OwnedBy c.id n) : Mirrored nodes'.values c where
  agree := by
    intro side p hp hkind hscope
    have hproxy : OwnedBy c.id p := ⟨isProxy_of_kind hkind, hscope, hid⟩
    obtain ⟨id, hp⟩ := Keyed.exists_get?_of_mem_values hp
    have hne : id ≠ n.id := by
      rintro rfl
      obtain ⟨k, hk₀, hkp⟩ := (hk.exchange hn he).adjusted hp
      obtain ⟨m, hm, hkm⟩ := hk.exists_adjusted hk₀
      cases hn.symm.trans hm
      exact hown (hkm.ownedBy_iff.2 (hkp.ownedBy_iff.1 hproxy))
    have hold := hg.get?_proxy_of_exchange hk hn he hne hp hproxy.proxy
    exact h.agree side p (Keyed.mem_values_of_get? hold) hkind hscope
  values := h.values

/-- The owner of the proxy of a step stays mirrored: both take the same types. -/
theorem Mirrored.of_ownedBy {c c' : Node} (h : Mirrored nodes.values c)
    (hd : (c.inputs.map (·.id)).Nodup) (hc : nodes.get? c.id = some c) (hown : OwnedBy c.id n)
    (hc' : nodes'.get? c.id = some c') :
    Mirrored nodes'.values c' ∧ (c'.inputs.map (·.id)).Nodup := by
  have hkind : c.kind = .compound := hg.housed.kind_eq hk hn hc hown
  have hne : c.id ≠ n.id := hg.ne_of_exchange hk hn he hc hkind
  have hframe {id : String} {m : Node} (hid : id ≠ n.id) (hm : nodes'.get? id = some m)
      (hp : IsProxy m) : nodes.get? id = some m :=
    hg.get?_proxy_of_exchange hk hn he hid hm hp
  have hget {m : Node} : owner? (nodes.insert n.id m) n = some c := by
    refine owner?_eq_some_iff.2 ⟨c.id, hown.scope, hown.named, ?_⟩
    rw [Keyed.get?_insert, if_neg hne, hc]
  cases he with
  | alone _ _ ho => cases ho.symm.trans hget
  | fitted ht => exact absurd ht hown.proxy.not_typed
  | @mirrored side d d' hside hm ho hd' =>
    cases ho.symm.trans hget
    rw [Keyed.get?_insert, if_pos rfl] at hc'
    cases hc'
    obtain ⟨hvalues, hnodup⟩ := Side.valuesTyped_of_mirrored hd' hd h.values
    refine ⟨⟨fun other p hp hother hscope => ?_, hvalues⟩, hnodup⟩
    rw [(Side.adjusted_of_mirrored hd').id_eq] at hscope
    obtain ⟨id, hp⟩ := Keyed.exists_get?_of_mem_values hp
    by_cases hid : id = n.id
    · -- The proxy of the step.
      subst hid
      rw [Keyed.get?_insert, if_neg hne.symm, Keyed.get?_insert, if_pos rfl] at hp
      cases hp
      rw [(side.adjusted_retyped _ n).kind_eq] at hother
      cases Side.eq_of_kind (hother.symm.trans hside)
      rw [Side.shown_of_mirrored hd', Side.ports_retyped]
      exact (h.agree side n (Keyed.mem_values_of_get? hn) hside hown.scope).retype _
    · -- A proxy of the other side.
      have hold := hframe hid hp (isProxy_of_kind hother)
      have hpid : p.id = id := hk.id_eq hold
      have hsides : other ≠ side := by
        rintro rfl
        refine hid (hpid.symm.trans ?_)
        exact hg.id_unique hk hc hkind (hpid.symm ▸ hold) hn hother hside hscope hown.scope
      rw [Side.shown_of_mirrored_ne hd' hsides]
      exact h.agree other p (Keyed.mem_values_of_get? hold) hother hscope

/-- A step keeps compounds mirrored. -/
theorem Reflects.exchange (h : Reflects nodes) : Reflects nodes' := by
  intro id c' hc' hkind hid
  obtain ⟨k, hgk, hkc'⟩ := (hk.exchange hn he).adjusted hc'
  obtain ⟨c, hc, hkc⟩ := hk.exists_adjusted hgk
  obtain rfl : c.id = id := hk.id_eq hc
  have hckind : c.kind = .compound := by rw [hkc.kind_eq, ← hkc'.kind_eq, hkind]
  obtain ⟨hm, hd⟩ := h hc hckind hid
  by_cases hown : OwnedBy c.id n
  · exact hm.of_ownedBy hg hk hn he hd hc hown hc'
  · rw [hk.get?_of_exchange hn he (hg.ne_of_exchange hk hn he hc hckind) hown, hc] at hc'
    cases hc'
    exact ⟨hm.of_not_ownedBy hg hk hn he hid hown, hd⟩

end Exchange

/-- The steps of inference keep compounds mirrored. -/
theorem Steps.reflects (hg : WellNested g) (h : Steps g done b nodes) (hr : Reflects g.nodes) :
    Reflects nodes := by
  induction h with
  | start => exact hr
  | idle _ _ _ ih => exact ih
  | exchange h hn he ih => exact Reflects.exchange hg h.kept hn he ih

/-- No step changes a compound that no scope can name. -/
theorem Steps.get?_unnamed {c : Node} (hg : WellNested g) (h : Steps g done b nodes)
    (hc : g.nodes.get? "" = some c) (hkind : c.kind = .compound) : nodes.get? "" = some c := by
  induction h with
  | start => exact hc
  | idle _ _ _ ih => exact ih
  | exchange h hn he ih =>
    rw [h.kept.get?_of_exchange hn he (hg.ne_of_exchange h.kept hn he ih hkind) fun ho => ho.named rfl]
    exact ih

/-- After inference, compounds have the types of their proxies and of their values if they had them
before, except that one with the empty id is left as it was. -/
theorem mirrored_of_run {g' : Graph} (hg : WellNested g)
    (hm : ∀ c ∈ g.nodeList, c.kind = .compound → Mirrored g.nodeList c)
    (h : (run g).1 = .ok (some g')) :
    ∀ c ∈ g'.nodeList, c.kind = .compound →
      (c.id ≠ "" → Mirrored g'.nodeList c) ∧ (c.id = "" → c ∈ g.nodeList) := by
  obtain ⟨hsteps, -⟩ := steps_of_round h
  intro c hc hkind
  have hget : g'.nodes.get? c.id = some c := Graph.mem_nodeList_iff.1 hc
  constructor
  · intro hid
    have hreflects : Reflects g.nodes := by
      intro id k hk hkind _
      have hmem := Graph.mem_nodeList_of_node? hk
      exact ⟨hm k hmem hkind, hg.distinct k hmem hkind⟩
    exact (hsteps.reflects hg hreflects hget hkind hid).1
  · intro hid
    obtain ⟨k, hk, hkc⟩ := hsteps.kept.adjusted hget
    rw [hid] at hk hget
    cases hget.symm.trans (hsteps.get?_unnamed hg hk (hkc.kind_eq.symm.trans hkind))
    exact Graph.mem_nodeList_of_node? hk

/-- The compound takes the types of the node inside together with its proxies and its value. -/
theorem mirrored_of_run_nest : WellNested nest ∧
    (∀ c ∈ nest.nodeList, c.kind = .compound → Mirrored nest.nodeList c) ∧
    ∃ g', (run nest).1 = .ok (some g') ∧ ∃ c ∈ g'.nodeList, c.kind = .compound ∧
      c.inputs.map (·.type) = [.vec3] ∧ Mirrored g'.nodeList c := by
  have hnested : WellNested nest := by decide +kernel
  have hmirrored : ∀ c ∈ nest.nodeList, c.kind = .compound → Mirrored nest.nodeList c := by
    decide +kernel
  obtain ⟨g', hrun, -, c, hc, hkind, hid, htypes⟩ := exists_run_nest
  have hc' := (mirrored_of_run hnested hmirrored hrun c hc hkind).1 hid
  exact ⟨hnested, hmirrored, g', hrun, c, hc, hkind, htypes, hc'⟩

/-- A compound of numbers without a name, with an input proxy that feeds a node of colours. -/
def unnamed : Graph :=
  .ofLists
    [{ id := "", kind := .compound, inputs := [.ofId "a" .float] },
      { id := "p", kind := .graphInput, outputs := [.ofId "a" .float], scope := some "" },
      { id := "n", inputs := [.ofId "x" .vec3], scope := some "" }]
    [{ source := "p", sourcePort := some "a", target := "n", targetPort := some "x" }]

/-- The proxy takes the type that is wanted of it, and the compound keeps the old one. -/
theorem unnamed_compound_left : WellNested unnamed ∧
    (∀ c ∈ unnamed.nodeList, c.kind = .compound → Mirrored unnamed.nodeList c) ∧
    ∃ g', (run unnamed).1 = .ok (some g') ∧
      ∃ c ∈ g'.nodeList, c.kind = .compound ∧ ¬ Mirrored g'.nodeList c := by
  refine ⟨by decide +kernel, by decide +kernel, ?_⟩
  have hrun : ((run unnamed).1.toOption.join.any fun g' => g'.nodeList.any fun c =>
      c.kind = .compound ∧ ¬ Mirrored g'.nodeList c) = true := by
    decide +kernel
  rcases hr : (run unnamed).1 with f | _ | g' <;> rw [hr] at hrun
  · cases hrun
  · cases hrun
  · obtain ⟨c, hc, hleft⟩ := List.any_eq_true.1 hrun
    exact ⟨g', rfl, c, hc, of_decide_eq_true hleft⟩

end RenderGraph.Typing
