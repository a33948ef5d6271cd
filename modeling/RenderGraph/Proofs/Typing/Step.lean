import RenderGraph.Proofs.Outcome
import RenderGraph.Typing.Inference

/-!
# What a typing step does

The second sweep of inference fits each node that is typed automatically to the overload that its
connections choose. What a step does is a function of the node and of what the node sees of the others:
which of them are known, and the types that arrive. Once a node has been fitted, it stays as it is for
as long as it sees the same.

## Main definitions

* `Typing.fit`: the node with the ports of a chosen overload and with values in line with them
* `Typing.outcome`: what a step makes of a node
* `Typing.SeesSame`: two states of the nodes look the same to a node

## Main results

* `Typing.run_autoNode`: a step has this outcome, apart from warnings
* `Typing.outcome_congr`: the outcome depends on what the node sees
* `Typing.outcome_of_outcome`: a node that was fitted is not changed again
-/

namespace RenderGraph.Typing

open Source (Overload)

variable {g : Graph} {nodes nodes' : Keyed Node} {n m : Node}

/-! ### What a node sees -/

/-- Two states of the nodes look the same to a node: the same nodes are known, and the same types
arrive. -/
structure SeesSame (g : Graph) (id : String) (nodes nodes' : Keyed Node) : Prop where
  contains_eq : ∀ k, nodes.contains k = nodes'.contains k
  type_eq : ∀ e ∈ g.incoming id, edgeSourceType? nodes e = edgeSourceType? nodes' e

section Choice

variable {incoming : List Edge}
  (h : ∀ e ∈ incoming, edgeSourceType? nodes e = edgeSourceType? nodes' e)
include h

theorem parameterScore?_congr (param : Port) :
    parameterScore? incoming nodes param = parameterScore? incoming nodes' param := by
  unfold parameterScore?
  cases he : edgeOfParameter incoming param with
  | none => rfl
  | some e =>
    have hmem : e ∈ incoming := List.mem_reverse.1 (List.mem_of_find?_eq_some he)
    rw [Option.bind_some, Option.bind_some, h e hmem]

theorem score?_congr (o : Overload) : score? o incoming nodes = score? o incoming nodes' := by
  simp only [score?, parameterScore?_congr h]

/-- The choice of an overload depends on the types that arrive. -/
theorem select?_congr (all : List Overload) (rank : Nat) :
    select? all incoming nodes rank = select? all incoming nodes' rank := by
  simp only [select?, bestScored?, score?_congr h]

end Choice

theorem SeesSame.knownIncoming_eq {id : String} (h : SeesSame g id nodes nodes') :
    knownIncoming g nodes id = knownIncoming g nodes' id := by
  simp only [knownIncoming, h.contains_eq]

theorem SeesSame.knownOutgoing_eq {id : String} (h : SeesSame g id nodes nodes') :
    knownOutgoing g nodes id = knownOutgoing g nodes' id := by
  simp only [knownOutgoing, h.contains_eq]

/-- A node is only connected to known nodes if some of them feed it. -/
def Driven (g : Graph) (nodes : Keyed Node) (id : String) : Prop :=
  knownIncoming g nodes id = [] → knownOutgoing g nodes id = []

/-- How a node is connected depends on what it sees, if edges from the node do not decide. -/
theorem SeesSame.connection_eq {id : String} (h : SeesSame g id nodes nodes')
    (hd : Driven g nodes id) : connection g nodes id = connection g nodes' id := by
  unfold connection
  rw [← h.knownIncoming_eq, ← h.knownOutgoing_eq]
  dsimp only
  by_cases hempty : knownIncoming g nodes id = []
  · rw [hempty, hd hempty]
    rfl
  · have hfalse : (knownIncoming g nodes id).isEmpty = false := by
      rwa [Bool.eq_false_iff, ne_eq, List.isEmpty_iff]
    have htypes : (knownIncoming g nodes id).filterMap (edgeSourceType? nodes) =
        (knownIncoming g nodes id).filterMap (edgeSourceType? nodes') :=
      List.filterMap_congr fun e he => h.type_eq e (List.mem_filter.1 he).1
    simp only [hfalse, htypes, Bool.false_eq_true, if_false]

/-! ### Outcomes -/

/-- The node with the ports of a chosen overload; without one it keeps its own. -/
def withPorts (n : Node) : Option Overload → Node
  | some o => { n with
      inputs := o.inputs,
      outputs := o.outputs,
      outputType := (o.outputs.head?.map (·.type)).getD n.outputType }
  | none => n

/-- The node with the ports of a chosen overload and with values in line with them, if that changes
anything. -/
def fit (n : Node) (chosen : Option Overload) : Except Fault (Option Node) := do
  let m := withPorts n chosen
  let (uniforms, changed) ← conformInputs m.inputs n.uniforms
  if m.inputs = n.inputs ∧ m.outputs = n.outputs ∧ m.outputType = n.outputType ∧ changed = false then
    pure none
  else pure (some { m with uniforms })

/-- The overload that the connections of a node choose. -/
def choice? (g : Graph) (nodes : Keyed Node) (id : String) (all : List Overload) : Option Overload :=
  select? all (drivingEdges g nodes id) nodes (connection g nodes id).rank

/-- What a step makes of a node, if it changes anything. -/
def outcome (g : Graph) (nodes : Keyed Node) (n : Node) : Except Fault (Option Node) :=
  if (connection g nodes n.id).connected then do
    fit n (choice? g nodes n.id (← Source.overloads n.source))
  else pure none

/-- A step has its outcome, and it may issue warnings. -/
theorem run_autoNode (g : Graph) (n : Node) (s : State) :
    ∃ warnings, (autoNode g n).run s = (outcome g s.nodes n, { s with warnings }) := by
  have hresult (p : Prop) [Decidable p] (m : Node) (t : State) :
      (if p then pure none else pure (some m) : TypingM (Option Node)).run t =
        ((if p then pure none else pure (some m) : Except Fault (Option Node)), t) := by
    split <;> rfl
  unfold autoNode outcome
  rw [run_bind]
  show ∃ warnings, (ExceptT.run _ : StateM State _) s = _
  dsimp only
  cases (connection g s.nodes n.id).connected with
  | false => exact ⟨s.warnings, rfl⟩
  | true =>
    rw [if_neg (by decide), if_pos rfl, run_bind]
    cases Source.overloads n.source with
    | error f => exact ⟨s.warnings, rfl⟩
    | ok all =>
      show ∃ warnings, (ExceptT.run _ : StateM State _) s = (fit n (choice? g s.nodes n.id all), _)
      unfold fit choice?
      cases select? all (drivingEdges g s.nodes n.id) s.nodes (connection g s.nodes n.id).rank with
      | none =>
        dsimp only [withPorts]
        rw [run_bind]
        show ∃ warnings, (ExceptT.run _ : StateM State _) _ = _
        rw [pure_bind, run_bind]
        cases conformInputs n.inputs n.uniforms with
        | error f => exact ⟨_, rfl⟩
        | ok r => exact ⟨_, hresult _ _ _⟩
      | some o =>
        rcases o with ⟨inputs, _ | ⟨port, outputs⟩, label, order, index⟩
        all_goals
          dsimp only [withPorts]
          rw [pure_bind, run_bind]
          cases conformInputs inputs n.uniforms with
          | error f => exact ⟨_, rfl⟩
          | ok r => exact ⟨_, hresult _ _ _⟩

/-! ### Values in line with inputs -/

/-- The values of all inputs conform. -/
def Conforming (inputs : List Port) (uniforms : Keyed BoundValue) : Prop :=
  ∀ port ∈ inputs, (uniforms.get? port.id).any (·.conforms port.type) = true

/-- One round of bringing values in line. -/
private def conformInput (r : Keyed BoundValue × Bool) (port : Port) :
    Except Fault (Keyed BoundValue × Bool) :=
  if (r.1.get? port.id).any (·.conforms port.type) then pure r
  else do
    let bound ← BoundValue.conform (r.1.get? port.id) port.type
    pure (r.1.insert port.id bound, true)

private theorem conformInputs_eq (inputs : List Port) (uniforms : Keyed BoundValue) :
    conformInputs inputs uniforms = inputs.foldlM conformInput (uniforms, false) :=
  rfl

/-- A round brings the value of its input in line and keeps the others. -/
private theorem conformInput_spec {r r' : Keyed BoundValue × Bool} {port : Port}
    (h : conformInput r port = .ok r') :
    (r'.1.get? port.id).any (·.conforms port.type) = true ∧
      ∀ id ≠ port.id, r'.1.get? id = r.1.get? id := by
  unfold conformInput at h
  split at h
  · next hconforms =>
    cases h
    exact ⟨hconforms, fun _ _ => rfl⟩
  · obtain ⟨bound, hbound, h⟩ := Fault.bind_eq_ok_iff.1 h
    cases h
    refine ⟨?_, fun id hid => ?_⟩
    · rw [Keyed.get?_insert, if_pos rfl]
      exact BoundValue.conforms_of_conform hbound
    · rw [Keyed.get?_insert, if_neg hid]

/-- The values of inputs with distinct ids conform after all rounds, as later rounds keep the values of
other inputs. -/
private theorem conforming_of_rounds {inputs : List Port} {start r : Keyed BoundValue × Bool}
    (hd : (inputs.map (·.id)).Nodup) (h : inputs.foldlM conformInput start = .ok r) :
    Conforming inputs r.1 ∧ ∀ id ∉ inputs.map (·.id), r.1.get? id = start.1.get? id := by
  induction inputs generalizing start with
  | nil =>
    cases h
    exact ⟨fun _ hport => absurd hport List.not_mem_nil, fun _ _ => rfl⟩
  | cons port inputs ih =>
    rw [List.foldlM_cons] at h
    obtain ⟨next, hnext, h⟩ := Fault.bind_eq_ok_iff.1 h
    rw [List.map_cons, List.nodup_cons] at hd
    obtain ⟨hport, hother⟩ := conformInput_spec hnext
    obtain ⟨hrest, hkept⟩ := ih hd.2 h
    refine ⟨fun p hp => ?_, fun id hid => ?_⟩
    · rcases List.mem_cons.1 hp with rfl | hp
      · rw [hkept p.id hd.1]
        exact hport
      · exact hrest p hp
    · rw [List.map_cons, List.mem_cons, not_or] at hid
      rw [hkept id hid.2, hother id hid.1]

/-- The values of inputs with distinct ids conform once they were brought in line. -/
theorem conforming_of_conformInputs {inputs : List Port} {uniforms : Keyed BoundValue}
    {r : Keyed BoundValue × Bool} (hd : (inputs.map (·.id)).Nodup)
    (h : conformInputs inputs uniforms = .ok r) : Conforming inputs r.1 :=
  (conforming_of_rounds hd h).1

/-- Values that conform are kept. -/
theorem conformInputs_of_conforming {inputs : List Port} {uniforms : Keyed BoundValue}
    (h : Conforming inputs uniforms) : conformInputs inputs uniforms = .ok (uniforms, false) := by
  rw [conformInputs_eq]
  induction inputs with
  | nil => rfl
  | cons port inputs ih =>
    have hport : conformInput (uniforms, false) port = .ok (uniforms, false) := by
      rw [conformInput, if_pos (h port List.mem_cons_self)]
      rfl
    rw [List.foldlM_cons, hport]
    exact ih fun p hp => h p (List.mem_cons_of_mem _ hp)

/-! ### Outcomes are final -/

/-- The names of inputs are distinct, in the node and in each of its overloads. -/
structure Distinct (n : Node) : Prop where
  inputs : (n.inputs.map (·.id)).Nodup
  overloads : ∀ {all : List Overload}, Source.overloads n.source = .ok all →
    ∀ o ∈ all, (o.inputs.map (·.id)).Nodup

instance (n : Node) : Decidable (Distinct n) :=
  decidable_of_iff ((n.inputs.map (·.id)).Nodup ∧
      ∀ all ∈ (Source.overloads n.source).toOption, ∀ o ∈ all, (o.inputs.map (·.id)).Nodup) <| by
    constructor
    · rintro ⟨hinputs, hall⟩
      exact ⟨hinputs, fun h => hall _ (by rw [h]; rfl)⟩
    · intro h
      refine ⟨h.inputs, fun all hall => h.overloads ?_⟩
      cases ho : Source.overloads n.source with
      | error f => simp [ho, Except.toOption] at hall
      | ok os => simpa [ho, Except.toOption] using hall

/-- One node has come from another by a change of its ports and values. -/
structure Refitted (n m : Node) : Prop where
  id_eq : m.id = n.id
  kind_eq : m.kind = n.kind
  autoType_eq : m.autoType = n.autoType
  source_eq : m.source = n.source

theorem exists_of_fit {chosen : Option Overload} (h : fit n chosen = .ok (some m)) :
    ∃ r, conformInputs (withPorts n chosen).inputs n.uniforms = .ok r ∧
      m = { withPorts n chosen with uniforms := r.1 } := by
  obtain ⟨⟨uniforms, changed⟩, hr, h⟩ := Fault.bind_eq_ok_iff.1 h
  dsimp only at h
  split at h
  · cases h
  · cases h
    exact ⟨_, hr, rfl⟩

theorem refitted_of_outcome (h : outcome g nodes n = .ok (some m)) : Refitted n m := by
  unfold outcome at h
  split at h
  · obtain ⟨all, -, h⟩ := Fault.bind_eq_ok_iff.1 h
    obtain ⟨r, -, rfl⟩ := exists_of_fit h
    cases choice? g nodes n.id all <;> exact ⟨rfl, rfl, rfl, rfl⟩
  · cases h

/-- A node that has the ports of an overload and conforming values fits it. -/
theorem fit_eq_none {chosen : Option Overload} (hp : withPorts n chosen = n)
    (hc : Conforming n.inputs n.uniforms) : fit n chosen = .ok none := by
  unfold fit
  dsimp only
  rw [hp, conformInputs_of_conforming hc]
  exact if_pos ⟨rfl, rfl, rfl, rfl⟩

/-- A node that was fitted to an overload fits it. -/
theorem fit_of_fit {chosen : Option Overload} (h : fit n chosen = .ok (some m))
    (hd : ((withPorts n chosen).inputs.map (·.id)).Nodup) : fit m chosen = .ok none := by
  obtain ⟨r, hr, rfl⟩ := exists_of_fit h
  refine fit_eq_none ?_ (conforming_of_conformInputs hd hr)
  cases chosen with
  | none => rfl
  | some o => cases ho : o.outputs <;> simp [withPorts, ho]

/-- A chosen overload is one of the overloads. -/
theorem mem_of_select? {all : List Overload} {incoming : List Edge} {rank : Nat} {o : Overload}
    (h : select? all incoming nodes rank = some o) : o ∈ all := by
  have hbest {best : Overload × Nat} (h : bestScored? all incoming nodes = some best) :
      best.1 ∈ all := by
    unfold bestScored? at h
    refine List.foldlRecOn all _ (motive := fun r : Option (Overload × Nat) =>
      ∀ best, r = some best → best.1 ∈ all) ?_ ?_ best h
    · intro best hnone
      cases hnone
    · intro r hr o ho best hstep
      split at hstep
      · exact hr best hstep
      · cases hstep
        exact ho
      · split at hstep
        · cases hstep
          exact ho
        · exact hr best hstep
  unfold select? at h
  dsimp only at h
  split at h
  · next hscored =>
    cases h
    split at hscored
    · cases hscored
    · exact hbest hscored
  · exact List.mem_of_find?_eq_some h

/-- The outcome depends on what the node sees. -/
theorem outcome_congr (h : SeesSame g n.id nodes nodes') (hd : Driven g nodes n.id) :
    outcome g nodes n = outcome g nodes' n := by
  have hedges : drivingEdges g nodes n.id = drivingEdges g nodes' n.id := by
    unfold drivingEdges
    rw [h.connection_eq hd, h.knownIncoming_eq]
  have htypes : ∀ e ∈ drivingEdges g nodes n.id,
      edgeSourceType? nodes e = edgeSourceType? nodes' e := by
    intro e he
    unfold drivingEdges at he
    split at he
    · exact h.type_eq e (List.mem_filter.1 he).1
    · cases he
  unfold outcome choice?
  rw [h.connection_eq hd, ← hedges]
  simp only [select?_congr htypes]

/-- A node that was fitted is not changed again. -/
theorem outcome_of_outcome (hd : Distinct n) (h : outcome g nodes n = .ok (some m)) :
    outcome g nodes m = .ok none := by
  have hm := refitted_of_outcome h
  unfold outcome at h ⊢
  rw [hm.id_eq, hm.source_eq]
  split at h
  · next hc =>
    rw [if_pos hc]
    obtain ⟨all, hall, h⟩ := Fault.bind_eq_ok_iff.1 h
    rw [hall]
    refine fit_of_fit h ?_
    cases hs : choice? g nodes n.id all with
    | none => exact hd.inputs
    | some o => exact hd.overloads hall o (mem_of_select? hs)
  · cases h

end RenderGraph.Typing
