import RenderGraph.Proofs.Typing.Provenance

/-!
# When inference fails

Inference fails where it cannot read the overloads of a body or cannot convert a bound value. The first
sweep converts the values of compounds to floats and float vectors only, so that it fails at tensors
without axes alone. The second sweep also wants integers, which values that start with a number that is
not finite do not give. The third sweep converts nothing and never fails.

As values are only made of values that were there before, a failure in any round goes back to the graph
of the first one.

## Main definitions

* `Typing.Faulty`: the data of a graph at which a sweep may fail
* `Typing.Phase.sweep`: the sweeps of inference
* `Typing.probe`: a graph with one bound value that is wanted as an integer

## Main results

* `Typing.faulty_of_step`, `Typing.ends_sweep`: one step and one sweep
* `Typing.exists_run_of_sound`: rounds that never fail
* `Typing.run_probe_eq_error_iff`: the bound values at which inference fails
* `Typing.run_returns_or_faulty`: inference returns unless the data are faulty
-/

namespace RenderGraph.Typing

variable {g h : Graph} {nodes : Keyed Node} {n m : Node} {s t : State} {phase : Phase} {b : Bool}
  {done : List (Phase × String)} {f : Fault}

/-! ### Data at which a sweep may fail -/

/-- Why a sweep over the nodes of a graph may fail. -/
inductive Faulty (g : Graph) : Phase → Fault → Prop
  /-- A tensor without axes is bound to an input of the owner of an input proxy. -/
  | shapeless {n p : Node} {key : String} {a : BoundValue} {x : Tensor} (hn : n ∈ g.nodeList)
      (hp : p ∈ g.nodeList) (hk : p.kind = .graphInput) (ho : OwnedBy n.id p)
      (ha : n.uniforms.get? key = some a) (hx : a.value = .tensor x) (hr : x.rank = 0) :
      Faulty g (.proxies .input) .wrongShape
  /-- The overloads of a node that is typed automatically cannot be read. -/
  | unreadable {n : Node} {f : Fault} (hn : n ∈ g.nodeList) (ht : Typed n)
      (ho : Source.overloads n.source = .error f) : Faulty g .auto f
  /-- A value that is bound to an input of such a node cannot be converted. -/
  | unconvertible {n : Node} {key : String} {a : BoundValue} {t : DataType} {f : Fault}
      (hn : n ∈ g.nodeList) (ht : Typed n) (ha : n.uniforms.get? key = some a)
      (hf : a.Unconvertible t f) : Faulty g .auto f

/-- What is wanted of an input proxy is no integer. -/
theorem ne_int_of_demanded? {id port : String} {t : DataType}
    (ht : demanded? g nodes id port = some t) : ¬ (t = .int ∨ t = .uint) := by
  have hrank (k : Int) : ¬ (DataType.ofRank k = .int ∨ DataType.ofRank k = .uint) := by
    unfold DataType.ofRank
    split <;> simp
  rw [demanded?] at ht
  split at ht
  · cases ht
    exact hrank _
  · cases ht

/-- A step fails only if the data of the graph are faulty from which the nodes have come. -/
theorem faulty_of_step (hd : DrawnFrom g h.nodes) (hs : Steps h done b s.nodes)
    (hn : s.nodes.get? n.id = some n) (hr : (phase.step h n).run s = (.error f, t)) :
    Faulty g phase f := by
  have hdn := hs.drawnFrom hd
  obtain ⟨p, hp, hpn⟩ := hdn n.id n hn
  cases phase with
  | proxies side =>
    change (side.step h n).run s = _ at hr
    rw [side.run_step] at hr
    split at hr
    · next hside =>
      have hmid := hs.kept.insert hn (side.adjusted_retyped (side.updates h s.nodes n) n)
      have hdmid := hdn.insert hn fun _ hnm => hnm.retyped side (side.updates h s.nodes n)
      dsimp only at hr
      split at hr
      · cases hr
      · next c ho =>
        split at hr
        · cases hr
        · next hc =>
          cases hr
          obtain ⟨k, hk, hkc⟩ := hdmid c.id c (hmid.get?_of_owner? ho)
          obtain ⟨rfl, port, t, ht, key, a, ha, hf⟩ := (yields_iff.1 (hkc.mirrored side _)).2 f hc
          have hwanted : demanded? h s.nodes n.id port = some t := by
            rw [Side.updates, get?_collect] at ht
            split at ht
            · exact ht
            · cases ht
          have howned : OwnedBy k.id p := by
            rw [← hkc.adjusted.id_eq, ← hpn.adjusted.ownedBy_iff]
            exact hmid.ownedBy_of_owner? (isProxy_of_kind hside.1) ho
          have hkind : p.kind = .graphInput := hpn.adjusted.kind_eq.symm.trans hside.1
          cases hf with
          | shapeless hx hrank =>
            exact .shapeless (Graph.mem_nodeList_of_node? hk) (Graph.mem_nodeList_of_node? hp) hkind
              howned ha hx hrank
          | unbounded hint => exact absurd hint (ne_int_of_demanded? hwanted)
    · cases hr
  | auto =>
    change (autoStep h n).run s = _ at hr
    by_cases ht : Typed n
    · obtain ⟨w, hrun⟩ := run_autoStep_of_typed ht h s
      rw [hrun] at hr
      have htp := hpn.adjusted.typed_iff.1 ht
      have hmem := Graph.mem_nodeList_of_node? hp
      rcases ho : outcome h s.nodes n with f' | _ | m <;> rw [ho] at hr <;> cases hr
      rcases (yields_iff.1 (hpn.outcome h s.nodes)).2 f ho with hf | ⟨t, key, a, ha, hf⟩
      · exact .unreadable hmem htp hf
      · exact .unconvertible hmem htp ha hf
    · rw [run_autoStep_of_not_typed ht] at hr
      cases hr

/-! ### Sweeps -/

/-- The sweeps of inference. -/
def Phase.sweep : Phase → Graph → TypingM Bool
  | proxies .input => inputSweep
  | auto => autoSweep
  | proxies .output => outputSweep

theorem Phase.sweep_eq (phase : Phase) (g : Graph) :
    phase.sweep g = Typing.sweep (phase.step g) := by
  rcases phase with _ | _
  · next side => cases side <;> rfl
  · rfl

/-- The nodes are as some steps of a round left them. -/
def Between (h : Graph) (s : State) : Prop :=
  ∃ done b, Steps h done b s.nodes

theorem ends_round (hd : DrawnFrom g h.nodes) (phase : Phase) (changed : Bool) (id : String)
    (hs : Between h s) :
    Ends (round (phase.step h) changed id) (fun _ => Between h) (fun f _ => Faulty g phase f) s := by
  obtain ⟨done, b, hs⟩ := hs
  rw [round, ends_bind, ends_get]
  cases hn : s.nodes.get? id with
  | none => exact ⟨done, b, hs⟩
  | some n =>
    obtain rfl := hs.kept.id_eq hn
    dsimp only
    rw [ends_bind, ends_iff]
    exact ⟨fun _ _ hr => ⟨_, _, hs.step hn hr⟩, fun _ _ hr => faulty_of_step hd hs hn hr⟩

/-- A sweep fails only if the data are faulty. -/
theorem ends_sweep (hd : DrawnFrom g h.nodes) (phase : Phase) (hs : Between h s) :
    Ends (phase.sweep h) (fun _ => Between h) (fun f _ => Faulty g phase f) s := by
  rw [Phase.sweep_eq, Typing.sweep_eq, ends_bind, ends_get]
  exact Ends.foldlM (fun changed id _ s hs => ends_round hd phase changed id hs) hs

/-- So does a round. -/
theorem ends_infer (hd : DrawnFrom g h.nodes) (w : List String) :
    Ends (infer h) (fun _ _ => True) (fun f _ => ∃ phase, Faulty g phase f)
      { nodes := h.nodes, warnings := w } := by
  have hsweep (phase : Phase) {s : State} (hs : Between h s) :
      Ends (phase.sweep h) (fun _ => Between h) (fun f _ => ∃ phase, Faulty g phase f) s :=
    (ends_sweep hd phase hs).mono (fun _ _ => id) fun _ _ hf => ⟨phase, hf⟩
  rw [infer, ends_bind]
  refine (hsweep (.proxies .input) ⟨[], false, .start⟩).mono (fun _ _ hs => ?_) fun _ _ => id
  rw [ends_bind]
  refine (hsweep .auto hs).mono (fun _ _ hs => ?_) fun _ _ => id
  rw [ends_bind]
  refine (hsweep (.proxies .output) hs).mono (fun _ _ hs => ?_) fun _ _ => id
  split <;> trivial

/-- Inference returns or fails, and it fails only if the data are faulty. -/
theorem exists_run_or_faulty (hd : DrawnFrom g h.nodes) :
    (∃ r, (run h).1 = .ok r) ∨ ∃ phase f, Faulty g phase f ∧ (run h).1 = .error f := by
  have hends := ends_iff.1 (ends_infer hd [])
  rcases hr : (infer h).run { nodes := h.nodes } with ⟨f | r, t⟩
  · obtain ⟨phase, hf⟩ := hends.2 f t hr
    exact Or.inr ⟨phase, f, hf, by rw [run, hr]⟩
  · exact Or.inl ⟨r, by rw [run, hr]⟩

/-- Rounds from a graph without faulty data never fail. -/
theorem exists_run_of_sound (hg : ∀ phase f, ¬ Faulty g phase f) {k : Nat} (hr : Reaches g k h) :
    ∃ r, (run h).1 = .ok r := by
  rcases exists_run_or_faulty hr.drawnFrom with hok | ⟨phase, f, hf, -⟩
  · exact hok
  · exact absurd hf (hg phase f)

/-! ### One bound value -/

/-- A value of another type is converted, which may fail; any other is kept or exchanged. -/
theorem conform_eq_error_iff {a : BoundValue} {t : DataType} :
    BoundValue.conform (some a) t = .error f ↔ a.type ≠ t ∧ a.Unconvertible t f := by
  rw [BoundValue.conform]
  split
  · next hne =>
    rw [BoundValue.migrate_eq_error_iff]
    exact (and_iff_right hne).symm
  · next heq =>
    refine iff_of_false ?_ fun hf => heq hf.1
    split <;> exact fun hf => by cases hf

/-- A node that wants an integer and has a value of any type. -/
def probeNode (a : BoundValue) : Node where
  id := "n"
  source := "void run(vec2 uv, int k, out vec4 c) \x7b\x7d"
  inputs := [.ofId "k" .int]
  outputs := [.ofId "c" .vec4]
  uniforms := .ofList [("k", a)]
  autoType := true

/-- That node, fed by an integer. -/
def probe (a : BoundValue) : Graph :=
  .ofLists [{ id := "s", outputs := [.ofId "o" .int] }, probeNode a]
    [{ source := "s", sourcePort := some "o", target := "n", targetPort := some "k" }]

/-- The overload of that node. -/
def probeOverload : Source.Overload where
  inputs := [.ofId "k" .int]
  outputs := [.ofId "c" .vec4]

theorem overloads_probeNode (a : BoundValue) :
    Source.overloads (probeNode a).source = .ok [probeOverload] := by
  have hread : (Source.overloads "void run(vec2 uv, int k, out vec4 c) \x7b\x7d").toOption =
      some [probeOverload] := by
    decide +kernel
  show Source.overloads "void run(vec2 uv, int k, out vec4 c) \x7b\x7d" = _
  cases ho : Source.overloads "void run(vec2 uv, int k, out vec4 c) \x7b\x7d" with
  | error f =>
    rw [ho] at hread
    cases hread
  | ok all =>
    rw [ho] at hread
    cases hread
    rfl

theorem conformInputs_probe_eq_error_iff {a : BoundValue} :
    conformInputs probeOverload.inputs (probeNode a).uniforms = .error f ↔
      BoundValue.conform (some a) .int = .error f := by
  show ((if a.conforms .int then pure ((probeNode a).uniforms, false)
    else BoundValue.conform (some a) .int >>= fun bound =>
      pure ((probeNode a).uniforms.insert "k" bound, true)) >>= pure) = .error f ↔ _
  rw [bind_pure]
  by_cases hc : a.conforms .int = true
  · rw [if_pos hc, BoundValue.conform_of_conforms hc]
    exact iff_of_false nofun nofun
  · rw [if_neg hc, Fault.bind_eq_error_iff]
    exact or_iff_left fun ⟨_, _, hf⟩ => nomatch hf

theorem outcome_probe_eq_error_iff {a : BoundValue} :
    outcome (probe a) (probe a).nodes (probeNode a) = .error f ↔
      a.type ≠ .int ∧ a.Unconvertible .int f := by
  have hconnected : (connection (probe a) (probe a).nodes (probeNode a).id).connected = true := rfl
  have hchoice : choice? (probe a) (probe a).nodes (probeNode a).id [probeOverload] =
      some probeOverload := rfl
  rw [← conform_eq_error_iff, ← conformInputs_probe_eq_error_iff, outcome, if_pos hconnected,
    overloads_probeNode]
  show fit (probeNode a) (choice? (probe a) (probe a).nodes (probeNode a).id [probeOverload]) = _ ↔ _
  rw [hchoice, fit, Fault.bind_eq_error_iff]
  refine or_iff_left ?_
  rintro ⟨r, -, hf⟩
  dsimp only at hf
  split at hf <;> cases hf

/-- The second sweep fits that node. -/
theorem exists_run_autoSweep_probe (a : BoundValue) (w : List String) :
    ∃ w', (autoSweep (probe a)).run { nodes := (probe a).nodes, warnings := w } =
      match outcome (probe a) (probe a).nodes (probeNode a) with
      | .ok none => (.ok false, { nodes := (probe a).nodes, warnings := w' })
      | .ok (some m) => (.ok true, { nodes := (probe a).nodes.insert m.id m, warnings := w' })
      | .error f => (.error f, { nodes := (probe a).nodes, warnings := w' }) := by
  have hsource : ¬ Typed { id := "s", outputs := [.ofId "o" .int] } := by decide
  have hprobe : Typed (probeNode a) := ⟨rfl, Or.inl rfl⟩
  obtain ⟨w', hrun⟩ := run_autoStep_of_typed hprobe (probe a) { nodes := (probe a).nodes, warnings := w }
  have hkeys : (probe a).nodes.keys = ["s", "n"] := rfl
  have hnode : (probe a).nodes.get? "n" = some (probeNode a) := rfl
  refine ⟨w', ?_⟩
  rw [autoSweep, run_sweep]
  dsimp only
  rw [hkeys, run_rounds_cons rfl (run_autoStep_of_not_typed hsource (probe a) _), List.foldlM_cons, run_bind,
    run_round]
  dsimp only
  rw [hnode]
  dsimp only
  rw [run_bind, hrun]
  rcases outcome (probe a) (probe a).nodes (probeNode a) with f | _ | m <;> rfl

theorem plain_probe (a : BoundValue) : Plain (probe a).nodes := by
  intro id n hn
  rcases List.mem_cons.1 (Graph.mem_nodeList_of_node? hn) with rfl | hn
  · exact ⟨nofun, nofun⟩
  · cases List.mem_singleton.1 hn
    exact ⟨nofun, nofun⟩

/-- Inference of that graph fails exactly if the value has another type and cannot be converted. -/
theorem run_probe_eq_error_iff {a : BoundValue} :
    (run (probe a)).1 = .error f ↔ a.type ≠ .int ∧ a.Unconvertible .int f := by
  rw [← outcome_probe_eq_error_iff]
  obtain ⟨w, hrun⟩ := exists_run_eq (plain_probe a) fun w => by
    obtain ⟨w', hw'⟩ := exists_run_autoSweep_probe a w
    rw [Leads, Ends, hw']
    rcases ho : outcome (probe a) (probe a).nodes (probeNode a) with f | _ | m
    · trivial
    · exact plain_probe a
    · have hkind : m.kind = .standard := (adjusted_of_outcome ho).kind_eq
      refine @(Keyed.forall_insert (fun _ _ => plain_probe a) ?_)
      rw [hkind]
      exact ⟨by decide, by decide⟩
  obtain ⟨w', hw'⟩ := exists_run_autoSweep_probe a w
  rw [hrun, hw']
  rcases outcome (probe a) (probe a).nodes (probeNode a) with f' | _ | m
  · simp
  · simp
  · simp

/-! ### All graphs -/

/-- Each sweep and inference as a whole return unless the data are faulty; the third sweep always
returns. A bound value is faulty where an integer is wanted exactly if it cannot be converted. -/
theorem run_returns_or_faulty (g : Graph) :
    (∀ phase w, (∃ b t, (phase.sweep g).run { nodes := g.nodes, warnings := w } = (.ok b, t)) ∨
      ∃ f t, Faulty g phase f ∧
        (phase.sweep g).run { nodes := g.nodes, warnings := w } = (.error f, t)) ∧
    (∀ w, ∃ b t, (outputSweep g).run { nodes := g.nodes, warnings := w } = (.ok b, t)) ∧
    ((∃ r, (run g).1 = .ok r) ∨ ∃ phase f, Faulty g phase f ∧ (run g).1 = .error f) ∧
    ∀ a f, (run (probe a)).1 = .error f ↔ a.type ≠ .int ∧ a.Unconvertible .int f := by
  have hsweep (phase : Phase) (w : List String) :
      (∃ b t, (phase.sweep g).run { nodes := g.nodes, warnings := w } = (.ok b, t)) ∨
        ∃ f t, Faulty g phase f ∧
          (phase.sweep g).run { nodes := g.nodes, warnings := w } = (.error f, t) := by
    have hstart : Between g { nodes := g.nodes, warnings := w } := ⟨[], false, .start⟩
    have hends := ends_iff.1 (ends_sweep (DrawnFrom.refl g) phase hstart)
    rcases hr : (phase.sweep g).run { nodes := g.nodes, warnings := w } with ⟨f | b, t⟩
    · exact Or.inr ⟨f, t, hends.2 f t hr, rfl⟩
    · exact Or.inl ⟨b, t, rfl⟩
  refine ⟨hsweep, fun w => ?_, exists_run_or_faulty (DrawnFrom.refl g), fun _ _ =>
    run_probe_eq_error_iff⟩
  rcases hsweep (.proxies .output) w with hok | ⟨f, t, hf, -⟩
  · exact hok
  · cases hf

/-- No integer can be made of a number that is none. -/
theorem run_probe_nan : (run (probe { type := .float, value := .float .nan })).1 = .error .notNumeric :=
  run_probe_eq_error_iff.2 ⟨by decide, .unbounded (Or.inl rfl) rfl (.nan (by decide +kernel))⟩

end RenderGraph.Typing
