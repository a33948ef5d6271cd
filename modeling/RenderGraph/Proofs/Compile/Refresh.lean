import RenderGraph.Proofs.Compile.Reuse

/-!
# New values for kept passes

The passes that are kept for a request get the present values of the graph by the names of their
uniforms. A compilation takes each value from the node that contributes it to the pass, whereas the
present values of a graph hold the first contribution under each name. Both agree on every name under
which there is one contribution only; where two nodes contribute under one name, a pass may be given the
value of the other node.

## Main definitions

* `Scene.Unambiguous`: names under which there is one contribution only
* `RenderPass.AgreeOn`: the same uniforms under some names

## Main results

* `Compile.agreeOn_refresh`: a pass with the present values of a twin
* `Scene.unambiguous_of_nodup`: graphs whose contributions have distinct names
* `Compile.refresh_of_record_eq`: kept passes with the present values of a variant with the same record
* `Compile.refresh_changes_values`: a fresh pass that is given the value of another node
-/

namespace RenderGraph

/-! ### Names with one contribution -/

/-- All contributions under the name are the same, and no plan gives a value to a uniform of that name. -/
structure Scene.Unambiguous (scene : Scene) (name : String) : Prop where
  unique : ∀ {u v : Uniform}, scene.Contributes name u → scene.Contributes name v → u = v
  free : ∀ {u : Uniform}, scene.Contributes name u → ¬ Plan.Reserved name

/-- No name is ambiguous if the contributions of a graph have distinct names and none of them is
reserved. -/
theorem Scene.unambiguous_of_nodup {scene : Scene} (hd : (scene.contributions.map (·.1)).Nodup)
    (hf : ∀ name ∈ scene.contributions.map (·.1), ¬ Plan.Reserved name) (name : String) :
    scene.Unambiguous name := by
  refine ⟨fun {u v} hu hv => ?_, fun hu => ?_⟩
  · have heq := List.inj_on_of_nodup_map hd (Scene.contributes_iff.1 hu) (Scene.contributes_iff.1 hv) rfl
    exact Except.ok.inj (congrArg Prod.snd heq)
  · exact hf name (List.mem_map.2 ⟨_, Scene.contributes_iff.1 hu, rfl⟩)

/-! ### Passes with present values -/

/-- The passes have the same id and uniforms of the same names and types, and those whose name has `P`
have the same value. -/
structure RenderPass.AgreeOn (P : String → Prop) (p q : RenderPass) : Prop where
  id_eq : q.id = p.id
  uniforms : p.uniforms.Match (fun name u v => v.type = u.type ∧ (P name → u = v)) q.uniforms

theorem RenderPass.AgreeOn.uniforms_eq {P : String → Prop} {p q : RenderPass} (h : p.AgreeOn P q)
    (hP : ∀ name, P name) : p.uniforms = q.uniforms :=
  Keyed.Match.eq (h.uniforms.imp fun name _ _ _ _ huv => huv.2 (hP name))

namespace Compile

variable {sized : Prop} {scene : Scene} {config : Config} {g k : Graph} {target : Target} {r r' : Result}
  {news : Keyed Uniform}

/-- A pass with the present values of a twin has the uniforms of the pass that it stands for, as far as
they have unambiguous names. -/
theorem agreeOn_refresh {p q : RenderPass} (hnews : Shader.overrides scene = .ok news)
    (h : Plan.PassTwin sized scene p q) : (p.refresh news).AgreeOn scene.Unambiguous q := by
  have hyields := Shader.yields_overrides scene
  rw [hnews, yields_ok] at hyields
  obtain ⟨hall, horigin⟩ := hyields
  rcases h with @⟨fragment, uniforms, hf, hu⟩
  refine ⟨rfl, match_refresh hu (fun name u v w huv hw htype => ?_) fun name u v huv hold => ?_⟩
  · refine ⟨huv.type_eq.trans htype.symm, fun hname => ?_⟩
    rcases huv.origin with hv | ⟨hreserved, -⟩
    · exact hname.unique (horigin name w hw) hv
    · exact absurd hreserved (hname.free (horigin name w hw))
  · refine ⟨huv.type_eq, fun hname => ?_⟩
    rcases huv.origin with hv | ⟨-, rfl⟩
    · -- There is a new value, and as the only contribution it has the type of the old one.
      obtain ⟨w, hw⟩ := Option.isSome_iff_exists.1 (hall name v hv)
      obtain rfl : w = v := hname.unique (horigin name w hw) hv
      exact absurd huv.type_eq (hold w hw)
    · rfl

theorem forall₂_refreshPasses {ps qs : List RenderPass} (hnews : Shader.overrides scene = .ok news)
    (h : List.Forall₂ (Plan.PassTwin sized scene) ps qs) :
    List.Forall₂ (RenderPass.AgreeOn scene.Unambiguous) (refreshPasses news ps) qs :=
  List.forall₂_map_left_iff.2 (h.imp fun _ _ hpq => agreeOn_refresh hnews hpq)

/-- A fresh pass stands for itself. -/
theorem passTwin_self {log : List Journal.Record}
    (hr : compile { graph := k, config } target = (.ok r, log)) :
    ∀ p ∈ r.passes, Plan.PassTwin True { graph := k, config } p p := by
  have hself : k.Twin config True k := .refl k
  have hends := endAlike_compile hself target
  rw [hr] at hends
  cases hends with
  | ok h _ => exact List.forall₂_same.1 h.passes

/-- A fresh pass stays as it is when it is given the present values of its own graph, if no name is
ambiguous. -/
theorem refresh_eq_self {p : RenderPass} (hnews : Shader.overrides scene = .ok news)
    (h : Plan.PassTwin sized scene p p) (hu : ∀ name, scene.Unambiguous name) : p.refresh news = p := by
  have huniforms : Shader.refresh news p.uniforms = p.uniforms :=
    (agreeOn_refresh hnews h).uniforms_eq hu
  rw [RenderPass.refresh, huniforms]

/-- Passes that were compiled for a graph and are given the present values of a variant with the same
record have the uniforms of the passes that are compiled for the variant, under every name that is
unambiguous, unless the data of the variant are at fault. If no name is ambiguous, the uniforms are the
same, and fresh passes stay as they are. -/
theorem refresh_of_record_eq {text : String} {log log' : List Journal.Record} (hv : g.Variant k)
    (hg : record { graph := g, config } target = .ok text)
    (hk : record { graph := k, config } target = .ok text)
    (hr : compile { graph := g, config } target = (.ok r, log))
    (hr' : compile { graph := k, config } target = (.ok r', log')) :
    (∃ f, Shader.overrides { graph := k, config } = .error f ∧ DataFault { graph := k, config } f) ∨
    ∃ news, Shader.overrides { graph := k, config } = .ok news ∧
      List.Forall₂ (RenderPass.AgreeOn (Scene.Unambiguous { graph := k, config }))
        (refreshPasses news r.passes) r'.passes ∧
      ((∀ name, Scene.Unambiguous { graph := k, config } name) →
        (refreshPasses news r.passes).map (·.uniforms) = r'.passes.map (·.uniforms) ∧
          refreshPasses news r'.passes = r'.passes) := by
  have hends := endAlike_compile (twin_of_record_eq hv hg hk) target
  have hfails := Shader.failsIn_overrides { graph := k, config }
  rw [hr, hr'] at hends
  cases hnews : Shader.overrides { graph := k, config } with
  | error f =>
    rw [hnews] at hfails
    exact Or.inl ⟨f, rfl, hfails⟩
  | ok news =>
    cases hends with
    | ok h _ =>
      have hagree := forall₂_refreshPasses hnews h.passes
      refine Or.inr ⟨news, rfl, hagree, fun hu => ⟨?_, ?_⟩⟩
      · exact map_eq_of_forall₂ hagree fun p q hpq => hpq.uniforms_eq hu
      · have hself : ∀ p ∈ r'.passes, p.refresh news = p :=
          fun p hp => refresh_eq_self hnews (passTwin_self hr' p hp) hu
        exact (List.map_congr_left hself).trans (List.map_id _)

/-- Names that begin like those of a node `n` are not reserved. -/
private theorem not_reserved_of_third {name : String} (h : name.toList[2]? = some 'n') :
    ¬ Plan.Reserved name := by
  rintro (_ | _ | r)
  · exact absurd h (by decide)
  · exact absurd h (by decide)
  · cases r with
    | named id => simp [Source.StageReference.uniform] at h
    | first => exact absurd h (by decide)
    | previous => exact absurd h (by decide)

/-- The arrays of a node get new elements, and the kept pass has the uniforms of the fresh one. -/
theorem refresh_of_record_eq_arrays :
    (arraysGraph [.int 1] [.int 1, .int 2]).Variant (arraysGraph [.int 2] [.int 3, .int 4]) ∧
    record (arraysScene [.int 1] [.int 1, .int 2]) arraysTarget = .ok arraysRecord ∧
    record (arraysScene [.int 2] [.int 3, .int 4]) arraysTarget = .ok arraysRecord ∧
    ∃ r r' log log' news,
      compile (arraysScene [.int 1] [.int 1, .int 2]) arraysTarget = (.ok r, log) ∧
      compile (arraysScene [.int 2] [.int 3, .int 4]) arraysTarget = (.ok r', log') ∧
      Shader.overrides (arraysScene [.int 2] [.int 3, .int 4]) = .ok news ∧ r'.passes ≠ [] ∧
      (refreshPasses news r.passes).map (·.uniforms) = r'.passes.map (·.uniforms) ∧
      refreshPasses news r'.passes = r'.passes := by
  have hnews : (Shader.overrides (arraysScene [.int 2] [.int 3, .int 4])).isOk = true := by
    decide +kernel
  obtain ⟨news, hnews⟩ := exists_of_isOk hnews
  obtain ⟨r, r', log, log', hr, hr', -, hne⟩ := exists_compile_arrays
  have hv := variant_arraysGraph [.int 1] [.int 1, .int 2] [.int 2] [.int 3, .int 4]
  have hg := record_arraysScene 1 [.int 1, .int 2]
  have hk := record_arraysScene 2 [.int 3, .int 4]
  have hu : ∀ name, (arraysScene [.int 2] [.int 3, .int 4]).Unambiguous name := by
    refine Scene.unambiguous_of_nodup (by decide +kernel) fun name hname => not_reserved_of_third ?_
    have hthird : ∀ name ∈ (arraysScene [.int 2] [.int 3, .int 4]).contributions.map (·.1),
        name.toList[2]? = some 'n' := by
      decide +kernel
    exact hthird name hname
  rcases refresh_of_record_eq hv hg hk hr hr' with ⟨f, hf, -⟩ | ⟨news', hnews', -, hsame⟩
  · cases hnews.symm.trans hf
  · exact ⟨hv, hg, hk, r, r', log, log', news', hr, hr', hnews', hne, hsame hu⟩

/-! ### Two nodes with one name -/

/-- A node with a number bound to its input. -/
def numberNode (id : String) (n : Int) : Node :=
  { id, inputs := [.ofId "x" .float], uniforms := .ofList [("x", { type := .float, value := .int n })] }

/-- Two nodes whose ids differ in a character that is written as an underscore in names. -/
def aliasScene : Scene where
  graph := .ofLists [numberNode "a-b" 1, numberNode "a_b" 2] []
  config := {}

/-- The number that is held under a name. -/
def numberAt (name : String) (uniforms : Keyed Uniform) : Option Number :=
  (uniforms.get? name).bind fun u =>
    match u.value with
    | .number n => some n
    | _ => none

/-- A fresh pass of the second node has the number of that node, and it is given the number of the first
one by the present values of the same graph. -/
theorem refresh_changes_values :
    ∃ text r log news, record aliasScene { node := some "a_b" } = .ok text ∧
      compile aliasScene { node := some "a_b" } = (.ok r, log) ∧ r.failure = none ∧
      Shader.overrides aliasScene = .ok news ∧
      (r.passes.map (·.uniforms)).map (numberAt "u_a_b_x") = [some (.int 2)] ∧
      ((refreshPasses news r.passes).map (·.uniforms)).map (numberAt "u_a_b_x") = [some (.int 1)] ∧
      (refreshPasses news r.passes).map (·.uniforms) ≠ r.passes.map (·.uniforms) := by
  have hrecord : (record aliasScene { node := some "a_b" }).isOk = true := by
    rw [record_of_sorted (by decide) (by decide)]
    decide +kernel
  have hrun : succeedsWith aliasScene { node := some "a_b" } (fun r =>
      (r.passes.map (·.uniforms)).map (numberAt "u_a_b_x") = [some (.int 2)] &&
        (Shader.overrides aliasScene).toOption.any fun news =>
          ((refreshPasses news r.passes).map (·.uniforms)).map (numberAt "u_a_b_x") =
            [some (.int 1)]) = true := by
    decide +kernel
  have hnews : (Shader.overrides aliasScene).isOk = true := by
    decide +kernel
  obtain ⟨text, htext⟩ := exists_of_isOk hrecord
  obtain ⟨news, hnews⟩ := exists_of_isOk hnews
  obtain ⟨r, log, hr, hf, htest⟩ := exists_of_succeedsWith hrun
  rw [hnews, Bool.and_eq_true] at htest
  have hold := of_decide_eq_true htest.1
  have hnew := of_decide_eq_true htest.2
  refine ⟨text, r, log, news, htext, hr, hf, hnews, hold, hnew, fun heq => ?_⟩
  rw [heq, hold] at hnew
  cases hnew

end Compile

end RenderGraph
