import RenderGraph.Proofs.Compile.Refresh
import RenderGraph.Proofs.Plan.Declared

/-!
# Values that passes keep

The pass of an output takes up the values that are bound to the inputs of its nodes, and the selected
indices of their arrays. They stand under names that are joined from an id, an input and an ending, and
the first declaration of a name is kept. So a value is kept unless another one is declared under the same
name before it, by another node or by another input of the same node.

## Main definitions

* `Plan.Drawing.Replaces`: another value stands under the name of a value

## Main results

* `Node.contributes_of_declarations`: what a node declares is what it contributes
* `Compile.values_kept_or_replaced`: the values of the passes of a compilation
-/

namespace RenderGraph

/-! ### Declared values -/

/-- The uniform that is declared for a bound value carries it. -/
theorem BoundValue.carries_of_declaration {b : BoundValue} {fallback : Number} {name : String}
    {c : Declaration} (h : b.declaration fallback name = .ok c) : b.Carries fallback c.uniform := by
  obtain ⟨length, hlength, h⟩ := Fault.bind_eq_ok_iff.1 h
  obtain ⟨value, hvalue, h⟩ := Fault.bind_eq_ok_iff.1 h
  cases h
  exact ⟨length, value, hlength, hvalue, rfl⟩

/-- What a node declares is what it contributes. -/
theorem Node.contributes_of_declarations {n : Node} {fallback : Number} {c : Declaration}
    (h : .ok c ∈ n.declarations fallback) : n.Contributes fallback c.name c.uniform := by
  cases Node.declares_of_mem h with
  | bound hk hp hb h =>
    rw [BoundValue.name_of_declaration h]
    exact .bound hk hp hb (BoundValue.carries_of_declaration h)
  | index hk hp ht h =>
    obtain ⟨i, hi, rfl⟩ := Fault.map_eq_ok_iff.1 h
    exact .index hk hp ht hi
  | global hk h =>
    obtain ⟨length, hlength, h⟩ := Fault.bind_eq_ok_iff.1 h
    obtain ⟨value, hvalue, h⟩ := Fault.bind_eq_ok_iff.1 h
    cases h
    exact .global hk ⟨length, value, hlength, hvalue, rfl⟩
  | proxy hk hs hp h =>
    obtain ⟨value, hvalue, rfl⟩ := Fault.map_eq_ok_iff.1 h
    exact .proxy hk hs hp hvalue

namespace Plan.Drawing

variable {scene : Scene} {p : RenderPass} (d : Drawing scene p)

/-- Another value stands under the name of a value; a node of the pass contributes it under the same
name. -/
def Replaces (name : String) (u : Uniform) : Prop :=
  ∃ m, scene.Brings d.subgraph.order m ∧ ∃ v, v ≠ u ∧ m.Contributes scene.fallback name v ∧
    p.uniforms.get? name = some v

/-- Each value that is bound to an input of a node and each selected index of an array input is kept under
its name, or it is replaced. -/
structure KeepsOrReplaces (n : Node) : Prop where
  bound : ∀ port ∈ n.inputs, ∀ b, n.uniforms.get? port.id = some b → ∃ u, b.Carries scene.fallback u ∧
    (p.uniforms.get? (n.uniformName port.id) = some u ∨ d.Replaces (n.uniformName port.id) u)
  index : ∀ port ∈ n.inputs, port.type.isArray = true → ∃ i : Nat,
    BoundValue.selectedIndex port.type (n.uniforms.get? port.id) scene.fallback = .ok i ∧
      (p.uniforms.get? (n.uniformName port.id ++ "_index") = some { type := .int, value := .int i } ∨
        d.Replaces (n.uniformName port.id ++ "_index") { type := .int, value := .int i })

/-- What a node of the pass declares is kept, or it is replaced. -/
theorem exists_of_mem_declarations {n : Node} (hn : scene.Brings d.subgraph.order n)
    {x : Except Fault Declaration} (hx : x ∈ n.declarations scene.fallback) :
    ∃ c, x = .ok c ∧ (p.uniforms.get? c.name = some c.uniform ∨ d.Replaces c.name c.uniform) := by
  obtain ⟨c, u, rfl, hu⟩ := d.exists_get?_uniforms hn hx
  refine ⟨c, rfl, ?_⟩
  by_cases heq : u = c.uniform
  · exact Or.inl (heq ▸ hu)
  · obtain ⟨m, hm, e, he, hname, rfl, -⟩ := d.exists_of_get?_uniforms hu
    exact Or.inr ⟨m, hm, e.uniform, heq, hname ▸ Node.contributes_of_declarations he, hu⟩

end Plan.Drawing

namespace Compile

variable {scene : Scene} {target : Target} {r : Result} {log : List Journal.Record} {p : RenderPass}

/-- In every pass that is not drawn for a stage, the values of each node that is brought into it are kept
under their names, or replaced by others that nodes of the pass contribute under the same names. -/
theorem values_kept_or_replaced (h : compile scene target = (.ok r, log)) (hf : r.failure = none)
    (hp : p ∈ r.passes) : Plan.IsStagePass scene p ∨ ∃ d : Plan.Drawing scene p,
      ∀ n, scene.Brings d.subgraph.order n → n.kind = .standard ∨ n.kind = .compound →
        d.KeepsOrReplaces n := by
  obtain ⟨s, hs, hpasses, -⟩ := exists_steps_of_compile h hf
  obtain ⟨before, after, hsplit⟩ := List.append_of_mem hp
  refine (Plan.exists_drawing (hs.steps.origin rfl (hpasses.trans hsplit))).imp_right ?_
  rintro ⟨d, -⟩
  refine ⟨d, fun n hn hk => ?_⟩
  have hdeclarations : n.declarations scene.fallback = n.inputDeclarations scene.fallback := by
    rcases hk with hk | hk <;> simp only [Node.declarations, hk]
  refine ⟨fun port hport b hb => ?_, fun port hport ht => ?_⟩
  · have hmem : b.declaration scene.fallback (n.uniformName port.id) ∈
        n.declarations scene.fallback := by
      rw [hdeclarations]
      exact List.mem_append_left _ (List.mem_filterMap.2 ⟨port, hport, by rw [hb]; rfl⟩)
    obtain ⟨c, hc, hkept⟩ := d.exists_of_mem_declarations hn hmem
    rw [BoundValue.name_of_declaration hc] at hkept
    exact ⟨c.uniform, BoundValue.carries_of_declaration hc, hkept⟩
  · have hmem : n.indexDeclaration scene.fallback port ∈ n.declarations scene.fallback := by
      rw [hdeclarations]
      exact List.mem_append_right _ (List.mem_map_of_mem (List.mem_filter.2 ⟨hport, ht⟩))
    obtain ⟨c, hc, hkept⟩ := d.exists_of_mem_declarations hn hmem
    obtain ⟨i, hi, rfl⟩ := Fault.map_eq_ok_iff.1 hc
    exact ⟨i, hi, hkept⟩

/-- A node with a bound value that feeds a node with a bound array. -/
def valued : Scene where
  graph := .ofLists
    [{ id := "m", inputs := [.ofId "k" .float], outputs := [.ofId "o" .vec4],
       uniforms := .ofList [("k", { type := .float, value := .int 1 })] },
      { id := "n", inputs := [.ofId "t" .vec4, .ofId "a" (.array .bool)], outputs := [.ofId "o" .vec4],
        uniforms := .ofList [("a", {
          type := .array .bool
          value := .list [.bool true, .bool false]
          settings := .ofList [("arrayIndex", .int 1)] })] }]
    [{ source := "m", target := "n", sourcePort := some "o", targetPort := some "t" }]
  config := {}

theorem values_kept_or_replaced_valued : ∃ r log p,
    compile valued { node := some "n" } = (.ok r, log) ∧ r.failure = none ∧ p ∈ r.passes ∧
      ∃ d : Plan.Drawing valued p, ∀ n, valued.Brings d.subgraph.order n →
        n.kind = .standard ∨ n.kind = .compound → d.KeepsOrReplaces n := by
  have hrun : succeedsWith valued { node := some "n" } (fun r => r.passes.any (·.id == "n")) = true := by
    decide +kernel
  obtain ⟨r, log, hr, hf, htest⟩ := exists_of_succeedsWith hrun
  obtain ⟨p, hp, -⟩ := List.any_eq_true.1 htest
  exact ⟨r, log, p, hr, hf, hp,
    (values_kept_or_replaced hr hf hp).resolve_left (Plan.not_isStagePass (by decide +kernel))⟩

/-- A node with a bound value. -/
def overlaidNode : Node :=
  { id := "a_b", inputs := [.ofId "x" .float, .ofId "y" .float], outputs := [.ofId "o" .vec4],
    uniforms := .ofList [("x", { type := .float, value := .int 1 })]
    source := "void run(vec2 uv, float x, float y, out vec4 o) \x7b o = vec4(x, y, 0.0, 1.0); \x7d" }

/-- An input proxy feeds the node. Its id and its output give the same name as the id and the first input
of the node. -/
def overlaid : Scene where
  graph := .ofLists [{ id := "a", kind := .graphInput, outputs := [.ofId "b_x" .float] }, overlaidNode]
    [{ source := "a", target := "a_b", sourcePort := some "b_x", targetPort := some "y" }]
  config := {}

/-- The pass has the default of the proxy under the name of the bound value, and no uniform that carries
the value. -/
theorem bound_value_replaced : ∃ r log p b,
    compile overlaid { node := some "a_b" } = (.ok r, log) ∧ r.failure = none ∧ p ∈ r.passes ∧
      p.id = "a_b" ∧ overlaidNode.uniforms.get? "x" = some b ∧
      numberAt (overlaidNode.uniformName "x") p.uniforms = some (.float .zero) ∧
      ∀ u, b.Carries overlaid.fallback u → p.uniforms.get? (overlaidNode.uniformName "x") ≠ some u := by
  have hrun : succeedsWith overlaid { node := some "a_b" } (fun r => r.passes.any fun p =>
      p.id == "a_b" &&
        numberAt (overlaidNode.uniformName "x") p.uniforms = some (.float .zero)) = true := by
    decide +kernel
  obtain ⟨r, log, hr, hf, htest⟩ := exists_of_succeedsWith hrun
  obtain ⟨p, hp, hany⟩ := List.any_eq_true.1 htest
  obtain ⟨hid, hnumber⟩ := Bool.and_eq_true_iff.1 hany
  have hzero := of_decide_eq_true hnumber
  refine ⟨r, log, p, _, hr, hf, hp, eq_of_beq hid, rfl, hzero, fun u hu hkept => ?_⟩
  obtain rfl : u = { type := .float, value := .int 1 } :=
    Except.ok.inj ((BoundValue.carries_iff.1 hu).symm.trans rfl)
  rw [numberAt, hkept] at hzero
  cases hzero

end Compile

end RenderGraph
